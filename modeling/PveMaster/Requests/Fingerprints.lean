import PveMaster.Requests.Backups

/-! What the fingerprints tell apart.

Five functions write fingerprints into one namespace of keys: of a text that starts with a
UUID, of one that starts with `customer:`, or of a JSON object. The texts of different
effects differ, across the functions too (`Effect.text_inj`). -/
namespace PveMaster
open OperationService BackupService

/-- What a call asks for, as its fingerprint sees it. A reason only counts as given or not given,
and the version of the client does not count at all. -/
inductive Effect where
  | power (workloadId : Uuid) (action : PowerAction)
  | spec (vmId : Uuid) (cpuCores memoryGib : Int) (diskGib : Option Int) (reasonRecorded : Bool)
  | delete (vmId : Uuid) (reasonRecorded : Bool)
  | backup (workloadId : Uuid) (payload : BackupRequest)
  | restore (backupRunId : Uuid) (payload : RestoreRequest)
  | customerPower (vmId : Uuid) (action : PowerAction)

namespace Effect

/-- The dictionary behind a fingerprint that is one of JSON. Its keys are sorted, as
`sort_keys=True` has them. -/
def dict : Effect → Dict
  | .spec vmId cpuCores memoryGib diskGib reasonRecorded =>
    [("action", .str AdminVmAction.updateSpec.value), ("cpu_cores", .int cpuCores),
      ("disk_bytes", (diskGib.map fun d => Json.int (d * gib)).getD .null),
      ("memory_bytes", .int (memoryGib * gib)), ("reason_recorded", .bool reasonRecorded),
      ("vm_id", uuidJson vmId)]
  | .delete vmId reasonRecorded =>
    [("action", .str AdminVmAction.delete.value), ("reason_recorded", .bool reasonRecorded),
      ("vm_id", uuidJson vmId)]
  | .backup workloadId payload => backupDict workloadId payload
  | .restore backupRunId payload => restoreDict backupRunId payload
  | .power .. | .customerPower .. => []

/-- The text that is hashed. -/
def text : Effect → List Char
  | .power workloadId action => powerText workloadId action
  | .customerPower vmId action => CustomerPortalService.powerText vmId action
  | e => JsonText.dumps e.dict

/-! ### Plain dictionaries -/

theorem uuid_plain (u : Uuid) : JsonText.Plain (uuidJson u) = true := by
  show (String.ofList (Text.uuid u)).toList.all JsonText.plain = true
  rw [String.toList_ofList, List.all_eq_true]
  intro c hc
  rcases Text.uuid_chars hc with rfl | h
  · rfl
  · exact JsonText.plain_digit (by decide) h

theorem uuidJson_inj {u v : Uuid} (h : uuidJson u = uuidJson v) : u = v := by
  have htext : String.ofList (Text.uuid u) = String.ofList (Text.uuid v) := Json.str.inj h
  exact Text.uuid_inj (String.ofList_injective htext)

/-- Keys that are plain, with values that are. -/
theorem plainDict_cons {k : String} {v : Json} {d : Dict} (hk : k.toList.all JsonText.plain = true)
    (hv : JsonText.Plain v = true) (hd : JsonText.PlainDict d) : JsonText.PlainDict ((k, v) :: d) := by
  intro e he
  rcases List.mem_cons.mp he with rfl | he
  · exact ⟨hk, hv⟩
  · exact hd e he

theorem nameChar_plain {s : String} (h : s.toList.all nameChar = true) :
    s.toList.all JsonText.plain = true := by
  rw [List.all_eq_true] at h ⊢
  intro c hc
  have hname := h c hc
  unfold nameChar at hname
  simp only [Bool.and_eq_true] at hname
  exact hname.1.1

theorem dict_plain (e : Effect) : JsonText.PlainDict e.dict := by
  have nil : JsonText.PlainDict [] := fun e he => by cases he
  cases e with
  | power | customerPower => exact nil
  | spec vmId cpuCores memoryGib diskGib reasonRecorded =>
    refine plainDict_cons (by decide) (by decide) (plainDict_cons (by decide) rfl
      (plainDict_cons (by decide) ?_ (plainDict_cons (by decide) rfl
        (plainDict_cons (by decide) rfl (plainDict_cons (by decide) (uuid_plain vmId) nil)))))
    cases diskGib <;> rfl
  | delete vmId reasonRecorded =>
    exact plainDict_cons (by decide) (by decide) (plainDict_cons (by decide) rfl
      (plainDict_cons (by decide) (uuid_plain vmId) nil))
  | backup workloadId payload =>
    obtain ⟨target, mode, compression, rfl, rfl⟩ := payload
    have hcompression : JsonText.Plain (.str "zstd") = true := by decide
    have hmode : JsonText.Plain (.str "snapshot") = true := by decide
    exact plainDict_cons (by decide) (uuid_plain target) (plainDict_cons (by decide) hcompression
      (plainDict_cons (by decide) hmode (plainDict_cons (by decide) (uuid_plain workloadId) nil)))
  | restore backupRunId payload =>
    exact plainDict_cons (by decide) (uuid_plain backupRunId)
      (plainDict_cons (by decide) (nameChar_plain payload.name.2.1)
        (plainDict_cons (by decide) payload.node.2 (plainDict_cons (by decide) rfl nil)))

/-! ### Texts -/

theorem action_inj {a b : PowerAction} (h : a.value.toList = b.value.toList) : a = b := by
  cases a <;> cases b <;> first | rfl | exact absurd h (by decide)

theorem uuid_not_colon {u : Uuid} : ∀ c ∈ Text.uuid u, ¬ c = ':' := by
  rintro c hc rfl
  rcases Text.uuid_chars hc with h | h
  · cases h
  · exact h.ne (by decide) rfl

theorem powerText_inj {u v : Uuid} {a b : PowerAction} (h : powerText u a = powerText v b) :
    u = v ∧ a = b := by
  obtain ⟨huuid, -, haction⟩ := Text.cut_inj uuid_not_colon uuid_not_colon rfl rfl h
  exact ⟨Text.uuid_inj huuid, action_inj haction⟩

/-- No UUID is the word `customer`. -/
theorem powerText_ne_customer {u v : Uuid} {a b : PowerAction} :
    powerText u a ≠ CustomerPortalService.powerText v b := by
  intro h
  have hword : ∀ c ∈ "customer".toList, ¬ c = ':' := by
    rintro c hc rfl
    exact absurd hc (by decide)
  have h : Text.uuid u ++ ':' :: a.value.toList =
    "customer".toList ++ ':' :: (Text.uuid v ++ ':' :: b.value.toList) := h
  obtain ⟨huuid, -, -⟩ := Text.cut_inj uuid_not_colon hword rfl rfl h
  have hmem : 'u' ∈ Text.uuid u := by rw [huuid]; decide
  rcases Text.uuid_chars hmem with hdash | hdigit
  · cases hdash
  · exact hdigit.ne (by decide) rfl

theorem powerText_ne_dumps {u : Uuid} {a : PowerAction} {d : Dict} : powerText u a ≠ JsonText.dumps d := by
  intro h
  have hdumps := JsonText.dumps_eq d
  have hfirst : (Text.uuid u ++ ':' :: a.value.toList).head? = some '{' := by
    rw [show Text.uuid u ++ ':' :: a.value.toList = JsonText.dumps d from h, hdumps]
    rfl
  cases hu : Text.uuid u with
  | nil =>
    rw [hu] at hfirst
    cases hfirst
  | cons c rest =>
    rw [hu] at hfirst
    have hc : c = '{' := Option.some.inj hfirst
    have hmem : c ∈ Text.uuid u := by rw [hu]; exact List.mem_cons_self
    rcases Text.uuid_chars hmem with hdash | hdigit
    · rw [hdash] at hc
      cases hc
    · exact hdigit.ne (by decide) hc

theorem customerText_inj {u v : Uuid} {a b : PowerAction}
    (h : CustomerPortalService.powerText u a = CustomerPortalService.powerText v b) : u = v ∧ a = b := by
  unfold CustomerPortalService.powerText at h
  rw [List.append_assoc, List.append_assoc] at h
  exact powerText_inj (List.append_cancel_left h)

theorem customerText_ne_dumps {u : Uuid} {a : PowerAction} {d : Dict} :
    CustomerPortalService.powerText u a ≠ JsonText.dumps d := by
  intro h
  rw [JsonText.dumps_eq] at h
  have hfirst : 'c' = '{' := (List.cons.inj h).1
  cases hfirst

/-- Whether the fingerprint is one of JSON. The other two kinds start with a UUID and with
`customer:`, and JSON with a brace. -/
def isJson : Effect → Bool
  | .power .. | .customerPower .. => false
  | _ => true

theorem text_json {e : Effect} (h : e.isJson = true) : e.text = JsonText.dumps e.dict := by
  cases e <;> first | rfl | cases h

theorem optionDisk_inj {d d' : Option Int}
    (h : (d.map fun x => Json.int (x * gib)).getD .null = (d'.map fun x => Json.int (x * gib)).getD .null) :
    d = d' := by
  cases d with
  | none => cases d' <;> first | rfl | cases h
  | some x =>
    cases d' with
    | none => cases h
    | some y =>
      have hxy : x * gib = y * gib := Json.int.inj h
      rw [Int.eq_of_mul_eq_mul_right (by decide) hxy]

theorem dict_inj {e e' : Effect} (he : e.isJson = true) (he' : e'.isJson = true)
    (h : e.dict = e'.dict) : e = e' := by
  have first_key {k k' : String} {v v' : Json} {d d' : Dict} (hne : k ≠ k')
      (h : (k, v) :: d = (k', v') :: d') : False := hne (Prod.mk.inj (List.cons.inj h).1).1
  cases e with
  | power | customerPower => cases he
  | spec vmId cpuCores memoryGib diskGib reasonRecorded =>
    cases e' with
    | power | customerPower => cases he'
    | spec vmId' cpuCores' memoryGib' diskGib' reasonRecorded' =>
      simp only [dict, List.cons.injEq, Prod.mk.injEq, true_and, and_true, Json.int.injEq,
        Json.bool.injEq] at h
      obtain ⟨rfl, hdisk, hmemory, rfl, hid⟩ := h
      rw [uuidJson_inj hid, optionDisk_inj hdisk, Int.eq_of_mul_eq_mul_right (by decide) hmemory]
    | delete vmId' reasonRecorded' => exact absurd (congrArg List.length h) (by simp [dict])
    | backup workloadId payload => exact (first_key (by decide) h).elim
    | restore backupRunId payload => exact (first_key (by decide) h).elim
  | delete vmId reasonRecorded =>
    cases e' with
    | power | customerPower => cases he'
    | spec vmId' cpuCores' memoryGib' diskGib' reasonRecorded' =>
      exact absurd (congrArg List.length h) (by simp [dict])
    | delete vmId' reasonRecorded' =>
      simp only [dict, List.cons.injEq, Prod.mk.injEq, true_and, and_true, Json.bool.injEq] at h
      obtain ⟨rfl, hid⟩ := h
      rw [uuidJson_inj hid]
    | backup workloadId payload => exact (first_key (by decide) h).elim
    | restore backupRunId payload => exact (first_key (by decide) h).elim
  | backup workloadId payload =>
    cases e' with
    | power | customerPower => cases he'
    | spec => exact (first_key (by decide) h).elim
    | delete => exact (first_key (by decide) h).elim
    | restore backupRunId payload' => exact (first_key (by decide) h).elim
    | backup workloadId' payload' =>
      obtain ⟨target, mode, compression, rfl, rfl⟩ := payload
      obtain ⟨target', mode', compression', rfl, rfl⟩ := payload'
      simp only [dict, backupDict, List.cons.injEq, Prod.mk.injEq, true_and, and_true] at h
      obtain ⟨htarget, hid⟩ := h
      have htarget : target = target' := uuidJson_inj htarget
      have hid : workloadId = workloadId' := uuidJson_inj hid
      subst htarget hid
      rfl
  | restore backupRunId payload =>
    cases e' with
    | power | customerPower => cases he'
    | spec => exact (first_key (by decide) h).elim
    | delete => exact (first_key (by decide) h).elim
    | backup workloadId payload' => exact (first_key (by decide) h).elim
    | restore backupRunId' payload' =>
      obtain ⟨node, vmid, name, hnode, hvmid, hname⟩ := payload
      obtain ⟨node', vmid', name', hnode', hvmid', hname'⟩ := payload'
      simp only [dict, restoreDict, List.cons.injEq, Prod.mk.injEq, true_and, and_true, Json.str.injEq,
        Json.int.injEq] at h
      obtain ⟨hid, rfl, rfl, rfl⟩ := h
      rw [uuidJson_inj hid]

/-- **Different effects have different texts**, whichever functions write them. -/
theorem text_inj {e e' : Effect} (h : e.text = e'.text) : e = e' := by
  cases he : e.isJson with
  | true =>
    rw [text_json he] at h
    cases he' : e'.isJson with
    | true =>
      rw [text_json he'] at h
      exact dict_inj he he' (JsonText.dumps_inj (dict_plain e) (dict_plain e') h)
    | false =>
      cases e' with
      | power => exact absurd h.symm powerText_ne_dumps
      | customerPower => exact absurd h.symm customerText_ne_dumps
      | spec | delete | backup | restore => cases he'
  | false =>
    cases e with
    | spec | delete | backup | restore => cases he
    | power workloadId action =>
      cases he' : e'.isJson with
      | true =>
        rw [text_json he'] at h
        exact absurd h powerText_ne_dumps
      | false =>
        cases e' with
        | spec | delete | backup | restore => cases he'
        | customerPower => exact absurd h powerText_ne_customer
        | power workloadId' action' =>
          obtain ⟨rfl, rfl⟩ := powerText_inj h
          rfl
    | customerPower vmId action =>
      cases he' : e'.isJson with
      | true =>
        rw [text_json he'] at h
        exact absurd h customerText_ne_dumps
      | false =>
        cases e' with
        | spec | delete | backup | restore => cases he'
        | power => exact absurd h.symm powerText_ne_customer
        | customerPower vmId' action' =>
          obtain ⟨rfl, rfl⟩ := customerText_inj h
          rfl

end Effect
end PveMaster
