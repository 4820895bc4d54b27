import PveMaster.Audit.Log

/-! What becomes of the records of the audit log.

Whatever transactions run, and however their statements interleave, a record stays as it was written
until a purge finds it past its retention. So a record keeps its place among the pages while others are
added, and a reader who goes from page to page sees it. -/
namespace PveMaster.Audit
open Prog AuditProg Paging

variable {retentionDays : Nat} {horizon limit : Instant}

/-- What any transaction may do to the log: a record of the horizon or later stays. -/
def Grows (horizon : Instant) (s s' : AuditStore) : Prop := ∀ a ∈ s.logs, horizon ≤ a.createdAt → a ∈ s'.logs

theorem Grows.refl (s : AuditStore) : Grows horizon s s := fun _ ha _ => ha

theorem Grows.trans {s s' s'' : AuditStore} (h : Grows horizon s s') (h' : Grows horizon s' s'') : Grows horizon s s'' :=
  fun a ha hcurrent => h' a (h a ha hcurrent) hcurrent

/-! ### The table -/

namespace Session
variable {t t' : Session} {logs logs' : Table AuditLog} {p : AuditLog → Bool}

@[simp] theorem sees_new (logs : Table AuditLog) : ({} : Session).sees logs = logs.rows := by
  simp [sees]

/-- Where the trigger refuses, no row is hit. -/
theorem trigger_refused {op : TgOp} {u : Unit} (h : t.trigger logs op p = .ok u)
    (hrefused : op = .update ∨ t.setting ≠ some "on") : ∀ a ∈ t.sees logs, p a = false := by
  intro a ha
  by_contra hp
  have hany : (t.sees logs).any p = true := List.any_eq_true.mpr ⟨a, ha, by simpa using hp⟩
  have hraised : preventAuditLogMutation op t.setting = .error .other := by
    refine if_neg fun hpasses => ?_
    rcases hrefused with rfl | hsetting
    · exact absurd hpasses.1 (by decide)
    · exact hsetting hpasses.2
  rw [trigger, if_pos hany, hraised] at h
  cases h

/-- A statement that hits no row deletes none. -/
theorem without_deleted (h : ∀ a ∈ t.sees logs, p a = false) : (t.without logs p).deleted = t.deleted := by
  have hnone : (t.sees logs).filter p = [] := List.filter_eq_nil_iff.mpr fun a ha => by simp [h a ha]
  simp [without, hnone]

theorem update_deleted {f : AuditLog → AuditLog} (h : t.update logs p f = .ok t') :
    t'.deleted = t.deleted ∧ t'.setting = t.setting := by
  simp only [update, bind_ok, pure_ok] at h
  obtain ⟨_, htrigger, rfl⟩ := h
  exact ⟨without_deleted (trigger_refused htrigger (Or.inl rfl)), rfl⟩

theorem delete_deleted (h : t.delete logs p = .ok t') (hsetting : t.setting ≠ some "on") :
    t'.deleted = t.deleted ∧ t'.setting = t.setting := by
  simp only [delete, bind_ok, pure_ok] at h
  obtain ⟨_, htrigger, rfl⟩ := h
  exact ⟨without_deleted (trigger_refused htrigger (Or.inr hsetting)), rfl⟩

theorem insert_deleted {a : AuditLog} (h : t.insert logs a = .ok t') : t'.deleted = t.deleted ∧ t'.setting = t.setting := by
  simp only [insert, bind_ok, pure_ok] at h
  obtain ⟨-, -, rfl⟩ := h
  exact ⟨rfl, rfl⟩

/-- A commit takes away what the transaction deleted, and nothing else. -/
theorem commit_kept (h : t.commit logs = .ok logs') {a : AuditLog} (ha : a ∈ logs)
    (hkept : ∀ d ∈ t.deleted, d.createdAt ≠ a.createdAt) : a ∈ logs' := by
  have hinsert := orRaise_ok.mp h
  refine (Table.mem_insertAll hinsert).mpr (Or.inl (Table.mem_restrict.mpr ⟨ha, ?_⟩))
  rw [Bool.not_eq_true', List.any_eq_false]
  intro d hd hhits
  simp only [Deletion.hits, Bool.and_eq_true, beq_iff_eq] at hhits
  exact hkept d hd hhits.2

end Session

/-! ### Statements -/

/-- What a process has deleted is from before the horizon. -/
def AuditProcess.Careful (horizon : Instant) (θ : AuditProcess) : Prop := ∀ d ∈ θ.session.deleted, d.createdAt < horizon

/-- A process that has neither the setting nor deleted anything. -/
def AuditProcess.Plain (θ : AuditProcess) : Prop := θ.session.setting = none ∧ θ.session.deleted = []

theorem AuditProcess.careful_of_nothing {θ : AuditProcess} (h : θ.session.deleted = []) : θ.Careful horizon := by
  intro d hd
  rw [h] at hd
  cases hd

theorem AuditProcess.plain_of_idle {θ : AuditProcess} (h : θ.session = {}) : θ.Plain := by
  unfold AuditProcess.Plain
  rw [h]
  exact ⟨rfl, rfl⟩

def AuditOp.isDisplay {ρ : Type} : AuditOp ρ → Bool
  | .display _ _ _ _ => true
  | _ => false

def AuditOp.isSetting {ρ : Type} : AuditOp ρ → Bool
  | .setLocal _ _ => true
  | _ => false

section Statements
variable {ρ : Type} {o : AuditOp ρ} {i : AuditInput} {θ θ' : AuditProcess} {s s' : AuditStore} {r : ρ}

theorem after_cases {result : Except Exn Session} {k : Except Exn Unit → ρ} (h : θ.after s result k = (θ', s', r)) :
    s' = s ∧ (θ'.session = {} ∨ result = .ok θ'.session) := by
  unfold AuditProcess.after at h
  split at h <;> cases h
  · exact ⟨rfl, Or.inr rfl⟩
  · exact ⟨rfl, Or.inl rfl⟩

/-- Only a commit and a page shown change what others see. -/
theorem exec_grows (h : (auditMachine retentionDays).exec o i θ s = some (θ', s', r)) (hcareful : θ.Careful horizon) :
    Grows horizon s s' ∧ (o.isDisplay = false → s'.visits = s.visits) := by
  have h := Option.some.inj h
  cases o with
  | now k | setLocal value k | select q =>
    cases h
    exact ⟨Grows.refl s, fun _ => rfl⟩
  | insert record k | update p f k | delete p k =>
    rw [(after_cases h).1]
    exact ⟨Grows.refl s, fun _ => rfl⟩
  | display filters shown hasNext k =>
    cases h
    exact ⟨fun _ ha _ => ha, by rintro ⟨⟩⟩
  | commit k =>
    simp only at h
    split at h
    · next logs hcommit =>
      cases h
      refine ⟨fun a ha hcurrent => Session.commit_kept hcommit ha fun d hd hsame => ?_, fun _ => rfl⟩
      have hold := hcareful d hd
      grind
    · cases h
      exact ⟨Grows.refl s, fun _ => rfl⟩

/-- Without the setting no statement deletes. -/
theorem exec_plain (h : (auditMachine retentionDays).exec o i θ s = some (θ', s', r)) (hplain : θ.Plain)
    (hset : o.isSetting = false) : θ'.Plain := by
  have hsetting : θ.session.setting ≠ some "on" := by
    rw [hplain.1]
    exact (Option.some_ne_none _).symm
  have hafter {result : Except Exn Session} {k : Except Exn Unit → ρ} (h : θ.after s result k = (θ', s', r))
      (hsame : ∀ t, result = .ok t → t.deleted = θ.session.deleted ∧ t.setting = θ.session.setting) : θ'.Plain := by
    rcases (after_cases h).2 with hnew | hok
    · exact AuditProcess.plain_of_idle hnew
    · obtain ⟨hdeleted, hkept⟩ := hsame _ hok
      exact ⟨hkept.trans hplain.1, hdeleted.trans hplain.2⟩
  have h := Option.some.inj h
  cases o with
  | now k | select q | display filters shown hasNext k =>
    cases h
    exact hplain
  | setLocal value k => cases hset
  | insert record k => exact hafter h fun t ht => Session.insert_deleted ht
  | update p f k => exact hafter h fun t ht => Session.update_deleted ht
  | delete p k => exact hafter h fun t ht => Session.delete_deleted ht hsetting
  | commit k =>
    simp only at h
    split at h <;> cases h <;> exact ⟨rfl, rfl⟩

end Statements

/-! ### Pages -/

/-- The rows of a search, before they are sorted. -/
def AuditStore.found (s : AuditStore) (filters : AuditFilters) : List AuditLog := s.logs.rows.filter filters.matches

theorem nodup_found (s : AuditStore) (filters : AuditFilters) : (s.found filters).Nodup := Table.nodup_select s.logs _

/-- The identifier decides between two rows of one time. -/
theorem pairwise_newestFirst (s : AuditStore) (filters : AuditFilters) :
    (newestFirst (s.found filters)).Pairwise fun a b => Newer a.place b.place := by
  have hids : ((s.found filters).map AuditLog.id).Nodup := (s.logs.restrict filters.matches).distinct
  have hplaces : ((s.found filters).map AuditLog.place).map Prod.snd = (s.found filters).map AuditLog.id := by
    rw [List.map_map]
    rfl
  exact pairwise_sorted (List.Nodup.of_map Prod.snd (hplaces ▸ hids))

/-- The number of rows before a row. -/
def AuditStore.ahead (s : AuditStore) (filters : AuditFilters) (a : AuditLog) : Nat :=
  Paging.ahead Newer AuditLog.place (s.found filters) a

/-- The records before a record that stays have been added later, so they stay too. -/
theorem Grows.ahead_le {s s' : AuditStore} (h : Grows horizon s s') (filters : AuditFilters) {a : AuditLog}
    (hcurrent : horizon ≤ a.createdAt) : s.ahead filters a ≤ s'.ahead filters a := by
  refine Paging.ahead_le (nodup_found s filters) fun b hb hnewer => ?_
  obtain ⟨hmem, hmatches⟩ := Table.mem_select.mp hb
  have hage : a.createdAt ≤ b.createdAt := by
    rcases Prod.lex_iff.mp hnewer with hlater | hsame
    · exact Int.le_of_lt hlater
    · exact Int.le_of_eq hsame.1.symm
  exact Table.mem_select.mpr ⟨h b hmem (Int.le_trans hcurrent hage), hmatches⟩

def Shown (shown : List AuditLogResponse) (a : AuditLog) : Prop := ∃ actor workload, auditResponse a actor workload ∈ shown

theorem Shown.append {shown more : List AuditLogResponse} {a : AuditLog} (h : Shown shown a) : Shown (shown ++ more) a := by
  obtain ⟨actor, workload, hmem⟩ := h
  exact ⟨actor, workload, List.mem_append_left _ hmem⟩

theorem Shown.page {shown : List AuditLogResponse} {rows : List AuditLog} {names : Directory} {a : AuditLog} (h : a ∈ rows) :
    Shown (shown ++ rows.map (auditStatement names)) a :=
  ⟨_, _, List.mem_append_right _ (List.mem_map.mpr ⟨a, h, rfl⟩)⟩

/-- Where a reader stands: a record that was there at first was shown or is further on. -/
structure Reading (horizon : Instant) (filters : AuditFilters) (reads : List (List AuditLog)) (shown : List AuditLogResponse)
    (offset : Nat) (s : AuditStore) : Prop where
  begun : reads = [] → offset = 0
  there : ∀ first ∈ reads.getLast?, ∀ a ∈ first, filters.matches a = true → horizon ≤ a.createdAt →
    a ∈ s.logs ∧ (Shown shown a ∨ offset ≤ s.ahead filters a)

theorem Reading.grows {filters : AuditFilters} {reads : List (List AuditLog)} {shown : List AuditLogResponse} {offset : Nat}
    {s s' : AuditStore} (hr : Reading horizon filters reads shown offset s) (h : Grows horizon s s') :
    Reading horizon filters reads shown offset s' where
  begun := hr.begun
  there first hfirst a ha hmatches hcurrent := by
    obtain ⟨hmem, hat⟩ := hr.there first hfirst a ha hmatches hcurrent
    refine ⟨h a hmem hcurrent, ?_⟩
    rcases hat with hshown | hfar
    · exact Or.inl hshown
    · exact Or.inr (hfar.trans (h.ahead_le filters hcurrent))

/-- What a search has read, of two states of the log. -/
structure Answered (horizon : Instant) (filters : AuditFilters) (limit offset : Nat) (response : AuditLogListResponse)
    (s : AuditStore) (reads reads' : List (List AuditLog)) (s' : AuditStore) : Prop where
  intro ::
  exists_states : ∃ s₁ s₂, Grows horizon s s₁ ∧ Grows horizon s₁ s₂ ∧ Grows horizon s₂ s' ∧
    reads' = s₂.logs.rows :: s₁.logs.rows :: reads ∧ response.total = (s₁.found filters).length ∧
    response.items = (page (newestFirst (s₂.found filters)) limit offset).map (auditStatement s₂.names) ∧
    response.offset = offset

/-- A visit that came to its end shows every record that was there at first, unless records came between the
count and the page of its last search. -/
def Visit.Complete (horizon : Instant) (v : Visit) : Prop :=
  v.hasNext = false → ∀ paged counted earlier, v.reads = paged :: counted :: earlier →
    (∀ a ∈ paged, v.filters.matches a = true → a ∈ counted) →
    ∀ first ∈ v.reads.getLast?, ∀ a ∈ first, v.filters.matches a = true → horizon ≤ a.createdAt → Shown v.shown a

/-- The first of a list that is read before what was read so far. -/
theorem getLast?_cons_cons_of_ne {α : Type} {l : List α} (h : l ≠ []) (a b : α) : (a :: b :: l).getLast? = l.getLast? := by
  cases l with
  | nil => exact absurd rfl h
  | cons c rest => rfl

/-- **One more page.** -/
theorem Reading.turn {filters : AuditFilters} {limit offset : Nat} {response : AuditLogListResponse}
    {reads reads' : List (List AuditLog)} {shown : List AuditLogResponse} {s s' : AuditStore}
    (h : Reading horizon filters reads shown offset s)
    (hanswer : Answered horizon filters limit offset response s reads reads' s') :
    Reading horizon filters reads' (shown ++ response.items) (offset + limit) s' ∧
      Visit.Complete horizon ⟨filters, shown ++ response.items,
        decide (response.offset + response.items.length < response.total), reads'⟩ := by
  obtain ⟨s₁, s₂, hcount, hpage, hlast, rfl, htotal, hitems, hoffset⟩ := hanswer.exists_states
  -- The rows of the first search, whether it is this one or an earlier one.
  have hbefore : ∀ first ∈ (s₂.logs.rows :: s₁.logs.rows :: reads).getLast?, ∀ a ∈ first, filters.matches a = true →
      horizon ≤ a.createdAt → a ∈ s₂.logs ∧ (Shown shown a ∨ offset ≤ s₂.ahead filters a) := by
    intro first hfirst a ha hmatches hcurrent
    by_cases hnone : reads = []
    · subst hnone
      have hrows : first = s₁.logs.rows := (Option.mem_some_iff.mp hfirst).symm
      have hmem : a ∈ s₁.logs.rows := hrows ▸ ha
      rw [h.begun rfl]
      exact ⟨hpage a hmem hcurrent, Or.inr (Nat.zero_le _)⟩
    · rw [getLast?_cons_cons_of_ne hnone] at hfirst
      exact ((h.grows hcount).grows hpage).there first hfirst a ha hmatches hcurrent
  have hfound {a : AuditLog} (hmem : a ∈ s₂.logs) (hmatches : filters.matches a = true) :
      a ∈ newestFirst (s₂.found filters) := mem_sorted.mpr (Table.mem_select.mpr ⟨hmem, hmatches⟩)
  have hahead (a : AuditLog) : Paging.ahead Newer AuditLog.place (newestFirst (s₂.found filters)) a = s₂.ahead filters a :=
    ahead_perm (perm_sorted _) a
  have hsorted := pairwise_newestFirst s₂ filters
  rw [hitems]
  constructor
  · refine ⟨by rintro ⟨⟩, fun first hfirst a ha hmatches hcurrent => ?_⟩
    obtain ⟨hmem, hat⟩ := hbefore first hfirst a ha hmatches hcurrent
    refine ⟨hlast a hmem hcurrent, ?_⟩
    rcases hat with hshown | hfar
    · exact Or.inl hshown.append
    · by_cases hpaged : a ∈ page (newestFirst (s₂.found filters)) limit offset
      · exact Or.inl (Shown.page hpaged)
      · have hpassed := passed hsorted (hfound hmem hmatches) ((hahead a).symm ▸ hfar) hpaged
        rw [hahead] at hpassed
        exact Or.inr (hpassed.trans (hlast.ahead_le filters hcurrent))
  · intro hend paged counted earlier hreads hquiet first hfirst a ha hmatches hcurrent
    have hreads : s₂.logs.rows :: s₁.logs.rows :: reads = paged :: counted :: earlier := hreads
    cases hreads
    obtain ⟨hmem, hat⟩ := hbefore first hfirst a ha hmatches hcurrent
    rcases hat with hshown | hfar
    · exact hshown.append
    · refine Shown.page (mem_last response.total hsorted (hfound hmem hmatches) ((hahead a).symm ▸ hfar) ?_ ?_)
      · -- Nothing came between the count and the page.
        rw [htotal, newestFirst, length_sorted]
        refine (List.subperm_of_subset (nodup_found s₂ filters) fun b hb => ?_).length_le
        obtain ⟨hb, hbmatches⟩ := List.mem_filter.mp hb
        exact List.mem_filter.mpr ⟨hquiet b hb hbmatches, hbmatches⟩
      · have hend := of_decide_eq_false hend
        rw [hoffset, List.length_map] at hend
        omega

/-! ### Programs -/

def auditContract (horizon limit : Instant) : Contract AuditOp AuditProcess AuditStore AuditInput where
  may _ i _ _ := i.clock ≤ limit
  rely := Grows horizon
  guar s s' := Grows horizon s s' ∧ ∀ v ∈ s'.visits, v ∈ s.visits ∨ v.Complete horizon

theorem auditContract_closed : (auditContract horizon limit).Closed := ⟨Grows.refl, fun _ _ _ => Grows.trans⟩

section Programs
variable {α β : Type} {θ : AuditProcess} {s : AuditStore}

/-- Nothing that is not a page shown adds a visit. -/
theorem exec_guar {ρ : Type} {o : AuditOp ρ} {i : AuditInput} {θ' : AuditProcess} {s' : AuditStore} {r : ρ}
    (h : (auditMachine retentionDays).exec o i θ s = some (θ', s', r)) (hcareful : θ.Careful horizon)
    (hquiet : o.isDisplay = false) : (auditContract horizon limit).guar s s' := by
  obtain ⟨hgrows, hvisits⟩ := exec_grows h hcareful
  refine ⟨hgrows, fun v hv => Or.inl ?_⟩
  rw [hvisits hquiet] at hv
  exact hv

/-- The programs of all but purges and browsers. -/
theorem wp_plain {p : AuditProg α} (hp : p.Only fun o => o.isSetting = false ∧ o.isDisplay = false) (hplain : θ.Plain) :
    wp (auditMachine retentionDays) (auditContract horizon limit) p (fun _ θ _ => AuditProcess.Plain θ) θ s := by
  refine wp_only (J := fun θ _ => AuditProcess.Plain θ) (fun θ _ _ _ h => h) (fun o i θ θ' s s' r ho hplain _ hexec => ?_)
    hp hplain
  exact ⟨exec_guar hexec (AuditProcess.careful_of_nothing hplain.2) ho.2, exec_plain hexec hplain ho.1⟩

theorem wp_select {q : List AuditLog → Directory → α} {f : α → AuditProg β} {Q : Except Exn β → AuditProcess → AuditStore → Prop}
    (hidle : θ.session = {}) (h : ∀ s', Grows horizon s s' →
      wp (auditMachine retentionDays) (auditContract horizon limit) (f (q s'.logs.rows s'.names)) Q
        { θ with reads := s'.logs.rows :: θ.reads } s') :
    wp (auditMachine retentionDays) (auditContract horizon limit) (select q >>= f) Q θ s := by
  refine wp_bind (wp_op fun s' hgrows i θ' s'' r _ hexec => ?_)
  have hplain := AuditProcess.plain_of_idle hidle
  refine ⟨exec_guar hexec (AuditProcess.careful_of_nothing hplain.2) rfl, ?_⟩
  have hrows : θ.session.sees s'.logs = s'.logs.rows := by rw [hidle, Session.sees_new]
  have hexec := Option.some.inj hexec
  simp only [hrows] at hexec
  cases hexec
  exact h s' hgrows

/-- The record a request adds, and its commit. -/
theorem wp_recorded {c : Caller} {e : AuditEvent} {response : α} (hidle : θ.session = {}) :
    wp (auditMachine retentionDays) (auditContract horizon limit) (c.add e >>= fun _ => commit >>= fun _ => pure response)
      (fun r θ' s' => ∀ a, r = .ok a → a = response ∧ θ'.session = {} ∧ θ'.reads = θ.reads ∧ Grows horizon s s') θ s := by
  have hplain := AuditProcess.plain_of_idle hidle
  refine wp_bind ?_
  unfold Caller.add
  refine wp_bind (wp_ofExcept.mpr ?_)
  cases addAuditEvent c.casefold c.context e with
  | error e => rintro _ ⟨⟩
  | ok record =>
    refine wp_perform fun s₁ hgrows i θ₁ s₁' r _ hexec =>
      ⟨exec_guar hexec (AuditProcess.careful_of_nothing hplain.2) rfl, ?_⟩
    have hcareful : θ₁.Careful horizon := AuditProcess.careful_of_nothing (exec_plain hexec hplain rfl).2
    have hexec := Option.some.inj hexec
    simp only [AuditProcess.after] at hexec
    split at hexec
    · cases hexec
      refine wp_bind (wp_perform fun s₂ hgrows₂ i θ₂ s₂' r _ hexec => ⟨exec_guar hexec hcareful rfl, ?_⟩)
      obtain ⟨hcommitted, -⟩ := exec_grows hexec hcareful
      have hexec := Option.some.inj hexec
      simp only at hexec
      split at hexec
      · cases hexec
        intro a h
        exact ⟨(Except.ok.inj h).symm, rfl, rfl, (hgrows.trans hgrows₂).trans hcommitted⟩
      · cases hexec
        rintro _ ⟨⟩
    · cases hexec
      rintro _ ⟨⟩

/-- **A search** counts in one state of the log and reads its page in a later one. -/
theorem wp_auditLogs (c : Caller) (filters : AuditFilters) (size offset : Nat) (hidle : θ.session = {}) :
    wp (auditMachine retentionDays) (auditContract horizon limit) (auditLogs c filters size offset)
      (fun r θ' s' => ∀ response, r = .ok response → θ'.session = {} ∧
        Answered horizon filters size offset response s θ.reads θ'.reads s') θ s := by
  unfold auditLogs
  refine wp_bind (wp_ofExcept.mpr ?_)
  cases requireServiceRole c.principal [.superAdmin] with
  | error e => rintro _ ⟨⟩
  | ok _ =>
    refine wp_select hidle fun s₁ hcount => wp_select hidle fun s₂ hpage => ?_
    refine wp_mono (fun r θ' s' hr response hok => ?_) (wp_recorded hidle)
    obtain ⟨rfl, hsession, hreads, hgrows⟩ := hr response hok
    exact ⟨hsession, ⟨s₁, s₂, hcount, hpage, hgrows, hreads, rfl, rfl, rfl⟩⟩

/-- **A browser**, from page to page. -/
theorem wp_browse (c : Caller) (filters : AuditFilters) (size pages offset : Nat) (shown : List AuditLogResponse)
    (hidle : θ.session = {}) (hreading : Reading horizon filters θ.reads shown offset s) :
    wp (auditMachine retentionDays) (auditContract horizon limit) (browse c filters size pages offset shown)
      (fun _ _ _ => True) θ s := by
  induction pages generalizing θ s offset shown with
  | zero => trivial
  | succ pages ih =>
    unfold browse
    refine wp_bind (wp_mono (fun r θ₁ s₁ hr => ?_) (wp_auditLogs c filters size offset hidle))
    cases r with
    | error e => trivial
    | ok response =>
      obtain ⟨hsession, hanswer⟩ := hr response rfl
      obtain ⟨hnext, hcomplete⟩ := hreading.turn hanswer
      refine wp_bind (wp_op fun s₂ hgrows i θ₂ s₂' r _ hexec => ?_)
      cases hexec
      have hsame : Grows horizon s₂ { s₂ with visits := s₂.visits ++ [⟨filters, shown ++ response.items,
          decide (response.offset + response.items.length < response.total), θ₁.reads⟩] } := fun _ ha _ => ha
      refine ⟨⟨hsame, fun v hv => ?_⟩, ?_⟩
      · rcases List.mem_append.mp hv with hold | hnew
        · exact Or.inl hold
        · rw [List.mem_singleton.mp hnew]
          exact Or.inr hcomplete
      · dsimp only
        split
        · exact ih _ _ hsession ((hnext.grows hgrows).grows hsame)
        · trivial

/-- **A purge** deletes what is past its retention, by the clock it has read. -/
theorem wp_purge (hhorizon : limit - retentionDays * 86400 * second ≤ horizon) (hidle : θ.session = {}) :
    wp (auditMachine retentionDays) (auditContract horizon limit) (purgeExpiredAuditLogs retentionDays)
      (fun _ _ _ => True) θ s := by
  have hcareful : θ.Careful horizon := AuditProcess.careful_of_nothing (AuditProcess.plain_of_idle hidle).2
  refine wp_bind (wp_op fun s₁ _ i₁ θ₁ s₁' r₁ _ hexec => ⟨exec_guar hexec hcareful rfl, ?_⟩)
  cases hexec
  refine wp_bind (wp_op fun s₂ _ i₂ θ₂ s₂' r₂ hclock hexec => ⟨exec_guar hexec hcareful rfl, ?_⟩)
  cases hexec
  refine wp_bind (wp_perform fun s₃ _ i₃ θ₃ s₃' r₃ _ hexec => ⟨exec_guar hexec hcareful rfl, ?_⟩)
  have hexec := Option.some.inj hexec
  simp only [AuditProcess.after] at hexec
  split at hexec
  · next t hdelete =>
    cases hexec
    have hdue : AuditProcess.Careful horizon { θ with session := t } := by
      simp only [Session.delete, bind_ok, pure_ok] at hdelete
      obtain ⟨-, -, rfl⟩ := hdelete
      intro d hd
      rcases List.mem_append.mp hd with hold | hnew
      · exact hcareful d hold
      · obtain ⟨a, ha, rfl⟩ := List.mem_map.mp hnew
        have hexpired : a.createdAt < i₂.clock - retentionDays * 86400 * second :=
          of_decide_eq_true (List.mem_filter.mp ha).2
        have hclock : i₂.clock ≤ limit := hclock
        calc a.createdAt
            < i₂.clock - retentionDays * 86400 * second := hexpired
          _ ≤ limit - retentionDays * 86400 * second := Int.sub_le_sub_right hclock _
          _ ≤ horizon := hhorizon
    exact wp_perform fun s₄ _ i₄ θ₄ s₄' r₄ _ hexec => ⟨exec_guar hexec hdue rfl, trivial⟩
  · cases hexec
    trivial

/-- Any other transaction. -/
theorem only_transaction (statements : List Statement) :
    (transaction statements).Only fun o => o.isSetting = false ∧ o.isDisplay = false := by
  induction statements with
  | nil => exact only_perform ⟨rfl, rfl⟩
  | cons statement rest ih =>
    refine only_bind ?_ fun _ => ih
    cases statement <;> exact only_perform ⟨rfl, rfl⟩

theorem only_auditLog (c : Caller) (auditId : Uuid) :
    (auditLog c auditId).Only fun o => o.isSetting = false ∧ o.isDisplay = false :=
  only_bind only_done fun _ => only_bind (only_op ⟨rfl, rfl⟩) fun _ => only_bind only_done fun _ =>
    only_bind (only_bind only_done fun _ => only_perform ⟨rfl, rfl⟩) fun _ => only_bind (only_perform ⟨rfl, rfl⟩) fun _ => only_done

theorem wp_message (hhorizon : limit - retentionDays * 86400 * second ≤ horizon) (m : AuditMessage) (s : AuditStore) :
    wp (auditMachine retentionDays) (auditContract horizon limit) (m.program retentionDays) (fun _ _ _ => True) {} s := by
  cases m with
  | transaction statements => exact wp_mono (fun _ _ _ _ => trivial) (wp_plain (only_transaction statements) ⟨rfl, rfl⟩)
  | purge => exact wp_purge hhorizon rfl
  | auditLog c auditId =>
    exact wp_mono (fun _ _ _ _ => trivial) (wp_plain (only_bind (only_auditLog c auditId) fun _ => only_done) ⟨rfl, rfl⟩)
  | browse c filters size pages => exact wp_browse c filters size pages 0 [] rfl ⟨fun _ => rfl, by rintro _ ⟨⟩⟩

end Programs

/-! ### Runs -/

theorem audit_protocol (hhorizon : limit - retentionDays * 86400 * second ≤ horizon) :
    Protocol (auditMachine retentionDays) (auditRuns limit) (fun s => ∀ v ∈ s.visits, v.Complete horizon)
      (fun θ p s => wp (auditMachine retentionDays) (auditContract horizon limit) p (fun _ _ _ => True) θ s)
      (Grows horizon) :=
  Protocol.of_wp_during auditContract_closed (fun _ _ h => h.1)
    (fun s s' h hs v hv => (h.2 v hv).elim (hs v) id) (fun _ _ _ _ _ _ => trivial)
    (fun m s _ _ => wp_message hhorizon m s) (fun _ _ _ _ _ _ hstep => hstep)
    (fun s s' hs henv => by
      obtain ⟨names, rfl⟩ := henv
      exact ⟨hs, fun _ ha _ => ha⟩)
    (fun _ s hs => ⟨hs, Grows.refl s⟩)

theorem complete_nothing {logs : Table AuditLog} {names : Directory} :
    ∀ v ∈ (⟨logs, names, []⟩ : AuditStore).visits, v.Complete horizon := fun _ hv => absurd hv List.not_mem_nil

section Runs
variable (retentionDays : Nat) (limit : Instant) (logs : Table AuditLog) (names : Directory)

/-- The system after some actions, from a log that nobody has read yet. -/
def auditRun (actions : List (Action AuditStore AuditInput AuditMessage)) : Sys Exn AuditOp AuditProcess AuditStore :=
  runFrom (Sys.next (auditMachine retentionDays)) (Sys.idle ⟨logs, names, []⟩) actions

/-- No clock goes beyond `limit`. -/
def AuditRun (actions : List (Action AuditStore AuditInput AuditMessage)) : Prop :=
  Along (Sys.next (auditMachine retentionDays)) (auditRuns limit).Met (Sys.idle ⟨logs, names, []⟩) actions

variable {retentionDays limit logs names}
variable {before after : List (Action AuditStore AuditInput AuditMessage)}

/-- **The log is append-only**: a record stays as it is until a clock has gone past its retention. -/
theorem records_retained (hrun : AuditRun retentionDays limit logs names (before ++ after)) :
    ∀ a ∈ (auditRun retentionDays logs names before).shared.logs, limit - retentionDays * 86400 * second ≤ a.createdAt →
      a ∈ (auditRun retentionDays logs names (before ++ after)).shared.logs := by
  intro a ha hcurrent
  have hprotocol := audit_protocol (le_refl (limit - retentionDays * 86400 * second))
  obtain ⟨hbefore, hafter⟩ := along_append.mp hrun
  have hholds := hprotocol.holds_run (Sys.holds_idle complete_nothing) hbefore
  have hkeeps : ∀ s s' : AuditStore, Grows (limit - retentionDays * 86400 * second) s s' → a ∈ s.logs → a ∈ s'.logs :=
    fun _ _ hgrows hmem => hgrows a hmem hcurrent
  unfold auditRun
  rw [runFrom_append]
  exact hprotocol.keeps_run hkeeps hholds ha hafter

/-- **The pages** of a visit that has come to its end show every record that was there when it began and has not
gone past its retention, if none came between the last count and the last page. -/
theorem visits_complete {actions : List (Action AuditStore AuditInput AuditMessage)}
    (hrun : AuditRun retentionDays limit logs names actions) :
    ∀ v ∈ (auditRun retentionDays logs names actions).shared.visits,
      v.Complete (limit - retentionDays * 86400 * second) :=
  ((audit_protocol (le_refl _)).holds_run (Sys.holds_idle complete_nothing) hrun).shared

end Runs

/-! ### A fixed run -/

/-- Nothing comes from outside, and no clock goes beyond `limit`. -/
def punctual (limit : Instant) : Action AuditStore AuditInput AuditMessage → Bool
  | .spawn .. | .crash _ => true
  | .env _ => false
  | .step _ i => decide (i.clock ≤ limit)

theorem met_punctual {limit : Instant} {a : Action AuditStore AuditInput AuditMessage} (h : punctual limit a = true)
    (s : Sys Exn AuditOp AuditProcess AuditStore) : (auditRuns limit).Met s a := by
  cases a with
  | spawn pid m => trivial
  | env f => cases h
  | step pid i =>
    dsimp only [Conditions.Met]
    cases s.procs pid with
    | none => trivial
    | some proc =>
      have hclock : i.clock ≤ limit := of_decide_eq_true h
      exact hclock
  | crash pid =>
    dsimp only [Conditions.Met]
    cases s.procs pid with
    | none => trivial
    | some proc => trivial

def day : Int := 86400 * second

def plainRecord (action : String) : AuditRecord :=
  ⟨action, "SUCCEEDED", none, none, none, none, none, none, none, none, none, none, "", none, none, "SUCCEEDED", none⟩

/-- Three records, of the first day and of the hundredth. -/
def threeLogs : Table AuditLog :=
  ⟨[⟨1, 0, plainRecord "LOGIN"⟩, ⟨2, 100 * day, plainRecord "LOGIN"⟩, ⟨3, 100 * day, plainRecord "LOGOUT"⟩], by decide⟩

def noNames : Directory := ⟨fun _ => none, fun _ => none⟩

def auditor : Caller := ⟨⟨9, "root@pve", .superAdmin, 0⟩, ⟨"", none, none⟩, fun c => [c]⟩

/-- A transaction that deletes and one that updates, and a purge on the hundred and first day, while an
administrator reads the log two records at a time. -/
def auditActions : List (Action AuditStore AuditInput AuditMessage) :=
  let i (id : Uuid) : AuditInput := ⟨101 * day, id, 101 * day⟩
  [.spawn 0 (.transaction [.delete fun _ => true]), .spawn 1 (.transaction [.update (fun _ => true) id]),
    .spawn 2 .purge, .spawn 3 (.browse auditor {} 2 10)] ++
  (List.range 6).flatMap (fun n => [.step 0 (i 0), .step 1 (i 0), .step 3 (i (10 + n)), .step 2 (i 0)]) ++
  (List.range 14).map fun n => .step 3 (i (20 + n))

theorem auditActions_allowed : AuditRun 30 (101 * day) threeLogs noNames ([] ++ auditActions) := by
  have hpunctual : ∀ a ∈ auditActions, punctual (101 * day) a = true := by decide +kernel
  exact along_of_forall fun a ha => met_punctual (hpunctual a ha)

/-- The record of the first day is purged, and neither of the others is. -/
theorem recent_records_retained :
    (∀ a ∈ threeLogs, 71 * day ≤ a.createdAt → a ∈ (auditRun 30 threeLogs noNames ([] ++ auditActions)).shared.logs) ∧
      (auditRun 30 threeLogs noNames ([] ++ auditActions)).shared.logs.rows.map (·.id) = [2, 3, 12, 21] :=
  ⟨fun a ha hage => records_retained auditActions_allowed a ha hage, by decide +kernel⟩

/-- The second page is the last, and shows again a record that the first search has moved on. -/
theorem short_visit_complete :
    (∀ v ∈ (auditRun 30 threeLogs noNames ([] ++ auditActions)).shared.visits, v.Complete (71 * day)) ∧
      (auditRun 30 threeLogs noNames ([] ++ auditActions)).shared.visits.map (fun v => (v.shown.map (·.id), v.hasNext)) =
        [([3, 2], true), ([3, 2, 2], false)] :=
  ⟨visits_complete auditActions_allowed, by decide +kernel⟩

end PveMaster.Audit
