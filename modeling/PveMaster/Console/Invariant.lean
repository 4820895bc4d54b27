import PveMaster.Console.Websocket

/-! What holds of a site, whatever its connections do.

A record is written once and consumed once, by whoever has its token; a slot belongs to the
connection that has consumed its session. -/
namespace PveMaster.Console

variable (rt : Runtime) (hash : String → String) (lifetime : Nat)

/-! ### Grants -/

/-- A connection has consumed a session. -/
def Site.Holds (s : Site) (connection : Nat) (sessionId : Uuid) : Prop :=
  ∃ x ∈ s.consumed, x.connection = connection ∧ x.sessionId = sessionId

/-- What the queries before a connection was opened have found: after its session was
consumed, an active user of the epoch and the role of the grant, and then a running workload
of the same kind that the user may open. -/
structure Admitted (connection : Nat) (g : ConsoleGrant) (user workload : Snapshot) (u : User) (w : Workload) :
    Prop where
  consumed : ∃ x ∈ user.consumed, x.connection = connection ∧ x.sessionId = g.sessionId
  found : user.db.users.get? g.userId = some u
  active : u.isActive = true
  epoch : u.sessionEpoch = g.sessionEpoch
  role : u.role = g.role
  consumed_still : ∃ x ∈ workload.consumed, x.connection = connection ∧ x.sessionId = g.sessionId
  authorized : authorizedConsoleWorkload u.principal g.workloadId workload.db = .ok w
  running : rt.upper w.powerState = "RUNNING"
  kind : w.kind = g.pveKind

/-- An upstream connection, and how it came to be opened. -/
structure Opened (s : Site) (d : Dial) : Prop where
  granted : ∃ x ∈ s.consumed, x.connection = d.connection ∧ x.sessionId = d.grant.sessionId ∧
    ∃ c ∈ s.created, c.grant = d.grant ∧ hash c.token = hash x.token
  admitted : ∃ user workload u w, d.userState = some user ∧ d.workloadState = some workload ∧
    Admitted rt d.connection d.grant user workload u w

/-- The sessions were created once each, a record is that of the session it is stored under and
has not been consumed, and whatever was consumed was created, with the token it was consumed with.
-/
structure Granted (s : Site) : Prop where
  once : (s.created.map fun c => c.grant.sessionId).Nodup
  named : ∀ c ∈ s.created, c.grant.pveUser ≠ some ""
  written : ∀ id r, s.sessions id = some r →
    (∃ c ∈ s.created, c.grant.sessionId = id ∧ r.fields = sessionFields (hash c.token) c.grant) ∧
      ∀ x ∈ s.consumed, x.sessionId ≠ id
  spent : ∀ x ∈ s.consumed, ∃ c ∈ s.created, c.grant.sessionId = x.sessionId ∧ hash c.token = hash x.token
  single : (s.consumed.map Consumption.sessionId).Nodup
  kept : ∀ c ∈ s.created, (∃ r, s.sessions c.grant.sessionId = some r) ∨
    ∃ x ∈ s.consumed, x.sessionId = c.grant.sessionId
  opened : ∀ d ∈ s.dialed, Opened rt hash s d
  dials : (s.dialed.map Dial.connection).Nodup

/-! ### Slots -/

/-- A slot that a connection keeps while its time lasts. -/
def Site.Keeps (s : Site) (key : Uuid × Uuid) (slot : Slot) : Prop :=
  s.clock ≤ slot.expires → s.slots key = some slot

/-- The slot of a relay. -/
def Relay.lease (r : Relay) : Slot := ⟨r.sessionId, r.acquired + lifetime, r.connection⟩

/-- Every slot has an owner who has consumed its session, and every relay holds its slot until the
time it was leased for. -/
structure Leased (s : Site) : Prop where
  owned : ∀ key slot, s.slots key = some slot → s.Holds slot.owner slot.sessionId
  relaying : ∀ r ∈ s.relays, s.Holds r.connection r.sessionId ∧ s.Keeps r.slot (r.lease lifetime)
  relays : (s.relays.map Relay.connection).Nodup

/-- Both. -/
structure Sound (s : Site) : Prop where
  granted : Granted rt hash s
  leased : Leased lifetime s

/-! ### What a connection does, and what others see of it -/

/-- What the connection `n` may do. -/
structure Does (n : Nat) (s s' : Site) : Prop where
  created : ∀ c ∈ s.created, c ∈ s'.created
  consumed : ∀ x ∈ s.consumed, x ∈ s'.consumed
  dialed : ∀ d ∈ s'.dialed, d ∈ s.dialed ∨ d.connection = n
  relays : ∀ r ∈ s'.relays, r ∈ s.relays ∨ r.connection = n
  /-- It deletes no slot but its own. -/
  slots : ∀ key slot, s.slot? key = some slot → s'.slots key = some slot ∨ slot.owner = n
  clock : s.clock ≤ s'.clock

/-- What the connection `n` sees of the others. -/
structure Others (n : Nat) (s s' : Site) : Prop where
  created : ∀ c ∈ s.created, c ∈ s'.created
  consumed : ∀ x ∈ s.consumed, x ∈ s'.consumed
  dialed : ∀ d ∈ s'.dialed, d.connection = n → d ∈ s.dialed
  relays : ∀ r ∈ s'.relays, r.connection = n → r ∈ s.relays
  slots : ∀ key slot, slot.owner = n → s.Keeps key slot → s'.Keeps key slot

variable {rt hash lifetime}

/-- A slot is there until its time is over. -/
theorem slot?_some {s : Site} {key : Uuid × Uuid} {slot : Slot} :
    s.slot? key = some slot ↔ s.slots key = some slot ∧ s.clock ≤ slot.expires := by
  unfold Site.slot?
  rw [Option.filter_eq_some_iff, decide_eq_true_iff]

/-- Others may do nothing. -/
theorem Others.refl (n : Nat) (s : Site) : Others n s s :=
  ⟨fun _ h => h, fun _ h => h, fun _ h _ => h, fun _ h _ => h, fun _ _ _ h => h⟩

/-- And one thing after the other. -/
theorem Others.trans {n : Nat} {s s' s'' : Site} (h : Others n s s') (h' : Others n s' s'') : Others n s s'' where
  created c hc := h'.created c (h.created c hc)
  consumed x hx := h'.consumed x (h.consumed x hx)
  dialed d hd hn := h.dialed d (h'.dialed d hd hn) hn
  relays r hr hn := h.relays r (h'.relays r hr hn) hn
  slots key slot hn hk := h'.slots key slot hn (h.slots key slot hn hk)

/-- **What one connection does, another sees.** -/
theorem Does.others {n m : Nat} {s s' : Site} (h : Does n s s') (hne : n ≠ m) : Others m s s' where
  created := h.created
  consumed := h.consumed
  dialed d hd hm := (h.dialed d hd).resolve_right fun hn => hne (hn.symm.trans hm)
  relays r hr hm := (h.relays r hr).resolve_right fun hn => hne (hn.symm.trans hm)
  slots key slot hm hkeeps hclock := by
    have hbefore : s.clock ≤ slot.expires := le_trans h.clock hclock
    refine (h.slots key slot (slot?_some.mpr ⟨hkeeps hbefore, hbefore⟩)).resolve_right fun hn => ?_
    exact hne (hn.symm.trans hm)

/-- What has been consumed stays consumed. -/
theorem Site.Holds.mono {s s' : Site} {n : Nat} {id : Uuid} (h : s.Holds n id)
    (hconsumed : ∀ x ∈ s.consumed, x ∈ s'.consumed) : s'.Holds n id := by
  obtain ⟨x, hx, hholds⟩ := h
  exact ⟨x, hconsumed x hx, hholds⟩

/-- A connection that was opened rightly stays so. -/
theorem Opened.mono {s s' : Site} {d : Dial} (h : Opened rt hash s d) (hcreated : ∀ c ∈ s.created, c ∈ s'.created)
    (hconsumed : ∀ x ∈ s.consumed, x ∈ s'.consumed) : Opened rt hash s' d := by
  obtain ⟨⟨x, hx, hn, hid, c, hc, hgrant⟩, hadmitted⟩ := h
  exact ⟨⟨x, hconsumed x hx, hn, hid, c, hcreated c hc, hgrant⟩, hadmitted⟩

/-- A session is held by one connection. -/
theorem Granted.holder {s : Site} (h : Granted rt hash s) {n m : Nat} {id : Uuid} (hn : s.Holds n id)
    (hm : s.Holds m id) : n = m := by
  obtain ⟨x, hx, rfl, hxid⟩ := hn
  obtain ⟨y, hy, rfl, hyid⟩ := hm
  rw [List.inj_on_of_nodup_map h.single hx hy (hxid.trans hyid.symm)]

/-! ### Steps that leave the grants and the slots -/

/-- Nothing but the database, the handshakes and the time has changed. -/
structure Still (s s' : Site) : Prop where
  sessions : s'.sessions = s.sessions
  slots : s'.slots = s.slots
  relays : s'.relays = s.relays
  created : s'.created = s.created
  consumed : s'.consumed = s.consumed
  dialed : s'.dialed = s.dialed
  clock : s.clock ≤ s'.clock

/-- What a step that deletes no slot leaves to be shown of it. -/
theorem does_of {n : Nat} {s s' : Site} (hcreated : ∀ c ∈ s.created, c ∈ s'.created)
    (hconsumed : ∀ x ∈ s.consumed, x ∈ s'.consumed) (hdialed : s'.dialed = s.dialed) (hrelays : s'.relays = s.relays)
    (hslots : s'.slots = s.slots) (hclock : s.clock ≤ s'.clock) : Does n s s' where
  created := hcreated
  consumed := hconsumed
  dialed d hd := Or.inl (hdialed ▸ hd)
  relays r hr := Or.inl (hrelays ▸ hr)
  slots key slot h := by
    rw [hslots]
    exact Or.inl (slot?_some.mp h).1
  clock := hclock

/-- Slots and relays that have stayed. -/
theorem Leased.of_same {s s' : Site} (h : Leased lifetime s) (hconsumed : ∀ x ∈ s.consumed, x ∈ s'.consumed)
    (hslots : s'.slots = s.slots) (hrelays : s'.relays = s.relays) (hclock : s.clock ≤ s'.clock) :
    Leased lifetime s' where
  owned key slot hslot := by
    rw [hslots] at hslot
    exact (h.owned key slot hslot).mono hconsumed
  relaying r hr := by
    rw [hrelays] at hr
    obtain ⟨hholds, hkeeps⟩ := h.relaying r hr
    refine ⟨hholds.mono hconsumed, fun hle => ?_⟩
    rw [hslots]
    exact hkeeps (le_trans hclock hle)
  relays := by
    rw [hrelays]
    exact h.relays

theorem Still.does {s s' : Site} (h : Still s s') (n : Nat) : Does n s s' :=
  does_of (fun c hc => by rw [h.created]; exact hc) (fun x hx => by rw [h.consumed]; exact hx) h.dialed h.relays
    h.slots h.clock

/-- What touches neither sessions nor slots keeps the site sound. -/
theorem Still.sound {s s' : Site} (h : Still s s') (hs : Sound rt hash lifetime s) : Sound rt hash lifetime s' := by
  obtain ⟨⟨once, named, written, spent, single, kept, opened, dials⟩, hleased⟩ := hs
  have hcreated : ∀ c ∈ s.created, c ∈ s'.created := fun c hc => by rw [h.created]; exact hc
  have hconsumed : ∀ x ∈ s.consumed, x ∈ s'.consumed := fun x hx => by rw [h.consumed]; exact hx
  refine ⟨?_, hleased.of_same hconsumed h.slots h.relays h.clock⟩
  refine ⟨?_, ?_, ?_, ?_, ?_, ?_, ?_, ?_⟩
  · rw [h.created]
    exact once
  · rw [h.created]
    exact named
  · rw [h.sessions, h.created, h.consumed]
    exact written
  · rw [h.created, h.consumed]
    exact spent
  · rw [h.consumed]
    exact single
  · rw [h.sessions, h.created, h.consumed]
    exact kept
  · rw [h.dialed]
    exact fun d hd => (opened d hd).mono hcreated hconsumed
  · rw [h.dialed]
    exact dials

/-! ### Records -/

/-- A record that is found is stored. -/
theorem session?_some {s : Site} {id : Uuid} {r : SessionRecord} (h : s.session? id = some r) :
    s.sessions id = some r := (Option.filter_eq_some_iff.mp h).1

/-- A value of an updated function is the new one, or one of another key. -/
theorem update_some {α β : Type} [DecidableEq α] {f : α → Option β} {a b : α} {v : Option β} {x : β}
    (h : Function.update f a v b = some x) : b = a ∧ v = some x ∨ b ≠ a ∧ f b = some x := by
  by_cases hb : b = a
  · rw [hb, Function.update_self] at h
    exact Or.inl ⟨hb, h⟩
  · rw [Function.update_of_ne hb] at h
    exact Or.inr ⟨hb, h⟩

/-- `HSET` of a session that is new. -/
theorem hset_does (n : Nat) (s : Site) (g : ConsoleGrant) (token : String) : Does n s (s.hset hash g token) :=
  does_of (fun _ hc => List.mem_append_left _ hc) (fun _ hx => hx) rfl rfl rfl le_rfl

/-- Creating a session keeps the site sound, if its identifier is new. -/
theorem hset_sound {s : Site} {g : ConsoleGrant} {token : String} (hs : Sound rt hash lifetime s)
    (huser : g.pveUser ≠ some "") (hnew : ∀ c ∈ s.created, c.grant.sessionId ≠ g.sessionId) :
    Sound rt hash lifetime (s.hset hash g token) := by
  obtain ⟨⟨once, named, written, spent, single, kept, opened, dials⟩, hleased⟩ := hs
  have hcreated : ∀ c ∈ s.created, c ∈ (s.hset hash g token).created := fun _ hc => List.mem_append_left _ hc
  have hself : (⟨g, token⟩ : Creation) ∈ (s.hset hash g token).created :=
    List.mem_append_right _ List.mem_cons_self
  refine ⟨⟨?_, ?_, ?_, ?_, single, ?_, fun d hd => (opened d hd).mono hcreated fun _ hx => hx, dials⟩,
    hleased.of_same (fun _ hx => hx) rfl rfl le_rfl⟩
  · show ((s.created ++ ([⟨g, token⟩] : List Creation)).map fun c => c.grant.sessionId).Nodup
    rw [List.map_append]
    refine List.nodup_append.mpr ⟨once, List.nodup_singleton _, ?_⟩
    intro a ha b hb
    obtain ⟨c, hc, rfl⟩ := List.mem_map.mp ha
    have hb : b = g.sessionId := List.mem_singleton.mp hb
    rw [hb]
    exact hnew c hc
  · intro c hc
    rcases List.mem_append.mp hc with hc | hc
    · exact named c hc
    · rw [List.mem_singleton.mp hc]
      exact huser
  · intro id r hr
    rcases update_some hr with ⟨rfl, hnew'⟩ | ⟨-, hold⟩
    · cases hnew'
      refine ⟨⟨_, hself, rfl, rfl⟩, fun x hx hid => ?_⟩
      obtain ⟨c, hc, hcid, -⟩ := spent x hx
      exact hnew c hc (hcid.trans hid)
    · obtain ⟨⟨c, hc, hrecord⟩, hunspent⟩ := written id r hold
      exact ⟨⟨c, hcreated c hc, hrecord⟩, hunspent⟩
  · intro x hx
    obtain ⟨c, hc, hspent⟩ := spent x hx
    exact ⟨c, hcreated c hc, hspent⟩
  · intro c hc
    by_cases hid : c.grant.sessionId = g.sessionId
    · have hrecord : ∃ r, (s.hset hash g token).sessions g.sessionId = some r := ⟨_, Function.update_self ..⟩
      rw [hid]
      exact Or.inl hrecord
    · rcases List.mem_append.mp hc with hc | hc
      · refine (kept c hc).imp_left fun ⟨r, hr⟩ => ⟨r, ?_⟩
        exact (Function.update_of_ne hid ..).trans hr
      · exact absurd (congrArg (fun c => c.grant.sessionId) (List.mem_singleton.mp hc)) hid

/-- `EXPIRE` finds the record, or does nothing. -/
theorem expire_cases (s : Site) (id : Uuid) (ttl : Nat) : s.expire id ttl = s ∨
    ∃ r r', s.sessions id = some r ∧ r'.fields = r.fields ∧
      s.expire id ttl = { s with sessions := Function.update s.sessions id (some r') } := by
  unfold Site.expire
  cases hr : s.session? id with
  | none => exact Or.inl rfl
  | some r =>
    exact Or.inr ⟨r, { r with expires := some (s.clock + ttl) }, session?_some hr, rfl, rfl⟩

/-- `EXPIRE` leaves what is written. -/
theorem expire_does (n : Nat) (s : Site) (id : Uuid) (ttl : Nat) : Does n s (s.expire id ttl) := by
  rcases expire_cases s id ttl with h | ⟨r, r', -, -, h⟩
  · rw [h]
    exact does_of (fun _ hc => hc) (fun _ hx => hx) rfl rfl rfl le_rfl
  · rw [h]
    exact does_of (fun _ hc => hc) (fun _ hx => hx) rfl rfl rfl le_rfl

theorem expire_sound {s : Site} (hs : Sound rt hash lifetime s) (id : Uuid) (ttl : Nat) :
    Sound rt hash lifetime (s.expire id ttl) := by
  rcases expire_cases s id ttl with h | ⟨r, r', hr, hfields, h⟩
  · rw [h]
    exact hs
  · rw [h]
    obtain ⟨⟨once, named, written, spent, single, kept, opened, dials⟩, hleased⟩ := hs
    refine ⟨⟨once, named, ?_, spent, single, ?_, fun d hd => (opened d hd).mono (fun _ hc => hc) fun _ hx => hx,
      dials⟩, hleased.of_same (fun _ hx => hx) rfl rfl le_rfl⟩
    · intro k q hq
      rcases update_some hq with ⟨rfl, heq⟩ | ⟨-, hold⟩
      · cases heq
        obtain ⟨⟨c, hc, hid, hc'⟩, hunspent⟩ := written k r hr
        exact ⟨⟨c, hc, hid, hfields.trans hc'⟩, hunspent⟩
      · exact written k q hold
    · intro c hc
      by_cases hid : c.grant.sessionId = id
      · refine Or.inl ⟨r', ?_⟩
        rw [hid]
        exact Function.update_self ..
      · refine (kept c hc).imp_left fun ⟨q, hq⟩ => ⟨q, ?_⟩
        exact (Function.update_of_ne hid ..).trans hq

theorem parseGrant_nil (id : Uuid) : parseGrant id [] = none := rfl

theorem lookup_token (tokenHash : String) (g : ConsoleGrant) :
    (sessionFields tokenHash g).lookup "token_hash" = some tokenHash := by
  simp [sessionFields]

/-- What the script has done, if it has done anything. -/
structure Consumed (hash : String → String) (n : Nat) (id : Uuid) (token : String) (s : Site) (c : Creation)
    (s' : Site) : Prop where
  created : c ∈ s.created
  session : c.grant.sessionId = id
  hashed : hash c.token = hash token
  unspent : ∀ x ∈ s.consumed, x.sessionId ≠ id
  after : s' = { s with
    sessions := Function.update s.sessions id none
    consumed := s.consumed ++ [⟨id, token, n⟩] }

/-- **The script** leaves everything, or consumes a session whose token it was given. -/
theorem consume_cases {s : Site} (hs : Granted rt hash s) (n : Nat) (id : Uuid) (token : String) :
    s.consume hash n id token = (s, []) ∨ ∃ c s' values, s.consume hash n id token = (s', values) ∧
      Consumed hash n id token s c s' ∧ ∀ g, parseGrant id values = some g → g = c.grant := by
  unfold Site.consume
  cases hr : s.session? id with
  | none => exact Or.inl rfl
  | some r =>
    dsimp only
    split
    · next htoken =>
      obtain ⟨⟨c, hc, hid, hfields⟩, hunspent⟩ := hs.written id r (session?_some hr)
      rw [hfields, lookup_token] at htoken
      refine Or.inr ⟨c, _, _, rfl, ⟨hc, hid, Option.some.inj htoken, hunspent, rfl⟩, fun g hg => ?_⟩
      rw [hfields] at hg
      rw [parseGrant_some (hs.named c hc) hg, ← hid]
    · exact Or.inl rfl

namespace Consumed
variable {n : Nat} {id : Uuid} {token : String} {s s' : Site} {c : Creation}

/-- Consuming is what a connection may do to others. -/
theorem does (h : Consumed hash n id token s c s') : Does n s s' := by
  rw [h.after]
  exact does_of (fun _ hc => hc) (fun _ hx => List.mem_append_left _ hx) rfl rfl rfl le_rfl

/-- It keeps the site sound. -/
theorem sound (h : Consumed hash n id token s c s') (hs : Sound rt hash lifetime s) : Sound rt hash lifetime s' := by
  obtain ⟨hcreated, hid, htoken, hunspent, rfl⟩ := h
  obtain ⟨⟨once, named, written, spent, single, kept, opened, dials⟩, hleased⟩ := hs
  have hconsumed : ∀ x ∈ s.consumed, x ∈ s.consumed ++ [(⟨id, token, n⟩ : Consumption)] :=
    fun _ hx => List.mem_append_left _ hx
  refine ⟨⟨once, named, ?_, ?_, ?_, ?_, fun d hd => (opened d hd).mono (fun _ hc => hc) hconsumed, dials⟩,
    hleased.of_same hconsumed rfl rfl le_rfl⟩
  · intro k r hr
    rcases update_some hr with ⟨-, hnone⟩ | ⟨hne, hold⟩
    · cases hnone
    · obtain ⟨hrecord, hold⟩ := written k r hold
      refine ⟨hrecord, fun x hx => ?_⟩
      rcases List.mem_append.mp hx with hx | hx
      · exact hold x hx
      · rw [List.mem_singleton.mp hx]
        exact Ne.symm hne
  · intro x hx
    rcases List.mem_append.mp hx with hx | hx
    · exact spent x hx
    · rw [List.mem_singleton.mp hx]
      exact ⟨c, hcreated, hid, htoken⟩
  · show ((s.consumed ++ ([⟨id, token, n⟩] : List Consumption)).map Consumption.sessionId).Nodup
    rw [List.map_append]
    refine List.nodup_append.mpr ⟨single, List.nodup_singleton _, ?_⟩
    intro a ha b hb
    obtain ⟨x, hx, rfl⟩ := List.mem_map.mp ha
    have hb : b = id := List.mem_singleton.mp hb
    rw [hb]
    exact hunspent x hx
  · intro k hk
    by_cases hkid : k.grant.sessionId = id
    · exact Or.inr ⟨_, List.mem_append_right _ List.mem_cons_self, hkid.symm⟩
    · rcases kept k hk with ⟨r, hr⟩ | ⟨x, hx, hxid⟩
      · exact Or.inl ⟨r, (Function.update_of_ne hkid ..).trans hr⟩
      · exact Or.inr ⟨x, hconsumed x hx, hxid⟩

/-- And what was consumed is the connection's own. -/
theorem mine (h : Consumed hash n id token s c s') : ∃ x ∈ s'.consumed, x.connection = n ∧ x.sessionId = id ∧
    hash c.token = hash x.token := by
  rw [h.after]
  exact ⟨_, List.mem_append_right _ List.mem_cons_self, rfl, rfl, h.hashed⟩

end Consumed

/-! ### Slots and connections -/

section Steps
variable {n : Nat} {s : Site} {g : ConsoleGrant}

/-- `SET NX` takes a slot that is free, or does nothing. -/
theorem acquire_cases (n : Nat) (s : Site) (g : ConsoleGrant) (ttl : Nat) :
    s.acquire n g ttl = (s, false) ∨ s.slot? g.slot = none ∧ s.acquire n g ttl =
      ({ s with slots := Function.update s.slots g.slot (some ⟨g.sessionId, s.clock + ttl, n⟩) }, true) := by
  unfold Site.acquire
  cases h : s.slot? g.slot with
  | some slot => exact Or.inl rfl
  | none => exact Or.inr ⟨rfl, rfl⟩

/-- A slot that is taken or kept is not the one that is free. -/
theorem Site.Keeps.of_free {key k : Uuid × Uuid} {slot v : Slot} (hfree : s.slot? key = none)
    (h : s.Keeps k slot) : Site.Keeps { s with slots := Function.update s.slots key (some v) } k slot := by
  intro hle
  have hk := h hle
  have hne : k ≠ key := by
    rintro rfl
    cases hfree.symm.trans (slot?_some.mpr ⟨hk, hle⟩)
  exact (Function.update_of_ne hne ..).trans hk

/-- **A slot is taken** only if it is free. -/
theorem acquire_does (n : Nat) (s : Site) (g : ConsoleGrant) (ttl : Nat) : Does n s (s.acquire n g ttl).1 := by
  rcases acquire_cases n s g ttl with h | ⟨hfree, h⟩
  · rw [h]
    exact does_of (fun _ hc => hc) (fun _ hx => hx) rfl rfl rfl le_rfl
  · rw [h]
    refine ⟨fun _ hc => hc, fun _ hx => hx, fun _ hd => Or.inl hd, fun _ hr => Or.inl hr, fun k slot hk => ?_, le_rfl⟩
    obtain ⟨hslot, hle⟩ := slot?_some.mp hk
    exact Or.inl (Site.Keeps.of_free hfree (fun _ => hslot) hle)

/-- Whoever has consumed the session may take its slot. -/
theorem acquire_sound (hs : Sound rt hash lifetime s) (hholds : s.Holds n g.sessionId) (ttl : Nat) :
    Sound rt hash lifetime (s.acquire n g ttl).1 := by
  rcases acquire_cases n s g ttl with h | ⟨hfree, h⟩
  · rw [h]
    exact hs
  · rw [h]
    obtain ⟨⟨once, named, written, spent, single, kept, opened, dials⟩, owned, relaying, relays⟩ := hs
    refine ⟨⟨once, named, written, spent, single, kept,
      fun d hd => (opened d hd).mono (fun _ hc => hc) fun _ hx => hx, dials⟩, ?_, ?_, relays⟩
    · intro k slot hslot
      rcases update_some hslot with ⟨-, hself⟩ | ⟨-, hold⟩
      · cases hself
        exact hholds
      · exact owned k slot hold
    · intro r hr
      obtain ⟨hr₁, hr₂⟩ := relaying r hr
      exact ⟨hr₁, hr₂.of_free hfree⟩

/-- The slot a connection has taken. -/
theorem acquire_keeps {ttl : Nat} (h : (s.acquire n g ttl).2 = true) :
    (s.acquire n g ttl).1.Keeps g.slot ⟨g.sessionId, s.clock + ttl, n⟩ := by
  rcases acquire_cases n s g ttl with hout | ⟨-, hout⟩
  · rw [hout] at h
    cases h
  · rw [hout]
    exact fun _ => Function.update_self ..

/-- The script removes the slot if it still has the session, or does nothing. -/
theorem release_cases (s : Site) (g : ConsoleGrant) : s.release g = s ∨
    ∃ slot, s.slots g.slot = some slot ∧ slot.sessionId = g.sessionId ∧
      s.release g = { s with slots := Function.update s.slots g.slot none } := by
  unfold Site.release
  cases h : s.slot? g.slot with
  | none => exact Or.inl rfl
  | some slot =>
    dsimp only
    split
    · next hid => exact Or.inr ⟨slot, (slot?_some.mp h).1, hid, rfl⟩
    · exact Or.inl rfl

/-- **A connection deletes the slot of its session**, which is its own. -/
theorem release_does (hs : Sound rt hash lifetime s) (hholds : s.Holds n g.sessionId) : Does n s (s.release g) := by
  rcases release_cases s g with h | ⟨slot, hslot, hid, h⟩
  · rw [h]
    exact does_of (fun _ hc => hc) (fun _ hx => hx) rfl rfl rfl le_rfl
  · rw [h]
    refine ⟨fun _ hc => hc, fun _ hx => hx, fun _ hd => Or.inl hd, fun _ hr => Or.inl hr, fun k v hk => ?_, le_rfl⟩
    have hk := (slot?_some.mp hk).1
    by_cases hkey : k = g.slot
    · rw [hkey, hslot] at hk
      cases hk
      have howner := hs.leased.owned g.slot slot hslot
      rw [hid] at howner
      exact Or.inr (hs.granted.holder howner hholds)
    · exact Or.inl ((Function.update_of_ne hkey ..).trans hk)

/-- A connection that relays no more may release its slot. -/
theorem release_sound (hs : Sound rt hash lifetime s) (hholds : s.Holds n g.sessionId)
    (hidle : ∀ r ∈ s.relays, r.connection ≠ n) : Sound rt hash lifetime (s.release g) := by
  rcases release_cases s g with h | ⟨slot, hslot, hid, h⟩
  · rw [h]
    exact hs
  · rw [h]
    have hgranted := hs.granted
    obtain ⟨⟨once, named, written, spent, single, kept, opened, dials⟩, owned, relaying, relays⟩ := hs
    refine ⟨⟨once, named, written, spent, single, kept,
      fun d hd => (opened d hd).mono (fun _ hc => hc) fun _ hx => hx, dials⟩, ?_, ?_, relays⟩
    · intro k v hv
      rcases update_some hv with ⟨-, hnone⟩ | ⟨-, hold⟩
      · cases hnone
      · exact owned k v hold
    · intro r hr
      obtain ⟨hr₁, hr₂⟩ := relaying r hr
      refine ⟨hr₁, fun hle => ?_⟩
      have hkept := hr₂ hle
      -- the slot of a relay is another one
      have hne : r.slot ≠ g.slot := by
        intro heq
        rw [heq, hslot] at hkept
        cases hkept
        have hsame : r.sessionId = g.sessionId := hid
        rw [hsame] at hr₁
        exact hidle r hr (hgranted.holder hr₁ hholds)
      exact (Function.update_of_ne hne ..).trans hkept

/-- **An upstream connection** is opened once. -/
theorem dial_does {d : Dial} {handshakes : List Handshake} (hd : d.connection = n) :
    Does n s { s with handshakes := handshakes, dialed := s.dialed ++ [d] } where
  created _ hc := hc
  consumed _ hx := hx
  dialed e he := (List.mem_append.mp he).imp_right fun h => by rw [List.mem_singleton.mp h]; exact hd
  relays _ hr := Or.inl hr
  slots _ _ hk := Or.inl (slot?_some.mp hk).1
  clock := le_rfl

theorem dial_sound (hs : Sound rt hash lifetime s) {d : Dial} {handshakes : List Handshake}
    (hopened : Opened rt hash s d) (hnew : ∀ e ∈ s.dialed, e.connection ≠ d.connection) :
    Sound rt hash lifetime { s with handshakes := handshakes, dialed := s.dialed ++ [d] } := by
  obtain ⟨⟨once, named, written, spent, single, kept, opened, dials⟩, hleased⟩ := hs
  refine ⟨⟨once, named, written, spent, single, kept, fun e he => ?_, ?_⟩,
    hleased.of_same (fun _ hx => hx) rfl rfl le_rfl⟩
  · have hmem : Opened rt hash s e := by
      rcases List.mem_append.mp he with he | he
      · exact opened e he
      · rw [List.mem_singleton.mp he]
        exact hopened
    exact hmem.mono (fun _ hc => hc) fun _ hx => hx
  · show ((s.dialed ++ [d]).map Dial.connection).Nodup
    rw [List.map_append]
    refine List.nodup_append.mpr ⟨dials, List.nodup_singleton _, fun a ha b hb => ?_⟩
    obtain ⟨e, he, rfl⟩ := List.mem_map.mp ha
    have hb : b = d.connection := List.mem_singleton.mp hb
    rw [hb]
    exact hnew e he

/-- **A relay** begins in the slot of its connection. -/
theorem relay_does {r : Relay} (hr : r.connection = n) : Does n s { s with relays := s.relays ++ [r] } where
  created _ hc := hc
  consumed _ hx := hx
  dialed _ hd := Or.inl hd
  relays q hq := (List.mem_append.mp hq).imp_right fun h => by rw [List.mem_singleton.mp h]; exact hr
  slots _ _ hk := Or.inl (slot?_some.mp hk).1
  clock := le_rfl

/-- A relay begins under a slot that lasts as long as it does. -/
theorem relay_sound (hs : Sound rt hash lifetime s) {r : Relay} (hholds : s.Holds r.connection r.sessionId)
    (hkeeps : s.Keeps r.slot (r.lease lifetime)) (hnew : ∀ q ∈ s.relays, q.connection ≠ r.connection) :
    Sound rt hash lifetime { s with relays := s.relays ++ [r] } := by
  obtain ⟨⟨once, named, written, spent, single, kept, opened, dials⟩, owned, relaying, relays⟩ := hs
  refine ⟨⟨once, named, written, spent, single, kept,
    fun d hd => (opened d hd).mono (fun _ hc => hc) fun _ hx => hx, dials⟩, owned, fun q hq => ?_, ?_⟩
  · rcases List.mem_append.mp hq with hq | hq
    · exact relaying q hq
    · rw [List.mem_singleton.mp hq]
      exact ⟨hholds, hkeeps⟩
  · show ((s.relays ++ [r]).map Relay.connection).Nodup
    rw [List.map_append]
    refine List.nodup_append.mpr ⟨relays, List.nodup_singleton _, fun a ha b hb => ?_⟩
    obtain ⟨q, hq, rfl⟩ := List.mem_map.mp ha
    have hb : b = r.connection := List.mem_singleton.mp hb
    rw [hb]
    exact hnew q hq

/-- The end of the relay of a connection, or of the connection. -/
theorem hangUp_does (n m : Nat) (s : Site) (handshakes : List Handshake) :
    Does n s { s with handshakes := handshakes, relays := s.relays.filter (·.connection ≠ m) } where
  created _ hc := hc
  consumed _ hx := hx
  dialed _ hd := Or.inl hd
  relays _ hr := Or.inl (List.mem_filter.mp hr).1
  slots _ _ hk := Or.inl (slot?_some.mp hk).1
  clock := le_rfl

/-- Hanging up keeps the site sound. -/
theorem hangUp_sound (hs : Sound rt hash lifetime s) (m : Nat) (handshakes : List Handshake) :
    Sound rt hash lifetime { s with handshakes := handshakes, relays := s.relays.filter (·.connection ≠ m) } := by
  obtain ⟨⟨once, named, written, spent, single, kept, opened, dials⟩, owned, relaying, relays⟩ := hs
  refine ⟨⟨once, named, written, spent, single, kept,
    fun d hd => (opened d hd).mono (fun _ hc => hc) fun _ hx => hx, dials⟩, owned, fun r hr => ?_, ?_⟩
  · exact relaying r (List.mem_filter.mp hr).1
  · exact (List.filter_sublist.map _).nodup relays

end Steps
end PveMaster.Console
