import Mathlib.Data.List.Nodup
import Mathlib.Data.List.Perm.Subperm
import Mathlib.Logic.Relation

/-! Following forwarding entries, with path compression.

A table sends a key on to another one. `chase` follows the entries until a key has none or was seen
before; it stops on every table, whatever cycles are in it (`chase_stops`). Afterwards all keys on
the way are sent to its end (`compress`), which changes nothing that any key of a table without
cycles resolves to (`resolve_compress`). -/
namespace PveMaster

/-- The entries of a table, the newest first. The newest entry of a key counts; the ones behind it
are out of sight. -/
abbrev Forwarding (α : Type) := List (α × α)

namespace Forwarding
open Relation

variable {α : Type} [DecidableEq α]

def get? (m : Forwarding α) (a : α) : Option α := m.lookup a

def set (m : Forwarding α) (a b : α) : Forwarding α := (a, b) :: m

@[simp] theorem get?_nil (a : α) : get? [] a = none := rfl

theorem get?_set (m : Forwarding α) (a b c : α) : (m.set a b).get? c = if c = a then some b else m.get? c := by
  unfold get? set
  rw [List.lookup_cons]
  by_cases h : c = a
  · simp [h]
  · have hne : (c == a) = false := by simpa using h
    simp [h, hne]

theorem mem_keys {m : Forwarding α} {a b : α} (h : m.get? a = some b) : a ∈ m.map Prod.fst := by
  induction m with
  | nil => cases h
  | cons entry rest ih =>
    obtain ⟨k, v⟩ := entry
    have h : (set rest k v).get? a = some b := h
    rw [get?_set] at h
    rw [List.map_cons, List.mem_cons]
    split at h
    · next heq => exact Or.inl heq
    · exact Or.inr (ih h)

/-! ### The loop -/

/-- One turn of the loop: the keys seen, and the key reached. It stops where the key has no entry,
or has been seen before. -/
def follow (m : Forwarding α) (s : List α × α) : Option (List α × α) :=
  match m.get? s.2 with
  | some next => if s.2 ∈ s.1 then none else some (s.1 ++ [s.2], next)
  | none => none

/-- The loop, for a number of turns that is given to it. That the number of entries suffices is
`chase_stops`. -/
def chase (m : Forwarding α) : Nat → List α × α → List α × α
  | 0, s => s
  | n + 1, s =>
    match m.follow s with
    | some s' => chase m n s'
    | none => s

/-- The keys on the way from a key, and its end, whether the way ends at a key without an entry or
runs into itself. -/
def way (m : Forwarding α) (a : α) : List α × α := m.chase m.length ([], a)

/-- The key at the end of the way: what everything on the way stands for. -/
def resolve (m : Forwarding α) (a : α) : α := (m.way a).2

/-- All keys on the way are sent to its end, so that the next search from any of them takes one
turn. -/
def compress (m : Forwarding α) (a : α) : Forwarding α :=
  (m.way a).1.foldl (fun m' key => m'.set key (m.resolve a)) m

variable {m : Forwarding α} {s s' : List α × α}

theorem follow_some : m.follow s = some s' ↔ ∃ next, m.get? s.2 = some next ∧ s.2 ∉ s.1 ∧ s' = (s.1 ++ [s.2], next) := by
  unfold follow
  cases hnext : m.get? s.2 with
  | none => simp
  | some next =>
    by_cases hseen : s.2 ∈ s.1
    · simp [hseen]
    · simp [hseen, eq_comm]

theorem follow_none : m.follow s = none ↔ m.get? s.2 = none ∨ s.2 ∈ s.1 := by
  unfold follow
  cases hnext : m.get? s.2 with
  | none => simp
  | some next => simp

/-- What a turn keeps, the whole loop keeps. -/
theorem chase_keeps {P : List α × α → Prop} (hturn : ∀ s s', m.follow s = some s' → P s → P s') (n : Nat) (h : P s) :
    P (m.chase n s) := by
  induction n generalizing s with
  | zero => exact h
  | succ n ih =>
    unfold chase
    split
    · next s' hfollow => exact ih (hturn s s' hfollow h)
    · exact h

/-- As long as the loop goes on, it sees another key in each turn. -/
theorem length_chase (n : Nat) (h : m.follow (m.chase n s) ≠ none) : (m.chase n s).1.length = s.1.length + n := by
  induction n generalizing s with
  | zero => rfl
  | succ n ih =>
    unfold chase at h ⊢
    split at h
    · next s' hfollow =>
      obtain ⟨next, -, -, rfl⟩ := follow_some.mp hfollow
      rw [ih h, List.length_append, List.length_singleton]
      omega
    · next hfollow => exact absurd hfollow h

/-- The keys seen are different keys of the table. -/
def Seen (m : Forwarding α) (s : List α × α) : Prop := s.1.Nodup ∧ s.1 ⊆ m.map Prod.fst

theorem seen_follow (h : m.follow s = some s') (hs : Seen m s) : Seen m s' := by
  obtain ⟨next, hnext, hnew, rfl⟩ := follow_some.mp h
  refine ⟨?_, ?_⟩
  · exact List.Nodup.append hs.1 (List.nodup_singleton _) (List.disjoint_singleton.mpr hnew)
  · refine List.append_subset.mpr ⟨hs.2, ?_⟩
    intro a ha
    rw [List.mem_singleton.mp ha]
    exact mem_keys hnext

/-- **The loop stops**, after as many turns as the table has entries. -/
theorem chase_stops (m : Forwarding α) (a : α) : m.follow (m.way a) = none := by
  by_contra hgoes
  have hseen : Seen m (m.chase m.length ([], a)) :=
    chase_keeps (fun _ _ => seen_follow) _ ⟨List.nodup_nil, List.nil_subset _⟩
  obtain ⟨s', hs'⟩ := Option.ne_none_iff_exists'.mp hgoes
  have hlength : (m.way a).1.length = 0 + m.length := length_chase m.length hgoes
  have hmore := (seen_follow hs' hseen)
  obtain ⟨next, -, -, rfl⟩ := follow_some.mp hs'
  have hle := (List.subperm_of_subset hmore.1 hmore.2).length_le
  rw [List.length_append, List.length_singleton, hlength, List.length_map] at hle
  omega

/-- More turns change nothing. -/
theorem chase_add (n k : Nat) (h : m.follow (m.chase n s) = none) : m.chase (n + k) s = m.chase n s := by
  induction n generalizing s with
  | zero =>
    cases k with
    | zero => rfl
    | succ k =>
      have h : m.follow s = none := h
      rw [Nat.zero_add]
      unfold chase
      rw [h]
  | succ n ih =>
    rw [Nat.add_right_comm]
    unfold chase at h ⊢
    cases hfollow : m.follow s with
    | none => rfl
    | some s' =>
      rw [hfollow] at h
      exact ih h

theorem way_eq (m : Forwarding α) (a : α) {n : Nat} (h : m.length ≤ n) : m.chase n ([], a) = m.way a := by
  obtain ⟨k, rfl⟩ := Nat.exists_eq_add_of_le h
  exact chase_add m.length k (chase_stops m a)

/-! ### Tables without cycles -/

def Next (m : Forwarding α) (a b : α) : Prop := m.get? a = some b

/-- No key comes back to itself by following entries. -/
def Acyclic (m : Forwarding α) : Prop := ∀ a, ¬TransGen (Next m) a a

theorem next_unique : Relator.RightUnique (Next m) := by
  intro a b c hb hc
  exact Option.some.inj (hb.symm.trans hc)

/-- Every key seen is sent on to the key reached. -/
theorem trail_follow (h : m.follow s = some s') (hs : ∀ a ∈ s.1, TransGen (Next m) a s.2) : ∀ a ∈ s'.1, TransGen (Next m) a s'.2 := by
  obtain ⟨next, hnext, -, rfl⟩ := follow_some.mp h
  intro a ha
  rcases List.mem_append.mp ha with ha | ha
  · exact (hs a ha).tail hnext
  · rw [List.mem_singleton.mp ha]
    exact TransGen.single hnext

theorem trail_way (m : Forwarding α) (a : α) : ∀ b ∈ (m.way a).1, TransGen (Next m) b (m.resolve a) :=
  chase_keeps (P := fun s => ∀ b ∈ s.1, TransGen (Next m) b s.2) (fun _ _ => trail_follow) _
    fun _ hb => absurd hb List.not_mem_nil

theorem leads_way (m : Forwarding α) (a : α) : ReflTransGen (Next m) a (m.resolve a) := by
  refine chase_keeps (P := fun s => ReflTransGen (Next m) a s.2) (fun s s' h hs => ?_) _ ReflTransGen.refl
  obtain ⟨next, hnext, -, rfl⟩ := follow_some.mp h
  exact hs.tail hnext

/-- The end of the way has no entry. -/
theorem resolve_end (h : Acyclic m) (a : α) : m.get? (m.resolve a) = none := by
  rcases follow_none.mp (chase_stops m a) with hend | hseen
  · exact hend
  · exact absurd (trail_way m a _ hseen) (h _)

theorem end_unique {a b c : α} (hb : ReflTransGen (Next m) a b) (hc : ReflTransGen (Next m) a c) (hbend : m.get? b = none)
    (hcend : m.get? c = none) : b = c := by
  have stuck {x y : α} (hx : m.get? x = none) (h : ReflTransGen (Next m) x y) : x = y := by
    rcases h.cases_head with heq | ⟨z, hz, -⟩
    · exact heq
    · rw [Next, hx] at hz
      cases hz
  rcases ReflTransGen.total_of_right_unique next_unique hb hc with h | h
  · exact stuck hbend h
  · exact (stuck hcend h).symm

theorem resolve_eq (h : Acyclic m) {a b : α} (hleads : ReflTransGen (Next m) a b) (hend : m.get? b = none) : m.resolve a = b :=
  end_unique (leads_way m a) hleads (resolve_end h a) hend

/-! ### Compression -/

theorem get?_foldl (keys : List α) (m : Forwarding α) (b c : α) :
    (keys.foldl (fun m' key => m'.set key b) m).get? c = if c ∈ keys then some b else m.get? c := by
  induction keys generalizing m with
  | nil => simp
  | cons key rest ih =>
    rw [List.foldl_cons, ih, get?_set]
    by_cases hrest : c ∈ rest
    · simp [hrest]
    · simp [hrest]

theorem get?_compress (m : Forwarding α) (a c : α) :
    (m.compress a).get? c = if c ∈ (m.way a).1 then some (m.resolve a) else m.get? c :=
  get?_foldl _ _ _ _

theorem mem_way {a c : α} (h : c ∈ (m.way a).1) : ∃ b, m.get? c = some b := by
  obtain ⟨b, hb, -⟩ := TransGen.head'_iff.mp (trail_way m a c h)
  exact ⟨b, hb⟩

/-- An entry of the compressed table is a way in the old one. -/
theorem next_compress {a b c : α} (h : Next (m.compress a) b c) : TransGen (Next m) b c := by
  rw [Next, get?_compress] at h
  split at h
  · next hb =>
    cases h
    exact trail_way m a b hb
  · exact TransGen.single h

theorem compress_end {a b : α} : (m.compress a).get? b = none ↔ m.get? b = none := by
  rw [get?_compress]
  split
  · next hb =>
    obtain ⟨c, hc⟩ := mem_way hb
    simp [hc]
  · exact Iff.rfl

theorem leads_compress {a b c : α} (h : ReflTransGen (Next (m.compress a)) b c) : ReflTransGen (Next m) b c := by
  induction h with
  | refl => exact ReflTransGen.refl
  | tail _ hlast ih => exact ih.trans (next_compress hlast).to_reflTransGen

theorem acyclic_compress (h : Acyclic m) (a : α) : Acyclic (m.compress a) := by
  intro b hcycle
  obtain ⟨c, hbc, hcb⟩ := TransGen.head'_iff.mp hcycle
  exact h b ((next_compress hbc).trans_left (leads_compress hcb))

/-- **Compression changes nothing** in a table without cycles. -/
theorem resolve_compress (h : Acyclic m) (a b : α) : (m.compress a).resolve b = m.resolve b := by
  have hacyclic := acyclic_compress h a
  refine (resolve_eq h ?_ ?_).symm
  · exact leads_compress (leads_way _ b)
  · exact compress_end.mp (resolve_end hacyclic b)

end Forwarding

end PveMaster
