import Mathlib.Data.List.Nodup
import Mathlib.Data.List.Basic

/-! Tables of rows found by a key.

A `Table` is a list of rows in insertion order whose keys are distinct, and the
distinctness travels with it: no operation here can build a table that has one
key twice. An insert of a key already present is refused (`insert`), an update
never moves a row's key (`amend`), and a row is never removed. The lemmas say
what a lookup finds after each of them, and carry a property of every row
through them. -/
namespace PveMaster

/-- Rows that carry a primary key. -/
class Keyed (ρ : Type) (κ : outParam Type) where
  key : ρ → κ

/-- Rows in the order they were inserted in, no two with one key. The field is the primary key
constraint of the schema. -/
structure Table (ρ : Type) {κ : Type} [Keyed ρ κ] where
  rows : List ρ
  distinct : (rows.map Keyed.key).Nodup

/-- What a write of `current` over a value loaded as `loaded` stores: a column that was not
changed since it was loaded is left as it is stored, which may be what somebody else has written
meanwhile. -/
def written {α : Type} [DecidableEq α] (loaded current stored : α) : α :=
  if current = loaded then stored else current

@[simp] theorem written_unchanged {α : Type} [DecidableEq α] (loaded stored : α) :
    written loaded loaded stored = stored := if_pos rfl

theorem written_of_ne {α : Type} [DecidableEq α] {loaded current : α} (stored : α)
    (h : current ≠ loaded) : written loaded current stored = current := if_neg h

@[simp] theorem written_fresh {α : Type} [DecidableEq α] (loaded current : α) :
    written loaded current loaded = current := by
  unfold written
  split
  · next h => exact h.symm
  · rfl

namespace Table
open Keyed (key)

variable {ρ κ : Type} [Keyed ρ κ]

@[ext] theorem ext {t t' : Table ρ} (h : t.rows = t'.rows) : t = t' := by
  cases t
  cases t'
  cases h
  rfl

instance [DecidableEq ρ] : DecidableEq (Table ρ) :=
  fun t t' => decidable_of_iff (t.rows = t'.rows) ⟨ext, fun h => h ▸ rfl⟩

instance : Membership ρ (Table ρ) := ⟨fun t r => r ∈ t.rows⟩

theorem mem_rows {t : Table ρ} {r : ρ} : r ∈ t.rows ↔ r ∈ t := Iff.rfl

def empty : Table ρ := ⟨[], List.nodup_nil⟩

@[simp] theorem not_mem_empty (r : ρ) : ¬ r ∈ (empty : Table ρ) := List.not_mem_nil

def single (r : ρ) : Table ρ := ⟨[r], List.nodup_singleton _⟩

/-- Two rows of a table with one key are one row. -/
theorem eq_of_key {t : Table ρ} {r r' : ρ} (h : r ∈ t) (h' : r' ∈ t) (he : key r = key r') :
    r = r' :=
  List.inj_on_of_nodup_map t.distinct h h' he

/-- Rows satisfying a condition, in insertion order: a query without an order of its own. -/
def select (t : Table ρ) (p : ρ → Bool) : List ρ := t.rows.filter p

/-- The first row satisfying a condition. -/
def first (t : Table ρ) (p : ρ → Bool) : Option ρ := t.rows.find? p

theorem mem_select {t : Table ρ} {p : ρ → Bool} {r : ρ} : r ∈ t.select p ↔ r ∈ t ∧ p r = true :=
  List.mem_filter

theorem select_empty {t : Table ρ} {p : ρ → Bool} (h : (t.select p).length = 0) {r : ρ} (hr : r ∈ t) :
    p r = false := by
  have hnil : t.select p = [] := List.length_eq_zero_iff.mp h
  simpa using List.filter_eq_nil_iff.mp hnil r hr

theorem first_some {t : Table ρ} {p : ρ → Bool} {r : ρ} (h : t.first p = some r) :
    r ∈ t ∧ p r = true :=
  ⟨List.mem_of_find?_eq_some h, List.find?_some h⟩

theorem first_none {t : Table ρ} {p : ρ → Bool} (h : t.first p = none) {r : ρ} (hr : r ∈ t) :
    p r = false := by
  have := List.find?_eq_none.mp h r hr
  simpa using this

/-- The rows satisfying a condition are distinct. -/
theorem nodup_select (t : Table ρ) (p : ρ → Bool) : (t.select p).Nodup :=
  (List.Nodup.of_map _ t.distinct).filter _

/-- The rows satisfying a condition, as a table: what is left after the others have been deleted.
-/
def restrict (t : Table ρ) (p : ρ → Bool) : Table ρ where
  rows := t.rows.filter p
  distinct := List.Nodup.sublist (List.Sublist.map _ List.filter_sublist) t.distinct

theorem mem_restrict {t : Table ρ} {p : ρ → Bool} {r : ρ} :
    r ∈ t.restrict p ↔ r ∈ t ∧ p r = true := List.mem_filter

section Keys
variable [DecidableEq κ]

theorem filter_key {l : List ρ} (h : (l.map key).Nodup) {r : ρ} (hr : r ∈ l) :
    l.filter (fun q => key q == key r) = [r] := by
  induction l with
  | nil => cases hr
  | cons q rest ih =>
    rw [List.map_cons, List.nodup_cons] at h
    have others (hq : key q = key r) : rest.filter (fun q => key q == key r) = [] := by
      refine List.filter_eq_nil_iff.mpr fun x hx he => h.1 ?_
      rw [hq, ← of_decide_eq_true he]
      exact List.mem_map_of_mem hx
    by_cases hq : key q = key r
    · have hqr : q = r := by
        rcases List.mem_cons.mp hr with rfl | hmem
        · rfl
        · exact absurd (hq ▸ List.mem_map_of_mem hmem) h.1
      rw [List.filter_cons_of_pos (by simpa using hq), others hq, hqr]
    · rcases List.mem_cons.mp hr with rfl | hmem
      · exact absurd rfl hq
      · rw [List.filter_cons_of_neg (by simpa using hq), ih h.2 hmem]

/-- Among the selected rows a key is found once, if its row is selected. -/
theorem filter_select (t : Table ρ) (p : ρ → Bool) {r : ρ} (hr : r ∈ t) :
    (t.select p).filter (fun q => key q == key r) = if p r then [r] else [] := by
  unfold select
  rw [List.filter_comm, filter_key t.distinct hr]
  cases hp : p r <;> simp [hp]

/-- The row with a key. -/
def get? (t : Table ρ) (k : κ) : Option ρ := t.first (fun r => key r == k)

theorem get?_mem {t : Table ρ} {k : κ} {r : ρ} (h : t.get? k = some r) : r ∈ t :=
  (first_some h).1

theorem get?_key {t : Table ρ} {k : κ} {r : ρ} (h : t.get? k = some r) : key r = k := by
  simpa using (first_some h).2

theorem get?_of_mem {t : Table ρ} {r : ρ} (h : r ∈ t) : t.get? (key r) = some r := by
  cases hf : t.get? (key r) with
  | none => simpa using first_none hf h
  | some r' => rw [eq_of_key h (get?_mem hf) (get?_key hf).symm]

theorem get?_eq_some {t : Table ρ} {k : κ} {r : ρ} : t.get? k = some r ↔ r ∈ t ∧ key r = k :=
  ⟨fun h => ⟨get?_mem h, get?_key h⟩, fun ⟨h, hk⟩ => hk ▸ get?_of_mem h⟩

/-- A row is absent when no row has its key. -/
theorem get?_eq_none {t : Table ρ} {k : κ} : t.get? k = none ↔ ∀ r ∈ t, key r ≠ k := by
  constructor
  · intro h r hr he
    rw [← he, get?_of_mem hr] at h
    cases h
  · intro h
    cases hf : t.get? k with
    | none => rfl
    | some r => exact absurd (get?_key hf) (h r (get?_mem hf))

/-! ### Updates -/

/-- A row after an update addressed to the key `k`: the primary key never moves, so an update that
would move it does nothing. -/
def amend (k : κ) (f : ρ → ρ) (r : ρ) : ρ := if key r = k ∧ key (f r) = k then f r else r

theorem amend_of_ne {k : κ} {r : ρ} (f : ρ → ρ) (h : key r ≠ k) : amend k f r = r := by
  simp [amend, h]

theorem amend_of_key {k : κ} {r : ρ} {f : ρ → ρ} (h : key r = k) (hf : key (f r) = key r) :
    amend k f r = f r := by
  simp [amend, h, hf]

@[simp] theorem key_amend (k : κ) (f : ρ → ρ) (r : ρ) : key (amend k f r) = key r := by
  unfold amend
  split
  · next h => rw [h.1, h.2]
  · rfl

/-- Rewrite the row with a key. Where no row has it, nothing happens, as in the database. -/
def update (t : Table ρ) (k : κ) (f : ρ → ρ) : Table ρ where
  rows := t.rows.map (amend k f)
  distinct := by
    rw [List.map_map]
    have : key ∘ amend k f = (key : ρ → κ) := funext (key_amend k f)
    rw [this]
    exact t.distinct

theorem mem_update {t : Table ρ} {k : κ} {f : ρ → ρ} {r' : ρ} :
    r' ∈ t.update k f ↔ ∃ r ∈ t, amend k f r = r' :=
  List.mem_map

/-- The rows after an update of a row that is there. -/
theorem mem_update_of_get {t : Table ρ} {k : κ} {f : ρ → ρ} {r r' : ρ} (h : t.get? k = some r)
    (hf : key (f r) = key r) : r' ∈ t.update k f ↔ r' ∈ t ∧ key r' ≠ k ∨ r' = f r := by
  have hk := get?_key h
  rw [mem_update]
  constructor
  · rintro ⟨q, hq, rfl⟩
    by_cases hqk : key q = k
    · have : q = r := eq_of_key hq (get?_mem h) (hqk.trans hk.symm)
      exact Or.inr (this ▸ amend_of_key hqk (this ▸ hf))
    · exact Or.inl (by rw [amend_of_ne f hqk]; exact ⟨hq, hqk⟩)
  · rintro (⟨hr', hne⟩ | rfl)
    · exact ⟨r', hr', amend_of_ne f hne⟩
    · exact ⟨r, get?_mem h, amend_of_key hk hf⟩

/-- A property of every row survives an update that establishes it of the row it writes. -/
theorem forall_update {t : Table ρ} {k : κ} {f : ρ → ρ} {P : ρ → Prop} (h : ∀ r ∈ t, P r)
    (hf : ∀ r ∈ t, key r = k → key (f r) = k → P (f r)) : ∀ r ∈ t.update k f, P r := by
  intro r' hr'
  obtain ⟨r, hr, rfl⟩ := mem_update.mp hr'
  unfold amend
  split
  · next hk => exact hf r hr hk.1 hk.2
  · exact h r hr

/-- Two updates that agree on the row with the key. -/
theorem update_congr {t : Table ρ} {k : κ} {f g : ρ → ρ} (h : ∀ r, t.get? k = some r → f r = g r) :
    t.update k f = t.update k g := by
  refine ext (List.map_congr_left fun r hr => ?_)
  by_cases hk : key r = k
  · unfold amend
    rw [h r (hk ▸ get?_of_mem hr)]
  · rw [amend_of_ne f hk, amend_of_ne g hk]

/-- Writing back what a row holds changes nothing. -/
theorem update_self {t : Table ρ} {k : κ} {f : ρ → ρ} {r : ρ} (h : t.get? k = some r)
    (hf : f r = r) : t.update k f = t := by
  have hrow : ∀ q ∈ t.rows, amend k f q = q := by
    intro q hq
    by_cases hqk : key q = k
    · have : q = r := eq_of_key hq (get?_mem h) (hqk.trans (get?_key h).symm)
      rw [this, amend_of_key (get?_key h) (by rw [hf]), hf]
    · exact amend_of_ne f hqk
  have : (t.update k f).rows = t.rows := by
    show t.rows.map (amend k f) = t.rows
    rw [List.map_congr_left hrow, List.map_id']
  cases t
  simp only [update] at this ⊢
  simp only [this]

theorem get?_update_same {t : Table ρ} {k : κ} {f : ρ → ρ} {r : ρ} (h : t.get? k = some r)
    (hf : key (f r) = key r) : (t.update k f).get? k = some (f r) := by
  have hk := get?_key h
  refine get?_eq_some.mpr ⟨mem_update.mpr ⟨r, get?_mem h, amend_of_key hk hf⟩, ?_⟩
  rw [hf, hk]

/-- What a lookup of the updated key finds, whether or not there is a row. -/
theorem get?_update_self (t : Table ρ) (k : κ) {f : ρ → ρ} (hf : ∀ r, key (f r) = key r) :
    (t.update k f).get? k = (t.get? k).map f := by
  cases hg : t.get? k with
  | some r => exact get?_update_same hg (hf r)
  | none =>
    refine get?_eq_none.mpr fun r' hr' he => ?_
    obtain ⟨r, hr, rfl⟩ := mem_update.mp hr'
    rw [key_amend] at he
    exact get?_eq_none.mp hg r hr he

theorem get?_update_of_ne {t : Table ρ} {k k' : κ} (f : ρ → ρ) (h : k' ≠ k) :
    (t.update k f).get? k' = t.get? k' := by
  cases hg : t.get? k' with
  | none =>
    refine get?_eq_none.mpr fun r' hr' he => ?_
    obtain ⟨r, hr, rfl⟩ := mem_update.mp hr'
    rw [key_amend] at he
    exact get?_eq_none.mp hg r hr he
  | some r =>
    have hk := get?_key hg
    exact get?_eq_some.mpr
      ⟨mem_update.mpr ⟨r, get?_mem hg, amend_of_ne f (by rw [hk]; exact h)⟩, hk⟩

/-- Rewrite every row. -/
def each (t : Table ρ) (f : ρ → ρ) : Table ρ where
  rows := t.rows.map (fun r => amend (key r) f r)
  distinct := by
    rw [List.map_map]
    have : (key ∘ fun r => amend (key r) f r) = (key : ρ → κ) := funext fun r => key_amend _ f r
    rw [this]
    exact t.distinct

theorem get?_each (t : Table ρ) {f : ρ → ρ} (hf : ∀ r, key (f r) = key r) (k : κ) :
    (t.each f).get? k = (t.get? k).map f := by
  have hrow (r : ρ) : amend (key r) f r = f r := amend_of_key rfl (hf r)
  cases hg : t.get? k with
  | none =>
    refine get?_eq_none.mpr fun r' hr' he => ?_
    obtain ⟨r, hr, rfl⟩ := List.mem_map.mp hr'
    rw [key_amend] at he
    exact get?_eq_none.mp hg r hr he
  | some r =>
    have hr := get?_eq_some.mp hg
    exact get?_eq_some.mpr ⟨List.mem_map.mpr ⟨r, hr.1, hrow r⟩, (hf r).trans hr.2⟩

theorem mem_each {t : Table ρ} {f : ρ → ρ} (hf : ∀ r, key (f r) = key r) {r' : ρ} :
    r' ∈ t.each f ↔ ∃ r ∈ t, f r = r' := by
  have hrow (r : ρ) : amend (key r) f r = f r := amend_of_key rfl (hf r)
  show r' ∈ t.rows.map (fun r => amend (key r) f r) ↔ _
  simp only [List.mem_map, hrow, mem_rows]

/-! ### Inserts -/

/-- Add a row behind all others; a key already present violates the primary key, and the table is
left as it is. -/
def insert (t : Table ρ) (r : ρ) : Option (Table ρ) :=
  if h : key r ∈ t.rows.map key then none
  else some ⟨t.rows ++ [r], by
    rw [List.map_append, List.nodup_append]
    refine ⟨t.distinct, by simp, fun a ha b hb => ?_⟩
    rw [List.map_singleton, List.mem_singleton] at hb
    rw [hb]
    exact fun he => h (he ▸ ha)⟩

theorem insert_some {t t' : Table ρ} {r : ρ} (h : t.insert r = some t') :
    t'.rows = t.rows ++ [r] ∧ ∀ r' ∈ t, key r' ≠ key r := by
  unfold insert at h
  split at h
  · cases h
  · next hk =>
    cases h
    exact ⟨rfl, fun r' hr' he => hk (List.mem_map.mpr ⟨r', hr', he⟩)⟩

theorem mem_insert {t t' : Table ρ} {r r' : ρ} (h : t.insert r = some t') :
    r' ∈ t' ↔ r' ∈ t ∨ r' = r := by
  show r' ∈ t'.rows ↔ _
  rw [(insert_some h).1, List.mem_append, List.mem_singleton]
  rfl

theorem insert_new {t : Table ρ} {r : ρ} (h : t.get? (key r) = none) : ∃ t', t.insert r = some t' := by
  have hkey : key r ∉ t.rows.map key := by
    intro hmem
    obtain ⟨q, hq, he⟩ := List.mem_map.mp hmem
    exact get?_eq_none.mp h q hq he
  unfold insert
  rw [dif_neg hkey]
  exact ⟨_, rfl⟩

theorem get?_insert_same {t t' : Table ρ} {r : ρ} (h : t.insert r = some t') :
    t'.get? (key r) = some r :=
  get?_of_mem ((mem_insert h).mpr (Or.inr rfl))

theorem get?_insert_of_ne {t t' : Table ρ} {r : ρ} {k : κ} (h : t.insert r = some t')
    (hk : k ≠ key r) : t'.get? k = t.get? k := by
  cases hg : t.get? k with
  | some q => exact get?_eq_some.mpr ⟨(mem_insert h).mpr (Or.inl (get?_mem hg)), get?_key hg⟩
  | none =>
    refine get?_eq_none.mpr fun q hq he => ?_
    rcases (mem_insert h).mp hq with hq | rfl
    · exact get?_eq_none.mp hg q hq he
    · exact hk he.symm

/-- Add rows one after the other, all of them or none. -/
def insertAll (t : Table ρ) : List ρ → Option (Table ρ)
  | [] => some t
  | r :: rest => (t.insert r).bind (insertAll · rest)

theorem mem_insertAll {t t' : Table ρ} {l : List ρ} {r : ρ} (h : t.insertAll l = some t') :
    r ∈ t' ↔ r ∈ t ∨ r ∈ l := by
  induction l generalizing t with
  | nil =>
    cases h
    simp
  | cons q rest ih =>
    obtain ⟨t₁, hinsert, hrest⟩ := Option.bind_eq_some_iff.mp h
    rw [ih hrest, mem_insert hinsert, List.mem_cons]
    tauto

/-! ### Columns

`f` reads columns of a row. -/

variable {γ : Type}

/-- The same rows, as far as these columns go, each found under the same key. -/
def Alike (f : ρ → γ) (t t' : Table ρ) : Prop := ∀ k, (t'.get? k).map f = (t.get? k).map f

/-- Rows stay, with these columns. New ones may have come. -/
def Keeps (f : ρ → γ) (t t' : Table ρ) : Prop :=
  ∀ k r, t.get? k = some r → ∃ r', t'.get? k = some r' ∧ f r' = f r

/-- No two rows agree in these columns: a unique constraint over them. -/
def Once (f : ρ → γ) (t : Table ρ) : Prop := ∀ r ∈ t, ∀ r' ∈ t, f r = f r' → r = r'

section Columns
variable {f : ρ → γ} {t t' t'' : Table ρ}

theorem Alike.refl (f : ρ → γ) (t : Table ρ) : Alike f t t := fun _ => rfl

theorem Keeps.refl (f : ρ → γ) (t : Table ρ) : Keeps f t t := fun _ r h => ⟨r, h, rfl⟩

theorem Keeps.trans (h : Keeps f t t') (h' : Keeps f t' t'') : Keeps f t t'' := by
  intro k r hr
  obtain ⟨r', hr', hf⟩ := h k r hr
  obtain ⟨r'', hr'', hf'⟩ := h' k r' hr'
  exact ⟨r'', hr'', hf'.trans hf⟩

theorem Alike.found (h : Alike f t t') {k : κ} {r' : ρ} (hr' : t'.get? k = some r') :
    ∃ r, t.get? k = some r ∧ f r = f r' := by
  have hk := h k
  rw [hr'] at hk
  exact Option.map_eq_some_iff.mp hk.symm

/-- Some of the columns. -/
theorem Alike.comp {δ : Type} (h : Alike f t t') (g : γ → δ) : Alike (fun r => g (f r)) t t' := by
  intro k
  have hk := congrArg (Option.map g) (h k)
  rw [Option.map_map, Option.map_map] at hk
  exact hk

theorem Alike.keeps (h : Alike f t t') : Keeps f t t' := by
  intro k r hr
  have hk := h k
  rw [hr] at hk
  exact Option.map_eq_some_iff.mp hk

theorem Alike.once (h : Alike f t t') (ht : Once f t) : Once f t' := by
  intro r hr r' hr' heq
  obtain ⟨q, hq, hf⟩ := h.found (get?_of_mem hr)
  obtain ⟨q', hq', hf'⟩ := h.found (get?_of_mem hr')
  have hsame := ht q (get?_mem hq) q' (get?_mem hq') (hf.trans (heq.trans hf'.symm))
  exact eq_of_key hr hr' ((get?_key hq).symm.trans ((congrArg key hsame).trans (get?_key hq')))

/-- An update that leaves the columns. -/
theorem alike_update (k : κ) {g : ρ → ρ} (hg : ∀ r, f (g r) = f r) : Alike f t (t.update k g) := by
  intro k'
  have hamend (r : ρ) : f (amend k g r) = f r := by
    unfold amend
    split
    · exact hg r
    · rfl
  cases hr : t.get? k' with
  | none =>
    have hnone : (t.update k g).get? k' = none := by
      refine get?_eq_none.mpr fun r' hr' he => ?_
      obtain ⟨r, hmem, rfl⟩ := mem_update.mp hr'
      rw [key_amend] at he
      exact get?_eq_none.mp hr r hmem he
    rw [hnone]
  | some r =>
    have hsome : (t.update k g).get? k' = some (amend k g r) :=
      get?_eq_some.mpr ⟨mem_update.mpr ⟨r, get?_mem hr, rfl⟩, (key_amend k g r).trans (get?_key hr)⟩
    rw [hsome]
    exact congrArg some (hamend r)

theorem keeps_insert {r : ρ} (h : t.insert r = some t') : Keeps f t t' := by
  intro k q hq
  refine ⟨q, ?_, rfl⟩
  rw [get?_insert_of_ne h, hq]
  rintro rfl
  exact (insert_some h).2 q (get?_mem hq) (get?_key hq)

/-- A row whose columns are new. -/
theorem once_insert {r : ρ} (h : t.insert r = some t') (hnew : ∀ q ∈ t, f q ≠ f r) (ht : Once f t) :
    Once f t' := by
  intro q hq q' hq' heq
  rcases (mem_insert h).mp hq with hq | rfl
  · rcases (mem_insert h).mp hq' with hq' | rfl
    · exact ht q hq q' hq' heq
    · exact absurd heq (hnew q hq)
  · rcases (mem_insert h).mp hq' with hq' | rfl
    · exact absurd heq.symm (hnew q' hq')
    · rfl

end Columns

end Keys
end Table

/-- The insert of a row that clashes with none. -/
def insertUnless {ρ κ : Type} [Keyed ρ κ] [DecidableEq κ] (clashes : ρ → ρ → Bool) (t : Table ρ)
    (r : ρ) : Option (Table ρ) :=
  if t.rows.any (clashes r) then none else t.insert r

theorem insertUnless_some {ρ κ : Type} [Keyed ρ κ] [DecidableEq κ] {clashes : ρ → ρ → Bool}
    {t t' : Table ρ} {r : ρ} (h : insertUnless clashes t r = some t') :
    (∀ q ∈ t, clashes r q = false) ∧ t.insert r = some t' := by
  unfold insertUnless at h
  split at h
  · cases h
  · next hclash =>
    refine ⟨fun q hq => ?_, h⟩
    simp only [List.any_eq_true, not_exists, not_and, Bool.not_eq_true] at hclash
    exact hclash q hq

end PveMaster
