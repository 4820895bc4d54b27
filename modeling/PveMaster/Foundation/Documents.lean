import Mathlib.Data.List.Basic

/-! Nested documents, and masking what stands under some of their keys.

A document is a scalar, a list or a tuple of documents, or a dictionary of them. `redact`
puts a mask in place of everything under a secret key and stores what is left. What is
found in a redacted document is known path by path: off the secret keys it is what was
there, redacted (`reaches_redact`), and under one it is the mask and nothing below
(`reaches_secret`). So documents that are alike off the secret keys (`Alike`) have one
redaction (`redact_alike`). -/
namespace PveMaster

/-- A nested document: scalars, lists, tuples, and dictionaries with entries in an order. -/
inductive Document (κ σ : Type) where
  | scalar (s : σ)
  | list (items : List (Document κ σ))
  | tuple (items : List (Document κ σ))
  | dict (entries : List (κ × Document κ σ))

namespace Document

variable {κ σ : Type}

/-- From a document to one of those directly in it: by a key of a dictionary, or by a place in a
list or a tuple. -/
inductive Step (κ : Type) where
  | key (k : κ)
  | index (i : Nat)
  deriving DecidableEq, Repr

/-- The documents directly inside. -/
def Child : Document κ σ → Step κ → Document κ σ → Prop
  | .list items, .index i, d => items[i]? = some d
  | .tuple items, .index i, d => items[i]? = some d
  | .dict entries, .key k, d => (k, d) ∈ entries
  | _, _, _ => False

/-- What stands at a path. A dictionary that has a key twice reaches either of its values. -/
def Reaches (d : Document κ σ) : List (Step κ) → Document κ σ → Prop
  | [], x => x = d
  | s :: path, x => ∃ c, d.Child s c ∧ c.Reaches path x

/-- A scalar has nothing inside. -/
theorem reaches_scalar {s : σ} {x : Document κ σ} {p : List (Step κ)} (h : (scalar s : Document κ σ).Reaches p x) :
    p = [] ∧ x = .scalar s := by
  cases p with
  | nil => exact ⟨rfl, h⟩
  | cons step p =>
    obtain ⟨c, hc, -⟩ := h
    cases step <;> exact hc.elim

/-- Induction over the documents inside. -/
theorem induction {P : Document κ σ → Prop} (scalar : ∀ s, P (.scalar s))
    (list : ∀ items, (∀ d ∈ items, P d) → P (.list items)) (tuple : ∀ items, (∀ d ∈ items, P d) → P (.tuple items))
    (dict : ∀ entries, (∀ e ∈ entries, P e.2) → P (.dict entries)) (d : Document κ σ) : P d :=
  @Document.rec κ σ P (fun items => ∀ d ∈ items, P d) (fun entries => ∀ e ∈ entries, P e.2) (fun e => P e.2)
    scalar list tuple dict
    (fun _ h => absurd h List.not_mem_nil)
    (fun _ _ hd hl _ h => (List.mem_cons.mp h).elim (fun heq => heq ▸ hd) (hl _))
    (fun _ h => absurd h List.not_mem_nil)
    (fun _ _ he hl _ h => (List.mem_cons.mp h).elim (fun heq => heq ▸ he) (hl _))
    (fun _ _ h => h) d

/-! ### Redaction -/

section Redaction
variable (secret : κ → Bool) (mask : σ) (store : σ → σ)

mutual

/-- A document with a mask in place of everything under a secret key, at any depth, its scalars as
they are stored and its tuples as lists. -/
def redact : Document κ σ → Document κ σ
  | .scalar s => .scalar (store s)
  | .list items => .list (redactItems items)
  | .tuple items => .list (redactItems items)
  | .dict entries => .dict (redactEntries entries)

def redactItems : List (Document κ σ) → List (Document κ σ)
  | [] => []
  | d :: rest => redact d :: redactItems rest

def redactEntries : List (κ × Document κ σ) → List (κ × Document κ σ)
  | [] => []
  | (k, d) :: rest => (k, if secret k then .scalar mask else redact d) :: redactEntries rest

end

/-- What becomes of the value of a key: the mask under a secret one, whatever the value is, and
the redacted value elsewhere. -/
def redactEntry (k : κ) (d : Document κ σ) : Document κ σ :=
  if secret k then .scalar mask else redact secret mask store d

variable {secret mask store}

theorem redactItems_eq (items : List (Document κ σ)) :
    redactItems secret mask store items = items.map (redact secret mask store) := by
  induction items with
  | nil => rfl
  | cons d rest ih => rw [redactItems, ih, List.map_cons]

theorem redactEntries_eq (entries : List (κ × Document κ σ)) :
    redactEntries secret mask store entries = entries.map fun e => (e.1, redactEntry secret mask store e.1 e.2) := by
  induction entries with
  | nil => rfl
  | cons e rest ih =>
    obtain ⟨k, d⟩ := e
    rw [redactEntries, ih, List.map_cons]
    rfl

@[simp] theorem redact_scalar (s : σ) : redact secret mask store (.scalar s : Document κ σ) = .scalar (store s) := by
  rw [redact]

@[simp] theorem redact_list (items : List (Document κ σ)) :
    redact secret mask store (.list items) = .list (items.map (redact secret mask store)) := by
  rw [redact, redactItems_eq]

@[simp] theorem redact_tuple (items : List (Document κ σ)) :
    redact secret mask store (.tuple items) = .list (items.map (redact secret mask store)) := by
  rw [redact, redactItems_eq]

@[simp] theorem redact_dict (entries : List (κ × Document κ σ)) :
    redact secret mask store (.dict entries) =
      .dict (entries.map fun e => (e.1, redactEntry secret mask store e.1 e.2)) := by
  rw [redact, redactEntries_eq]

/-! ### What is found in it -/

/-- The steps that lead under a secret key. -/
def Step.hides (secret : κ → Bool) : Step κ → Bool
  | .key k => secret k
  | .index _ => false

theorem child_redact {d x : Document κ σ} {s : Step κ} (hs : s.hides secret = false) :
    (redact secret mask store d).Child s x ↔ ∃ c, d.Child s c ∧ x = redact secret mask store c := by
  have found {items : List (Document κ σ)} {i : Nat} :
      (items.map (redact secret mask store))[i]? = some x ↔ ∃ c, items[i]? = some c ∧ x = redact secret mask store c := by
    rw [List.getElem?_map, Option.map_eq_some_iff]
    exact exists_congr fun c => and_congr_right fun _ => eq_comm
  cases d with
  | scalar v =>
    rw [redact_scalar]
    exact ⟨False.elim, fun ⟨_, h, _⟩ => h⟩
  | list items =>
    rw [redact_list]
    cases s with
    | index i => exact found
    | key k => exact ⟨False.elim, fun ⟨_, h, _⟩ => h⟩
  | tuple items =>
    rw [redact_tuple]
    cases s with
    | index i => exact found
    | key k => exact ⟨False.elim, fun ⟨_, h, _⟩ => h⟩
  | dict entries =>
    rw [redact_dict]
    cases s with
    | index i => exact ⟨False.elim, fun ⟨_, h, _⟩ => h⟩
    | key k =>
      have hkept (c : Document κ σ) : redactEntry secret mask store k c = redact secret mask store c :=
        if_neg (ne_true_of_eq_false hs)
      constructor
      · intro h
        obtain ⟨⟨k', c⟩, he, heq⟩ := List.mem_map.mp h
        cases heq
        exact ⟨c, he, hkept c⟩
      · rintro ⟨c, hc, rfl⟩
        exact List.mem_map.mpr ⟨(k, c), hc, by rw [hkept]⟩

/-- Off the secret keys there is what was there, redacted. -/
theorem reaches_redact {d x : Document κ σ} {p : List (Step κ)} (hp : ∀ s ∈ p, s.hides secret = false) :
    (redact secret mask store d).Reaches p x ↔ ∃ c, d.Reaches p c ∧ x = redact secret mask store c := by
  induction p generalizing d with
  | nil => exact ⟨fun h => ⟨d, rfl, h⟩, fun ⟨_, hc, hx⟩ => hc ▸ hx⟩
  | cons s p ih =>
    have hs := hp s List.mem_cons_self
    have ih {d : Document κ σ} := ih (d := d) fun t ht => hp t (List.mem_cons_of_mem s ht)
    constructor
    · rintro ⟨c', hc', h⟩
      obtain ⟨c, hc, rfl⟩ := (child_redact hs).mp hc'
      obtain ⟨y, hy, rfl⟩ := ih.mp h
      exact ⟨y, ⟨c, hc, hy⟩, rfl⟩
    · rintro ⟨y, ⟨c, hc, hy⟩, rfl⟩
      exact ⟨_, (child_redact hs).mpr ⟨c, hc, rfl⟩, ih.mpr ⟨y, hy, rfl⟩⟩

theorem child_secret {d x : Document κ σ} {k : κ} (hk : secret k = true)
    (h : (redact secret mask store d).Child (.key k) x) : x = .scalar mask := by
  cases d with
  | scalar v =>
    rw [redact_scalar] at h
    exact h.elim
  | list items =>
    rw [redact_list] at h
    exact h.elim
  | tuple items =>
    rw [redact_tuple] at h
    exact h.elim
  | dict entries =>
    rw [redact_dict] at h
    obtain ⟨⟨k', c⟩, -, heq⟩ := List.mem_map.mp h
    cases heq
    exact if_pos hk

/-- **Under a secret key there is the mask**, wherever the key stands, and nothing below it. -/
theorem reaches_secret {d x : Document κ σ} {p q : List (Step κ)} {k : κ} (hk : secret k = true)
    (h : (redact secret mask store d).Reaches (p ++ .key k :: q) x) : q = [] ∧ x = .scalar mask := by
  induction p generalizing d with
  | nil =>
    obtain ⟨c, hc, h⟩ := h
    have hmask := child_secret hk hc
    subst hmask
    exact reaches_scalar h
  | cons s p ih =>
    obtain ⟨c, hc, h⟩ := h
    cases hs : s.hides secret with
    | false =>
      obtain ⟨c', -, rfl⟩ := (child_redact hs).mp hc
      exact ih h
    | true =>
      cases s with
      | index i => cases hs
      | key k' =>
        have hmask := child_secret (k := k') hs hc
        subst hmask
        exact absurd (reaches_scalar h).1 (List.append_ne_nil_of_right_ne_nil p (List.cons_ne_nil _ _))

/-- **Redacting twice** is redacting once. -/
theorem redact_redact (hstore : ∀ s, store (store s) = store s) (d : Document κ σ) :
    redact secret mask store (redact secret mask store d) = redact secret mask store d := by
  induction d using Document.induction with
  | scalar s => rw [redact_scalar, redact_scalar, hstore]
  | list items ih | tuple items ih =>
    simp only [redact_list, redact_tuple, List.map_map]
    exact congrArg Document.list (List.map_congr_left ih)
  | dict entries ih =>
    simp only [redact_dict, List.map_map]
    refine congrArg Document.dict (List.map_congr_left fun e he => ?_)
    show (e.1, redactEntry secret mask store e.1 (redactEntry secret mask store e.1 e.2)) = _
    unfold redactEntry
    split
    · rfl
    · rw [ih e he]

/-! ### Documents that differ under secret keys -/

variable (secret)

mutual

/-- The same document, but for what stands under secret keys, where nothing is compared. -/
def Alike : Document κ σ → Document κ σ → Prop
  | .scalar s, .scalar s' => s = s'
  | .list items, .list items' => AlikeItems items items'
  | .tuple items, .tuple items' => AlikeItems items items'
  | .dict entries, .dict entries' => AlikeEntries entries entries'
  | _, _ => False

def AlikeItems : List (Document κ σ) → List (Document κ σ) → Prop
  | [], [] => True
  | d :: rest, d' :: rest' => Alike d d' ∧ AlikeItems rest rest'
  | _, _ => False

def AlikeEntries : List (κ × Document κ σ) → List (κ × Document κ σ) → Prop
  | [], [] => True
  | (k, d) :: rest, (k', d') :: rest' => k = k' ∧ (secret k = true ∨ Alike d d') ∧ AlikeEntries rest rest'
  | _, _ => False

end

variable {secret}

theorem redactItems_alike {items items' : List (Document κ σ)}
    (ih : ∀ d ∈ items, ∀ d', Alike secret d d' → redact secret mask store d = redact secret mask store d')
    (h : AlikeItems secret items items') :
    items.map (redact secret mask store) = items'.map (redact secret mask store) := by
  induction items generalizing items' with
  | nil =>
    cases items' with
    | nil => rfl
    | cons d' rest' => simp only [AlikeItems] at h
  | cons d rest ih' =>
    cases items' with
    | nil => simp only [AlikeItems] at h
    | cons d' rest' =>
      simp only [AlikeItems] at h
      rw [List.map_cons, List.map_cons, ih d List.mem_cons_self d' h.1,
        ih' (fun e he => ih e (List.mem_cons_of_mem d he)) h.2]

theorem redactEntries_alike {entries entries' : List (κ × Document κ σ)}
    (ih : ∀ e ∈ entries, ∀ d', Alike secret e.2 d' → redact secret mask store e.2 = redact secret mask store d')
    (h : AlikeEntries secret entries entries') :
    (entries.map fun e => (e.1, redactEntry secret mask store e.1 e.2)) =
      entries'.map fun e => (e.1, redactEntry secret mask store e.1 e.2) := by
  induction entries generalizing entries' with
  | nil =>
    cases entries' with
    | nil => rfl
    | cons e' rest' => simp only [AlikeEntries] at h
  | cons e rest ih' =>
    obtain ⟨k, d⟩ := e
    cases entries' with
    | nil => simp only [AlikeEntries] at h
    | cons e' rest' =>
      obtain ⟨k', d'⟩ := e'
      simp only [AlikeEntries] at h
      obtain ⟨rfl, hvalue, hrest⟩ := h
      have hentry : redactEntry secret mask store k d = redactEntry secret mask store k d' := by
        unfold redactEntry
        rcases hvalue with hk | hd
        · rw [if_pos hk, if_pos hk]
        · rw [ih (k, d) List.mem_cons_self d' hd]
      rw [List.map_cons, List.map_cons, hentry, ih' (fun e he => ih e (List.mem_cons_of_mem _ he)) hrest]

/-- **No interference**: what stands under secret keys has no influence. -/
theorem redact_alike (d d' : Document κ σ) (h : Alike secret d d') :
    redact secret mask store d = redact secret mask store d' := by
  induction d using Document.induction generalizing d' with
  | scalar s =>
    cases d' with
    | scalar s' =>
      simp only [Alike] at h
      rw [h]
    | _ => simp only [Alike] at h
  | list items ih =>
    cases d' with
    | list items' =>
      simp only [Alike] at h
      rw [redact_list, redact_list, redactItems_alike ih h]
    | _ => simp only [Alike] at h
  | tuple items ih =>
    cases d' with
    | tuple items' =>
      simp only [Alike] at h
      rw [redact_tuple, redact_tuple, redactItems_alike ih h]
    | _ => simp only [Alike] at h
  | dict entries ih =>
    cases d' with
    | dict entries' =>
      simp only [Alike] at h
      rw [redact_dict, redact_dict, redactEntries_alike ih h]
    | _ => simp only [Alike] at h

end Redaction

end Document
end PveMaster
