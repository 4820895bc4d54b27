import PveMaster.Core
import PveMaster.Foundation.Like
import PveMaster.Foundation.Paging
import PveMaster.Foundation.Table
import PveMaster.Foundation.Text
import Mathlib.Data.String.Basic

/-! The directory of organizations: what a search finds, in which order, and on which page. -/
namespace PveMaster.Directory
open Paging

/-! ### Code -/

/-- The row of an organization, as `OrganizationResponse` copies it. -/
structure OrganizationResponse where
  id : Uuid
  name : String
  isActive : Bool
  createdAt : Instant
  updatedAt : Instant
  version : Nat
  deriving DecidableEq, Repr

instance : Keyed OrganizationResponse Uuid := ⟨OrganizationResponse.id⟩

/-- `%`, `_` and `ESCAPE '\'`. -/
def signs : Like.Signs Char := ⟨'%', '_', '\\', by decide⟩

/-- What the database does with texts: their lower case, which `ILIKE` compares, and their order, in which
two different texts are never equal. -/
structure Collation where
  lower : Char → List Char
  fixed : signs.Fixed lower
  Before : String → String → Prop
  decidable : DecidableRel Before
  order : IsStrictTotalOrder String Before

instance (c : Collation) : DecidableRel c.Before := c.decidable

instance (c : Collation) : IsStrictTotalOrder String c.Before := c.order

/-- `s ILIKE pattern ESCAPE '\'`. -/
def Collation.ilike (c : Collation) (s pattern : List Char) : Except Exn Bool :=
  orRaise (Like.like signs (pattern.flatMap c.lower) (s.flatMap c.lower)) .dataError

inductive StatusFilter where
  | active
  | inactive
  | all
  deriving DecidableEq, Repr

inductive SortOrder where
  | newest
  | oldest
  | name
  deriving DecidableEq, Repr

def StatusFilter.admits : StatusFilter → Bool → Bool
  | .active, isActive => isActive
  | .inactive, isActive => !isActive
  | .all, _ => true

/-- `s.replace(c, text)`. -/
def replaceChar (c : Char) (text s : List Char) : List Char := s.flatMap fun d => if d = c then text else [d]

def escapedQuery (q : List Char) : List Char :=
  replaceChar '_' ['\\', '_'] (replaceChar '%' ['\\', '%'] (replaceChar '\\' ['\\', '\\'] q))

/-- `q.strip() if q else ""`. -/
def normalizedQuery (q : Option String) : List Char :=
  match q with
  | some q => (strip q).toList
  | none => []

/-- The conditions of the query, of one row. -/
def condition (c : Collation) (q : Option String) (status : StatusFilter) (o : OrganizationResponse) : Except Exn Bool := do
  if status.admits o.isActive then
    if normalizedQuery q = [] then
      return true
    else
      let pattern := '%' :: (escapedQuery (normalizedQuery q) ++ ['%'])
      let byName ← c.ilike o.name.toList pattern
      if byName then return true else c.ilike (Text.uuid o.id) pattern
  else return false

/-- `WHERE`. -/
def selected (keep : OrganizationResponse → Except Exn Bool) : List OrganizationResponse → Except Exn (List OrganizationResponse)
  | [] => return []
  | o :: rest => do
    let kept ← keep o
    let more ← selected keep rest
    return if kept then o :: more else more

/-- `ORDER BY`, by the identifier in the end. -/
def SortOrder.sorted (c : Collation) (organizations : List OrganizationResponse) : SortOrder → List OrganizationResponse
  | .name => Paging.sorted (Prod.Lex c.Before (· < ·)) (fun o => (o.name, o.id)) organizations
  | .oldest => Paging.sorted (Prod.Lex (· < ·) (· < ·)) (fun o => (o.createdAt, o.id)) organizations
  | .newest => Paging.sorted (Prod.Lex (· > ·) (· < ·)) (fun o => (o.createdAt, o.id)) organizations

/-- `list_organizations`, with the table as it is counted and as it is listed. -/
def listOrganizations (c : Collation) (principal : Principal) (counted listed : Table OrganizationResponse)
    (q : Option String) (status : StatusFilter) (sort : SortOrder) (limit : Option Nat) (offset : Nat) :
    Except Exn (List OrganizationResponse × Nat) := do
  requireServiceRole principal [.superAdmin, .operator]
  let total ← selected (condition c q status) counted.rows
  let organizations ← selected (condition c q status) listed.rows
  let organizations := sort.sorted c organizations
  let organizations := if offset = 0 then organizations else organizations.drop offset
  let organizations :=
    match limit with
    | some limit => organizations.take limit
    | none => organizations
  return (organizations, total.length)

/-! ### What is found -/

theorem replaceChar_flatMap (c : Char) (text s : List Char) (f : Char → List Char) :
    replaceChar c text (s.flatMap f) = s.flatMap fun d => replaceChar c text (f d) := by
  unfold replaceChar
  rw [List.flatMap_assoc]

/-- The replacements, one after the other, escape every sign once. -/
theorem escapedQuery_eq (q : List Char) : escapedQuery q = Like.quoted signs q := by
  unfold escapedQuery
  rw [show replaceChar '\\' ['\\', '\\'] q = q.flatMap fun d => if d = '\\' then ['\\', '\\'] else [d] from rfl,
    replaceChar_flatMap, replaceChar_flatMap]
  refine List.flatMap_congr fun d _ => ?_
  by_cases hescape : d = '\\'
  · subst hescape
    decide
  · by_cases hmany : d = '%'
    · subst hmany
      decide
    · by_cases hone : d = '_'
      · subst hone
        decide
      · simp [replaceChar, Like.Signs.isSign, signs, hescape, hmany, hone]

/-- **A pattern** finds the texts that contain the query, in whatever case. -/
theorem ilike_contains (c : Collation) (q s : List Char) :
    c.ilike s ('%' :: (escapedQuery q ++ ['%'])) = .ok (decide (q.flatMap c.lower <:+: s.flatMap c.lower)) := by
  have hsign : c.lower '%' = ['%'] := c.fixed.sign '%' (by decide)
  have hpattern : ('%' :: (escapedQuery q ++ ['%'])).flatMap c.lower =
      signs.many :: (Like.quoted signs (q.flatMap c.lower) ++ [signs.many]) := by
    rw [escapedQuery_eq, List.flatMap_cons, List.flatMap_append, Like.flatMap_quoted c.fixed]
    simp [hsign, signs]
  rw [Collation.ilike, hpattern, Like.like_contains]
  rfl

/-- A name or an identifier that contains what is looked for. -/
def Contains (c : Collation) (q : Option String) (o : OrganizationResponse) : Prop :=
  (normalizedQuery q).flatMap c.lower <:+: o.name.toList.flatMap c.lower ∨
    (normalizedQuery q).flatMap c.lower <:+: (Text.uuid o.id).flatMap c.lower

instance (c : Collation) (q : Option String) (o : OrganizationResponse) : Decidable (Contains c q o) :=
  inferInstanceAs (Decidable (_ ∨ _))

theorem condition_eq (c : Collation) (q : Option String) (status : StatusFilter) (o : OrganizationResponse) :
    condition c q status o = .ok (status.admits o.isActive && decide (Contains c q o)) := by
  unfold condition
  cases status.admits o.isActive with
  | false => rfl
  | true =>
    by_cases hq : normalizedQuery q = []
    · have hcontains : Contains c q o := Or.inl (by simp [hq])
      simp [hq, hcontains]
    · simp only [if_true, if_neg hq, ilike_contains, Bool.true_and]
      unfold Contains
      by_cases hname : (normalizedQuery q).flatMap c.lower <:+: o.name.toList.flatMap c.lower <;> simp [hname] <;> rfl

theorem selected_eq {keep : OrganizationResponse → Except Exn Bool} {p : OrganizationResponse → Bool}
    (h : ∀ o, keep o = .ok (p o)) (rows : List OrganizationResponse) : selected keep rows = .ok (rows.filter p) := by
  induction rows with
  | nil => rfl
  | cons o rest ih =>
    simp only [selected, h, ih, List.filter_cons]
    rfl

/-! ### The order -/

/-- One organization before another in a listing. -/
def SortOrder.Before (sort : SortOrder) (c : Collation) (a b : OrganizationResponse) : Prop :=
  match sort with
  | .name => c.Before a.name b.name ∨ a.name = b.name ∧ a.id < b.id
  | .oldest => a.createdAt < b.createdAt ∨ a.createdAt = b.createdAt ∧ a.id < b.id
  | .newest => b.createdAt < a.createdAt ∨ a.createdAt = b.createdAt ∧ a.id < b.id

theorem perm_sorted (c : Collation) (sort : SortOrder) (l : List OrganizationResponse) : (sort.sorted c l).Perm l := by
  cases sort <;> exact Paging.perm_sorted l

theorem nodup_keys {κ : Type} {l : List OrganizationResponse} (f : OrganizationResponse → κ)
    (hl : (l.map OrganizationResponse.id).Nodup) : (l.map fun o => (f o, o.id)).Nodup := by
  have hids : (l.map fun o => (f o, o.id)).map Prod.snd = l.map OrganizationResponse.id := by
    rw [List.map_map]
    rfl
  exact List.Nodup.of_map Prod.snd (hids ▸ hl)

theorem pairwise_by {κ : Type} [DecidableEq κ] (R : κ → κ → Prop) [DecidableRel R] [IsStrictTotalOrder κ R] {l : List OrganizationResponse}
    (f : OrganizationResponse → κ) (hl : (l.map OrganizationResponse.id).Nodup) :
    (Paging.sorted (Prod.Lex R (· < ·)) (fun o => (f o, o.id)) l).Pairwise fun a b =>
      R (f a) (f b) ∨ f a = f b ∧ a.id < b.id := by
  refine List.Pairwise.imp ?_ (Paging.pairwise_sorted (nodup_keys f hl))
  intro a b h
  exact Prod.lex_iff.mp h

theorem pairwise_sorted (c : Collation) (sort : SortOrder) {l : List OrganizationResponse}
    (hl : (l.map OrganizationResponse.id).Nodup) : (sort.sorted c l).Pairwise (sort.Before c) := by
  cases sort with
  | name => exact pairwise_by c.Before OrganizationResponse.name hl
  | oldest => exact pairwise_by (· < ·) OrganizationResponse.createdAt hl
  | newest => exact pairwise_by (· > ·) OrganizationResponse.createdAt hl

/-! ### Listings -/

/-- What a search finds, in order. -/
def matching (c : Collation) (rows : Table OrganizationResponse) (q : Option String) (status : StatusFilter)
    (sort : SortOrder) : List OrganizationResponse :=
  sort.sorted c (rows.select fun o => status.admits o.isActive && decide (Contains c q o))

/-- Each answer is a part of it, and says how many there are. -/
theorem listOrganizations_eq (c : Collation) {principal : Principal} (hrole : principal.role ∈ [UserRole.superAdmin, .operator])
    (rows : Table OrganizationResponse) (q : Option String) (status : StatusFilter) (sort : SortOrder) (limit : Option Nat)
    (offset : Nat) : listOrganizations c principal rows rows q status sort limit offset =
      .ok (((matching c rows q status sort).drop offset).take (limit.getD (matching c rows q status sort).length),
        (matching c rows q status sort).length) := by
  have hselected := selected_eq (condition_eq c q status) rows.rows
  have hlength : (matching c rows q status sort).length =
      (rows.rows.filter fun o => status.admits o.isActive && decide (Contains c q o)).length :=
    (perm_sorted c sort _).length_eq
  have hdrop : (if offset = 0 then matching c rows q status sort else (matching c rows q status sort).drop offset) =
      (matching c rows q status sort).drop offset := by
    split
    · next h => rw [h, List.drop_zero]
    · rfl
  unfold listOrganizations requireServiceRole
  rw [if_pos hrole, hselected, hlength]
  show Except.ok (match limit with | some limit => _ | none => _, _) = _
  cases limit with
  | some limit => exact congrArg (fun l => Except.ok (List.take limit l, _)) hdrop
  | none =>
    refine congrArg (fun l => Except.ok (l, _)) (hdrop.trans (List.take_of_length_le ?_).symm)
    rw [List.length_drop, Option.getD_none, ← hlength]
    omega

/-- The organizations of an answer. -/
def items (r : Except Exn (List OrganizationResponse × Nat)) : List OrganizationResponse :=
  match r with
  | .ok answer => answer.1
  | .error _ => []

/-- **The directory**: a search lists, each once and in order, the organizations whose name or identifier contains the query
as it was typed, in whatever case; and the pages, up to the first that goes as far as the total, make up the list. -/
theorem directory_listed (c : Collation) {principal : Principal} (hrole : principal.role ∈ [UserRole.superAdmin, .operator])
    (rows : Table OrganizationResponse) (q : Option String) (status : StatusFilter) (sort : SortOrder) :
    ∃ all, (∀ o, o ∈ all ↔ o ∈ rows ∧ status.admits o.isActive = true ∧ Contains c q o) ∧ all.Pairwise (sort.Before c) ∧
      listOrganizations c principal rows rows q status sort none 0 = .ok (all, all.length) ∧
      ∀ size pages, all.length ≤ pages * size →
        (List.range pages).flatMap (fun k =>
          items (listOrganizations c principal rows rows q status sort (some size) (k * size))) = all := by
  refine ⟨matching c rows q status sort, fun o => ?_, ?_, ?_, fun size pages hall => ?_⟩
  · unfold matching
    rw [(perm_sorted c sort _).mem_iff, Table.mem_select, Bool.and_eq_true, decide_eq_true_iff]
  · exact pairwise_sorted c sort (rows.restrict _).distinct
  · rw [listOrganizations_eq c hrole, List.drop_zero, Option.getD_none, List.take_length]
  · have hpages : (fun k => items (listOrganizations c principal rows rows q status sort (some size) (k * size))) =
        fun k => page (matching c rows q status sort) size (k * size) := by
      funext k
      rw [listOrganizations_eq c hrole]
      rfl
    rw [hpages, flatMap_page, List.take_of_length_le hall]

/-- A database that knows one capital letter. -/
def plainCollation : Collation where
  lower c := if c = 'A' then ['a'] else [c]
  fixed :=
    { sign := fun c hc => by
        have hne : c ≠ 'A' := by
          rintro rfl
          exact absurd hc (by decide)
        rw [if_neg hne]
      other := fun c hc d hd => by
        split at hd
        · rw [List.mem_singleton.mp hd]
          decide
        · rw [List.mem_singleton.mp hd]
          exact hc }
  Before := (· < ·)
  decidable := inferInstance
  order := inferInstance

def twoNames : Table OrganizationResponse :=
  ⟨[⟨1, "A%b", true, 0, 0, 1⟩, ⟨2, "acb", true, 0, 0, 1⟩], by decide⟩

/-- A percent sign stands for itself, and its letter for the capital too. -/
theorem percent_listed : ∃ all : List OrganizationResponse, (∀ o, o ∈ all ↔ o ∈ twoNames ∧ StatusFilter.all.admits o.isActive = true ∧
      Contains plainCollation (some " a% ") o) ∧ all.map (·.id) = [1] := by
  let principal : Principal := ⟨1, "bob@pve", .operator, 0⟩
  have hrole : principal.role ∈ [UserRole.superAdmin, .operator] := by decide
  obtain ⟨all, hmem, -, hlisted, -⟩ := directory_listed plainCollation hrole
    twoNames (some " a% ") .all .name
  refine ⟨all, hmem, ?_⟩
  have hfound : listOrganizations plainCollation ⟨1, "bob@pve", .operator, 0⟩ twoNames twoNames (some " a% ") .all .name none 0 =
      .ok ([⟨1, "A%b", true, 0, 0, 1⟩], 1) := by decide +kernel
  rw [hfound] at hlisted
  cases hlisted
  rfl

end PveMaster.Directory
