import Mathlib.Data.List.Basic
import Mathlib.Data.List.Infix

/-! Patterns with wildcards, as `LIKE` has them.

A pattern is read to a list of tokens; what follows an escape character stands for itself. A text whose
wildcards and escape characters are escaped, between two wildcards for any number of characters, matches
just what contains it (`like_contains`), and changing the case of a pattern first makes no difference if the
change leaves these characters alone (`flatMap_quoted`). -/
namespace PveMaster.Like

variable {α : Type}

/-- The characters with a meaning of their own: the two wildcards and the escape character, the
wildcard for any number of characters being another one than the escape. -/
structure Signs (α : Type) where
  many : α
  one : α
  escape : α
  many_ne : many ≠ escape

/-- What a pattern is made of: any number of characters, any one, or a character itself. -/
inductive Token (α : Type) where
  | many
  | one
  | char (c : α)

variable [DecidableEq α] (signs : Signs α)

/-- Whether a character has to be escaped to stand for itself. -/
def Signs.isSign (c : α) : Bool := c = signs.escape || c = signs.many || c = signs.one

/-- The tokens of a pattern, before or after an escape character. A pattern that ends with one is
refused. -/
def tokens : Bool → List α → Option (List (Token α))
  | false, [] => some []
  | true, [] => none
  | true, c :: rest => (tokens false rest).map (.char c :: ·)
  | false, c :: rest =>
    if c = signs.escape then tokens true rest
    else if c = signs.many then (tokens false rest).map (.many :: ·)
    else if c = signs.one then (tokens false rest).map (.one :: ·)
    else (tokens false rest).map (.char c :: ·)

/-- A text matches the tokens as a whole. -/
def Token.matches : List (Token α) → List α → Bool
  | [], s => s.isEmpty
  | .many :: p, s => s.tails.any (Token.matches p)
  | .one :: p, s =>
    match s with
    | [] => false
    | _ :: s => Token.matches p s
  | .char c :: p, s =>
    match s with
    | [] => false
    | d :: s => c == d && Token.matches p s

/-- `s LIKE pattern ESCAPE …`, or nothing for a pattern that is refused. -/
def like (pattern s : List α) : Option Bool := (tokens signs false pattern).map fun p => Token.matches p s

/-- A text with its signs escaped, so that it matches itself alone. -/
def quoted (q : List α) : List α := q.flatMap fun c => if signs.isSign c then [signs.escape, c] else [c]

variable {signs}

theorem isSign_false {c : α} (h : signs.isSign c = false) : c ≠ signs.escape ∧ c ≠ signs.many ∧ c ≠ signs.one := by
  simpa [Signs.isSign, and_assoc] using h

theorem tokens_quoted (q rest : List α) :
    tokens signs false (quoted signs q ++ rest) = (tokens signs false rest).map (q.map .char ++ ·) := by
  induction q with
  | nil => simp [quoted]
  | cons c q ih =>
    have hcons : quoted signs (c :: q) ++ rest =
        (if signs.isSign c then [signs.escape, c] else [c]) ++ (quoted signs q ++ rest) := by
      simp [quoted]
    rw [hcons]
    cases hc : signs.isSign c with
    | true =>
      simp only [if_true, List.cons_append, List.nil_append, tokens, ih, Option.map_map]
      rfl
    | false =>
      obtain ⟨hescape, hmany, hone⟩ := isSign_false hc
      simp only [Bool.false_eq_true, if_false, List.cons_append, List.nil_append, tokens, hescape, hmany, hone, ih,
        Option.map_map]
      rfl

theorem matches_chars (q : List α) (p : List (Token α)) (s : List α) :
    Token.matches (q.map .char ++ p) s = true ↔ ∃ t, s = q ++ t ∧ Token.matches p t = true := by
  induction q generalizing s with
  | nil => simp
  | cons c q ih =>
    cases s with
    | nil => simp [Token.matches]
    | cons d s =>
      simp only [List.map_cons, List.cons_append, Token.matches, Bool.and_eq_true, beq_iff_eq, ih, List.cons.injEq]
      constructor
      · rintro ⟨rfl, t, rfl, ht⟩
        exact ⟨t, ⟨rfl, rfl⟩, ht⟩
      · rintro ⟨t, ⟨rfl, rfl⟩, ht⟩
        exact ⟨rfl, t, rfl, ht⟩

theorem matches_many (s : List α) : Token.matches [.many] s = true :=
  List.any_eq_true.mpr ⟨[], (List.mem_tails _ _).mpr List.nil_suffix, rfl⟩

/-- **A text between two wildcards** is looked for as it is. -/
theorem like_contains (q s : List α) :
    like signs (signs.many :: (quoted signs q ++ [signs.many])) s = some (decide (q <:+: s)) := by
  have htokens : tokens signs false (signs.many :: (quoted signs q ++ [signs.many])) =
      some (.many :: (q.map .char ++ [.many])) := by
    simp [tokens, tokens_quoted, signs.many_ne]
  rw [like, htokens, Option.map_some]
  congr 1
  rw [Bool.eq_iff_iff, decide_eq_true_iff]
  constructor
  · intro h
    obtain ⟨t, ht, hmatch⟩ := List.any_eq_true.mp h
    obtain ⟨before, rfl⟩ := (List.mem_tails _ _).mp ht
    obtain ⟨after, rfl, -⟩ := (matches_chars q _ t).mp hmatch
    exact ⟨before, after, by simp⟩
  · rintro ⟨before, after, rfl⟩
    refine List.any_eq_true.mpr ⟨q ++ after, (List.mem_tails _ _).mpr ⟨before, by simp⟩, ?_⟩
    exact (matches_chars q _ _).mpr ⟨after, rfl, matches_many after⟩

/-- A change of characters that signs do not take part in: they stay, and no other character
becomes one. -/
structure Signs.Fixed (signs : Signs α) (f : α → List α) : Prop where
  sign : ∀ c, signs.isSign c = true → f c = [c]
  other : ∀ c, signs.isSign c = false → ∀ d ∈ f c, signs.isSign d = false

theorem quoted_plain {l : List α} (h : ∀ c ∈ l, signs.isSign c = false) : quoted signs l = l := by
  induction l with
  | nil => rfl
  | cons c l ih =>
    obtain ⟨hc, hl⟩ := List.forall_mem_cons.mp h
    simpa [quoted, hc] using ih hl

theorem flatMap_quoted {f : α → List α} (hf : signs.Fixed f) (q : List α) :
    (quoted signs q).flatMap f = quoted signs (q.flatMap f) := by
  induction q with
  | nil => rfl
  | cons c q ih =>
    have hleft : (quoted signs (c :: q)).flatMap f =
        (if signs.isSign c then [signs.escape, c] else [c]).flatMap f ++ (quoted signs q).flatMap f := by
      simp [quoted]
    have hright : quoted signs ((c :: q).flatMap f) = quoted signs (f c) ++ quoted signs (q.flatMap f) := by
      simp [quoted]
    rw [hleft, hright, ih]
    congr 1
    have hescape : signs.isSign signs.escape = true := by simp [Signs.isSign]
    cases hc : signs.isSign c with
    | true => simp [quoted, hf.sign c hc, hf.sign _ hescape, hc]
    | false => simp [quoted_plain (hf.other c hc)]

end PveMaster.Like
