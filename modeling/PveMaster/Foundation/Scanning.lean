import Mathlib.Data.List.Infix

/-! Backtracking scanners, as regular expressions are matched.

A scanner lists the ways it can match at the beginning of a text, the preferred
first, each with what it read and the rest. `search` is the leftmost match. A scanner
that has at most one way everywhere is *decisive*: its match is then known from a way
to take the text apart (`mem_*`), with no backtracking in it. -/
namespace PveMaster.Scanning

/-- The ways to match at the beginning of a text, the preferred one first, each with what it read
and the rest of the text. -/
abbrev Scanner (χ α : Type) := List χ → List (α × List χ)

namespace Scanner
variable {χ α β : Type}

/-- Match nothing, and read `a`. -/
def done (a : α) : Scanner χ α := fun text => [(a, text)]

/-- One scanner behind another, whose choice may depend on what the first has read. All ways of
the first are tried, in their order. -/
def andThen (s : Scanner χ α) (f : α → Scanner χ β) : Scanner χ β := fun text =>
  (s text).flatMap fun read => f read.1 read.2

/-- A character of a class. -/
def char (p : χ → Bool) : Scanner χ χ
  | [] => []
  | c :: rest => if p c then [(c, rest)] else []

/-- As many characters of a class as there are, then fewer, down to none: a greedy `*`. -/
def many (p : χ → Bool) : Scanner χ (List χ)
  | [] => [([], [])]
  | c :: rest =>
    if p c then ((many p rest).map fun read => (c :: read.1, read.2)) ++ [([], c :: rest)]
    else [([], c :: rest)]

/-- What a scanner matches, or nothing: a greedy `?`. -/
def optional (s : Scanner χ α) : Scanner χ (Option α) := fun text =>
  ((s text).map fun read => (some read.1, read.2)) ++ [(none, text)]

/-- `\b`, after a character that is given: the edge of a word. -/
def boundary (word : χ → Bool) (before : χ) : Scanner χ Unit := fun text =>
  if word before = text.head?.any word then [] else [((), text)]

@[simp] theorem done_andThen (a : α) (f : α → Scanner χ β) : (done a).andThen f = f a := by
  funext text
  exact List.flatMap_singleton _ _

theorem andThen_assoc {γ : Type} (s : Scanner χ α) (f : α → Scanner χ β) (g : β → Scanner χ γ) :
    (s.andThen f).andThen g = s.andThen fun a => (f a).andThen g := by
  funext text
  unfold andThen
  exact List.flatMap_assoc

/-! ### The ways to match -/

@[simp] theorem mem_done {a b : α} {text rest : List χ} :
    (b, rest) ∈ done a text ↔ b = a ∧ rest = text := by
  simp [done]

theorem mem_andThen {s : Scanner χ α} {f : α → Scanner χ β} {text rest : List χ} {b : β} :
    (b, rest) ∈ s.andThen f text ↔ ∃ a middle, (a, middle) ∈ s text ∧ (b, rest) ∈ f a middle := by
  unfold andThen
  rw [List.mem_flatMap]
  constructor
  · rintro ⟨⟨a, middle⟩, hread, hnext⟩
    exact ⟨a, middle, hread, hnext⟩
  · rintro ⟨a, middle, hread, hnext⟩
    exact ⟨(a, middle), hread, hnext⟩

theorem mem_char {p : χ → Bool} {text rest : List χ} {c : χ} :
    (c, rest) ∈ char p text ↔ text = c :: rest ∧ p c = true := by
  cases text with
  | nil => simp [char]
  | cons d l =>
    rw [List.cons.injEq]
    by_cases hd : p d = true
    · rw [char, if_pos hd, List.mem_singleton, Prod.mk.injEq]
      constructor
      · rintro ⟨rfl, rfl⟩
        exact ⟨⟨rfl, rfl⟩, hd⟩
      · rintro ⟨⟨rfl, rfl⟩, -⟩
        exact ⟨rfl, rfl⟩
    · rw [char, if_neg hd]
      constructor
      · intro h
        cases h
      · rintro ⟨⟨rfl, -⟩, hc⟩
        exact absurd hc hd

theorem mem_many {p : χ → Bool} {text rest run : List χ} :
    (run, rest) ∈ many p text ↔ text = run ++ rest ∧ ∀ c ∈ run, p c = true := by
  induction text generalizing run with
  | nil =>
    constructor
    · intro h
      obtain ⟨rfl, rfl⟩ := Prod.mk.inj (List.mem_singleton.mp h)
      exact ⟨rfl, by simp⟩
    · rintro ⟨h, -⟩
      obtain ⟨rfl, rfl⟩ := List.append_eq_nil_iff.mp h.symm
      exact List.mem_singleton_self _
  | cons c l ih =>
    -- the empty run is a way to match, whatever comes first
    have hnone : ([], c :: l) ∈ many p (c :: l) := by
      unfold many
      split
      · exact List.mem_append_right _ (List.mem_singleton_self _)
      · exact List.mem_singleton_self _
    constructor
    · intro h
      unfold many at h
      split at h
      · next hc =>
        rcases List.mem_append.mp h with h | h
        · obtain ⟨⟨run', rest'⟩, hmem, heq⟩ := List.mem_map.mp h
          obtain ⟨rfl, rfl⟩ := Prod.mk.inj heq
          obtain ⟨hl, hall⟩ := ih.mp hmem
          refine ⟨by rw [hl]; rfl, ?_⟩
          intro d hd
          rcases List.mem_cons.mp hd with rfl | hd
          · exact hc
          · exact hall d hd
        · obtain ⟨rfl, rfl⟩ := Prod.mk.inj (List.mem_singleton.mp h)
          exact ⟨rfl, by simp⟩
      · obtain ⟨rfl, rfl⟩ := Prod.mk.inj (List.mem_singleton.mp h)
        exact ⟨rfl, by simp⟩
    · rintro ⟨htext, hall⟩
      cases run with
      | nil =>
        rw [List.nil_append] at htext
        exact htext ▸ hnone
      | cons d run =>
        obtain ⟨rfl, hl⟩ := List.cons.inj htext
        have hread : (run, rest) ∈ many p l :=
          ih.mpr ⟨hl, fun e he => hall e (List.mem_cons_of_mem _ he)⟩
        unfold many
        rw [if_pos (hall c List.mem_cons_self)]
        exact List.mem_append_left _ (List.mem_map.mpr ⟨(run, rest), hread, rfl⟩)

theorem mem_optional {s : Scanner χ α} {text rest : List χ} {o : Option α} :
    (o, rest) ∈ optional s text ↔
      (∃ a, o = some a ∧ (a, rest) ∈ s text) ∨ (o = none ∧ rest = text) := by
  unfold optional
  rw [List.mem_append, List.mem_map, List.mem_singleton, Prod.mk.injEq]
  constructor
  · rintro (⟨⟨a, rest'⟩, hread, heq⟩ | h)
    · obtain ⟨rfl, rfl⟩ := Prod.mk.inj heq
      exact Or.inl ⟨a, rfl, hread⟩
    · exact Or.inr h
  · rintro (⟨a, rfl, hread⟩ | h)
    · exact Or.inl ⟨(a, rest), hread, rfl⟩
    · exact Or.inr h

theorem mem_boundary {word : χ → Bool} {before : χ} {text rest : List χ} (hword : word before = true) :
    ((), rest) ∈ boundary word before text ↔ rest = text ∧ text.head?.any word = false := by
  unfold boundary
  rw [hword]
  cases hnext : text.head?.any word with
  | true => simp
  | false => simp

/-! ### Scanners with one way to match -/

/-- Nothing is read where a character of the class comes first. -/
def FailsOn (s : Scanner χ α) (p : χ → Bool) : Prop := ∀ c rest, p c = true → s (c :: rest) = []

/-- At most one way to match, on every text, so there is nothing to go back to. -/
def Decisive (s : Scanner χ α) : Prop := ∀ text, (s text).length ≤ 1

theorem failsOn_char {p q : χ → Bool} (h : ∀ c, p c = true → q c = false) : (char q).FailsOn p := by
  intro c rest hc
  simp [char, h c hc]

theorem FailsOn.andThen {s : Scanner χ α} {p : χ → Bool} (h : s.FailsOn p) (f : α → Scanner χ β) :
    (s.andThen f).FailsOn p := by
  intro c rest hc
  unfold Scanner.andThen
  rw [h c rest hc]
  rfl

theorem many_of_neg {q : χ → Bool} {c : χ} (rest : List χ) (h : q c = false) :
    many q (c :: rest) = [([], c :: rest)] := by
  unfold many
  rw [if_neg (by simp [h])]

theorem FailsOn.many_andThen {p q : χ → Bool} {f : List χ → Scanner χ β}
    (hclass : ∀ c, p c = true → q c = false) (h : (f []).FailsOn p) : ((many q).andThen f).FailsOn p := by
  intro c rest hc
  unfold Scanner.andThen
  rw [many_of_neg rest (hclass c hc), List.flatMap_singleton]
  exact h c rest hc

theorem FailsOn.optional_andThen {s : Scanner χ α} {p : χ → Bool} {f : Option α → Scanner χ β}
    (hs : s.FailsOn p) (h : (f none).FailsOn p) : ((optional s).andThen f).FailsOn p := by
  intro c rest hc
  unfold Scanner.andThen optional
  rw [hs c rest hc, List.map_nil, List.nil_append, List.flatMap_singleton]
  exact h c rest hc

theorem decisive_done (a : α) : (done a : Scanner χ α).Decisive := fun _ => le_rfl

theorem decisive_char (p : χ → Bool) : (char p).Decisive := by
  intro text
  cases text with
  | nil => exact Nat.zero_le _
  | cons c rest =>
    by_cases hc : p c = true
    · rw [char, if_pos hc]
      exact le_rfl
    · rw [char, if_neg hc]
      exact Nat.zero_le _

theorem decisive_boundary (word : χ → Bool) (before : χ) : (boundary word before).Decisive := by
  intro text
  unfold boundary
  split
  · exact Nat.zero_le _
  · exact le_rfl

theorem Decisive.andThen {s : Scanner χ α} {f : α → Scanner χ β} (hs : s.Decisive)
    (hf : ∀ a, (f a).Decisive) : (s.andThen f).Decisive := by
  intro text
  unfold Scanner.andThen
  have hle := hs text
  cases hread : s text with
  | nil => exact Nat.zero_le _
  | cons read more =>
    rw [hread, List.length_cons] at hle
    have hmore : more = [] := List.length_eq_zero_iff.mp (by omega)
    rw [hmore, List.flatMap_singleton]
    exact hf read.1 read.2

/-- Only the longest run is followed by something. -/
theorem Decisive.many_andThen {p : χ → Bool} {f : List χ → Scanner χ β} (hf : ∀ run, (f run).Decisive)
    (hfails : ∀ run, (f run).FailsOn p) : ((many p).andThen f).Decisive := by
  intro text
  induction text generalizing f with
  | nil =>
    unfold Scanner.andThen many
    rw [List.flatMap_singleton]
    exact hf [] []
  | cons c l ih =>
    unfold Scanner.andThen
    by_cases hc : p c = true
    · have hrest := ih (f := fun run => f (c :: run)) (fun run => hf (c :: run)) fun run => hfails (c :: run)
      unfold many
      rw [if_pos hc, List.flatMap_append, List.flatMap_singleton, hfails [] c l hc, List.append_nil,
        List.flatMap_map]
      exact hrest
    · rw [many_of_neg l (by simpa using hc), List.flatMap_singleton]
      exact hf [] (c :: l)

/-- What is optional is not left out where it can be read. -/
theorem Decisive.optional_andThen {s : Scanner χ α} {p : χ → Bool} {f : Option α → Scanner χ β}
    (hs : (s.andThen fun a => f (some a)).Decisive) (hf : ∀ o, (f o).Decisive) (hnil : s [] = [])
    (hfirst : ∀ c rest, s (c :: rest) ≠ [] → p c = true) (hfails : (f none).FailsOn p) :
    ((optional s).andThen f).Decisive := by
  intro text
  unfold Scanner.andThen optional
  rw [List.flatMap_append, List.flatMap_singleton, List.flatMap_map]
  by_cases hread : s text = []
  · rw [hread, List.flatMap_nil, List.nil_append]
    exact hf none text
  · have hnone : f none text = [] := by
      cases text with
      | nil => exact absurd hnil hread
      | cons c rest => exact hfails c rest (hfirst c rest hread)
    rw [hnone, List.append_nil]
    exact hs text

theorem Decisive.head? {s : Scanner χ α} (hs : s.Decisive) {text : List χ} {read : α × List χ} :
    (s text).head? = some read ↔ read ∈ s text := by
  have hle := hs text
  cases hlist : s text with
  | nil => simp
  | cons first more =>
    rw [hlist, List.length_cons] at hle
    rw [List.length_eq_zero_iff.mp (show more.length = 0 by omega), List.head?_cons,
      List.mem_singleton, Option.some.injEq]
    exact eq_comm

/-! ### The leftmost match -/

/-- Where a text is first matched, and what is read there by the preferred way. -/
def search (s : Scanner χ α) : List χ → Option (Nat × α)
  | [] => (s []).head?.map fun read => (0, read.1)
  | c :: rest =>
    match (s (c :: rest)).head? with
    | some read => some (0, read.1)
    | none => (search s rest).map fun found => (found.1 + 1, found.2)

theorem search_here {s : Scanner χ α} {text : List χ} {read : α × List χ}
    (h : (s text).head? = some read) : search s text = some (0, read.1) := by
  cases text with
  | nil =>
    unfold search
    rw [h]
    rfl
  | cons c rest =>
    unfold search
    rw [h]

theorem search_cons {s : Scanner χ α} {c : χ} {rest : List χ} (h : s (c :: rest) = []) :
    search s (c :: rest) = (search s rest).map fun found => (found.1 + 1, found.2) := by
  rw [search, h]
  rfl

/-- A match is where it is found, and nowhere before. -/
theorem search_eq_some {s : Scanner χ α} {text : List χ} {n : Nat} {a : α} :
    search s text = some (n, a) ↔
      n ≤ text.length ∧ (∃ rest, (s (text.drop n)).head? = some (a, rest)) ∧
        ∀ m < n, s (text.drop m) = [] := by
  induction text generalizing n with
  | nil =>
    unfold search
    constructor
    · intro h
      obtain ⟨⟨b, rest⟩, hread, heq⟩ := Option.map_eq_some_iff.mp h
      obtain ⟨rfl, rfl⟩ := Prod.mk.inj heq
      exact ⟨le_rfl, ⟨rest, hread⟩, fun m hm => absurd hm (Nat.not_lt_zero m)⟩
    · rintro ⟨hn, ⟨rest, hread⟩, -⟩
      obtain rfl : n = 0 := Nat.le_zero.mp hn
      rw [List.drop_zero] at hread
      rw [hread]
      rfl
  | cons c l ih =>
    by_cases hc : s (c :: l) = []
    · rw [search_cons hc]
      constructor
      · intro h
        obtain ⟨⟨m, b⟩, hfound, heq⟩ := Option.map_eq_some_iff.mp h
        obtain ⟨rfl, rfl⟩ := Prod.mk.inj heq
        obtain ⟨hle, hread, hbefore⟩ := ih.mp hfound
        refine ⟨Nat.succ_le_succ hle, hread, ?_⟩
        intro k hk
        cases k with
        | zero => exact hc
        | succ k => exact hbefore k (Nat.lt_of_succ_lt_succ hk)
      · rintro ⟨hle, ⟨rest, hread⟩, hbefore⟩
        cases n with
        | zero =>
          rw [List.drop_zero, hc] at hread
          cases hread
        | succ n =>
          have hfound : search s l = some (n, a) :=
            ih.mpr ⟨Nat.le_of_succ_le_succ hle, ⟨rest, hread⟩,
              fun m hm => hbefore (m + 1) (Nat.succ_lt_succ hm)⟩
          rw [hfound]
          rfl
    · obtain ⟨read, more, hread⟩ := List.exists_cons_of_ne_nil hc
      have hhead : (s (c :: l)).head? = some read := by
        rw [hread]
        rfl
      rw [search_here hhead]
      constructor
      · intro h
        obtain ⟨rfl, rfl⟩ := Prod.mk.inj (Option.some.inj h)
        exact ⟨Nat.zero_le _, ⟨read.2, hhead⟩, fun m hm => absurd hm (Nat.not_lt_zero m)⟩
      · rintro ⟨-, ⟨rest, hrest⟩, hbefore⟩
        cases n with
        | zero =>
          rw [List.drop_zero, hhead] at hrest
          rw [Option.some.inj hrest]
        | succ n => exact absurd (hbefore 0 (Nat.succ_pos n)) hc

theorem search_eq_none {s : Scanner χ α} {text : List χ} :
    search s text = none ↔ ∀ m ≤ text.length, s (text.drop m) = [] := by
  induction text with
  | nil =>
    unfold search
    rw [Option.map_eq_none_iff, List.head?_eq_none_iff]
    constructor
    · intro h m hm
      obtain rfl : m = 0 := Nat.le_zero.mp hm
      exact h
    · intro h
      exact h 0 le_rfl
  | cons c l ih =>
    by_cases hc : s (c :: l) = []
    · rw [search_cons hc, Option.map_eq_none_iff, ih]
      constructor
      · intro h m hm
        cases m with
        | zero => exact hc
        | succ m => exact h m (Nat.le_of_succ_le_succ hm)
      · intro h m hm
        exact h (m + 1) (Nat.succ_le_succ hm)
    · obtain ⟨read, more, hread⟩ := List.exists_cons_of_ne_nil hc
      have hhead : (s (c :: l)).head? = some read := by
        rw [hread]
        rfl
      rw [search_here hhead]
      constructor
      · intro h
        cases h
      · intro h
        exact absurd (h 0 (Nat.zero_le _)) hc

/-- A search that starts later, yet not behind the match, finds the same match. -/
theorem search_drop {s : Scanner χ α} {text : List χ} {n k : Nat} {a : α}
    (h : search s text = some (n, a)) (hk : k ≤ n) : search s (text.drop k) = some (n - k, a) := by
  obtain ⟨hle, ⟨rest, hread⟩, hbefore⟩ := search_eq_some.mp h
  apply search_eq_some.mpr
  refine ⟨by rw [List.length_drop]; omega, ⟨rest, ?_⟩, ?_⟩
  · rw [List.drop_drop, Nat.add_sub_cancel' hk]
    exact hread
  · intro m hm
    rw [List.drop_drop]
    exact hbefore (k + m) (by omega)

theorem search_drop_none {s : Scanner χ α} {text : List χ} (hnil : s [] = [])
    (h : search s text = none) (k : Nat) : search s (text.drop k) = none := by
  apply search_eq_none.mpr
  intro m hm
  rw [List.drop_drop]
  by_cases hle : k + m ≤ text.length
  · exact search_eq_none.mp h (k + m) hle
  · rw [List.drop_eq_nil_of_le (by omega)]
    exact hnil

end Scanner

/-! ### Where a word occurs -/

section Occurrences
variable {χ : Type} [DecidableEq χ]

/-- The first place where a word begins in a text. -/
def indexOf (word : List χ) : List χ → Option Nat
  | [] => if word = [] then some 0 else none
  | c :: rest =>
    if word.isPrefixOf (c :: rest) then some 0 else (indexOf word rest).map (· + 1)

theorem indexOf_isSome {word text : List χ} : (indexOf word text).isSome ↔ word <:+: text := by
  induction text with
  | nil =>
    unfold indexOf
    split
    · next h => simp [h]
    · next h => simpa using h
  | cons c rest ih =>
    unfold indexOf
    rw [List.infix_cons_iff]
    split
    · next h => simp [List.isPrefixOf_iff_prefix.mp h]
    · next h =>
      rw [Option.isSome_map, ih]
      have hnot : ¬ word <+: c :: rest := fun hp => h (List.isPrefixOf_iff_prefix.mpr hp)
      simp [hnot]

/-- The word is where it begins. -/
theorem prefix_of_indexOf {word text : List χ} {i : Nat} (h : indexOf word text = some i) :
    word <+: text.drop i := by
  induction text generalizing i with
  | nil =>
    unfold indexOf at h
    split at h
    · next hw => simp [hw]
    · cases h
  | cons c rest ih =>
    unfold indexOf at h
    split at h
    · next hp =>
      obtain rfl := Option.some.inj h
      exact List.isPrefixOf_iff_prefix.mp hp
    · obtain ⟨j, hj, rfl⟩ := Option.map_eq_some_iff.mp h
      exact ih hj

/-- What follows does not change where a word first begins. -/
theorem indexOf_append {word text : List χ} {i : Nat} (h : indexOf word text = some i) (more : List χ) :
    indexOf word (text ++ more) = some i := by
  induction text generalizing i with
  | nil =>
    unfold indexOf at h
    split at h
    · next hw =>
      obtain rfl := Option.some.inj h
      cases more with
      | nil => simp [indexOf, hw]
      | cons c rest => simp [indexOf, hw]
    · cases h
  | cons c rest ih =>
    rw [List.cons_append]
    unfold indexOf at h ⊢
    split at h
    · next hp =>
      obtain rfl := Option.some.inj h
      have hlonger : word <+: c :: (rest ++ more) :=
        (List.isPrefixOf_iff_prefix.mp hp).trans (List.prefix_append (c :: rest) more)
      rw [if_pos (List.isPrefixOf_iff_prefix.mpr hlonger)]
    · next hp =>
      obtain ⟨j, hj, rfl⟩ := Option.map_eq_some_iff.mp h
      have hwithin : j + word.length ≤ rest.length := by
        have hle := (prefix_of_indexOf hj).length_le
        rw [List.length_drop] at hle
        by_cases hj' : j ≤ rest.length
        · omega
        · -- a word that begins behind the text would be empty, and begin at its start
          have hempty : word = [] := by
            have : word.length = 0 := by omega
            exact List.length_eq_zero_iff.mp this
          exact absurd (by rw [hempty]; rfl) hp
      have hlonger : ¬ word.isPrefixOf (c :: (rest ++ more)) = true := by
        intro hlong
        apply hp
        have hprefix := List.isPrefixOf_iff_prefix.mp hlong
        apply List.isPrefixOf_iff_prefix.mpr
        exact List.prefix_of_prefix_length_le hprefix
          (List.prefix_append (c :: rest) more) (by simp; omega)
      rw [if_neg hlonger, ih hj]
      rfl

end Occurrences

end PveMaster.Scanning
