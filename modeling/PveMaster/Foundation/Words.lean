import Mathlib

/-! Taking a text apart at white space, and putting it together again.

Two programs can mean different things by white space, and by splitting: `words` are the
runs without it, as Python's `split()` gives them, and `pieces` are what is left and right
of each run of it, as JavaScript's `split(/\s+/)` does. Words that are joined with one space are
found again (`words_join`) and lines that are joined with a line feed too (`lines_join`). -/
namespace PveMaster.Words

variable {α : Type} (space : α → Bool)

/-- Without the white space at both ends; what is between stays. -/
def trim (l : List α) : List α := (l.dropWhile space).rdropWhile space

/-- The runs without white space, none of them empty: Python's `split()`. -/
def words (l : List α) : List (List α) := (l.splitOnP space).filter fun w => !w.isEmpty

/-- What is between the runs of white space, `inRun` if the text begins in one: a run as a whole
separates two pieces. -/
def piecesFrom : Bool → List α → List (List α)
  | _, [] => [[]]
  | inRun, c :: rest =>
    if space c then (if inRun then piecesFrom true rest else [] :: piecesFrom true rest)
    else (piecesFrom false rest).modifyHead (c :: ·)

/-- JavaScript's `split(/\s+/)`: a run at an end of the text has an empty piece beyond it. -/
def pieces (l : List α) : List (List α) := piecesFrom space false l

/-- The parts with `sep` between them. -/
def join (sep : α) (parts : List (List α)) : List α := [sep].intercalate parts

variable {space} {a b l w : List α} {s sep : α} {parts : List (List α)}

/-! ### Words -/

@[simp] theorem words_nil : words space [] = [] := by
  unfold words
  rw [List.splitOnP_nil]
  rfl

theorem words_append_cons (hs : space s = true) : words space (a ++ s :: b) = words space a ++ words space b := by
  unfold words
  rw [List.splitOnP_append_cons _ _ hs, List.filter_append]

theorem words_cons (hs : space s = true) : words space (s :: l) = words space l := by
  have h := words_append_cons (a := []) (b := l) hs
  rwa [words_nil, List.nil_append, List.nil_append] at h

theorem words_concat (hs : space s = true) : words space (l ++ [s]) = words space l := by
  rw [words_append_cons hs, words_nil, List.append_nil]

theorem words_single (hne : w ≠ []) (h : ∀ c ∈ w, space c = false) : words space w = [w] := by
  unfold words
  rw [List.splitOnP_eq_singleton h, List.filter_cons_of_pos (by simpa using hne), List.filter_nil]

theorem words_run (h : ∀ c ∈ a, space c = true) : words space (a ++ l) = words space l := by
  induction a with
  | nil => rfl
  | cons c rest ih =>
    rw [List.cons_append, words_cons (h c List.mem_cons_self), ih fun d hd => h d (List.mem_cons_of_mem c hd)]

theorem words_dropWhile (l : List α) : words space (l.dropWhile space) = words space l := by
  induction l with
  | nil => rfl
  | cons c rest ih =>
    rw [List.dropWhile_cons]
    split
    · next hc => rw [ih, words_cons hc]
    · rfl

theorem words_rdropWhile (l : List α) : words space (l.rdropWhile space) = words space l := by
  induction l using List.reverseRecOn with
  | nil => rfl
  | append_singleton l c ih =>
    cases hc : space c with
    | true => rw [List.rdropWhile_concat_pos _ _ _ hc, ih, words_concat hc]
    | false => rw [List.rdropWhile_concat_neg _ _ _ (by simp [hc])]

@[simp] theorem words_trim (l : List α) : words space (trim space l) = words space l := by
  unfold trim
  rw [words_rdropWhile, words_dropWhile]

theorem mem_splitOnP {l w : List α} (h : w ∈ l.splitOnP space) : ∀ c ∈ w, space c = false ∧ c ∈ l := by
  induction l generalizing w with
  | nil =>
    rw [List.splitOnP_nil] at h
    rw [List.mem_singleton.mp h]
    exact fun c hc => absurd hc List.not_mem_nil
  | cons d rest ih =>
    rw [List.splitOnP_cons_eq_if_modifyHead] at h
    split at h
    · rcases List.mem_cons.mp h with rfl | h
      · exact fun c hc => absurd hc List.not_mem_nil
      · exact fun c hc => ⟨(ih h c hc).1, List.mem_cons_of_mem d (ih h c hc).2⟩
    · next hd =>
      cases hsplit : rest.splitOnP space with
      | nil => exact absurd hsplit (List.splitOnP_ne_nil space rest)
      | cons v vs =>
        have hall {u : List α} (hu : u ∈ v :: vs) : ∀ c ∈ u, space c = false ∧ c ∈ d :: rest := fun c hc =>
          ⟨(ih (hsplit ▸ hu) c hc).1, List.mem_cons_of_mem d (ih (hsplit ▸ hu) c hc).2⟩
        rw [hsplit, List.modifyHead_cons] at h
        rcases List.mem_cons.mp h with rfl | h
        · intro c hc
          rcases List.mem_cons.mp hc with rfl | hc
          · exact ⟨by simpa using hd, List.mem_cons_self⟩
          · exact hall List.mem_cons_self c hc
        · exact hall (List.mem_cons_of_mem v h)

/-- A word is not empty, and its characters are no white space. -/
structure IsWord (space : α → Bool) (w : List α) : Prop where
  nonempty : w ≠ []
  solid : ∀ c ∈ w, space c = false

theorem isWord_of_mem (h : w ∈ words space l) : IsWord space w := by
  obtain ⟨hmem, hne⟩ := List.mem_filter.mp h
  exact ⟨by simpa using hne, fun c hc => (mem_splitOnP hmem c hc).1⟩

theorem mem_of_mem_words (h : w ∈ words space l) {c : α} (hc : c ∈ w) : c ∈ l :=
  (mem_splitOnP (List.mem_filter.mp h).1 c hc).2

/-- The first word begins with what the text begins with. -/
theorem words_begin (hne : a ≠ []) (h : ∀ c ∈ a, space c = false) :
    ∃ v vs, words space (a ++ b) = (a ++ v) :: vs := by
  have hsplit (a : List α) (h : ∀ c ∈ a, space c = false) :
      ∃ v vs, (a ++ b).splitOnP space = (a ++ v) :: vs := by
    induction a with
    | nil =>
      cases hb : b.splitOnP space with
      | nil => exact absurd hb (List.splitOnP_ne_nil space b)
      | cons v vs => exact ⟨v, vs, hb⟩
    | cons c rest ih =>
      obtain ⟨v, vs, hrest⟩ := ih fun d hd => h d (List.mem_cons_of_mem c hd)
      refine ⟨v, vs, ?_⟩
      rw [List.cons_append, List.splitOnP_cons_eq_if_modifyHead, if_neg (by simp [h c List.mem_cons_self]), hrest]
      rfl
  obtain ⟨v, vs, hwords⟩ := hsplit a h
  refine ⟨v, vs.filter fun w => !w.isEmpty, ?_⟩
  unfold words
  rw [hwords, List.filter_cons_of_pos (by simp [hne])]

/-! ### Joining -/

theorem join_cons_cons (w v : List α) (rest : List (List α)) : join sep (w :: v :: rest) = w ++ sep :: join sep (v :: rest) := by
  simp [join]

theorem join_singleton (w : List α) : join sep [w] = w := by
  simp [join]

/-- **Words joined by a space** are found again. -/
theorem join_append {parts' : List (List α)} (hne : parts ≠ []) (hne' : parts' ≠ []) :
    join sep (parts ++ parts') = join sep parts ++ sep :: join sep parts' := by
  obtain ⟨v, rest', rfl⟩ := List.exists_cons_of_ne_nil hne'
  induction parts with
  | nil => exact absurd rfl hne
  | cons w rest ih =>
    cases rest with
    | nil => rw [List.singleton_append, join_cons_cons, join_singleton]
    | cons u rest =>
      rw [List.cons_append, List.cons_append, join_cons_cons, ← List.cons_append, ih (List.cons_ne_nil u rest), join_cons_cons,
        List.append_assoc, List.cons_append]

theorem words_join (hsep : space sep = true) (h : ∀ w ∈ parts, IsWord space w) : words space (join sep parts) = parts := by
  induction parts with
  | nil => exact words_nil
  | cons w rest ih =>
    have hw := h w List.mem_cons_self
    have ih := ih fun v hv => h v (List.mem_cons_of_mem w hv)
    cases rest with
    | nil => rw [join_singleton, words_single hw.nonempty hw.solid]
    | cons v rest => rw [join_cons_cons, words_append_cons hsep, words_single hw.nonempty hw.solid, ih, List.singleton_append]

theorem mem_join {c : α} (h : c ∈ join sep parts) : c = sep ∨ ∃ w ∈ parts, c ∈ w := by
  induction parts with
  | nil => cases h
  | cons w rest ih =>
    cases rest with
    | nil =>
      rw [join_singleton] at h
      exact Or.inr ⟨w, List.mem_cons_self, h⟩
    | cons v rest =>
      rw [join_cons_cons] at h
      rcases List.mem_append.mp h with h | h
      · exact Or.inr ⟨w, List.mem_cons_self, h⟩
      · rcases List.mem_cons.mp h with rfl | h
        · exact Or.inl rfl
        · exact (ih h).imp_right fun ⟨u, hu, hc⟩ => ⟨u, List.mem_cons_of_mem w hu, hc⟩

theorem mem_join_of_mem (hw : w ∈ parts) {c : α} (hc : c ∈ w) : c ∈ join sep parts := by
  induction parts with
  | nil => cases hw
  | cons v rest ih =>
    cases rest with
    | nil =>
      rw [join_singleton, ← List.mem_singleton.mp hw]
      exact hc
    | cons u rest =>
      rw [join_cons_cons]
      rcases List.mem_cons.mp hw with rfl | hw
      · exact List.mem_append_left _ hc
      · exact List.mem_append_right _ (List.mem_cons_of_mem sep (ih hw))

/-- The length of parts with one separator behind each. -/
def spaced (parts : List (List α)) : Nat := (parts.map fun w => w.length + 1).sum

theorem length_join (sep : α) (hne : parts ≠ []) : (join sep parts).length + 1 = spaced parts := by
  induction parts with
  | nil => exact absurd rfl hne
  | cons w rest ih =>
    cases rest with
    | nil => simp [join_singleton, spaced]
    | cons v rest =>
      have ih := ih (List.cons_ne_nil v rest)
      rw [join_cons_cons]
      simp only [spaced, List.map_cons, List.sum_cons, List.length_append, List.length_cons] at ih ⊢
      omega

theorem spaced_splitOnP (l : List α) : spaced (l.splitOnP space) = l.length + 1 := by
  induction l with
  | nil =>
    rw [List.splitOnP_nil]
    rfl
  | cons c rest ih =>
    rw [List.splitOnP_cons_eq_if_modifyHead]
    split
    · simp only [spaced, List.map_cons, List.sum_cons, List.length_nil, List.length_cons] at ih ⊢
      omega
    · cases hsplit : rest.splitOnP space with
      | nil => exact absurd hsplit (List.splitOnP_ne_nil space rest)
      | cons v vs =>
        rw [hsplit] at ih
        simp only [spaced, List.modifyHead_cons, List.map_cons, List.sum_cons, List.length_cons] at ih ⊢
        omega

theorem spaced_sublist {parts' : List (List α)} (h : parts'.Sublist parts) : spaced parts' ≤ spaced parts := by
  induction h with
  | slnil => exact Nat.le_refl _
  | cons w _ ih =>
    simp only [spaced, List.map_cons, List.sum_cons] at ih ⊢
    omega
  | cons_cons w _ ih =>
    simp only [spaced, List.map_cons, List.sum_cons] at ih ⊢
    omega

/-- Joining some of the words of a text makes no longer text. -/
theorem length_join_words (h : parts.Sublist (words space l)) : (join sep parts).length ≤ l.length := by
  by_cases hne : parts = []
  · subst hne
    exact Nat.zero_le _
  · have hle := spaced_sublist (h.trans List.filter_sublist)
    rw [spaced_splitOnP, ← length_join sep hne] at hle
    omega

/-! ### Pieces -/

/-- What stops `dropWhile`. -/
theorem stop_dropWhile {p : α → Bool} {c : α} {rest : List α} (h : l.dropWhile p = c :: rest) : p c = false := by
  have hhead := List.head?_dropWhile_not p l
  rw [h] at hhead
  exact hhead

theorem piecesFrom_true (l : List α) : piecesFrom space true l = pieces space (l.dropWhile space) := by
  induction l with
  | nil => rfl
  | cons c rest ih =>
    cases hc : space c with
    | true =>
      rw [List.dropWhile_cons_of_pos hc]
      simpa [piecesFrom, hc] using ih
    | false =>
      rw [List.dropWhile_cons_of_neg (by simp [hc])]
      simp [pieces, piecesFrom, hc]

/-- The first piece, the run of white space behind it, and the pieces of the rest. -/
theorem pieces_eq (l : List α) : pieces space l = l.takeWhile (fun c => !space c) ::
    (if l.dropWhile (fun c => !space c) = [] then []
      else pieces space ((l.dropWhile fun c => !space c).dropWhile space)) := by
  induction l with
  | nil => rfl
  | cons c rest ih =>
    cases hc : space c with
    | true =>
      rw [List.takeWhile_cons_of_neg (by simp [hc]), List.dropWhile_cons_of_neg (by simp [hc]),
        if_neg (List.cons_ne_nil c rest), List.dropWhile_cons_of_pos hc, ← piecesFrom_true]
      simp [pieces, piecesFrom, hc]
    | false =>
      rw [List.takeWhile_cons_of_pos (by simp [hc]), List.dropWhile_cons_of_pos (by simp [hc])]
      have hcons : pieces space (c :: rest) = (pieces space rest).modifyHead (c :: ·) := by
        simp [pieces, piecesFrom, hc]
      rw [hcons, ih, List.modifyHead_cons]

/-! ### Lines -/

section Lines
variable (isBreak : α → Bool) (pair : α → α → Bool)

/-- The lines of a text, which end at a break; two characters can be one break. A text that ends
in a break has no further, empty line. -/
def lines : List α → List (List α)
  | [] => []
  | [c] => if isBreak c then [[]] else [[c]]
  | c :: d :: rest =>
    if pair c d then [] :: lines rest
    else if isBreak c then [] :: lines (d :: rest)
    else (lines (d :: rest)).modifyHead (c :: ·)

variable {isBreak pair}

theorem lines_solid (hpair : ∀ c d, pair c d = true → isBreak c = true) (hne : w ≠ [])
    (h : ∀ c ∈ w, isBreak c = false) : lines isBreak pair w = [w] := by
  induction w with
  | nil => exact absurd rfl hne
  | cons c rest ih =>
    have hc := h c List.mem_cons_self
    cases rest with
    | nil => simp [lines, hc]
    | cons d rest =>
      have hcd : pair c d = false := by
        by_contra hp
        simp [hpair c d (by simpa using hp)] at hc
      have ih := ih (List.cons_ne_nil d rest) fun x hx => h x (List.mem_cons_of_mem c hx)
      simp [lines, hcd, hc, ih]

theorem lines_append {d : α} (hpair : ∀ c d, pair c d = true → isBreak c = true ∧ isBreak d = true)
    (hsep : isBreak sep = true) (hd : isBreak d = false) (h : ∀ c ∈ w, isBreak c = false) :
    lines isBreak pair (w ++ sep :: d :: b) = w :: lines isBreak pair (d :: b) := by
  have solid {x y : α} (hx : isBreak x = false ∨ isBreak y = false) : pair x y = false := by
    by_contra hp
    obtain ⟨hxb, hyb⟩ := hpair x y (by simpa using hp)
    rcases hx with hx | hx
    · simp [hxb] at hx
    · simp [hyb] at hx
  induction w with
  | nil => simp [lines, solid (x := sep) (Or.inr hd), hsep]
  | cons c rest ih =>
    have hc := h c List.mem_cons_self
    have ih := ih fun x hx => h x (List.mem_cons_of_mem c hx)
    cases rest with
    | nil =>
      rw [List.nil_append] at ih
      simp [lines, solid (y := sep) (Or.inl hc), solid (x := sep) (Or.inr hd), hc, hsep]
    | cons x rest =>
      rw [List.cons_append] at ih
      simp only [List.cons_append, lines, solid (y := x) (Or.inl hc), hc, Bool.false_eq_true, if_false, ih,
        List.modifyHead_cons]

/-- **Lines joined by a break** are found again. -/
theorem lines_join (hpair : ∀ c d, pair c d = true → isBreak c = true ∧ isBreak d = true) (hsep : isBreak sep = true)
    (h : ∀ w ∈ parts, IsWord isBreak w) : lines isBreak pair (join sep parts) = parts := by
  induction parts with
  | nil => rfl
  | cons w rest ih =>
    have hw := h w List.mem_cons_self
    have ih := ih fun v hv => h v (List.mem_cons_of_mem w hv)
    cases rest with
    | nil => rw [join_singleton, lines_solid (fun c d hp => (hpair c d hp).1) hw.nonempty hw.solid]
    | cons v rest =>
      have hv := h v (List.mem_cons_of_mem w List.mem_cons_self)
      obtain ⟨d, tail, hjoin, hd⟩ : ∃ d tail, join sep (v :: rest) = d :: tail ∧ isBreak d = false := by
        obtain ⟨d, v', rfl⟩ := List.exists_cons_of_ne_nil hv.nonempty
        refine ⟨d, ?_⟩
        cases rest with
        | nil => exact ⟨v', join_singleton _, hv.solid d List.mem_cons_self⟩
        | cons u rest => exact ⟨v' ++ sep :: join sep (u :: rest), join_cons_cons _ _ _, hv.solid d List.mem_cons_self⟩
      rw [join_cons_cons, hjoin, lines_append hpair hsep hd hw.solid, ← hjoin, ih]

end Lines

end PveMaster.Words
