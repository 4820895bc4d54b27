import PveMaster.Foundation.Parsing

/-! Metrics as lines of text.

A sample has a name, labels and a whole number; the value of a label is any text, with backslashes, quotes
and line breaks escaped. Whatever the values are, the lines of a text are the lines that were written, and
the samples read back (`read_exposition`). -/
namespace PveMaster.Exposition
open Text

/-- One sample: a metric's name, its labels in their order, and a whole number. -/
structure Sample where
  name : List Char
  labels : List (List Char × List Char)
  value : Int
  deriving DecidableEq, Repr

/-! ### Writing -/

/-- The value of a label as it is written: a backslash before backslashes and quotes, and `\n` for
a line feed. -/
def escaped (text : List Char) : List Char :=
  text.flatMap fun c => if c = '\\' then ['\\', '\\'] else if c = '"' then ['\\', '"'] else if c = '\n' then ['\\', 'n'] else [c]

def label (l : List Char × List Char) : List Char := l.1 ++ '=' :: '"' :: (escaped l.2 ++ ['"'])

def Sample.text (s : Sample) : List Char :=
  s.name ++ (if s.labels = [] then [] else '{' :: ([','].intercalate (s.labels.map label) ++ ['}'])) ++ ' ' :: integer s.value

/-- A line is a comment, after a `#`, or a sample. -/
inductive Line where
  | comment (text : List Char)
  | sample (s : Sample)

def Line.text : Line → List Char
  | .comment text => '#' :: text
  | .sample s => s.text

def Line.sample? : Line → Option Sample
  | .comment _ => none
  | .sample s => some s

def exposition (lines : List Line) : List Char := lines.flatMap fun l => l.text ++ ['\n']

/-! ### Reading -/

/-- A text up to the quote that ends it. -/
def readEscaped : List Char → Option (List Char × List Char)
  | [] => none
  | [c] => if c = '"' then some ([], []) else none
  | c :: d :: rest =>
    if c = '"' then some ([], d :: rest)
    else if c = '\\' then
      if d = 'n' then (readEscaped rest).map fun r => ('\n' :: r.1, r.2)
      else (readEscaped rest).map fun r => (d :: r.1, r.2)
    else (readEscaped (d :: rest)).map fun r => (c :: r.1, r.2)

/-- Labels up to the brace that ends them, no more than the fuel. -/
def readLabels : Nat → List Char → Option (List (List Char × List Char) × List Char)
  | 0, _ => none
  | fuel + 1, text =>
    match text.dropWhile (· != '=') with
    | '=' :: '"' :: rest =>
      match readEscaped rest with
      | some (value, ',' :: rest) => (readLabels fuel rest).map fun r => ((text.takeWhile (· != '='), value) :: r.1, r.2)
      | some (value, '}' :: rest) => some ([(text.takeWhile (· != '='), value)], rest)
      | _ => none
    | _ => none

def isNamed (c : Char) : Bool := c != '{' && c != ' '

def readSample (text : List Char) : Option Sample :=
  let name := text.takeWhile isNamed
  match text.dropWhile isNamed with
  | ' ' :: rest => (parseInteger rest).map fun value => ⟨name, [], value⟩
  | '{' :: rest =>
    match readLabels rest.length rest with
    | some (labels, ' ' :: rest) => (parseInteger rest).map fun value => ⟨name, labels, value⟩
    | _ => none
  | _ => none

/-- The samples of the lines. An empty line is nothing. -/
def readLines : List (List Char) → Option (List Sample)
  | [] => some []
  | [] :: rest => readLines rest
  | ('#' :: _) :: rest => readLines rest
  | line :: rest => do
    let s ← readSample line
    let more ← readLines rest
    return s :: more

def read (text : List Char) : Option (List Sample) := readLines (text.splitOn '\n')

/-! ### Round trips -/

/-- Names and keys are made of other characters than those that end them. -/
def isPlain (c : Char) : Bool := c != '{' && c != ' ' && c != '#' && c != '=' && c != '\n'

structure Sample.Written (s : Sample) : Prop where
  named : s.name ≠ []
  name : ∀ c ∈ s.name, isPlain c = true
  keys : ∀ l ∈ s.labels, ∀ c ∈ l.1, isPlain c = true

def Sample.isWritten (s : Sample) : Bool :=
  !s.name.isEmpty && s.name.all isPlain && s.labels.all fun l => l.1.all isPlain

theorem Sample.written_of {s : Sample} (h : s.isWritten = true) : s.Written := by
  simp only [isWritten, Bool.and_eq_true, Bool.not_eq_true', List.isEmpty_eq_false_iff, List.all_eq_true] at h
  exact ⟨h.1.1, h.1.2, h.2⟩

def Line.Written : Line → Prop
  | .comment text => '\n' ∉ text
  | .sample s => s.Written

theorem readEscaped_escaped (text rest : List Char) : readEscaped (escaped text ++ '"' :: rest) = some (text, rest) := by
  induction text with
  | nil =>
    cases rest with
    | nil => rfl
    | cons c rest => rfl
  | cons c text ih =>
    have hcons : escaped (c :: text) ++ '"' :: rest =
        (if c = '\\' then ['\\', '\\'] else if c = '"' then ['\\', '"'] else if c = '\n' then ['\\', 'n'] else [c]) ++
          (escaped text ++ '"' :: rest) := by
      simp [escaped]
    rw [hcons]
    by_cases hslash : c = '\\'
    · subst hslash
      simp [readEscaped, ih]
    · by_cases hquote : c = '"'
      · subst hquote
        simp [readEscaped, ih]
      · by_cases hline : c = '\n'
        · subst hline
          simp [readEscaped, ih]
        · rw [if_neg hslash, if_neg hquote, if_neg hline, List.singleton_append]
          cases hmore : escaped text ++ '"' :: rest with
          | nil => simp at hmore
          | cons d more =>
            rw [hmore] at ih
            rw [readEscaped, if_neg hquote, if_neg hslash, ih]
            rfl

theorem takeWhile_plain {p : Char → Bool} {word : List Char} {c : Char} (hword : ∀ c ∈ word, p c = true)
    (hc : p c = false) (rest : List Char) : (word ++ c :: rest).takeWhile p = word ∧ (word ++ c :: rest).dropWhile p = c :: rest := by
  rw [List.takeWhile_append_of_pos hword, List.dropWhile_append_of_pos hword]
  simp [hc]

theorem readLabels_label (labels : List (List Char × List Char)) (hne : labels ≠ [])
    (hkeys : ∀ l ∈ labels, ∀ c ∈ l.1, isPlain c = true) (fuel : Nat) (hfuel : labels.length ≤ fuel) (rest : List Char) :
    readLabels fuel ([','].intercalate (labels.map label) ++ '}' :: rest) = some (labels, rest) := by
  induction labels generalizing fuel with
  | nil => exact absurd rfl hne
  | cons l labels ih =>
    obtain ⟨fuel, rfl⟩ : ∃ n, fuel = n + 1 := ⟨fuel - 1, by simp at hfuel; omega⟩
    have hkey : ∀ c ∈ l.1, (c != '=') = true := fun c hc => by
      have := hkeys l List.mem_cons_self c hc
      simp only [isPlain, Bool.and_eq_true] at this
      exact this.1.2
    have hsplit (more : List Char) :
        (l.1 ++ '=' :: '"' :: (escaped l.2 ++ '"' :: more)).takeWhile (· != '=') = l.1 ∧
          (l.1 ++ '=' :: '"' :: (escaped l.2 ++ '"' :: more)).dropWhile (· != '=') = '=' :: '"' :: (escaped l.2 ++ '"' :: more) :=
      takeWhile_plain hkey rfl _
    cases labels with
    | nil =>
      have htext : [','].intercalate ([l].map label) ++ '}' :: rest = l.1 ++ '=' :: '"' :: (escaped l.2 ++ '"' :: '}' :: rest) := by
        simp [label, List.intercalate]
      rw [htext, readLabels, (hsplit _).1, (hsplit _).2]
      simp only [readEscaped_escaped]
    | cons m labels =>
      have htext : [','].intercalate ((l :: m :: labels).map label) ++ '}' :: rest =
          l.1 ++ '=' :: '"' :: (escaped l.2 ++ '"' :: ',' :: ([','].intercalate ((m :: labels).map label) ++ '}' :: rest)) := by
        simp [label, List.intercalate]
      have hmore := ih (List.cons_ne_nil _ _) (fun l hl => hkeys l (List.mem_cons_of_mem _ hl)) fuel
        (by simp only [List.length_cons] at hfuel ⊢; omega)
      rw [htext, readLabels, (hsplit _).1, (hsplit _).2]
      simp only [readEscaped_escaped, hmore, Option.map_some]

/-- The number of labels is less than the number of their characters. -/
theorem length_labels_le (labels : List (List Char × List Char)) :
    labels.length ≤ ([','].intercalate (labels.map label)).length + 1 := by
  induction labels with
  | nil => exact Nat.zero_le _
  | cons l labels ih =>
    cases labels with
    | nil => simp
    | cons m labels =>
      have hcons : ([','].intercalate ((l :: m :: labels).map label)).length =
          (label l).length + 1 + ([','].intercalate ((m :: labels).map label)).length := by
        simp [List.intercalate]
        omega
      simp only [List.length_cons] at ih hcons ⊢
      omega

theorem readSample_text {s : Sample} (h : s.Written) : readSample s.text = some s := by
  obtain ⟨name, labels, value⟩ := s
  have hname : ∀ c ∈ name, isNamed c = true := fun c hc => by
    have := h.name c hc
    simp only [isPlain, Bool.and_eq_true] at this
    simp only [isNamed, Bool.and_eq_true]
    exact this.1.1.1
  by_cases hlabels : labels = []
  · subst hlabels
    have htext : Sample.text ⟨name, [], value⟩ = name ++ ' ' :: integer value := by simp [Sample.text]
    obtain ⟨htake, hdrop⟩ := takeWhile_plain hname (show isNamed ' ' = false from rfl) (integer value)
    rw [readSample, htext, htake, hdrop]
    simp [parseInteger_integer]
  · have htext : Sample.text ⟨name, labels, value⟩ =
        name ++ '{' :: ([','].intercalate (labels.map label) ++ '}' :: ' ' :: integer value) := by
      simp [Sample.text, hlabels]
    obtain ⟨htake, hdrop⟩ := takeWhile_plain hname (show isNamed '{' = false from rfl)
      ([','].intercalate (labels.map label) ++ '}' :: ' ' :: integer value)
    have hread := readLabels_label labels hlabels h.keys
      ([','].intercalate (labels.map label) ++ '}' :: ' ' :: integer value).length
      (by have := length_labels_le labels; simp only [List.length_append, List.length_cons]; omega) (' ' :: integer value)
    rw [readSample, htext, htake, hdrop]
    simp only [hread, parseInteger_integer, Option.map_some]

theorem newline_not_mem_escaped (text : List Char) : '\n' ∉ escaped text := by
  intro hmem
  obtain ⟨c, -, hc⟩ := List.mem_flatMap.mp hmem
  split at hc
  · simp at hc
  · split at hc
    · simp at hc
    · split at hc
      · simp at hc
      · next hline => exact hline (List.mem_singleton.mp hc).symm

theorem newline_not_mem_plain {word : List Char} (h : ∀ c ∈ word, isPlain c = true) : '\n' ∉ word :=
  fun hmem => absurd (h _ hmem) (by decide)

theorem newline_not_mem_label {l : List Char × List Char} (h : ∀ c ∈ l.1, isPlain c = true) : '\n' ∉ label l := by
  simp [label, newline_not_mem_plain h, newline_not_mem_escaped]

theorem newline_not_mem_integer (i : Int) : '\n' ∉ integer i := by
  intro hmem
  rcases integer_chars hmem with hminus | hdigit
  · exact absurd hminus (by decide)
  · exact hdigit.ne (by decide) rfl

theorem newline_not_mem_labels {labels : List (List Char × List Char)}
    (h : ∀ l ∈ labels, ∀ c ∈ l.1, isPlain c = true) : '\n' ∉ [','].intercalate (labels.map label) := by
  induction labels with
  | nil => exact List.not_mem_nil
  | cons l labels ih =>
    have hl := newline_not_mem_label (h l List.mem_cons_self)
    have hmore := ih fun l hl => h l (List.mem_cons_of_mem _ hl)
    cases labels with
    | nil => simpa [List.intercalate] using hl
    | cons m labels =>
      have hcons : [','].intercalate ((l :: m :: labels).map label) =
          label l ++ ',' :: [','].intercalate ((m :: labels).map label) := by
        simp [List.intercalate]
      rw [hcons, List.mem_append, List.mem_cons]
      rintro (hmem | hcomma | hmem)
      · exact hl hmem
      · exact absurd hcomma (by decide)
      · exact hmore hmem

theorem newline_not_mem_text {s : Sample} (h : s.Written) : '\n' ∉ s.text := by
  unfold Sample.text
  split <;> simp [newline_not_mem_plain h.name, newline_not_mem_integer, newline_not_mem_labels h.keys]

theorem Line.newline_not_mem {l : Line} (h : l.Written) : '\n' ∉ l.text := by
  cases l with
  | comment text =>
    intro hmem
    rcases List.mem_cons.mp hmem with hhash | hmem
    · exact absurd hhash (by decide)
    · exact h hmem
  | sample s => exact newline_not_mem_text h

theorem readLines_text (l : Line) (h : l.Written) (rest : List (List Char)) :
    readLines (l.text :: rest) = (readLines rest).map fun more => l.sample?.toList ++ more := by
  cases l with
  | comment text => simp [Line.text, readLines, Line.sample?]
  | sample s =>
    obtain ⟨c, name, hname⟩ := List.exists_cons_of_ne_nil h.named
    have hhash : c ≠ '#' := by
      rintro rfl
      exact absurd (h.name '#' (hname ▸ List.mem_cons_self)) (by decide)
    obtain ⟨text, htext⟩ : ∃ text, s.text = c :: text := ⟨_, by rw [Sample.text, hname]; rfl⟩
    have hread := readSample_text h
    show readLines (s.text :: rest) = _
    rw [htext] at hread ⊢
    rw [readLines, hread]
    · cases readLines rest <;> rfl
    · rintro ⟨⟩
    · intro more hmore
      exact hhash (List.cons.inj hmore).1

/-- **A text reads back** to the samples it was written from. -/
theorem read_exposition (lines : List Line) (h : ∀ l ∈ lines, l.Written) :
    read (exposition lines) = some (lines.filterMap Line.sample?) := by
  unfold read
  induction lines with
  | nil => rfl
  | cons l lines ih =>
    have hcons : exposition (l :: lines) = l.text ++ '\n' :: exposition lines := by simp [exposition]
    have hl := h l List.mem_cons_self
    rw [hcons, List.splitOn_append_cons_self_of_not_mem (Line.newline_not_mem hl), readLines_text l hl,
      ih fun l hl => h l (List.mem_cons_of_mem _ hl)]
    cases hsample : l.sample? <;> simp [hsample]

end PveMaster.Exposition
