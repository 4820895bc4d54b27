import PveMaster.Core
import PveMaster.Foundation.Decimals
import PveMaster.Foundation.Scanning
import Mathlib

/-! `backup_transfer_bytes`: what a task log says was sent to the backup server.

A line is searched for its keyword in a case-folded copy, and the index found there is
used on the line itself. `Reads` is what is meant: the first size behind the shortest
beginning of the line that holds the keyword up to case. `slippage` is how far behind
that beginning the code starts to look, since case folding may make a line longer, and
`transfer_measured` says when both read the same. The backup runner takes the function
from its runtime. -/
namespace PveMaster.Transfer
open Scanning Scanner Decimals

/-- The letters of the size units, in lower case, with the dotless i that Python's `re`
takes for an i. -/
def unitLetters : List Char := ['k', 'm', 'g', 't', 'p', 'e', 'i', 'ı', 'b']

/-- Python's character database: `str.casefold` and `str.upper` of a character, the lower
case that `re.I` compares, the value of a decimal digit, white space and the characters
of words. -/
structure Characters where
  casefold : Char → List Char
  upper : Char → List Char
  lower : Char → Char
  decimal : Char → Option Nat
  isSpace : Char → Bool
  isWord : Char → Bool
  casefold_ne_nil : ∀ c, casefold c ≠ []
  /-- The unit letters are letters, whatever their case. -/
  letters : ∀ c, lower c ∈ unitLetters → decimal c = none ∧ isSpace c = false ∧ isWord c = true
  digits : ∀ c, (decimal c).isSome → isSpace c = false
  point : decimal '.' = none ∧ isSpace '.' = false ∧ isWord '.' = false
  percent : decimal '%' = none

/-- A number as it is written, without its point; the digits are of any script. -/
structure Numeral where
  whole : List Char
  fraction : List Char
  deriving DecidableEq, Repr

def Numeral.text (n : Numeral) : List Char :=
  n.whole ++ if n.fraction = [] then [] else '.' :: n.fraction

/-- A match of `_SIZE_PATTERN`: a number, and the letters of its unit as they stand there. -/
structure Size where
  number : Numeral
  unit : List Char
  deriving DecidableEq, Repr

/-- `_SIZE_MULTIPLIERS`. -/
def sizeMultipliers : List (String × Nat) :=
  [("B", 1), ("KB", 1000), ("MB", 1000 ^ 2), ("GB", 1000 ^ 3), ("TB", 1000 ^ 4), ("PB", 1000 ^ 5),
    ("EB", 1000 ^ 6), ("KIB", 1024), ("MIB", 1024 ^ 2), ("GIB", 1024 ^ 3), ("TIB", 1024 ^ 4),
    ("PIB", 1024 ^ 5), ("EIB", 1024 ^ 6)]

/-- `decimal.DefaultContext`, in which the source computes. -/
def defaultContext : Context where
  prec := 28
  emin := -999999
  emax := 999999

def transferredWord : List Char := "transferred".toList
def reusedWord : List Char := "reused".toList

namespace Characters
variable (py : Characters)

/-- `\d`: a digit of any script. -/
def isDigit (c : Char) : Bool := (py.decimal c).isSome

/-- `[KMGTPE]`, `i` and `B` under `re.I`, which compares characters up to case; the dotless i
counts as an i. -/
def isPrefix (c : Char) : Bool := ['k', 'm', 'g', 't', 'p', 'e'].contains (py.lower c)
def isI (c : Char) : Bool := ['i', 'ı'].contains (py.lower c)
def isB (c : Char) : Bool := py.lower c == 'b'

def casefoldText (text : List Char) : List Char := text.flatMap py.casefold

def upperText (text : List Char) : List Char := text.flatMap py.upper

/-! ### The code -/

/-- `\.\d+`, without the point. A point that no digit follows belongs to no number. -/
def fractionPattern : Scanner Char (List Char) :=
  (char (· == '.')).andThen fun _ => (char py.isDigit).andThen fun first =>
    (many py.isDigit).andThen fun more => done (first :: more)

/-- `\d+(?:\.\d+)?`. -/
def numberPattern : Scanner Char Numeral :=
  (char py.isDigit).andThen fun first => (many py.isDigit).andThen fun more =>
    (optional py.fractionPattern).andThen fun fraction => done ⟨first :: more, fraction.getD []⟩

/-- `[KMGTPE]?i?B\b`: the unit ends a word, so `Bit` is none. -/
def unitPattern : Scanner Char (List Char) :=
  (optional (char py.isPrefix)).andThen fun scale => (optional (char py.isI)).andThen fun binary =>
    (char py.isB).andThen fun last => (boundary py.isWord last).andThen fun _ =>
      done (scale.toList ++ binary.toList ++ [last])

/-- `_SIZE_PATTERN`: a number, white space or none, and a unit. -/
def sizePattern : Scanner Char Size :=
  py.numberPattern.andThen fun number => (many py.isSpace).andThen fun _ =>
    py.unitPattern.andThen fun unit => done ⟨number, unit⟩

/-- `_PERCENT_PATTERN`. -/
def percentPattern : Scanner Char Numeral :=
  (char (· == '(')).andThen fun _ => py.numberPattern.andThen fun number =>
    (char (· == '%')).andThen fun _ => (char (· == ')')).andThen fun _ => done number

/-- `Decimal(text)` of a numeral, exactly as it is written: the constructor does not round. -/
def decimalOf (n : Numeral) : Decimal where
  coefficient := (n.whole ++ n.fraction).foldl (fun v c => v * 10 + (py.decimal c).getD 0) 0
  exponent := -n.fraction.length

/-- `_SIZE_MULTIPLIERS.get(unit.upper())`; a unit outside the table gives nothing. -/
def multiplier (unit : List Char) : Option Nat :=
  sizeMultipliers.lookup (String.ofList (py.upperText unit))

/-- `int(amount * multiplier)`, where there is a multiplier. The product is rounded by the context
before it is cut off. -/
def sizeBytes (size : Size) : Except Exn (Option Nat) :=
  match py.multiplier size.unit with
  | some m =>
    match defaultContext.round ((py.decimalOf size.number).scale m) with
    | some product => .ok (some product.truncate)
    | none => .error .other
  | none => .ok none

/-- `_first_size`: the first match in the text, whether or not its unit has a multiplier. -/
def firstSize (value : List Char) : Except Exn (Option Nat) :=
  match search py.sizePattern value with
  | some found => py.sizeBytes found.2
  | none => .ok none

/-- `lowered.index(word) + len(word)`; none if the word is not in the folded line. -/
def sliceStart (word text : List Char) : Option Nat :=
  (indexOf word (py.casefoldText text)).map (· + word.length)

/-- `_first_size` of what follows the word; none on a line without the word. -/
def sizeAfter (word text : List Char) : Except Exn (Option Nat) :=
  match py.sliceStart word text with
  | some start => py.firstSize (text.drop start)
  | none => .ok none

end Characters

/-- The variables of `backup_transfer_bytes`, each holding what the last line that had it said. -/
structure Reading where
  transferred : Option Nat := none
  reused : Option Nat := none
  reusedPercent : Option Decimal := none
  deriving DecidableEq, Repr

section Code
variable (py : Characters)

/-- The body of the loop, for a text. What raises here ends the function. -/
def readLine (reading : Reading) (text : List Char) : Except Exn Reading := do
  let parsed ← py.sizeAfter transferredWord text
  let reading := { reading with transferred := parsed.or reading.transferred }
  if (py.sliceStart reusedWord text).isSome then
    let parsed ← py.sizeAfter reusedWord text
    let percent := (search py.percentPattern text).map fun found => py.decimalOf found.2
    return { reading with
      reused := parsed.or reading.reused
      reusedPercent := percent.or reading.reusedPercent }
  else return reading

/-- The body of the loop: an entry without a text is passed over. -/
def readEntry (reading : Reading) (entry : Dict) : Except Exn Reading :=
  match entry.get? "t" with
  | some (.str text) => readLine py reading text.toList
  | _ => .ok reading

/-- What follows the loop: what was transferred, less what was reused. Where that leaves nothing,
it is zero if all of it was reused, and unknown otherwise. -/
def Reading.result (reading : Reading) : Option Int :=
  match reading.transferred, reading.reused with
  | none, _ => none
  | some transferred, none => some transferred
  | some transferred, some reused =>
    let difference : Int := transferred - reused
    if difference ≤ 0 then
      -- `reused_percent == Decimal(100)`
      if reading.reusedPercent.map Decimal.value = some 100 then some 0 else none
    else some difference

/-- `backup_transfer_bytes`. -/
def backupTransferBytes (entries : List Dict) : Except Exn (Option Int) := do
  let reading ← entries.foldlM (readEntry py) {}
  return reading.result

end Code

/-! ### What the patterns match -/

/-- Digits with at least one before the point: what the pattern of numbers matches, as a fact of
the numeral. -/
structure IsNumeral (py : Characters) (n : Numeral) : Prop where
  whole : n.whole ≠ []
  digits : ∀ c ∈ n.whole ++ n.fraction, py.isDigit c = true

/-- A unit: a scale or none, an i or none, and a B. -/
def IsUnit (py : Characters) (unit : List Char) : Prop :=
  ∃ (scale binary : Option Char) (last : Char), unit = scale.toList ++ binary.toList ++ [last] ∧
    (∀ c ∈ scale, py.isPrefix c = true) ∧ (∀ c ∈ binary, py.isI c = true) ∧ py.isB last = true

/-- A text begins with a size, which ends a word. -/
def SizeAt (py : Characters) (text : List Char) (size : Size) : Prop :=
  ∃ spaces rest, text = size.number.text ++ (spaces ++ (size.unit ++ rest)) ∧
    IsNumeral py size.number ∧ (∀ c ∈ spaces, py.isSpace c = true) ∧ IsUnit py size.unit ∧
    rest.head?.any py.isWord = false

/-- A text begins with a percentage in brackets. -/
def PercentAt (py : Characters) (text : List Char) (n : Numeral) : Prop :=
  ∃ rest, text = '(' :: (n.text ++ '%' :: ')' :: rest) ∧ IsNumeral py n

/-- The leftmost place where something begins, and what begins there. -/
def First {α : Type} (At : List Char → α → Prop) (text : List Char) (start : Nat) (a : α) : Prop :=
  At (text.drop start) a ∧ ∀ before < start, ∀ b, ¬ At (text.drop before) b

section Patterns
variable {py : Characters}

theorem unitLetter_of_isPrefix {c : Char} (h : py.isPrefix c = true) : py.lower c ∈ unitLetters := by
  simp only [Characters.isPrefix, List.contains_eq_mem, decide_eq_true_eq] at h
  simp only [unitLetters, List.mem_cons] at h ⊢
  tauto

theorem unitLetter_of_isI {c : Char} (h : py.isI c = true) : py.lower c ∈ unitLetters := by
  simp only [Characters.isI, List.contains_eq_mem, decide_eq_true_eq] at h
  simp only [unitLetters, List.mem_cons] at h ⊢
  tauto

theorem unitLetter_of_isB {c : Char} (h : py.isB c = true) : py.lower c ∈ unitLetters := by
  have hlower : py.lower c = 'b' := by simpa [Characters.isB] using h
  rw [hlower]
  decide

theorem isPrefix_isI {c : Char} (h : py.isPrefix c = true) : py.isI c = false := by
  simp only [Characters.isPrefix, List.contains_eq_mem, decide_eq_true_eq, List.mem_cons,
    List.not_mem_nil, or_false] at h
  unfold Characters.isI
  rcases h with h | h | h | h | h | h <;> rw [h] <;> decide

theorem isPrefix_isB {c : Char} (h : py.isPrefix c = true) : py.isB c = false := by
  simp only [Characters.isPrefix, List.contains_eq_mem, decide_eq_true_eq, List.mem_cons,
    List.not_mem_nil, or_false] at h
  unfold Characters.isB
  rcases h with h | h | h | h | h | h <;> rw [h] <;> decide

theorem isI_isB {c : Char} (h : py.isI c = true) : py.isB c = false := by
  simp only [Characters.isI, List.contains_eq_mem, decide_eq_true_eq, List.mem_cons,
    List.not_mem_nil, or_false] at h
  unfold Characters.isB
  rcases h with h | h <;> rw [h] <;> decide

/-- What is no letter does not begin a unit. -/
theorem unitPattern_failsOn {p : Char → Bool} (h : ∀ c, p c = true → py.lower c ∉ unitLetters) :
    py.unitPattern.FailsOn p := by
  apply FailsOn.optional_andThen
  · apply failsOn_char
    intro c hc
    exact Bool.eq_false_iff.mpr fun hp => h c hc (unitLetter_of_isPrefix hp)
  apply FailsOn.optional_andThen
  · apply failsOn_char
    intro c hc
    exact Bool.eq_false_iff.mpr fun hi => h c hc (unitLetter_of_isI hi)
  apply FailsOn.andThen
  apply failsOn_char
  intro c hc
  exact Bool.eq_false_iff.mpr fun hb => h c hc (unitLetter_of_isB hb)

theorem unitPattern_decisive : py.unitPattern.Decisive := by
  have hlast (unit : Char → List Char) : ((char py.isB).andThen fun last =>
      (boundary py.isWord last).andThen fun _ => done (unit last)).Decisive := by
    apply (decisive_char _).andThen
    intro last
    apply (decisive_boundary _ _).andThen
    intro _
    exact decisive_done _
  have hfirst (q : Char → Bool) (c : Char) (rest : List Char) (h : char q (c :: rest) ≠ []) : q c = true := by
    by_contra hq
    exact h (by rw [char, if_neg hq])
  have hbinary (unit : Option Char → Char → List Char) :
      ((optional (char py.isI)).andThen fun binary => (char py.isB).andThen fun last =>
        (boundary py.isWord last).andThen fun _ => done (unit binary last)).Decisive := by
    apply Decisive.optional_andThen
    · exact (decisive_char _).andThen fun c => hlast (unit (some c))
    · exact fun o => hlast (unit o)
    · rfl
    · exact hfirst py.isI
    · exact (failsOn_char fun c hc => isI_isB hc).andThen _
  apply Decisive.optional_andThen
  · exact (decisive_char _).andThen fun c => hbinary fun binary last => (some c).toList ++ binary.toList ++ [last]
  · exact fun o => hbinary fun binary last => o.toList ++ binary.toList ++ [last]
  · rfl
  · exact hfirst py.isPrefix
  · apply FailsOn.optional_andThen
    · exact failsOn_char fun c hc => isPrefix_isI hc
    · exact (failsOn_char fun c hc => isPrefix_isB hc).andThen _

theorem mem_unitPattern {text unit rest : List Char} : (unit, rest) ∈ py.unitPattern text ↔
    text = unit ++ rest ∧ IsUnit py unit ∧ rest.head?.any py.isWord = false := by
  have hoption (p : Char → Bool) (o : Option Char) (l l' : List Char) :
      (o, l') ∈ optional (char p) l ↔ l = o.toList ++ l' ∧ ∀ c ∈ o, p c = true := by
    rw [mem_optional]
    cases o with
    | none => simpa using eq_comm
    | some c => simp [mem_char]
  unfold Characters.unitPattern
  simp only [mem_andThen, hoption, mem_char, mem_done]
  constructor
  · rintro ⟨scale, _, ⟨rfl, hscale⟩, binary, _, ⟨rfl, hbinary⟩, last, _, ⟨rfl, hlast⟩, _, _, hedge, rfl, rfl⟩
    have hword := (py.letters last (unitLetter_of_isB hlast)).2.2
    obtain ⟨rfl, hend⟩ := (mem_boundary hword).mp hedge
    refine ⟨by simp, ⟨scale, binary, last, rfl, hscale, hbinary, hlast⟩, hend⟩
  · rintro ⟨rfl, ⟨scale, binary, last, rfl, hscale, hbinary, hlast⟩, hend⟩
    have hword := (py.letters last (unitLetter_of_isB hlast)).2.2
    exact ⟨scale, _, ⟨by simp, hscale⟩, binary, _, ⟨rfl, hbinary⟩,
      last, rest, ⟨rfl, hlast⟩, (), rest, (mem_boundary hword).mpr ⟨rfl, hend⟩, rfl, rfl⟩

/-- A number is read to its end, before what begins with neither a digit nor a point. -/
theorem numberPattern_decisive {α : Type} {f : Numeral → Scanner Char α} (hf : ∀ n, (f n).Decisive)
    (hdigit : ∀ n, (f n).FailsOn py.isDigit) (hpoint : ∀ n, (f n).FailsOn (· == '.')) :
    (py.numberPattern.andThen f).Decisive := by
  unfold Characters.numberPattern
  rw [andThen_assoc]
  apply (decisive_char _).andThen
  intro first
  rw [andThen_assoc]
  apply Decisive.many_andThen
  · intro more
    rw [andThen_assoc]
    apply Decisive.optional_andThen
    · unfold Characters.fractionPattern
      rw [andThen_assoc]
      apply (decisive_char _).andThen
      intro _
      rw [andThen_assoc]
      apply (decisive_char _).andThen
      intro _
      rw [andThen_assoc]
      apply Decisive.many_andThen
      · intro run
        rw [done_andThen, done_andThen]
        exact hf _
      · intro run
        rw [done_andThen, done_andThen]
        exact hdigit _
    · intro o
      rw [done_andThen]
      exact hf _
    · rfl
    · intro c rest h
      by_contra hc
      exact h (by unfold Characters.fractionPattern andThen; rw [char, if_neg hc]; rfl)
    · rw [done_andThen]
      exact hpoint _
  · intro more
    rw [andThen_assoc]
    apply FailsOn.optional_andThen
    · apply FailsOn.andThen
      apply failsOn_char
      intro c hc
      apply beq_false_of_ne
      rintro rfl
      rw [Characters.isDigit, py.point.1] at hc
      cases hc
    · rw [done_andThen]
      exact hdigit _

theorem mem_fractionPattern {text ds rest : List Char} : (ds, rest) ∈ py.fractionPattern text ↔
    text = '.' :: (ds ++ rest) ∧ ds ≠ [] ∧ ∀ c ∈ ds, py.isDigit c = true := by
  unfold Characters.fractionPattern
  simp only [mem_andThen, mem_char, mem_many, mem_done, beq_iff_eq]
  constructor
  · rintro ⟨_, _, ⟨rfl, rfl⟩, first, _, ⟨rfl, hfirst⟩, more, _, ⟨rfl, hmore⟩, rfl, rfl⟩
    exact ⟨rfl, List.cons_ne_nil _ _, List.forall_mem_cons.mpr ⟨hfirst, hmore⟩⟩
  · rintro ⟨rfl, hne, hall⟩
    cases ds with
    | nil => exact absurd rfl hne
    | cons first more =>
      obtain ⟨hfirst, hmore⟩ := List.forall_mem_cons.mp hall
      exact ⟨'.', _, ⟨rfl, rfl⟩, first, _, ⟨rfl, hfirst⟩, more, rest, ⟨rfl, hmore⟩, rfl, rfl⟩

theorem mem_numberPattern {text rest : List Char} {n : Numeral} : (n, rest) ∈ py.numberPattern text ↔
    text = n.text ++ rest ∧ IsNumeral py n := by
  unfold Characters.numberPattern
  simp only [mem_andThen, mem_char, mem_many, mem_optional, mem_fractionPattern, mem_done]
  constructor
  · rintro ⟨first, _, ⟨rfl, hfirst⟩, more, _, ⟨rfl, hmore⟩, o, _, hfraction, rfl, rfl⟩
    rcases hfraction with ⟨ds, rfl, rfl, hne, hds⟩ | ⟨rfl, rfl⟩
    · refine ⟨by simp [Numeral.text, hne], List.cons_ne_nil _ _, ?_⟩
      simp only [Option.getD_some, List.cons_append, List.forall_mem_cons, List.forall_mem_append]
      exact ⟨hfirst, hmore, hds⟩
    · refine ⟨by simp [Numeral.text], List.cons_ne_nil _ _, ?_⟩
      simp only [Option.getD_none, List.append_nil, List.forall_mem_cons]
      exact ⟨hfirst, hmore⟩
  · rintro ⟨rfl, hwhole, hdigits⟩
    obtain ⟨whole, fraction⟩ := n
    cases whole with
    | nil => exact absurd rfl hwhole
    | cons first more =>
      simp only [List.cons_append, List.forall_mem_cons, List.forall_mem_append] at hdigits
      obtain ⟨hfirst, hmore, hfraction⟩ := hdigits
      cases fraction with
      | nil =>
        exact ⟨first, _, ⟨by simp [Numeral.text], hfirst⟩, more, rest, ⟨rfl, hmore⟩, none, rest,
          Or.inr ⟨rfl, rfl⟩, rfl, rfl⟩
      | cons d ds =>
        exact ⟨first, _, ⟨by simp [Numeral.text], hfirst⟩, more, '.' :: (d :: ds ++ rest), ⟨rfl, hmore⟩,
          some (d :: ds), rest, Or.inl ⟨d :: ds, rfl, rfl, List.cons_ne_nil _ _, hfraction⟩, rfl, rfl⟩

theorem sizePattern_decisive : py.sizePattern.Decisive := by
  -- neither a digit nor a point is a space or begins a unit
  have hunit {p : Char → Bool} (h : ∀ c, p c = true → py.isSpace c = false ∧ py.lower c ∉ unitLetters)
      (n : Numeral) : ((many py.isSpace).andThen fun _ =>
        py.unitPattern.andThen fun unit => done (⟨n, unit⟩ : Size)).FailsOn p :=
    FailsOn.many_andThen (fun c hc => (h c hc).1) ((unitPattern_failsOn fun c hc => (h c hc).2).andThen _)
  apply numberPattern_decisive
  · intro n
    apply Decisive.many_andThen
    · intro _
      exact unitPattern_decisive.andThen fun unit => decisive_done _
    · intro _
      apply FailsOn.andThen
      apply unitPattern_failsOn
      intro c hc hletter
      rw [(py.letters c hletter).2.1] at hc
      cases hc
  · apply hunit
    intro c hc
    refine ⟨py.digits c hc, ?_⟩
    intro hletter
    rw [Characters.isDigit, (py.letters c hletter).1] at hc
    cases hc
  · apply hunit
    intro c hc
    obtain rfl : c = '.' := by simpa using hc
    refine ⟨py.point.2.1, ?_⟩
    intro hletter
    have := (py.letters '.' hletter).2.2
    rw [py.point.2.2] at this
    cases this

theorem percentPattern_decisive : py.percentPattern.Decisive := by
  apply (decisive_char _).andThen
  intro _
  apply numberPattern_decisive
  · intro n
    apply (decisive_char _).andThen
    intro _
    apply (decisive_char _).andThen
    intro _
    exact decisive_done _
  · intro n
    apply FailsOn.andThen
    apply failsOn_char
    intro c hc
    apply beq_false_of_ne
    rintro rfl
    rw [Characters.isDigit, py.percent] at hc
    cases hc
  · intro n
    apply FailsOn.andThen
    apply failsOn_char
    intro c hc
    obtain rfl : c = '.' := by simpa using hc
    rfl

/-- What `_SIZE_PATTERN` matches. -/
theorem sizePattern_head {text : List Char} {size : Size} :
    (∃ rest, (py.sizePattern text).head? = some (size, rest)) ↔ SizeAt py text size := by
  simp only [sizePattern_decisive.head?]
  unfold Characters.sizePattern SizeAt
  simp only [mem_andThen, mem_numberPattern, mem_many, mem_unitPattern, mem_done]
  constructor
  · rintro ⟨_, n, _, ⟨rfl, hn⟩, spaces, _, ⟨rfl, hspaces⟩, unit, _, ⟨rfl, hunit, hend⟩, rfl, rfl⟩
    exact ⟨spaces, _, rfl, hn, hspaces, hunit, hend⟩
  · rintro ⟨spaces, rest, rfl, hn, hspaces, hunit, hend⟩
    exact ⟨rest, size.number, _, ⟨rfl, hn⟩, spaces, _, ⟨rfl, hspaces⟩, size.unit, rest,
      ⟨rfl, hunit, hend⟩, rfl, rfl⟩

/-- What `_PERCENT_PATTERN` matches. -/
theorem percentPattern_head {text : List Char} {n : Numeral} :
    (∃ rest, (py.percentPattern text).head? = some (n, rest)) ↔ PercentAt py text n := by
  simp only [percentPattern_decisive.head?]
  unfold Characters.percentPattern PercentAt
  simp only [mem_andThen, mem_numberPattern, mem_char, mem_done, beq_iff_eq]
  constructor
  · rintro ⟨_, _, _, ⟨rfl, rfl⟩, n, _, ⟨rfl, hn⟩, _, _, ⟨rfl, rfl⟩, _, _, ⟨rfl, rfl⟩, rfl, rfl⟩
    exact ⟨_, rfl, hn⟩
  · rintro ⟨rest, rfl, hn⟩
    exact ⟨rest, '(', _, ⟨rfl, rfl⟩, n, _, ⟨rfl, hn⟩, '%', _, ⟨rfl, rfl⟩, ')', rest, ⟨rfl, rfl⟩, rfl, rfl⟩

end Patterns

/-! ### What is meant -/

/-- The shortest beginning of a line that holds the word up to case, and the rest. -/
structure FirstOccurrence (py : Characters) (word text used post : List Char) : Prop where
  parts : text = used ++ post
  holds : word <:+: py.casefoldText used
  shortest : ∀ n < used.length, ¬ word <:+: py.casefoldText (text.take n)

/-- The decimal number times its unit's multiplier, cut off to an integer. -/
def byteValue (py : Characters) (size : Size) : Option Nat :=
  (py.multiplier size.unit).map fun m : Nat => ⌊(py.decimalOf size.number).value * m⌋₊

/-- The byte value of the first size behind the word: what the line says to a reader who looks for
the word up to case. -/
def Reads (py : Characters) (word text : List Char) (n : Nat) : Prop :=
  ∃ used post start size, FirstOccurrence py word text used post ∧
    First (SizeAt py) post start size ∧ byteValue py size = some n

/-- The first percentage of a line on reuse. -/
def SeesPercent (py : Characters) (text : List Char) (d : Decimal) : Prop :=
  reusedWord <:+: py.casefoldText text ∧ ∃ start n, First (PercentAt py) text start n ∧ py.decimalOf n = d

/-- The value of the last element that has one: in a log, what was said last. -/
def LastValue {α β : Type} (R : α → β → Prop) (l : List α) : Option β → Prop
  | some b => ∃ before x after, l = before ++ x :: after ∧ R x b ∧ ∀ y ∈ after, ∀ b', ¬ R y b'
  | none => ∀ x ∈ l, ∀ b, ¬ R x b

/-- What is to be returned for what was transferred, what was reused and the last
percentage of reuse. -/
def transferOf (T R : Option Nat) (P : Option Decimal) : Option Int :=
  match T, R with
  | none, _ => none
  | some t, none => some t
  | some t, some r =>
    if r < t then some (t - r) else if P.map Decimal.value = some 100 then some 0 else none

def textOf (entry : Dict) : Option (List Char) :=
  match entry.get? "t" with
  | some (.str text) => some text.toList
  | _ => none

/-- The texts of a log, in its order. -/
def texts (entries : List Dict) : List (List Char) := entries.filterMap textOf

/-- A log measures a transfer: its last words on what was transferred and on what was reused, put
together as the source does. -/
def Measured (py : Characters) (entries : List Dict) (result : Option Int) : Prop :=
  ∃ T R P, LastValue (Reads py transferredWord) (texts entries) T ∧
    LastValue (Reads py reusedWord) (texts entries) R ∧
    LastValue (SeesPercent py) (texts entries) P ∧
    result = transferOf T R P ∧ ∀ n, result = some n → ∃ t : Nat, T = some t ∧ 0 ≤ n ∧ n ≤ t

/-! ### When the code reads what is meant -/

/-- How many characters behind the word's first occurrence the code starts to look. -/
def slippage (py : Characters) (word used : List Char) : Nat :=
  (indexOf word (py.casefoldText used)).getD 0 + word.length - used.length

/-- The size behind the word begins where the code looks for it, and the digits that the
decimal context keeps give its integer part. -/
structure Fits (py : Characters) (word used : List Char) (start : Nat) (size : Size) : Prop where
  within : slippage py word used ≤ start
  exact : ∀ m, py.multiplier size.unit = some m →
    defaultContext.KeepsWhole ((py.decimalOf size.number).scale m)

/-- A line whose size behind the word fits, if there is one. -/
def Legible (py : Characters) (word text : List Char) : Prop :=
  ∀ used post start size, FirstOccurrence py word text used post →
    First (SizeAt py) post start size → Fits py word used start size

/-- The code finds the size behind the word at its place, and reads its byte value. -/
def ReadsNamed (py : Characters) (word text : List Char) : Prop :=
  ∀ used post start size, FirstOccurrence py word text used post → First (SizeAt py) post start size →
    ∃ slice place, py.sliceStart word text = some slice ∧
      search py.sizePattern (text.drop slice) = some (place, size) ∧
      slice + place = used.length + start ∧ py.sizeBytes size = .ok (byteValue py size)

section Occurrences
variable {py : Characters} {word text used post : List Char}

theorem casefoldText_append (a b : List Char) :
    py.casefoldText (a ++ b) = py.casefoldText a ++ py.casefoldText b := List.flatMap_append

theorem length_le_casefoldText (l : List Char) : l.length ≤ (py.casefoldText l).length := by
  induction l with
  | nil => exact Nat.zero_le _
  | cons c rest ih =>
    have hpos : 0 < (py.casefold c).length := List.length_pos_iff.mpr (py.casefold_ne_nil c)
    have happend : py.casefoldText (c :: rest) = py.casefold c ++ py.casefoldText rest := List.flatMap_cons
    rw [happend, List.length_cons, List.length_append]
    omega

theorem FirstOccurrence.take (h : FirstOccurrence py word text used post) :
    used = text.take used.length := by
  rw [h.parts, List.take_left]

/-- A line that holds the word has a first occurrence. -/
theorem exists_firstOccurrence (h : word <:+: py.casefoldText text) :
    ∃ used post, FirstOccurrence py word text used post := by
  classical
  have hexists : ∃ n, word <:+: py.casefoldText (text.take n) := ⟨text.length, by rwa [List.take_length]⟩
  have hle : Nat.find hexists ≤ text.length := Nat.find_min' hexists (by rwa [List.take_length])
  refine ⟨text.take (Nat.find hexists), text.drop (Nat.find hexists), (List.take_append_drop _ _).symm,
    Nat.find_spec hexists, ?_⟩
  intro n hn
  rw [List.length_take] at hn
  exact Nat.find_min hexists (by omega)

theorem FirstOccurrence.infix (h : FirstOccurrence py word text used post) :
    word <:+: py.casefoldText text := by
  rw [h.parts, casefoldText_append]
  exact h.holds.trans (List.prefix_append _ _).isInfix

theorem FirstOccurrence.unique {used' post' : List Char} (h : FirstOccurrence py word text used post)
    (h' : FirstOccurrence py word text used' post') : used = used' ∧ post = post' := by
  have hlength : used.length = used'.length := by
    by_contra hne
    rcases Nat.lt_or_gt_of_ne hne with hlt | hlt
    · exact h'.shortest _ hlt (h.take ▸ h.holds)
    · exact h.shortest _ hlt (h'.take ▸ h'.holds)
  exact List.append_inj (h.parts.symm.trans h'.parts) hlength

/-- The code starts to look no earlier than where the word's first occurrence ends. -/
theorem FirstOccurrence.length_le (h : FirstOccurrence py word text used post) {i : Nat}
    (hi : indexOf word (py.casefoldText used) = some i) : used.length ≤ i + word.length := by
  by_contra hlt
  -- the word would lie in the case folding of a shorter beginning
  have hshort : text.take (used.length - 1) = used.take (used.length - 1) := by
    rw [h.parts, List.take_append_of_le_length (by omega)]
  apply h.shortest (used.length - 1) (by omega)
  rw [hshort]
  have hsplit : py.casefoldText used = py.casefoldText (used.take (used.length - 1)) ++
      py.casefoldText (used.drop (used.length - 1)) := by
    rw [← casefoldText_append, List.take_append_drop]
  have hlong : i + word.length ≤ (py.casefoldText (used.take (used.length - 1))).length := by
    have hle : (used.take (used.length - 1)).length ≤
        (py.casefoldText (used.take (used.length - 1))).length := length_le_casefoldText _
    rw [List.length_take] at hle
    omega
  have hprefix := prefix_of_indexOf hi
  rw [hsplit, List.drop_append_of_le_length (by omega)] at hprefix
  have hword : word <+: (py.casefoldText (used.take (used.length - 1))).drop i :=
    List.prefix_of_prefix_length_le hprefix (List.prefix_append _ _) (by rw [List.length_drop]; omega)
  exact hword.isInfix.trans (List.drop_suffix _ _).isInfix

theorem FirstOccurrence.sliceStart (h : FirstOccurrence py word text used post) :
    py.sliceStart word text = some (used.length + slippage py word used) := by
  obtain ⟨i, hi⟩ := Option.isSome_iff_exists.mp (indexOf_isSome.mpr h.holds)
  have htext : indexOf word (py.casefoldText text) = some i := by
    rw [h.parts, casefoldText_append]
    exact indexOf_append hi _
  have hle := h.length_le hi
  unfold Characters.sliceStart slippage
  rw [htext, hi, Option.map_some, Option.getD_some]
  congr 1
  omega

theorem FirstOccurrence.drop (h : FirstOccurrence py word text used post) (k : Nat) :
    text.drop (used.length + k) = post.drop k := by
  rw [h.parts, List.drop_append, List.drop_eq_nil_of_le (Nat.le_add_right _ _), Nat.add_sub_cancel_left,
    List.nil_append]

theorem not_sizeAt_nil (size : Size) : ¬ SizeAt py [] size := by
  rintro ⟨spaces, rest, htext, hn, -⟩
  have hwhole := (List.append_eq_nil_iff.mp (List.append_eq_nil_iff.mp htext.symm).1).1
  exact hn.whole hwhole

/-- The leftmost match of the size pattern is the first size. -/
theorem search_size {l : List Char} {start : Nat} {size : Size} :
    search py.sizePattern l = some (start, size) ↔ First (SizeAt py) l start size := by
  rw [search_eq_some, sizePattern_head]
  have hnone (m : Nat) : py.sizePattern (l.drop m) = [] ↔ ∀ b, ¬ SizeAt py (l.drop m) b := by
    constructor
    · intro h b hb
      obtain ⟨rest, hhead⟩ := sizePattern_head.mpr hb
      rw [h] at hhead
      cases hhead
    · intro h
      by_contra hne
      obtain ⟨read, more, hread⟩ := List.exists_cons_of_ne_nil hne
      exact h read.1 (sizePattern_head.mp ⟨read.2, by rw [hread]; rfl⟩)
  constructor
  · rintro ⟨-, hat, hbefore⟩
    exact ⟨hat, fun before hlt => (hnone before).mp (hbefore before hlt)⟩
  · rintro ⟨hat, hbefore⟩
    refine ⟨?_, hat, fun m hm => (hnone m).mpr (hbefore m hm)⟩
    by_contra hlt
    rw [List.drop_eq_nil_of_le (by omega)] at hat
    exact not_sizeAt_nil size hat

theorem not_percentAt_nil (n : Numeral) : ¬ PercentAt py [] n := by
  rintro ⟨rest, htext, -⟩
  cases htext

/-- The leftmost match of the percentage pattern is the first percentage. -/
theorem search_percent {l : List Char} {start : Nat} {n : Numeral} :
    search py.percentPattern l = some (start, n) ↔ First (PercentAt py) l start n := by
  rw [search_eq_some, percentPattern_head]
  have hnone (m : Nat) : py.percentPattern (l.drop m) = [] ↔ ∀ b, ¬ PercentAt py (l.drop m) b := by
    constructor
    · intro h b hb
      obtain ⟨rest, hhead⟩ := percentPattern_head.mpr hb
      rw [h] at hhead
      cases hhead
    · intro h
      by_contra hne
      obtain ⟨read, more, hread⟩ := List.exists_cons_of_ne_nil hne
      exact h read.1 (percentPattern_head.mp ⟨read.2, by rw [hread]; rfl⟩)
  constructor
  · rintro ⟨-, hat, hbefore⟩
    exact ⟨hat, fun before hlt => (hnone before).mp (hbefore before hlt)⟩
  · rintro ⟨hat, hbefore⟩
    refine ⟨?_, hat, fun m hm => (hnone m).mpr (hbefore m hm)⟩
    by_contra hlt
    rw [List.drop_eq_nil_of_le (by omega)] at hat
    exact not_percentAt_nil n hat

theorem sliceStart_isSome : (py.sliceStart word text).isSome ↔ word <:+: py.casefoldText text := by
  unfold Characters.sliceStart
  rw [Option.isSome_map, indexOf_isSome]

/-- `int(amount * multiplier)` is exact where the context keeps the integer part. -/
theorem sizeBytes_eq (size : Size) : py.sizeBytes size = .ok (byteValue py size) ↔
    ∀ m, py.multiplier size.unit = some m → defaultContext.KeepsWhole ((py.decimalOf size.number).scale m) := by
  unfold Characters.sizeBytes byteValue
  cases hm : py.multiplier size.unit with
  | none => exact ⟨fun _ m h => (by cases h), fun _ => rfl⟩
  | some m =>
    have hfloor : ⌊(py.decimalOf size.number).value * m⌋₊ = ((py.decimalOf size.number).scale m).truncate := by
      rw [Decimal.truncate_eq_floor, Decimal.value_scale]
    simp only [Option.map_some, hfloor, Option.some.injEq, forall_eq']
    unfold Context.KeepsWhole
    cases hround : defaultContext.round ((py.decimalOf size.number).scale m) with
    | none => exact ⟨fun h => (by cases h), fun h => (by cases h)⟩
    | some product => simp

theorem Fits.of_multiplier {used : List Char} {start : Nat} {size : Size} {m : Nat}
    (hm : py.multiplier size.unit = some m) (hwithin : slippage py word used ≤ start)
    (hkeeps : defaultContext.KeepsWhole ((py.decimalOf size.number).scale m)) : Fits py word used start size where
  within := hwithin
  exact m' hm' := by
    obtain rfl := Option.some.inj (hm.symm.trans hm')
    exact hkeeps

/-- Where the code looks is right exactly for the lines whose size fits. -/
theorem legible_iff : Legible py word text ↔ ReadsNamed py word text := by
  constructor
  · intro h used post start size hoccurs hfirst
    obtain ⟨hwithin, hexact⟩ := h used post start size hoccurs hfirst
    refine ⟨_, start - slippage py word used, hoccurs.sliceStart, ?_, by omega, (sizeBytes_eq size).mpr hexact⟩
    rw [hoccurs.drop]
    exact search_drop (search_size.mpr hfirst) hwithin
  · intro h used post start size hoccurs hfirst
    obtain ⟨slice, place, hslice, -, hplace, hbytes⟩ := h used post start size hoccurs hfirst
    have hstart := Option.some.inj (hoccurs.sliceStart.symm.trans hslice)
    exact ⟨by omega, (sizeBytes_eq size).mp hbytes⟩

/-- The size behind the word is read on a legible line. -/
theorem Legible.sizeAfter (h : Legible py word text) :
    ∃ o, py.sizeAfter word text = .ok o ∧ ∀ n, o = some n ↔ Reads py word text n := by
  by_cases hoccurs : word <:+: py.casefoldText text
  · obtain ⟨used, post, hfirst⟩ := exists_firstOccurrence hoccurs
    unfold Characters.sizeAfter
    rw [hfirst.sliceStart]
    simp only [Characters.firstSize, hfirst.drop]
    cases hsearch : search py.sizePattern post with
    | none =>
      rw [search_drop_none rfl hsearch]
      refine ⟨none, rfl, fun n => ⟨fun hn => (by cases hn), ?_⟩⟩
      rintro ⟨used', post', start, size, hfirst', hsize, -⟩
      rw [← (hfirst.unique hfirst').2, ← search_size, hsearch] at hsize
      cases hsize
    | some found =>
      obtain ⟨start, size⟩ := found
      have hsize := search_size.mp hsearch
      obtain ⟨hwithin, hexact⟩ := h used post start size hfirst hsize
      rw [search_drop hsearch hwithin]
      refine ⟨byteValue py size, (sizeBytes_eq size).mpr hexact, fun n => ⟨?_, ?_⟩⟩
      · intro hn
        exact ⟨used, post, start, size, hfirst, hsize, hn⟩
      · rintro ⟨used', post', start', size', hfirst', hsize', hn⟩
        rw [← (hfirst.unique hfirst').2, ← search_size, hsearch, Option.some.injEq, Prod.mk.injEq] at hsize'
        rw [hsize'.2]
        exact hn
  · have hnone : py.sliceStart word text = none := by
      rw [← Option.not_isSome_iff_eq_none, sliceStart_isSome]
      exact hoccurs
    refine ⟨none, by rw [Characters.sizeAfter, hnone], fun n => ⟨fun hn => (by cases hn), ?_⟩⟩
    rintro ⟨used, post, start, size, hfirst, -⟩
    exact absurd hfirst.infix hoccurs

theorem legible_of_not_infix (h : ¬ word <:+: py.casefoldText text) : Legible py word text :=
  fun _ _ _ _ hoccurs => absurd hoccurs.infix h

/-- A line is legible if the size that is found behind the word fits. -/
theorem FirstOccurrence.legible (h : FirstOccurrence py word text used post) (start : Nat) (size : Size)
    (hsearch : search py.sizePattern post = some (start, size)) (hfits : Fits py word used start size) :
    Legible py word text := by
  intro used' post' start' size' h' hfirst
  obtain ⟨rfl, rfl⟩ := h.unique h'
  rw [← search_size, hsearch, Option.some.injEq, Prod.mk.injEq] at hfirst
  obtain ⟨rfl, rfl⟩ := hfirst
  exact hfits

theorem seesPercent_iff (hoccurs : reusedWord <:+: py.casefoldText text) (d : Decimal) :
    (search py.percentPattern text).map (fun found => py.decimalOf found.2) = some d ↔
      SeesPercent py text d := by
  rw [Option.map_eq_some_iff]
  constructor
  · rintro ⟨⟨start, n⟩, hsearch, rfl⟩
    exact ⟨hoccurs, start, n, search_percent.mp hsearch, rfl⟩
  · rintro ⟨-, start, n, hfirst, rfl⟩
    exact ⟨(start, n), search_percent.mpr hfirst, rfl⟩

end Occurrences

/-! ### The last value of a list -/

section Last
variable {α β : Type} {R : α → β → Prop} {l : List α} {x : α} {o : Option β}

theorem LastValue.nil : LastValue R [] none := fun x hx => by cases hx

/-- The last value is the last element's, or the value before. -/
theorem lastValue_snoc : LastValue R (l ++ [x]) o ↔
    (∃ b, o = some b ∧ R x b) ∨ ((∀ b, ¬ R x b) ∧ LastValue R l o) := by
  cases o with
  | none =>
    constructor
    · intro h
      refine Or.inr ⟨h x (List.mem_append_right _ (List.mem_singleton_self x)), ?_⟩
      exact fun y hy => h y (List.mem_append_left _ hy)
    · rintro (⟨b, hb, -⟩ | ⟨hx, hl⟩)
      · cases hb
      · intro y hy
        rcases List.mem_append.mp hy with hy | hy
        · exact hl y hy
        · exact List.mem_singleton.mp hy ▸ hx
  | some b =>
    constructor
    · rintro ⟨before, y, after, hl, hy, hafter⟩
      by_cases hnil : after = []
      · rw [hnil] at hl
        obtain ⟨-, hxy⟩ := List.append_inj' hl rfl
        rw [List.cons.injEq] at hxy
        exact Or.inl ⟨b, rfl, hxy.1 ▸ hy⟩
      · obtain ⟨init, z, rfl⟩ : ∃ init z, after = init ++ [z] :=
          ⟨after.dropLast, after.getLast hnil, (List.dropLast_append_getLast hnil).symm⟩
        rw [← List.cons_append, ← List.append_assoc] at hl
        obtain ⟨hl, hxz⟩ := List.append_inj' hl rfl
        rw [List.cons.injEq] at hxz
        refine Or.inr ⟨?_, before, y, init, hl, hy, fun w hw => hafter w (List.mem_append_left _ hw)⟩
        rw [hxz.1]
        exact hafter z (List.mem_append_right _ (List.mem_singleton_self z))
    · rintro (⟨b', hb, hx⟩ | ⟨hx, before, y, after, rfl, hy, hafter⟩)
      · obtain rfl := Option.some.inj hb
        exact ⟨l, x, [], rfl, hx, fun y hy => by cases hy⟩
      · refine ⟨before, y, after ++ [x], by simp, hy, fun w hw => ?_⟩
        rcases List.mem_append.mp hw with hw | hw
        · exact hafter w hw
        · exact List.mem_singleton.mp hw ▸ hx

theorem LastValue.snoc (h : LastValue R l o) {p : Option β} (hp : ∀ b, p = some b ↔ R x b) :
    LastValue R (l ++ [x]) (p.or o) := by
  apply lastValue_snoc.mpr
  cases p with
  | none => exact Or.inr ⟨fun b hb => (by cases (hp b).mpr hb), h⟩
  | some b => exact Or.inl ⟨b, rfl, (hp b).mp rfl⟩

theorem LastValue.unique (hR : ∀ x b b', R x b → R x b' → b = b') {o' : Option β}
    (h : LastValue R l o) (h' : LastValue R l o') : o = o' := by
  induction l using List.reverseRecOn with
  | nil =>
    have hnone {q : Option β} (hq : LastValue R [] q) : q = none := by
      cases q with
      | none => rfl
      | some b =>
        obtain ⟨before, y, after, hl, -⟩ := hq
        cases before <;> cases hl
    rw [hnone h, hnone h']
  | append_singleton l x ih =>
    rcases lastValue_snoc.mp h with ⟨b, rfl, hb⟩ | ⟨hx, hl⟩
    · rcases lastValue_snoc.mp h' with ⟨b', rfl, hb'⟩ | ⟨hx, -⟩
      · rw [hR x b b' hb hb']
      · exact absurd hb (hx b)
    · rcases lastValue_snoc.mp h' with ⟨b', rfl, hb'⟩ | ⟨-, hl'⟩
      · exact absurd hb' (hx b')
      · exact ih hl hl'

end Last

/-! ### Latin texts -/

theorem latin_letters (c : Char) (h : c.toLower ∈ unitLetters) :
    (if '0' ≤ c ∧ c ≤ '9' then some (c.toNat - 48) else none) = none ∧ (c == ' ') = false ∧
      (c.isAlphanum || c == 'ı' || c == 'ß') = true := by
  by_cases hupper : c.isUpper = true
  · obtain ⟨n, rfl, hlow, hhigh⟩ : ∃ n, c = Char.ofNat n ∧ 65 ≤ n ∧ n ≤ 90 :=
      ⟨c.toNat, (Char.ofNat_toNat c).symm, by simpa [Char.isUpper, UInt32.le_iff_toNat_le] using hupper⟩
    clear h hupper
    interval_cases n <;> decide
  · have hsame : c.toLower = c := by
      unfold Char.toLower
      rw [dif_neg (by simpa [Char.isUpper] using hupper)]
    rw [hsame] at h
    simp only [unitLetters, List.mem_cons, List.not_mem_nil, or_false] at h
    rcases h with rfl | rfl | rfl | rfl | rfl | rfl | rfl | rfl | rfl <;> decide

/-- Latin letters, digits and the space, with the letters whose case folding is longer than they
are. On these it behaves as Python's functions do. -/
def latin : Characters where
  casefold c := if c = 'ß' then ['s', 's'] else [c.toLower]
  upper c := if c = 'ß' then ['S', 'S'] else if c = 'ı' then ['I'] else [c.toUpper]
  lower c := c.toLower
  decimal c := if '0' ≤ c ∧ c ≤ '9' then some (c.toNat - 48) else none
  isSpace c := c == ' '
  isWord c := c.isAlphanum || c == 'ı' || c == 'ß'
  casefold_ne_nil c := by
    split <;> exact List.cons_ne_nil _ _
  letters := latin_letters
  digits c h := by
    apply beq_false_of_ne
    rintro rfl
    revert h
    decide
  point := by decide
  percent := by decide

/-! ### A whole log -/

section Log
variable {py : Characters}

theorem Reads.unique {word text : List Char} {n n' : Nat} (h : Reads py word text n)
    (h' : Reads py word text n') : n = n' := by
  obtain ⟨used, post, start, size, hfirst, hsize, hn⟩ := h
  obtain ⟨used', post', start', size', hfirst', hsize', hn'⟩ := h'
  rw [← (hfirst.unique hfirst').2, ← search_size, search_size.mpr hsize, Option.some.injEq,
    Prod.mk.injEq] at hsize'
  rw [← hsize'.2] at hn'
  exact Option.some.inj (hn.symm.trans hn')

theorem SeesPercent.unique {text : List Char} {d d' : Decimal} (h : SeesPercent py text d)
    (h' : SeesPercent py text d') : d = d' := by
  have hd := (seesPercent_iff h.1 d).mpr h
  exact Option.some.inj (hd.symm.trans ((seesPercent_iff h.1 d').mpr h'))

/-- A log measures one transfer. -/
theorem Measured.unique {entries : List Dict} {result result' : Option Int}
    (h : Measured py entries result) (h' : Measured py entries result') : result = result' := by
  obtain ⟨T, R, P, hT, hR, hP, rfl, -⟩ := h
  obtain ⟨T', R', P', hT', hR', hP', rfl, -⟩ := h'
  have hTT : T = T' := hT.unique (fun _ _ _ hb hb' => hb.unique hb') hT'
  have hRR : R = R' := hR.unique (fun _ _ _ hb hb' => hb.unique hb') hR'
  have hPP : P = P' := hP.unique (fun _ _ _ hb hb' => hb.unique hb') hP'
  rw [hTT, hRR, hPP]

/-- The variables hold the last values of the lines read. -/
structure Reading.Says (py : Characters) (reading : Reading) (lines : List (List Char)) : Prop where
  transferred : LastValue (Reads py transferredWord) lines reading.transferred
  reused : LastValue (Reads py reusedWord) lines reading.reused
  reusedPercent : LastValue (SeesPercent py) lines reading.reusedPercent

theorem readLine_says {reading : Reading} {lines : List (List Char)} {text : List Char}
    (h : reading.Says py lines) (htransferred : Legible py transferredWord text)
    (hreused : Legible py reusedWord text) :
    ∃ reading', readLine py reading text = .ok reading' ∧ reading'.Says py (lines ++ [text]) := by
  obtain ⟨sent, hsent, hsent_iff⟩ := htransferred.sizeAfter
  obtain ⟨kept, hkept, hkept_iff⟩ := hreused.sizeAfter
  by_cases hoccurs : (py.sliceStart reusedWord text).isSome
  · refine ⟨_, by simp only [readLine, hsent, hkept, if_pos hoccurs]; rfl, ?_, ?_, ?_⟩
    · exact h.transferred.snoc hsent_iff
    · exact h.reused.snoc hkept_iff
    · exact h.reusedPercent.snoc (seesPercent_iff (sliceStart_isSome.mp hoccurs))
  · have hkept_none : kept = none := by
      unfold Characters.sizeAfter at hkept
      rw [Option.not_isSome_iff_eq_none.mp hoccurs] at hkept
      exact (Except.ok.inj hkept).symm
    refine ⟨_, by simp only [readLine, hsent, if_neg hoccurs]; rfl, ?_, ?_, ?_⟩
    · exact h.transferred.snoc hsent_iff
    · have hnot (b : Nat) : ¬ Reads py reusedWord text b := by
        intro hb
        rw [hkept_none] at hkept_iff
        cases (hkept_iff b).mpr hb
      exact lastValue_snoc.mpr (Or.inr ⟨hnot, h.reused⟩)
    · exact lastValue_snoc.mpr (Or.inr
        ⟨fun d hd => hoccurs (sliceStart_isSome.mpr hd.1), h.reusedPercent⟩)

/-- What is read of a log of legible lines. -/
theorem foldlM_says {entries : List Dict} (h : ∀ text ∈ texts entries,
    Legible py transferredWord text ∧ Legible py reusedWord text) :
    ∃ reading, entries.foldlM (readEntry py) {} = .ok reading ∧ reading.Says py (texts entries) := by
  induction entries using List.reverseRecOn with
  | nil => exact ⟨{}, rfl, .nil, .nil, .nil⟩
  | append_singleton entries entry ih =>
    have hsplit : texts (entries ++ [entry]) = texts entries ++ texts [entry] := List.filterMap_append
    rw [hsplit] at h
    obtain ⟨reading, hread, htold⟩ := ih fun text htext => h text (List.mem_append_left _ htext)
    rw [hsplit, List.foldlM_append, hread]
    show ∃ reading', [entry].foldlM (readEntry py) reading = _ ∧ _
    rw [List.foldlM_cons]
    have hentry : readEntry py reading entry = match textOf entry with
        | some text => readLine py reading text
        | none => .ok reading := by
      unfold readEntry textOf
      split <;> simp_all
    cases htext : textOf entry with
    | some text =>
      have hline : texts [entry] = [text] := List.filterMap_cons_some htext
      obtain ⟨hsent, hkept⟩ := h text (List.mem_append_right _ (hline ▸ List.mem_singleton_self text))
      obtain ⟨reading', hnext, htold'⟩ := readLine_says htold hsent hkept
      rw [hentry, htext, hline]
      exact ⟨reading', by simp only [hnext]; rfl, htold'⟩
    | none =>
      have hline : texts [entry] = [] := List.filterMap_cons_none htext
      rw [hentry, htext, hline, List.append_nil]
      exact ⟨reading, rfl, htold⟩

theorem Reading.result_eq (reading : Reading) :
    reading.result = transferOf reading.transferred reading.reused reading.reusedPercent := by
  unfold Reading.result transferOf
  cases reading.transferred with
  | none => rfl
  | some t =>
    cases reading.reused with
    | none => rfl
    | some r =>
      simp only
      by_cases hlt : r < t
      · rw [if_neg (by omega), if_pos hlt]
      · rw [if_pos (by omega), if_neg hlt]

/-- What is returned lies between nothing and all that was transferred. -/
theorem transferOf_bounds {T R : Option Nat} {P : Option Decimal} {n : Int} (h : transferOf T R P = some n) :
    ∃ t : Nat, T = some t ∧ 0 ≤ n ∧ n ≤ t := by
  unfold transferOf at h
  split at h
  · cases h
  · next t =>
    obtain rfl := Option.some.inj h
    exact ⟨t, rfl, by omega, le_rfl⟩
  · next t r =>
    split at h
    · next hlt =>
      obtain rfl := Option.some.inj h
      exact ⟨t, rfl, by omega, by omega⟩
    · split at h
      · obtain rfl := Option.some.inj h
        exact ⟨t, rfl, le_rfl, by omega⟩
      · cases h

/-- **Measurement.** The code reads the size that a line names behind a keyword exactly
where that size fits, and a log of such lines is measured. -/
theorem transfer_measured (py : Characters) :
    (∀ word text, Legible py word text ↔ ReadsNamed py word text) ∧
    ∀ entries : List Dict, (∀ text ∈ texts entries,
        Legible py transferredWord text ∧ Legible py reusedWord text) →
      ∃ result, backupTransferBytes py entries = .ok result ∧ Measured py entries result := by
  refine ⟨fun word text => legible_iff, ?_⟩
  intro entries h
  obtain ⟨reading, hread, htold⟩ := foldlM_says h
  refine ⟨reading.result, by rw [backupTransferBytes, hread]; rfl, reading.transferred, reading.reused,
    reading.reusedPercent, htold.transferred, htold.reused, htold.reusedPercent, reading.result_eq, ?_⟩
  intro n hn
  rw [reading.result_eq] at hn
  exact transferOf_bounds hn

end Log

def logLine (s : String) : Dict := [("t", .str s)]

/-- The log of an incremental backup, as Proxmox writes it. -/
def incrementalLog : List Dict :=
  [logLine "backup was done incrementally, reused 15.75 GiB (98%)", logLine "transferred 16.00 GiB in 8 seconds"]

theorem transferred_occurrence : FirstOccurrence latin transferredWord
    "transferred 16.00 GiB in 8 seconds".toList "transferred".toList " 16.00 GiB in 8 seconds".toList where
  parts := by decide +kernel
  holds := by decide +kernel
  shortest := by decide +kernel

theorem reused_occurrence : FirstOccurrence latin reusedWord
    "backup was done incrementally, reused 15.75 GiB (98%)".toList
    "backup was done incrementally, reused".toList " 15.75 GiB (98%)".toList where
  parts := by decide +kernel
  holds := by decide +kernel
  shortest := by decide +kernel

theorem gib_multiplier : latin.multiplier "GiB".toList = some (1024 ^ 3) := by decide +kernel

/-- A quarter of a GiB, the difference of what was transferred and what was reused. -/
theorem incrementalLog_measured :
    ∃ result, backupTransferBytes latin incrementalLog = .ok result ∧ Measured latin incrementalLog result := by
  apply (transfer_measured latin).2
  intro text htext
  rcases List.mem_cons.mp (show text ∈ ["backup was done incrementally, reused 15.75 GiB (98%)".toList,
      "transferred 16.00 GiB in 8 seconds".toList] from htext) with rfl | htext
  · constructor
    · exact legible_of_not_infix (by decide +kernel)
    · apply reused_occurrence.legible 1 ⟨⟨"15".toList, "75".toList⟩, "GiB".toList⟩ (by decide +kernel)
      exact .of_multiplier gib_multiplier (by decide +kernel) (by decide +kernel)
  · obtain rfl := List.mem_singleton.mp htext
    constructor
    · apply transferred_occurrence.legible 1 ⟨⟨"16".toList, "00".toList⟩, "GiB".toList⟩ (by decide +kernel)
      exact .of_multiplier gib_multiplier (by decide +kernel) (by decide +kernel)
    · exact legible_of_not_infix (by decide +kernel)

/-- Two characters before the keyword each fold to two. -/
def slippedLog : List Dict := [logLine "ßß transferred 16 GiB"]

/-- A log that says 16 GiB is measured as 6 GiB. -/
theorem slippedLog_mismeasured :
    ¬ ∃ result, backupTransferBytes latin slippedLog = .ok result ∧ Measured latin slippedLog result := by
  rintro ⟨result, hresult, T, R, P, hT, hR, -, heq, -⟩
  have hsix : backupTransferBytes latin slippedLog = .ok (some (6 * 1024 ^ 3)) := by decide +kernel
  have hoccurs : FirstOccurrence latin transferredWord "ßß transferred 16 GiB".toList
      "ßß transferred".toList " 16 GiB".toList :=
    ⟨by decide +kernel, by decide +kernel, by decide +kernel⟩
  -- the line names 16 GiB, and its size is exact
  have hvalue : byteValue latin ⟨⟨"16".toList, []⟩, "GiB".toList⟩ = some (16 * 1024 ^ 3) := by
    have hexact := (@sizeBytes_eq latin ⟨⟨"16".toList, []⟩, "GiB".toList⟩).mpr (by
      intro m hm
      obtain rfl := Option.some.inj (gib_multiplier.symm.trans hm)
      decide +kernel)
    have hbytes : latin.sizeBytes ⟨⟨"16".toList, []⟩, "GiB".toList⟩ = .ok (some (16 * 1024 ^ 3)) := by
      decide +kernel
    exact Except.ok.inj (hexact.symm.trans hbytes)
  have hreads : Reads latin transferredWord "ßß transferred 16 GiB".toList (16 * 1024 ^ 3) :=
    ⟨_, _, 1, _, hoccurs, search_size.mp (by decide +kernel), hvalue⟩
  have hnone (n : Nat) : ¬ Reads latin reusedWord "ßß transferred 16 GiB".toList n := by
    rintro ⟨used, post, start, size, h, -⟩
    exact absurd h.infix (by decide +kernel)
  have hlines : texts slippedLog = [] ++ ["ßß transferred 16 GiB".toList] := rfl
  rw [hlines] at hT hR
  have hTvalue : T = some (16 * 1024 ^ 3) :=
    hT.unique (fun _ _ _ hb hb' => hb.unique hb') (lastValue_snoc.mpr (Or.inl ⟨_, rfl, hreads⟩))
  have hRvalue : R = none :=
    hR.unique (fun _ _ _ hb hb' => hb.unique hb') (lastValue_snoc.mpr (Or.inr ⟨hnone, .nil⟩))
  rw [hTvalue, hRvalue] at heq
  have hsixteen := hresult.symm.trans hsix
  rw [heq] at hsixteen
  exact absurd (Option.some.inj (Except.ok.inj hsixteen)) (by decide)

end PveMaster.Transfer
