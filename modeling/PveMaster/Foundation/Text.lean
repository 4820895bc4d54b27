import Mathlib.Data.Nat.Digits.Lemmas

/-! Numerals and identifiers as texts, and how a text is taken apart.

A text is a list of characters. A numeral gives back its number (`value_numeral`), so
different numbers have different numerals. A text put together around a character of a
kind that its first part does not contain comes apart in one way (`cut_inj`). -/
namespace PveMaster.Text

/-! ### Numerals -/

/-- The digits of the bases up to sixteen, the letters among them small. -/
def digit (n : Nat) : Char := Char.ofNat (if n < 10 then 48 + n else 87 + n)

def digitValue (c : Char) : Nat := if c.toNat < 58 then c.toNat - 48 else c.toNat - 87

theorem digitValue_digit : ∀ n < 16, digitValue (digit n) = n := by decide

/-- The number a text of digits stands for, in some base. -/
def value (base : Nat) (l : List Char) : Nat := l.foldl (fun n c => n * base + digitValue c) 0

def digitsText (base n : Nat) : List Char := (Nat.digits base n).reverse.map digit

/-- A number as a text, without zeros before it. -/
def numeral (base n : Nat) : List Char := if n = 0 then ['0'] else digitsText base n

def IsDigit (base : Nat) (c : Char) : Prop := ∃ d < base, c = digit d

theorem isDigit_zero {base : Nat} (h : 0 < base) : IsDigit base '0' := ⟨0, h, by decide⟩

/-- No digit is one of the other characters. -/
theorem IsDigit.ne {base : Nat} {c : Char} (h : IsDigit base c) {d : Char}
    (hd : ∀ n < base, digit n ≠ d) : c ≠ d := by
  obtain ⟨n, hn, rfl⟩ := h
  exact hd n hn

section Numerals
variable {base : Nat}

theorem isDigit_digitsText (hbase : 1 < base) {n : Nat} {c : Char} (hc : c ∈ digitsText base n) :
    IsDigit base c := by
  obtain ⟨d, hd, rfl⟩ := List.mem_map.mp hc
  exact ⟨d, Nat.digits_lt_base hbase (List.mem_reverse.mp hd), rfl⟩

theorem isDigit_numeral (hbase : 1 < base) {n : Nat} {c : Char} (hc : c ∈ numeral base n) :
    IsDigit base c := by
  unfold numeral at hc
  split at hc
  · rw [List.mem_singleton] at hc
    exact hc ▸ isDigit_zero (by omega)
  · exact isDigit_digitsText hbase hc

theorem value_append (l l' : List Char) :
    value base (l ++ l') = l'.foldl (fun n c => n * base + digitValue c) (value base l) := by
  unfold value
  rw [List.foldl_append]

theorem value_ofDigits {l : List Nat} (h : ∀ d ∈ l, d < 16) :
    value base (l.reverse.map digit) = Nat.ofDigits base l := by
  induction l with
  | nil => rfl
  | cons d rest ih =>
    have hd : digitValue (digit d) = d := digitValue_digit d (h d List.mem_cons_self)
    rw [List.reverse_cons, List.map_append, value_append,
      ih fun x hx => h x (List.mem_cons_of_mem d hx), Nat.ofDigits_cons]
    show Nat.ofDigits base rest * base + digitValue (digit d) = _
    rw [hd, Nat.mul_comm, Nat.add_comm]

theorem value_digitsText (hbase : 1 < base) (hle : base ≤ 16) (n : Nat) :
    value base (digitsText base n) = n := by
  unfold digitsText
  rw [value_ofDigits fun d hd => lt_of_lt_of_le (Nat.digits_lt_base hbase hd) hle,
    Nat.ofDigits_digits]

theorem value_zeros (k : Nat) : value base (List.replicate k '0') = 0 := by
  induction k with
  | zero => rfl
  | succ k ih =>
    rw [List.replicate_succ', value_append, ih]
    show 0 * base + 0 = 0
    omega

theorem value_numeral (hbase : 1 < base) (hle : base ≤ 16) (n : Nat) :
    value base (numeral base n) = n := by
  unfold numeral
  split
  · next h =>
    rw [h]
    exact value_zeros 1
  · exact value_digitsText hbase hle n

end Numerals

/-! ### Integers -/

/-- `str(i)`. -/
def integer : Int → List Char
  | .ofNat n => numeral 10 n
  | .negSucc n => '-' :: numeral 10 (n + 1)

theorem integer_chars {i : Int} {c : Char} (hc : c ∈ integer i) : c = '-' ∨ IsDigit 10 c := by
  cases i with
  | ofNat n => exact Or.inr (isDigit_numeral (by decide) hc)
  | negSucc n =>
    rcases List.mem_cons.mp hc with rfl | hc
    · exact Or.inl rfl
    · exact Or.inr (isDigit_numeral (by decide) hc)

theorem minus_not_mem_numeral (n : Nat) (l : List Char) : numeral 10 n ≠ '-' :: l := by
  intro h
  have hdigit : IsDigit 10 '-' :=
    isDigit_numeral (by decide) (by rw [h]; exact List.mem_cons_self : '-' ∈ numeral 10 n)
  exact hdigit.ne (by decide) rfl

theorem integer_inj {i j : Int} (h : integer i = integer j) : i = j := by
  have numeral_inj {m n : Nat} (h : numeral 10 m = numeral 10 n) : m = n := by
    have := congrArg (value 10) h
    rwa [value_numeral (by decide) (by decide), value_numeral (by decide) (by decide)] at this
  cases i with
  | ofNat m =>
    cases j with
    | ofNat n => rw [numeral_inj h]
    | negSucc n => exact absurd h (minus_not_mem_numeral m _)
  | negSucc m =>
    cases j with
    | ofNat n => exact absurd h.symm (minus_not_mem_numeral n _)
    | negSucc n =>
      have := numeral_inj (List.cons.inj h).2
      rw [Nat.succ.inj this]

/-! ### UUIDs -/

/-- The 32 hexadecimal digits of a UUID, zeros before it included. -/
def hex32 (u : Nat) : List Char :=
  List.replicate (32 - (digitsText 16 u).length) '0' ++ digitsText 16 u

/-- `str(u)`: the digits in their five groups. -/
def uuid (u : Nat) : List Char :=
  let h := hex32 u
  h.take 8 ++ '-' :: ((h.drop 8).take 4 ++ '-' :: ((h.drop 12).take 4 ++ '-' ::
    ((h.drop 16).take 4 ++ '-' :: h.drop 20)))

theorem isDigit_hex32 {u : Nat} {c : Char} (hc : c ∈ hex32 u) : IsDigit 16 c := by
  rcases List.mem_append.mp hc with hc | hc
  · rw [List.eq_of_mem_replicate hc]
    exact isDigit_zero (by decide)
  · exact isDigit_digitsText (by decide) hc

theorem uuid_chars {u : Nat} {c : Char} (hc : c ∈ uuid u) : c = '-' ∨ IsDigit 16 c := by
  have taken {a b : Nat} (h : c ∈ ((hex32 u).drop a).take b) : IsDigit 16 c :=
    isDigit_hex32 (List.mem_of_mem_drop (List.mem_of_mem_take h))
  unfold uuid at hc
  simp only [List.mem_append, List.mem_cons] at hc
  rcases hc with hc | rfl | hc | rfl | hc | rfl | hc | rfl | hc
  · exact Or.inr (isDigit_hex32 (List.mem_of_mem_take hc))
  · exact Or.inl rfl
  · exact Or.inr (taken hc)
  · exact Or.inl rfl
  · exact Or.inr (taken hc)
  · exact Or.inl rfl
  · exact Or.inr (taken hc)
  · exact Or.inl rfl
  · exact Or.inr (isDigit_hex32 (List.mem_of_mem_drop hc))

theorem value_hex32 (u : Nat) : value 16 (hex32 u) = u := by
  unfold hex32
  rw [value_append, value_zeros]
  exact value_digitsText (by decide) (by decide) u

theorem filter_digits {l : List Char} (h : ∀ c ∈ l, IsDigit 16 c) : l.filter (· != '-') = l := by
  refine List.filter_eq_self.mpr fun c hc => ?_
  have : c ≠ '-' := (h c hc).ne (by decide)
  simpa using this

/-- Without its dashes a UUID is its digits. -/
theorem filter_uuid (u : Nat) : (uuid u).filter (· != '-') = hex32 u := by
  have taken (a b : Nat) : (((hex32 u).drop a).take b).filter (· != '-') = ((hex32 u).drop a).take b :=
    filter_digits fun c hc => isDigit_hex32 (List.mem_of_mem_drop (List.mem_of_mem_take hc))
  have first : ((hex32 u).take 8).filter (· != '-') = (hex32 u).take 8 :=
    filter_digits fun c hc => isDigit_hex32 (List.mem_of_mem_take hc)
  have last : ((hex32 u).drop 20).filter (· != '-') = (hex32 u).drop 20 :=
    filter_digits fun c hc => isDigit_hex32 (List.mem_of_mem_drop hc)
  have join (n : Nat) : ((hex32 u).drop n).take 4 ++ (hex32 u).drop (n + 4) = (hex32 u).drop n := by
    rw [← List.drop_drop, List.take_append_drop]
  have dash (l : List Char) : ('-' :: l).filter (· != '-') = l.filter (· != '-') := rfl
  simp only [uuid, List.filter_append, dash, taken, first, last, join]
  rw [List.take_append_drop]

theorem uuid_inj {u v : Nat} (h : uuid u = uuid v) : u = v := by
  have := congrArg (fun l => value 16 (l.filter (· != '-'))) h
  simpa only [filter_uuid, value_hex32] using this

/-! ### Taking a text apart -/

/-- A text whose first part ends before the first character of a kind. -/
theorem cut_inj {P : Char → Prop} {d d' : Char} {a a' b b' : List Char} (ha : ∀ c ∈ a, ¬ P c)
    (ha' : ∀ c ∈ a', ¬ P c) (hd : P d) (hd' : P d') (h : a ++ d :: b = a' ++ d' :: b') :
    a = a' ∧ d = d' ∧ b = b' := by
  induction a generalizing a' with
  | nil =>
    cases a' with
    | nil =>
      obtain ⟨rfl, rfl⟩ := List.cons.inj h
      exact ⟨rfl, rfl, rfl⟩
    | cons c rest =>
      obtain ⟨rfl, -⟩ := List.cons.inj h
      exact absurd hd (ha' d List.mem_cons_self)
  | cons c rest ih =>
    cases a' with
    | nil =>
      obtain ⟨rfl, -⟩ := List.cons.inj h
      exact absurd hd' (ha c List.mem_cons_self)
    | cons c' rest' =>
      obtain ⟨rfl, hrest⟩ := List.cons.inj h
      obtain ⟨rfl, hb⟩ := ih (fun x hx => ha x (List.mem_cons_of_mem c hx))
        (fun x hx => ha' x (List.mem_cons_of_mem c hx)) hrest
      exact ⟨rfl, hb⟩

end PveMaster.Text
