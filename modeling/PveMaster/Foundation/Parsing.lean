import PveMaster.Foundation.Text

/-! Texts read back.

`int` and `UUID` of what `str` wrote: each gives back the number, a UUID if it has its
128 bits. -/
namespace PveMaster.Text

def isDecimal (c : Char) : Bool := '0' ≤ c && c ≤ '9'

def isHexadecimal (c : Char) : Bool := isDecimal c || ('a' ≤ c && c ≤ 'f')

/-- A number of decimal digits alone. -/
def parseNumeral (l : List Char) : Option Nat :=
  if l ≠ [] ∧ l.all isDecimal then some (value 10 l) else none

/-- `int(s)`, of a text without spaces and underscores: digits, with a sign before them or not. -/
def parseInteger : List Char → Option Int
  | '-' :: l => (parseNumeral l).map fun n => -n
  | '+' :: l => (parseNumeral l).map fun n => n
  | l => (parseNumeral l).map fun n => n

/-- `UUID(s)`, of a text without a URN prefix: braces at the ends and hyphens anywhere are passed
over, and 32 hexadecimal digits must be left. -/
def parseUuid (l : List Char) : Option Nat :=
  let brace (c : Char) := c == '{' || c == '}'
  let bare := ((l.dropWhile brace).reverse.dropWhile brace).reverse
  let digits := (bare.filter (· != '-')).map Char.toLower
  if digits.length = 32 ∧ digits.all isHexadecimal then some (value 16 digits) else none

theorem numeral_ne_nil (n : Nat) : numeral 10 n ≠ [] := by
  unfold numeral
  split
  · exact List.cons_ne_nil _ _
  · next h =>
    unfold digitsText
    intro hnil
    exact Nat.digits_ne_nil_iff_ne_zero.mpr h (List.reverse_eq_nil_iff.mp (List.map_eq_nil_iff.mp hnil))

theorem isDecimal_of {c : Char} (h : IsDigit 10 c) : isDecimal c = true := by
  obtain ⟨d, hd, rfl⟩ := h
  revert d
  decide

theorem isHexadecimal_of {c : Char} (h : IsDigit 16 c) : isHexadecimal c = true := by
  obtain ⟨d, hd, rfl⟩ := h
  revert d
  decide

theorem toLower_of {c : Char} (h : IsDigit 16 c) : c.toLower = c := by
  obtain ⟨d, hd, rfl⟩ := h
  revert d
  decide

theorem parseNumeral_numeral (n : Nat) : parseNumeral (numeral 10 n) = some n := by
  have hall : (numeral 10 n).all isDecimal = true :=
    List.all_eq_true.mpr fun c hc => isDecimal_of (isDigit_numeral (by decide) hc)
  unfold parseNumeral
  rw [if_pos ⟨numeral_ne_nil n, hall⟩, value_numeral (by decide) (by decide)]

/-- What follows the sign, if there is one. -/
theorem parseInteger_unsigned {l : List Char} (h : ∀ c ∈ l, IsDigit 10 c) :
    parseInteger l = (parseNumeral l).map fun n => (n : Int) := by
  unfold parseInteger
  split
  · exact absurd rfl ((h '-' List.mem_cons_self).ne (by decide))
  · exact absurd rfl ((h '+' List.mem_cons_self).ne (by decide))
  · rfl

/-- **`int(str(i))`** is `i`. -/
theorem parseInteger_integer (i : Int) : parseInteger (integer i) = some i := by
  cases i with
  | ofNat n =>
    show parseInteger (numeral 10 n) = _
    rw [parseInteger_unsigned fun c hc => isDigit_numeral (by decide) hc, parseNumeral_numeral]
    rfl
  | negSucc n =>
    simp only [integer, parseInteger, parseNumeral_numeral]
    rfl

theorem length_hex32 {u : Nat} (h : u < 2 ^ 128) : (hex32 u).length = 32 := by
  have hle : (Nat.digits 16 u).length ≤ 32 := by
    apply (Nat.digits_length_le_iff (by decide) u).mpr
    omega
  unfold hex32 digitsText
  simp only [List.length_append, List.length_replicate, List.length_map, List.length_reverse]
  omega

/-- A UUID has no braces to be stripped. -/
theorem bare_uuid (u : Nat) : (((uuid u).dropWhile fun c => c == '{' || c == '}').reverse.dropWhile
    fun c => c == '{' || c == '}').reverse = uuid u := by
  have hchars {c : Char} (hc : c ∈ uuid u) : (c == '{' || c == '}') = false := by
    rcases uuid_chars hc with rfl | hdigit
    · rfl
    · have hopen : c ≠ '{' := hdigit.ne (by decide)
      have hclose : c ≠ '}' := hdigit.ne (by decide)
      simp [hopen, hclose]
  have hkept {l : List Char} (h : ∀ c ∈ l, (c == '{' || c == '}') = false) :
      l.dropWhile (fun c => c == '{' || c == '}') = l := by
    cases l with
    | nil => rfl
    | cons c rest => rw [List.dropWhile_cons_of_neg (by simp [h c List.mem_cons_self])]
  rw [hkept fun c hc => hchars hc, hkept fun c hc => hchars (List.mem_reverse.mp hc), List.reverse_reverse]

/-- **`UUID(str(u))`** is `u`, or fails. -/
theorem parseUuid_uuid (u : Nat) : parseUuid (uuid u) = if (hex32 u).length = 32 then some u else none := by
  have hlower : (hex32 u).map Char.toLower = hex32 u := by
    rw [List.map_congr_left fun c hc => toLower_of (isDigit_hex32 hc), List.map_id']
  have hall : (hex32 u).all isHexadecimal = true :=
    List.all_eq_true.mpr fun c hc => isHexadecimal_of (isDigit_hex32 hc)
  unfold parseUuid
  simp only [bare_uuid, filter_uuid, hlower, hall, and_true, value_hex32]

theorem parseUuid_some {u v : Nat} (h : parseUuid (uuid u) = some v) : v = u := by
  rw [parseUuid_uuid] at h
  split at h
  · exact (Option.some.inj h).symm
  · cases h

theorem parseUuid_of_lt {u : Nat} (h : u < 2 ^ 128) : parseUuid (uuid u) = some u := by
  rw [parseUuid_uuid, if_pos (length_hex32 h)]

end PveMaster.Text
