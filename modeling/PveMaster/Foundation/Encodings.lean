import Mathlib

/-! Texts on their way between programs.

A Python string is a list of code points, which may be surrogates; a JavaScript string is a
list of UTF-16 code units. `codePoints` is what JSON makes of the second. `utf8` fails on a
surrogate, and only there (`utf8_isSome`); what it encodes, percent-encoded or not, is
decoded again (`unquote_quote`). -/
namespace PveMaster.Encoding

/-- A code point of Unicode, surrogates included: what a Python string is a list of. -/
abbrev CodePoint := Fin 0x110000

/-- A code unit of UTF-16: what a JavaScript string is a list of. -/
abbrev CodeUnit := Fin 0x10000

instance neZero_codePoints : NeZero 0x110000 := ⟨by decide⟩

instance neZero_codeUnits : NeZero 0x10000 := ⟨by decide⟩

/-- A literal, in either of them. -/
def ascii (n : Nat) [NeZero n] (s : String) : List (Fin n) := s.toList.map fun c => Fin.ofNat n c.toNat

/-! ### UTF-16 -/

/-- The first half of a pair. -/
def isHigh (u : CodeUnit) : Bool := 0xD800 ≤ u.val && u.val < 0xDC00

/-- The second half of a pair. -/
def isLow (u : CodeUnit) : Bool := 0xDC00 ≤ u.val && u.val < 0xE000

/-- A unit by itself, as the code point of its number. -/
def single (u : CodeUnit) : CodePoint := ⟨u.val, by omega⟩

@[simp] theorem val_single (u : CodeUnit) : (single u).val = u.val := rfl

/-- The code point that a pair of units stands for. -/
def paired (high low : CodeUnit) : CodePoint :=
  Fin.ofNat _ (0x10000 + (high.val - 0xD800) * 0x400 + (low.val - 0xDC00))

/-- The code points of a JavaScript string, pairs put together. A surrogate that is not part of a
pair stays what it is. -/
def codePoints : List CodeUnit → List CodePoint
  | [] => []
  | [u] => [single u]
  | u :: v :: rest =>
    if isHigh u && isLow v then paired u v :: codePoints rest else single u :: codePoints (v :: rest)

theorem codePoints_cons {u : CodeUnit} (hu : isHigh u = false) (l : List CodeUnit) :
    codePoints (u :: l) = single u :: codePoints l := by
  cases l with
  | nil => rfl
  | cons v rest => simp [codePoints, hu]

theorem codePoints_append {a : List CodeUnit} (h : ∀ u ∈ a, isHigh u = false) (b : List CodeUnit) :
    codePoints (a ++ b) = a.map single ++ codePoints b := by
  induction a with
  | nil => rfl
  | cons u rest ih =>
    rw [List.cons_append, codePoints_cons (h u List.mem_cons_self), ih fun v hv => h v (List.mem_cons_of_mem u hv),
      List.map_cons, List.cons_append]

theorem length_codePoints (l : List CodeUnit) : (codePoints l).length ≤ l.length := by
  induction l using codePoints.induct with
  | case1 => exact Nat.le_refl _
  | case2 u => exact Nat.le_refl _
  | case3 u v rest h ih =>
    simp only [codePoints, h, if_true, List.length_cons]
    omega
  | case4 u v rest h ih =>
    simp only [codePoints, h, Bool.false_eq_true, if_false, List.length_cons] at ih ⊢
    omega

theorem single_inj {u v : CodeUnit} (h : single u = single v) : u = v := by
  have hval : (single u).val = (single v).val := congrArg Fin.val h
  exact Fin.ext hval

/-- A unit outside the surrogates is found among the code points. -/
theorem mem_codePoints {u : CodeUnit} (hhigh : isHigh u = false) (hlow : isLow u = false) (l : List CodeUnit) :
    single u ∈ codePoints l ↔ u ∈ l := by
  induction l using codePoints.induct with
  | case1 => exact ⟨fun h => absurd h List.not_mem_nil, fun h => absurd h List.not_mem_nil⟩
  | case2 v =>
    simp only [codePoints, List.mem_singleton]
    exact ⟨single_inj, fun h => h ▸ rfl⟩
  | case3 v w rest h ih =>
    obtain ⟨hv, hw⟩ := Bool.and_eq_true_iff.mp h
    have hne : single u ≠ paired v w := by
      intro heq
      have hval := congrArg Fin.val heq
      simp only [isHigh, isLow, Bool.and_eq_true, decide_eq_true_eq] at hv hw
      simp only [single, paired, Fin.val_ofNat] at hval
      omega
    have huv : u ≠ v := fun h => by simp [h, hv] at hhigh
    have huw : u ≠ w := fun h => by simp [h, hw] at hlow
    simp [codePoints, hv, hw, hne, huv, huw, ih]
  | case4 v w rest h ih =>
    have hcons : codePoints (v :: w :: rest) = single v :: codePoints (w :: rest) := by
      simp only [codePoints, h, Bool.false_eq_true, if_false]
    rw [hcons, List.mem_cons, List.mem_cons, ih]
    exact or_congr_left ⟨single_inj, fun h => h ▸ rfl⟩

/-! ### UTF-8 -/

def isSurrogate (c : CodePoint) : Bool := 0xD800 ≤ c.val && c.val < 0xE000

/-- The character of a code point that is no surrogate; Lean's characters are these. -/
def scalar? (c : CodePoint) : Option Char :=
  if h : c.val.isValidChar then some (Char.ofNatAux c.val h) else none

def ofChar (c : Char) : CodePoint := ⟨c.toNat, by
  have h : c.toNat.isValidChar := c.valid
  unfold Nat.isValidChar at h
  omega⟩

@[simp] theorem val_ofChar (ch : Char) : (ofChar ch).val = ch.toNat := rfl

theorem scalar?_some {c : CodePoint} {ch : Char} (h : scalar? c = some ch) : ofChar ch = c := by
  unfold scalar? at h
  split at h
  · cases h
    rfl
  · cases h

theorem scalar?_isSome (c : CodePoint) : (scalar? c).isSome = !isSurrogate c := by
  have hc := c.isLt
  unfold scalar? isSurrogate
  split
  · next h =>
    unfold Nat.isValidChar at h
    simp only [Option.isSome_some, Bool.true_eq, Bool.not_eq_true', Bool.and_eq_false_iff, decide_eq_false_iff_not]
    omega
  · next h =>
    unfold Nat.isValidChar at h
    simp only [Option.isSome_none, Bool.false_eq, Bool.not_eq_false', Bool.and_eq_true, decide_eq_true_eq]
    omega

theorem isSurrogate_ofChar (ch : Char) : isSurrogate (ofChar ch) = false := by
  have h : ch.toNat.isValidChar := ch.valid
  unfold Nat.isValidChar at h
  by_contra hsurrogate
  simp only [isSurrogate, Bool.not_eq_false, Bool.and_eq_true, decide_eq_true_eq] at hsurrogate
  rw [val_ofChar] at hsurrogate
  omega

/-- `s.encode("utf-8")`, which raises on a surrogate. -/
def utf8 (s : List CodePoint) : Option (List UInt8) := (s.mapM scalar?).map fun chars => chars.flatMap String.utf8EncodeChar

/-- `b.decode("utf-8")`, where the bytes are a text. -/
def utf8Decode (bytes : List UInt8) : Option (List CodePoint) :=
  (String.fromUTF8? bytes.toByteArray).map fun s => s.toList.map ofChar

theorem mapM_scalar? {s : List CodePoint} {chars : List Char} (h : s.mapM scalar? = some chars) : chars.map ofChar = s := by
  induction s generalizing chars with
  | nil =>
    cases h
    rfl
  | cons c rest ih =>
    rw [List.mapM_cons] at h
    obtain ⟨ch, hch, h⟩ := Option.bind_eq_some_iff.mp h
    obtain ⟨chars', hrest, h⟩ := Option.bind_eq_some_iff.mp h
    cases h
    rw [List.map_cons, scalar?_some hch, ih hrest]

theorem utf8_isSome (s : List CodePoint) : (utf8 s).isSome = true ↔ ∀ c ∈ s, isSurrogate c = false := by
  unfold utf8
  rw [Option.isSome_map]
  induction s with
  | nil => exact ⟨fun _ _ hc => absurd hc List.not_mem_nil, fun _ => rfl⟩
  | cons c rest ih =>
    have hc := scalar?_isSome c
    rw [List.mapM_cons, List.forall_mem_cons, ← ih]
    cases hch : scalar? c with
    | none =>
      rw [hch] at hc
      simp only [Option.isSome_none, Bool.false_eq, Bool.not_eq_false'] at hc
      simp [hc]
    | some ch =>
      rw [hch] at hc
      simp only [Option.isSome_some, Bool.true_eq, Bool.not_eq_true'] at hc
      cases hrest : rest.mapM scalar? with
      | none => simp
      | some chars => simp [hc]

theorem utf8Decode_utf8 {s : List CodePoint} {bytes : List UInt8} (h : utf8 s = some bytes) : utf8Decode bytes = some s := by
  obtain ⟨chars, hchars, rfl⟩ := Option.map_eq_some_iff.mp h
  have hbytes : (chars.flatMap String.utf8EncodeChar).toByteArray = (String.ofList chars).toByteArray := by
    rw [String.toByteArray_ofList]
    rfl
  have hstring : String.fromUTF8? (chars.flatMap String.utf8EncodeChar).toByteArray = some (String.ofList chars) := by
    rw [hbytes]
    exact dif_pos (String.ofList chars).isValidUTF8
  unfold utf8Decode
  rw [hstring, Option.map_some, String.toList_ofList, mapM_scalar? hchars]

/-! ### Percent-encoding -/

/-- What `quote` leaves alone: letters, digits, `_`, `.`, `-` and `~`. -/
def isUnreserved (b : UInt8) : Bool :=
  let n := b.toNat
  (48 ≤ n && n ≤ 57) || (65 ≤ n && n ≤ 90) || (97 ≤ n && n ≤ 122) || n == 95 || n == 46 || n == 45 || n == 126

def hexDigit (n : Nat) : Char := Char.ofNat (if n < 10 then 48 + n else 55 + n)

def hexValue (c : Char) : Option Nat :=
  let n := c.toNat
  if 48 ≤ n ∧ n ≤ 57 then some (n - 48)
  else if 65 ≤ n ∧ n ≤ 70 then some (n - 55)
  else if 97 ≤ n ∧ n ≤ 102 then some (n - 87)
  else none

/-- A byte in a quoted text: itself where it is unreserved, otherwise `%` and two hexadecimal
digits. -/
def percentByte (b : UInt8) : List Char :=
  if isUnreserved b then [Char.ofNat b.toNat] else ['%', hexDigit (b.toNat / 16), hexDigit (b.toNat % 16)]

/-- The bytes of a quoted text. A `%` that no two hexadecimal digits follow stands for itself. -/
def percentDecode : List Char → List UInt8
  | '%' :: a :: b :: rest =>
    match hexValue a, hexValue b with
    | some x, some y => UInt8.ofNat (16 * x + y) :: percentDecode rest
    | _, _ => 37 :: percentDecode (a :: b :: rest)
  | c :: rest => UInt8.ofNat c.toNat :: percentDecode rest
  | [] => []

/-- `urllib.parse.quote(s, safe="")`. -/
def quote (s : List CodePoint) : Option (List Char) := (utf8 s).map fun bytes => bytes.flatMap percentByte

/-- `urllib.parse.unquote(text)`, where the bytes are a text. -/
def unquote (text : List Char) : Option (List CodePoint) := utf8Decode (percentDecode text)

theorem hexValue_hexDigit : ∀ n < 16, hexValue (hexDigit n) = some n := by decide

theorem percentDecode_other {c : Char} (hc : c ≠ '%') (rest : List Char) :
    percentDecode (c :: rest) = UInt8.ofNat c.toNat :: percentDecode rest := by
  rw [percentDecode]
  rintro a b rest' rfl
  exact absurd rfl hc

theorem unreserved_char {n : Nat} (h : n < 256) : (Char.ofNat n).toNat = n := by
  have hvalid : n.isValidChar := Or.inl (by omega)
  simp [Char.ofNat, hvalid, Char.toNat, Char.ofNatAux, UInt32.toNat]

theorem percentDecode_byte (b : UInt8) (rest : List Char) : percentDecode (percentByte b ++ rest) = b :: percentDecode rest := by
  have hb : b.toNat < 256 := b.toNat_lt
  unfold percentByte
  split
  · next h =>
    have hchar := unreserved_char hb
    have hne : Char.ofNat b.toNat ≠ '%' := by
      intro heq
      rw [heq] at hchar
      have hn : b.toNat = 37 := hchar.symm
      simp [isUnreserved, hn] at h
    rw [List.singleton_append, percentDecode_other hne, hchar, UInt8.ofNat_toNat]
  · show percentDecode ('%' :: hexDigit (b.toNat / 16) :: hexDigit (b.toNat % 16) :: rest) = _
    rw [percentDecode, hexValue_hexDigit _ (by omega), hexValue_hexDigit _ (by omega)]
    show UInt8.ofNat (16 * (b.toNat / 16) + b.toNat % 16) :: _ = _
    rw [show 16 * (b.toNat / 16) + b.toNat % 16 = b.toNat by omega, UInt8.ofNat_toNat]

theorem percentDecode_encode (bytes : List UInt8) : percentDecode (bytes.flatMap percentByte) = bytes := by
  induction bytes with
  | nil => rw [List.flatMap_nil, percentDecode]
  | cons b rest ih => rw [List.flatMap_cons, percentDecode_byte, ih]

theorem quote_isSome (s : List CodePoint) : (quote s).isSome = true ↔ ∀ c ∈ s, isSurrogate c = false := by
  unfold quote
  rw [Option.isSome_map]
  exact utf8_isSome s

/-- **What is quoted is unquoted** as it was. -/
theorem unquote_quote {s : List CodePoint} {text : List Char} (h : quote s = some text) : unquote text = some s := by
  obtain ⟨bytes, hbytes, rfl⟩ := Option.map_eq_some_iff.mp h
  unfold unquote
  rw [percentDecode_encode, utf8Decode_utf8 hbytes]

end PveMaster.Encoding
