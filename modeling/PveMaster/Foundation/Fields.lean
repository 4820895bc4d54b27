import Mathlib

/-! Fields with their lengths before them, and numbers as bytes.

A field is its length in four bytes, the most significant first, and its bytes. A text of fields is read back
(`readFields_fields`), and a number keeps its value behind a zero byte that clears its sign (`signed_unsigned`). -/
namespace PveMaster.Fields

abbrev Byte := Fin 256

instance neZero_bytes : NeZero 256 := ⟨by decide⟩

/-- A number in four bytes, the most significant first; a larger number loses what four bytes
cannot hold. -/
def uint32 (n : Nat) : List Byte := [Fin.ofNat 256 (n / 2 ^ 24), Fin.ofNat 256 (n / 2 ^ 16), Fin.ofNat 256 (n / 2 ^ 8), Fin.ofNat 256 n]

/-- A value with its length before it. -/
def field (value : List Byte) : List Byte := uint32 value.length ++ value

/-! ### Reading -/

/-- The number that bytes are, the most significant first, without a sign. -/
def number (bytes : List Byte) : Nat := bytes.foldl (fun n b => 256 * n + b.val) 0

/-- The number that bytes are in two's complement, whose first bit is the sign. -/
def signed (bytes : List Byte) : Int :=
  match bytes with
  | [] => 0
  | b :: _ => if 128 ≤ b.val then (number bytes : Int) - 256 ^ bytes.length else number bytes

/-- A field, and what follows it. A length that is greater than what is left is refused. -/
def readField : List Byte → Option (List Byte × List Byte)
  | a :: b :: c :: d :: rest =>
    let length := number [a, b, c, d]
    if length ≤ rest.length then some (rest.take length, rest.drop length) else none
  | _ => none

/-- Fields up to the end, no more than the fuel. -/
def readFields : Nat → List Byte → Option (List (List Byte))
  | _, [] => some []
  | 0, _ => none
  | fuel + 1, bytes => do
    let (value, rest) ← readField bytes
    let more ← readFields fuel rest
    return value :: more

theorem number_uint32 {n : Nat} (h : n < 2 ^ 32) : number (uint32 n) = n := by
  simp only [uint32, number, List.foldl_cons, List.foldl_nil, Fin.val_ofNat]
  omega

theorem readField_field {value : List Byte} (h : value.length < 2 ^ 32) (rest : List Byte) :
    readField (field value ++ rest) = some (value, rest) := by
  have hnumber := number_uint32 h
  simp only [uint32] at hnumber
  simp only [field, uint32, List.cons_append, List.nil_append, readField, hnumber]
  simp

theorem readFields_fields {values : List (List Byte)} (h : ∀ v ∈ values, v.length < 2 ^ 32) {fuel : Nat}
    (hfuel : values.length ≤ fuel) : readFields fuel (values.flatMap field) = some values := by
  induction values generalizing fuel with
  | nil => cases fuel <;> rfl
  | cons v values ih =>
    obtain ⟨fuel, rfl⟩ : ∃ n, fuel = n + 1 := ⟨fuel - 1, by simp at hfuel; omega⟩
    have hmore : readFields fuel (values.flatMap field) = some values :=
      ih (fun v hv => h v (List.mem_cons_of_mem _ hv)) (Nat.le_of_succ_le_succ hfuel)
    have hread := readField_field (h v List.mem_cons_self) (values.flatMap field)
    obtain ⟨b, rest, hbytes⟩ : ∃ b rest, field v ++ values.flatMap field = b :: rest := ⟨_, _, rfl⟩
    rw [List.flatMap_cons, hbytes, readFields]
    · rw [← hbytes, hread]
      simp [hmore]
    · rintro ⟨⟩

/-! ### Signs -/

/-- A zero byte before bytes whose first bit is set, so that a reader of signed numbers takes them
for the number they are. -/
def unsigned (bytes : List Byte) : List Byte :=
  match bytes with
  | [] => []
  | b :: _ => if 128 ≤ b.val then 0 :: bytes else bytes

theorem signed_unsigned (bytes : List Byte) : signed (unsigned bytes) = number bytes := by
  cases bytes with
  | nil => rfl
  | cons b rest =>
    show signed (if 128 ≤ b.val then 0 :: b :: rest else b :: rest) = _
    split
    · simp [signed, number]
    · next h => simp [signed, h]

theorem length_unsigned (bytes : List Byte) :
    bytes.length ≤ (unsigned bytes).length ∧ (unsigned bytes).length ≤ bytes.length + 1 := by
  cases bytes with
  | nil => exact ⟨Nat.zero_le _, Nat.zero_le _⟩
  | cons b rest =>
    show _ ≤ (if 128 ≤ b.val then 0 :: b :: rest else b :: rest).length ∧
      (if 128 ≤ b.val then 0 :: b :: rest else b :: rest).length ≤ _
    split <;> simp

theorem length_field (value : List Byte) : (field value).length = value.length + 4 := by
  simp [field, uint32]

end PveMaster.Fields
