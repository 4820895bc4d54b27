import Mathlib.Data.List.TakeWhile

/-! Base64, as two decoders read it.

Both work on the numbers of the characters. `strictDecode` is Python's `b64decode` with
`validate=True`, `forgivingDecode` is the browser's `atob`. They agree on texts whose length is a
multiple of four and that end in at most two `=` (`decode_agree`). -/
namespace PveMaster.Base64

/-- The value of a character of the alphabet, by its number; the two beyond letters and digits are
`+` and `/`. -/
def sextet (n : Nat) : Option Nat :=
  if 65 ≤ n ∧ n ≤ 90 then some (n - 65)
  else if 97 ≤ n ∧ n ≤ 122 then some (n - 71)
  else if 48 ≤ n ∧ n ≤ 57 then some (n + 4)
  else if n = 43 then some 62
  else if n = 47 then some 63
  else none

/-- `=`. -/
def pad : Nat := 61

/-- The bytes of the sextets, three of four; bits at the end that fill no byte are dropped,
whatever they are. -/
def bytes : List Nat → List Nat
  | a :: b :: c :: d :: rest =>
    (4 * a + b / 16) :: (b % 16 * 16 + c / 4) :: (c % 4 * 64 + d) :: bytes rest
  | [a, b, c] => [4 * a + b / 16, b % 16 * 16 + c / 4]
  | [a, b] => [4 * a + b / 16]
  | _ => []

/-- The characters before the first `=`. -/
def data (codes : List Nat) : List Nat := codes.takeWhile (· != pad)

/-- The first `=` and all that stands behind it. -/
def padding (codes : List Nat) : List Nat := codes.dropWhile (· != pad)

/-- `base64.b64decode(s, validate=True)`: nothing but the alphabet, padded to a multiple of four.
A full group may be followed by more `=`, a group that needs padding gets no more than that. -/
def strictDecode (codes : List Nat) : Option (List Nat) :=
  if (padding codes).all (· == pad) = true ∧
      ((data codes).length % 4 = 0 ∧ (data codes = [] → padding codes = []) ∨
        (data codes).length % 4 = 2 ∧ (padding codes).length = 2 ∨
        (data codes).length % 4 = 3 ∧ (padding codes).length = 1) then
    ((data codes).mapM sextet).map bytes
  else none

/-- Tab, line feed, form feed, carriage return and space: what a browser drops from base64 before
it reads it. -/
def isAsciiSpace (n : Nat) : Bool := n == 9 || n == 10 || n == 12 || n == 13 || n == 32

/-- Without the one or two `=` at the end, if there are any; of more than two only the last two
go. -/
def unpadded (codes : List Nat) : List Nat :=
  match codes.reverse with
  | 61 :: 61 :: rest => rest.reverse
  | 61 :: rest => rest.reverse
  | _ => codes

/-- `atob`: white space is dropped, padding may be missing or there in full, and the rest must be
of the alphabet. -/
def forgivingDecode (codes : List Nat) : Option (List Nat) :=
  let codes := codes.filter fun n => !isAsciiSpace n
  let codes := if codes.length % 4 = 0 then unpadded codes else codes
  if codes.length % 4 = 1 then none else (codes.mapM sextet).map bytes

/-- `/^[A-Za-z0-9+/]+={0,2}$/`, which says nothing of the length of the text. -/
def isPattern (codes : List Nat) : Bool :=
  let letters := codes.takeWhile fun n => (sextet n).isSome
  let rest := codes.dropWhile fun n => (sextet n).isSome
  !letters.isEmpty && rest.all (· == pad) && rest.length ≤ 2

theorem sextet_pad : sextet pad = none := by decide

/-- The alphabet lies between the space and the end of ASCII. -/
theorem sextet_graphic {n : Nat} (h : (sextet n).isSome = true) : 32 < n ∧ n < 128 := by
  by_contra hn
  have h65 : ¬ (65 ≤ n ∧ n ≤ 90) := by omega
  have h97 : ¬ (97 ≤ n ∧ n ≤ 122) := by omega
  have h48 : ¬ (48 ≤ n ∧ n ≤ 57) := by omega
  have h43 : n ≠ 43 := by omega
  have h47 : n ≠ 47 := by omega
  simp [sextet, h65, h97, h48, h43, h47] at h

theorem sextet_space {n : Nat} (h : (sextet n).isSome = true) : isAsciiSpace n = false := by
  have hn := sextet_graphic h
  by_contra hspace
  have hspace : isAsciiSpace n = true := by simpa using hspace
  simp only [isAsciiSpace, Bool.or_eq_true, beq_iff_eq] at hspace
  omega

/-- A text of the pattern: letters of the alphabet, then at most two `=`. -/
theorem isPattern_split {codes : List Nat} (h : isPattern codes = true) :
    ∃ letters k, codes = letters ++ List.replicate k pad ∧ letters ≠ [] ∧ k ≤ 2 ∧ ∀ n ∈ letters, (sextet n).isSome = true := by
  simp only [isPattern, Bool.and_eq_true, Bool.not_eq_true', List.isEmpty_eq_false_iff, List.all_eq_true, beq_iff_eq,
    decide_eq_true_eq] at h
  obtain ⟨⟨hne, hpad⟩, hle⟩ := h
  refine ⟨codes.takeWhile fun n => (sextet n).isSome, (codes.dropWhile fun n => (sextet n).isSome).length, ?_, hne, hle, ?_⟩
  · rw [← List.eq_replicate_of_mem hpad, List.takeWhile_append_dropWhile]
  · intro n hn
    exact List.mem_takeWhile_imp (p := fun n => (sextet n).isSome) hn

theorem isPattern_graphic {codes : List Nat} (h : isPattern codes = true) : ∀ n ∈ codes, 32 < n ∧ n < 128 := by
  obtain ⟨letters, k, rfl, -, -, hletters⟩ := isPattern_split h
  intro n hn
  rcases List.mem_append.mp hn with hn | hn
  · exact sextet_graphic (hletters n hn)
  · rw [List.eq_of_mem_replicate hn]
    decide

section Agreement
variable {letters : List Nat} {k : Nat}

theorem data_padded (h : ∀ n ∈ letters, (sextet n).isSome = true) :
    data (letters ++ List.replicate k pad) = letters ∧ padding (letters ++ List.replicate k pad) = List.replicate k pad := by
  have hne : ∀ n ∈ letters, (n != pad) = true := by
    intro n hn
    have hsextet := h n hn
    have : n ≠ pad := by
      rintro rfl
      rw [sextet_pad] at hsextet
      cases hsextet
    simpa using this
  have hfill : (List.replicate k pad).takeWhile (· != pad) = [] ∧
      (List.replicate k pad).dropWhile (· != pad) = List.replicate k pad := by
    cases k with
    | zero => exact ⟨rfl, rfl⟩
    | succ k => simp [List.replicate_succ]
  unfold data padding
  rw [List.takeWhile_append_of_pos hne, List.dropWhile_append_of_pos hne, hfill.1, hfill.2, List.append_nil]
  exact ⟨rfl, rfl⟩

theorem unpadded_padded (hk : k ≤ 2) (h : ∀ n ∈ letters, (sextet n).isSome = true) :
    unpadded (letters ++ List.replicate k pad) = letters := by
  unfold unpadded
  rw [List.reverse_append, List.reverse_replicate]
  obtain rfl | rfl | rfl : k = 0 ∨ k = 1 ∨ k = 2 := by omega
  · cases hrev : letters.reverse with
    | nil =>
      rw [List.reverse_eq_nil_iff.mp hrev]
      rfl
    | cons n rest =>
      have hn : (sextet n).isSome = true := h n (List.mem_reverse.mp (hrev ▸ List.mem_cons_self))
      have hne : n ≠ 61 := fun heq => by simp [heq, sextet] at hn
      simp [hne]
  · cases hrev : letters.reverse with
    | nil => simp at hrev; simp [hrev, pad]
    | cons n rest =>
      have hn : (sextet n).isSome = true := h n (List.mem_reverse.mp (hrev ▸ List.mem_cons_self))
      have hne : n ≠ 61 := fun heq => by simp [heq, sextet] at hn
      have hletters : letters = rest.reverse ++ [n] := by
        rw [← List.reverse_reverse letters, hrev, List.reverse_cons]
      simp [pad, hne, hletters]
  · show letters.reverse.reverse = letters
    exact List.reverse_reverse letters

/-- **The decoders agree**, and neither fails. -/
theorem decode_agree {codes : List Nat} (hlength : codes.length % 4 = 0) (h : isPattern codes = true) :
    strictDecode codes = forgivingDecode codes ∧ (forgivingDecode codes).isSome = true := by
  obtain ⟨letters, k, rfl, hne, hk, hletters⟩ := isPattern_split h
  obtain ⟨hdata, hpadding⟩ := data_padded (k := k) hletters
  have hkept : (letters ++ List.replicate k pad).filter (fun n => !isAsciiSpace n) = letters ++ List.replicate k pad := by
    refine List.filter_eq_self.mpr fun n hn => ?_
    rcases List.mem_append.mp hn with hn | hn
    · simp [sextet_space (hletters n hn)]
    · rw [List.eq_of_mem_replicate hn]
      decide
  have hsum : (letters.length + k) % 4 = 0 := by
    simpa using hlength
  have hstrict : strictDecode (letters ++ List.replicate k pad) = (letters.mapM sextet).map bytes := by
    unfold strictDecode
    rw [hdata, hpadding]
    refine if_pos ⟨by simp, ?_⟩
    rw [List.length_replicate]
    obtain h | h | h : letters.length % 4 = 0 ∨ letters.length % 4 = 2 ∧ k = 2 ∨ letters.length % 4 = 3 ∧ k = 1 := by omega
    · exact Or.inl ⟨h, fun hnil => absurd hnil hne⟩
    · exact Or.inr (Or.inl h)
    · exact Or.inr (Or.inr h)
  have hforgiving : forgivingDecode (letters ++ List.replicate k pad) = (letters.mapM sextet).map bytes := by
    simp only [forgivingDecode, hkept, hlength, if_true, unpadded_padded hk hletters]
    exact if_neg (by omega)
  rw [hstrict, hforgiving]
  refine ⟨rfl, ?_⟩
  rw [Option.isSome_map]
  clear hkept hstrict hforgiving hdata hpadding h hlength hne hsum
  induction letters with
  | nil => rfl
  | cons n rest ih =>
    obtain ⟨v, hv⟩ := Option.isSome_iff_exists.mp (hletters n List.mem_cons_self)
    obtain ⟨vs, hvs⟩ := Option.isSome_iff_exists.mp (ih fun m hm => hletters m (List.mem_cons_of_mem n hm))
    simp [List.mapM_cons, hv, hvs]

end Agreement

/-! ### Encoding -/

/-- The character of a sextet, the inverse of `sextet` on the alphabet. -/
def letter (v : Nat) : Nat :=
  if v < 26 then v + 65 else if v < 52 then v + 71 else if v < 62 then v - 4 else if v = 62 then 43 else 47

/-- The sextets of the bytes, four of three; the last is filled with zeros. -/
def sextets : List Nat → List Nat
  | a :: b :: c :: rest => (a / 4) :: (a % 4 * 16 + b / 16) :: (b % 16 * 4 + c / 64) :: (c % 64) :: sextets rest
  | [a, b] => [a / 4, a % 4 * 16 + b / 16, b % 16 * 4]
  | [a] => [a / 4, a % 4 * 16]
  | [] => []

/-- The encoding without its padding. -/
def letters (data : List Nat) : List Nat := (sextets data).map letter

/-- `btoa`: the encoding, filled with `=` to a multiple of four. -/
def encode (data : List Nat) : List Nat := letters data ++ List.replicate ((3 - data.length % 3) % 3) pad

theorem sextet_letter : ∀ v < 64, sextet (letter v) = some v := by decide

theorem sextets_lt (data : List Nat) (h : ∀ n ∈ data, n < 256) : ∀ v ∈ sextets data, v < 64 := by
  fun_induction sextets data with
  | case1 a b c rest ih =>
    simp only [List.forall_mem_cons] at h ⊢
    obtain ⟨ha, hb, hc, hrest⟩ := h
    exact ⟨by omega, by omega, by omega, by omega, ih hrest⟩
  | case2 a b =>
    simp only [List.forall_mem_cons, List.not_mem_nil, false_imp_iff, implies_true, and_true] at h ⊢
    omega
  | case3 a =>
    simp only [List.forall_mem_cons, List.not_mem_nil, false_imp_iff, implies_true, and_true] at h ⊢
    omega
  | case4 => exact fun v hv => absurd hv List.not_mem_nil

theorem bytes_sextets (data : List Nat) (h : ∀ n ∈ data, n < 256) : bytes (sextets data) = data := by
  fun_induction sextets data with
  | case1 a b c rest ih =>
    simp only [List.forall_mem_cons] at h
    obtain ⟨ha, hb, hc, hrest⟩ := h
    rw [bytes, ih hrest]
    congr 1
    · omega
    · congr 1
      · omega
      · congr 1
        omega
  | case2 a b =>
    simp only [List.forall_mem_cons, List.not_mem_nil, false_imp_iff, implies_true, and_true] at h
    simp only [bytes, List.cons.injEq, and_true]
    omega
  | case3 a =>
    simp only [List.forall_mem_cons, List.not_mem_nil, false_imp_iff, implies_true, and_true] at h
    simp only [bytes, List.cons.injEq, and_true]
    omega
  | case4 => rfl

theorem length_sextets (data : List Nat) : (sextets data).length + (3 - data.length % 3) % 3 = 4 * ((data.length + 2) / 3) := by
  fun_induction sextets data with
  | case1 a b c rest ih =>
    simp only [List.length_cons]
    omega
  | case2 a b => simp
  | case3 a => simp
  | case4 => rfl

theorem length_encode (data : List Nat) : (encode data).length = 4 * ((data.length + 2) / 3) := by
  rw [encode, List.length_append, letters, List.length_map, List.length_replicate, length_sextets]

theorem mapM_letters (vs : List Nat) (h : ∀ v ∈ vs, v < 64) : (vs.map letter).mapM sextet = some vs := by
  induction vs with
  | nil => rfl
  | cons v vs ih =>
    rw [List.map_cons, List.mapM_cons, sextet_letter v (h v List.mem_cons_self), ih fun v hv => h v (List.mem_cons_of_mem _ hv)]
    rfl

theorem letters_sextet {data : List Nat} (h : ∀ n ∈ data, n < 256) : ∀ n ∈ letters data, (sextet n).isSome = true := by
  intro n hn
  obtain ⟨v, hv, rfl⟩ := List.mem_map.mp hn
  rw [sextet_letter v (sextets_lt data h v hv)]
  rfl

theorem isPattern_encode {data : List Nat} (hne : data ≠ []) (h : ∀ n ∈ data, n < 256) : isPattern (encode data) = true := by
  have hletters := letters_sextet h
  have hfill (k : Nat) : (List.replicate k pad).takeWhile (fun n => (sextet n).isSome) = [] ∧
      (List.replicate k pad).dropWhile (fun n => (sextet n).isSome) = List.replicate k pad := by
    cases k with
    | zero => exact ⟨rfl, rfl⟩
    | succ k => simp [List.replicate_succ, sextet_pad]
  have hne : letters data ≠ [] := by
    obtain ⟨a, rest, rfl⟩ := List.exists_cons_of_ne_nil hne
    intro hnil
    have hlength := congrArg List.length (List.map_eq_nil_iff.mp hnil)
    have := length_sextets (a :: rest)
    simp only [List.length_cons, List.length_nil] at this hlength
    omega
  unfold isPattern encode
  rw [List.takeWhile_append_of_pos hletters, List.dropWhile_append_of_pos hletters, (hfill _).1, (hfill _).2, List.append_nil]
  simp only [Bool.and_eq_true, Bool.not_eq_true', List.isEmpty_eq_false_iff, decide_eq_true_eq, List.length_replicate]
  exact ⟨⟨hne, by simp⟩, by omega⟩

/-- **`atob(btoa(s))`** is `s`, and Python decodes it alike. -/
theorem decode_encode {data : List Nat} (hne : data ≠ []) (h : ∀ n ∈ data, n < 256) :
    forgivingDecode (encode data) = some data ∧ strictDecode (encode data) = some data := by
  have hagree := (decode_agree (by rw [length_encode]; exact Nat.mul_mod_right 4 _) (isPattern_encode hne h)).1
  have hstrict : strictDecode (encode data) = some data := by
    obtain ⟨hdata, hpadding⟩ := data_padded (k := (3 - data.length % 3) % 3) (letters_sextet h)
    have hlength := length_sextets data
    unfold strictDecode encode
    rw [hdata, hpadding, if_pos]
    · rw [letters, mapM_letters _ (sextets_lt data h), Option.map_some, bytes_sextets data h]
    · refine ⟨by simp, ?_⟩
      rw [List.length_replicate, letters, List.length_map]
      obtain hmod | hmod | hmod : data.length % 3 = 0 ∨ data.length % 3 = 1 ∨ data.length % 3 = 2 := by omega
      · refine Or.inl ⟨by omega, fun _ => ?_⟩
        rw [hmod]
        rfl
      · exact Or.inr (Or.inl (by omega))
      · exact Or.inr (Or.inr (by omega))
  exact ⟨hagree ▸ hstrict, hstrict⟩


end PveMaster.Base64
