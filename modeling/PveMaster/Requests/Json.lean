import PveMaster.Core
import PveMaster.Foundation.Text

/-! `json.dumps` of the dictionaries behind the fingerprints.

A plain value holds no character that its text would escape. The texts of two
dictionaries of plain values differ if the dictionaries do (`dumps_inj`). -/
namespace PveMaster.JsonText
open Text

/-! ### Strings -/

/-- `\uXXXX` for a unit of UTF-16. -/
def escapeUnit (n : Nat) : List Char :=
  ['\\', 'u', digit (n / 4096 % 16), digit (n / 256 % 16), digit (n / 16 % 16), digit (n % 16)]

/-- A character as `ensure_ascii` writes it: what is not ASCII as one unit of UTF-16, or as two.
-/
def escapeChar (c : Char) : List Char :=
  if c = '"' then ['\\', '"']
  else if c = '\\' then ['\\', '\\']
  else if c = '\n' then ['\\', 'n']
  else if c = '\r' then ['\\', 'r']
  else if c = '\t' then ['\\', 't']
  else if c.toNat = 8 then ['\\', 'b']
  else if c.toNat = 12 then ['\\', 'f']
  else if 32 ≤ c.toNat ∧ c.toNat ≤ 126 then [c]
  else if c.toNat < 65536 then escapeUnit c.toNat
  else
    let n := c.toNat - 65536
    escapeUnit (55296 + n / 1024) ++ escapeUnit (56320 + n % 1024)

/-- A text between quotation marks. -/
def string (s : String) : List Char := '"' :: s.toList.flatMap escapeChar ++ ['"']

/-! ### Values and objects -/

/-- The elements of a list or the fields of an object, separated. -/
def separated (comma : List Char) : List (List Char) → List Char
  | [] => []
  | [x] => x
  | x :: rest => x ++ comma ++ separated comma rest

/-- A value on one line. Lists have the separator that the call of `json.dumps` gives. -/
def value (comma : List Char) : Json → List Char
  | .null => "null".toList
  | .bool b => if b then "true".toList else "false".toList
  | .int i => integer i
  | .float x => x.text "Infinity".toList "NaN".toList
  | .str s => string s
  | .strs l => '[' :: separated comma (l.map string) ++ [']']

/-- An object with its fields in the order of the list. -/
def object (comma colon : List Char) (fields : List (String × List Char)) : List Char :=
  '{' :: separated comma (fields.map fun f => string f.1 ++ colon ++ f.2) ++ ['}']

/-- `json.dumps(d)`, the keys in the order of the list. -/
def dumps (d : Dict) : List Char :=
  object [',', ' '] [':', ' '] (d.map fun e => (e.1, value [',', ' '] e.2))

/-! ### Plain values -/

/-- A letter, a digit, or one of `-._`: what every text of JSON has as it is. -/
def plain (c : Char) : Bool :=
  let n := c.toNat
  (48 ≤ n && n ≤ 57) || (65 ≤ n && n ≤ 90) || (97 ≤ n && n ≤ 122) || n == 45 || n == 46 || n == 95

theorem plain_bounds {c : Char} (h : plain c = true) : 45 ≤ c.toNat ∧ c.toNat ≤ 122 ∧ c.toNat ≠ 92 := by
  unfold plain at h
  simp only [Bool.or_eq_true, Bool.and_eq_true, decide_eq_true_eq, beq_iff_eq] at h
  omega

theorem plain_digit {base : Nat} (hbase : base ≤ 16) {c : Char} (h : IsDigit base c) : plain c = true := by
  obtain ⟨d, hd, rfl⟩ := h
  have all : ∀ d < 16, plain (digit d) = true := by decide
  exact all d (lt_of_lt_of_le hd hbase)

theorem escape_plain {c : Char} (h : plain c = true) : escapeChar c = [c] := by
  have hbounds := plain_bounds h
  have other {d : Char} (hd : plain d = false) : c ≠ d := by
    intro heq
    rw [heq, hd] at h
    cases h
  unfold escapeChar
  rw [if_neg (other (by decide)), if_neg (other (by decide)), if_neg (other (by decide)),
    if_neg (other (by decide)), if_neg (other (by decide)), if_neg (by omega), if_neg (by omega),
    if_pos (by omega)]

theorem string_plain {s : String} (h : s.toList.all plain = true) :
    string s = '"' :: s.toList ++ ['"'] := by
  have hall (c : Char) (hc : c ∈ s.toList) : escapeChar c = [c] :=
    escape_plain (List.all_eq_true.mp h c hc)
  unfold string
  congr 2
  calc s.toList.flatMap escapeChar = s.toList.flatMap (fun c => [c]) := List.flatMap_congr hall
    _ = s.toList := List.flatMap_singleton' _

/-- A value whose text shows where it ends: no fraction and no list. -/
def Plain : Json → Bool
  | .null | .bool _ | .int _ => true
  | .str s => s.toList.all plain
  | .float _ | .strs _ => false

/-- What ends a value inside an object. -/
def Ends (c : Char) : Prop := c = ',' ∨ c = '}'

instance : DecidablePred Ends := fun _ => inferInstanceAs (Decidable (_ ∨ _))

theorem plain_not_ends {c : Char} (h : plain c = true) : ¬ Ends c := by
  rintro (rfl | rfl) <;> cases h

theorem integer_plain {i : Int} {c : Char} (hc : c ∈ integer i) : plain c = true := by
  rcases integer_chars hc with rfl | h
  · rfl
  · exact plain_digit (by decide) h

theorem value_not_ends {v : Json} (h : Plain v = true) : ∀ c ∈ value [',', ' '] v, ¬ Ends c := by
  intro c hc
  have word {s : String} (hs : s.toList.all plain = true) (hc : c ∈ s.toList) : ¬ Ends c :=
    plain_not_ends (List.all_eq_true.mp hs c hc)
  cases v with
  | null => exact word (s := "null") (by decide) hc
  | bool b =>
    cases b with
    | true => exact word (s := "true") (by decide) hc
    | false => exact word (s := "false") (by decide) hc
  | int i => exact plain_not_ends (integer_plain hc)
  | str s =>
    rw [value, string_plain h] at hc
    simp only [List.cons_append, List.mem_cons, List.mem_append, List.not_mem_nil, or_false] at hc
    rcases hc with rfl | hc | rfl
    · decide
    · exact plain_not_ends (List.all_eq_true.mp h c hc)
    · decide
  | float x => cases h
  | strs l => cases h

theorem string_inj {s s' : String} (h : s.toList.all plain = true) (h' : s'.toList.all plain = true)
    (he : string s = string s') : s = s' := by
  rw [string_plain h, string_plain h'] at he
  exact String.toList_inj.mp (List.append_cancel_right (List.cons.inj he).2)

/-- What the first character tells of a value. Numbers begin with a digit or a sign. -/
def kindOf (c : Char) : Nat :=
  if c = 'n' then 0 else if c = 't' then 1 else if c = 'f' then 2 else if c = '"' then 3 else 4

theorem kindOf_integer {i : Int} {c : Char} (h : (integer i).head? = some c) : kindOf c = 4 := by
  have hmem : c ∈ integer i := List.mem_of_mem_head? h
  have digits : ∀ d < 10, kindOf (digit d) = 4 := by decide
  rcases integer_chars hmem with rfl | ⟨d, hd, rfl⟩
  · rfl
  · exact digits d hd

theorem integer_ne {i : Int} {c : Char} {l : List Char} (hc : kindOf c ≠ 4) : integer i ≠ c :: l := by
  intro h
  exact hc (kindOf_integer (i := i) (by rw [h]; rfl))

theorem value_inj {v v' : Json} (h : Plain v = true) (h' : Plain v' = true)
    (he : value [',', ' '] v = value [',', ' '] v') : v = v' := by
  cases v with
  | float x => cases h
  | strs l => cases h
  | null =>
    cases v' with
    | null => rfl
    | bool b => cases b <;> exact absurd he (by decide)
    | int i => exact absurd he.symm (integer_ne (by decide))
    | str s => exact absurd (List.cons.inj he).1 (by decide)
    | float x => cases h'
    | strs l => cases h'
  | bool b =>
    cases v' with
    | null => cases b <;> exact absurd he (by decide)
    | bool b' => cases b <;> cases b' <;> first | rfl | exact absurd he (by decide)
    | int i => cases b <;> exact absurd he.symm (integer_ne (by decide))
    | str s => cases b <;> exact absurd (List.cons.inj he).1 (by decide)
    | float x => cases h'
    | strs l => cases h'
  | int i =>
    cases v' with
    | null => exact absurd he (integer_ne (by decide))
    | bool b => cases b <;> exact absurd he (integer_ne (by decide))
    | int j => rw [integer_inj he]
    | str s => exact absurd he (integer_ne (by decide))
    | float x => cases h'
    | strs l => cases h'
  | str s =>
    cases v' with
    | null => exact absurd (List.cons.inj he).1 (by decide)
    | bool b => cases b <;> exact absurd (List.cons.inj he).1 (by decide)
    | int i => exact absurd he.symm (integer_ne (by decide))
    | str s' => rw [string_inj h h' he]
    | float x => cases h'
    | strs l => cases h'

/-! ### Dictionaries -/

/-- Plain keys, plain values: every dictionary behind a fingerprint is such a one. -/
def PlainDict (d : Dict) : Prop := ∀ e ∈ d, e.1.toList.all plain = true ∧ Plain e.2 = true

instance : DecidablePred PlainDict := fun d =>
  inferInstanceAs (Decidable (∀ e ∈ d, e.1.toList.all plain = true ∧ Plain e.2 = true))

/-- The text of one field. -/
def fieldText (e : String × Json) : List Char := string e.1 ++ [':', ' '] ++ value [',', ' '] e.2

/-- The fields of a dictionary, without the braces. -/
def fieldsText (d : Dict) : List Char := separated [',', ' '] (d.map fieldText)

theorem dumps_eq (d : Dict) : dumps d = '{' :: fieldsText d ++ ['}'] := by
  unfold dumps object fieldsText
  rw [List.map_map]
  rfl

/-- A field, and what comes after it: a comma or the closing brace. -/
theorem field_cons (e : String × Json) (rest : Dict) :
    ∃ d l, Ends d ∧ fieldsText (e :: rest) ++ ['}'] = fieldText e ++ d :: l ∧
      (d = '}' ∧ rest = [] ∧ l = [] ∨
        d = ',' ∧ rest ≠ [] ∧ l = ' ' :: (fieldsText rest ++ ['}'])) := by
  cases rest with
  | nil => exact ⟨'}', [], Or.inr rfl, rfl, Or.inl ⟨rfl, rfl, rfl⟩⟩
  | cons e' rest =>
    refine ⟨',', ' ' :: (fieldsText (e' :: rest) ++ ['}']), Or.inl rfl, ?_, Or.inr ⟨rfl, nofun, rfl⟩⟩
    show fieldText e ++ [',', ' '] ++ fieldsText (e' :: rest) ++ ['}'] = _
    simp

/-- A field comes off the text in one way. -/
theorem field_inj {e e' : String × Json} (hk : e.1.toList.all plain = true)
    (hk' : e'.1.toList.all plain = true) (hv : Plain e.2 = true) (hv' : Plain e'.2 = true)
    {d d' : Char} {l l' : List Char} (hd : Ends d) (hd' : Ends d')
    (h : fieldText e ++ d :: l = fieldText e' ++ d' :: l') : e = e' ∧ d = d' ∧ l = l' := by
  have quote {s : String} (hs : s.toList.all plain = true) : ∀ c ∈ s.toList, ¬ c = '"' := by
    rintro c hc rfl
    have := List.all_eq_true.mp hs _ hc
    cases this
  obtain ⟨k, v⟩ := e
  obtain ⟨k', v'⟩ := e'
  unfold fieldText at h
  rw [string_plain hk, string_plain hk'] at h
  simp only [List.cons_append, List.append_assoc, List.nil_append, List.cons.injEq, true_and] at h
  obtain ⟨hkey, -, htail⟩ := cut_inj (quote hk) (quote hk') rfl rfl h
  simp only [List.cons.injEq, true_and] at htail
  obtain ⟨hvalue, hends, hl⟩ := cut_inj (value_not_ends hv) (value_not_ends hv') hd hd' htail
  have hk : k = k' := String.toList_inj.mp hkey
  have hv : v = v' := value_inj hv hv' hvalue
  exact ⟨by rw [hk, hv], hends, hl⟩

theorem fieldsText_inj {d d' : Dict} (h : PlainDict d) (h' : PlainDict d')
    (he : fieldsText d ++ ['}'] = fieldsText d' ++ ['}']) : d = d' := by
  have head (e : String × Json) (rest : Dict) : ['}'] ≠ fieldsText (e :: rest) ++ ['}'] := by
    intro heq
    obtain ⟨d, l, -, hcons, -⟩ := field_cons e rest
    rw [hcons] at heq
    exact absurd (List.cons.inj heq).1 (by decide)
  induction d generalizing d' with
  | nil =>
    cases d' with
    | nil => rfl
    | cons e rest => exact absurd he (head e rest)
  | cons e rest ih =>
    cases d' with
    | nil => exact absurd he.symm (head e rest)
    | cons e' rest' =>
      obtain ⟨c, l, hc, htext, hrest⟩ := field_cons e rest
      obtain ⟨c', l', hc', htext', hrest'⟩ := field_cons e' rest'
      rw [htext, htext'] at he
      obtain ⟨hk, hv⟩ := h e List.mem_cons_self
      obtain ⟨hk', hv'⟩ := h' e' List.mem_cons_self
      obtain ⟨rfl, rfl, rfl⟩ := field_inj hk hk' hv hv' hc hc' he
      rcases hrest with ⟨rfl, rfl, -⟩ | ⟨rfl, -, rfl⟩
      · rcases hrest' with ⟨-, rfl, -⟩ | ⟨hcomma, -⟩
        · rfl
        · exact absurd hcomma (by decide)
      · rcases hrest' with ⟨hbrace, -⟩ | ⟨-, -, htail⟩
        · exact absurd hbrace (by decide)
        · rw [ih (fun x hx => h x (List.mem_cons_of_mem e hx))
            (fun x hx => h' x (List.mem_cons_of_mem e hx)) (List.cons.inj htail).2]

/-- **Different plain dictionaries have different texts.** -/
theorem dumps_inj {d d' : Dict} (h : PlainDict d) (h' : PlainDict d') (he : dumps d = dumps d') :
    d = d' := by
  rw [dumps_eq, dumps_eq] at he
  exact fieldsText_inj h h' (List.cons.inj he).2

end PveMaster.JsonText
