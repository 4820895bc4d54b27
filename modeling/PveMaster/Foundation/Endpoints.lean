import PveMaster.Foundation.Encodings

/-! Paths whose segments are any texts.

A segment is quoted, slashes and all, so a path is split at its slashes before its segments are unquoted: it
gives back the segments it was made of (`segments_path`), and a text of plain characters stands for itself. -/
namespace PveMaster.Encoding

/-- `quote`, of a text that has no surrogates. -/
def quoteText (s : String) : List Char := (s.toList.flatMap String.utf8EncodeChar).flatMap percentByte

def unquoteText (text : List Char) : Option String := String.fromUTF8? (percentDecode text).toByteArray

/-- A path of segments, which are quoted already: a slash before each of them. -/
def path (segments : List (List Char)) : List Char := segments.flatMap fun s => '/' :: s

/-- The segments of a path that begins with a slash: it is split at its slashes first and unquoted
then, so a quoted slash does not end a segment. -/
def segments (path : List Char) : Option (List String) :=
  match path.splitOn '/' with
  | [] :: rest => rest.mapM unquoteText
  | _ => none

/-- A text without slashes that is unquoted as a name. -/
structure IsSegment (text : List Char) (name : String) : Prop where
  solid : '/' ∉ text
  reads : unquoteText text = some name

/-! ### Quoted texts -/

theorem mapM_ofChar (chars : List Char) : (chars.map ofChar).mapM scalar? = some chars := by
  have hchar (c : Char) : scalar? (ofChar c) = some c := by
    have hsome := scalar?_isSome (ofChar c)
    rw [isSurrogate_ofChar] at hsome
    obtain ⟨c', hc'⟩ := Option.isSome_iff_exists.mp hsome
    have hval : (ofChar c').val = (ofChar c).val := congrArg Fin.val (scalar?_some hc')
    rw [hc', Char.toNat_inj.mp hval]
  induction chars with
  | nil => rfl
  | cons c rest ih => rw [List.map_cons, List.mapM_cons, hchar, ih]; rfl

theorem quote_ofChar (s : String) : quote (s.toList.map ofChar) = some (quoteText s) := by
  unfold quote utf8
  rw [mapM_ofChar]
  rfl

theorem unquoteText_quoteText (s : String) : unquoteText (quoteText s) = some s := by
  have hbytes : (s.toList.flatMap String.utf8EncodeChar).toByteArray = s.toByteArray := by
    conv_rhs => rw [← String.ofList_toList (s := s), String.toByteArray_ofList]
    rfl
  unfold unquoteText quoteText
  rw [percentDecode_encode, hbytes]
  exact dif_pos s.isValidUTF8

theorem slash_not_mem_percentByte (b : UInt8) : '/' ∉ percentByte b := by
  intro h
  unfold percentByte at h
  split at h
  · next hb =>
    have hchar := unreserved_char b.toNat_lt
    rw [← List.mem_singleton.mp h] at hchar
    have hn : b.toNat = 47 := hchar.symm
    simp [isUnreserved, hn] at hb
  · have hdigit : ∀ n < 16, hexDigit n ≠ '/' := by decide
    have hb : b.toNat < 256 := b.toNat_lt
    simp only [List.mem_cons, List.not_mem_nil, or_false] at h
    rcases h with h | h | h
    · cases h
    · exact hdigit _ (by omega) h.symm
    · exact hdigit _ (by omega) h.symm

theorem isSegment_quoteText (s : String) : IsSegment (quoteText s) s := by
  refine ⟨fun h => ?_, unquoteText_quoteText s⟩
  obtain ⟨b, _, hb⟩ := List.mem_flatMap.mp h
  exact slash_not_mem_percentByte b hb

/-! ### Plain texts -/

/-- Characters that `quote` leaves alone, so that a text of them stands for itself in a path and
in a form. -/
def isPlain (c : Char) : Bool := c.toNat < 128 && isUnreserved (UInt8.ofNat c.toNat)

theorem quoteText_plain {s : String} (h : s.toList.all isPlain = true) : quoteText s = s.toList := by
  unfold quoteText
  generalize s.toList = chars at h ⊢
  induction chars with
  | nil => rfl
  | cons c rest ih =>
    obtain ⟨hc, hrest⟩ := Bool.and_eq_true_iff.mp h
    obtain ⟨hlt, hplain⟩ := Bool.and_eq_true_iff.mp hc
    have hlt : c.toNat < 128 := of_decide_eq_true hlt
    have hbyte : (UInt8.ofNat c.toNat).toNat = c.toNat := by
      rw [UInt8.toNat_ofNat']
      omega
    have hsize : c.utf8Size = 1 := Char.utf8Size_eq_one_iff.mpr (UInt32.le_iff_toNat_le.mpr (Nat.le_of_lt_succ hlt))
    have hutf8 : String.utf8EncodeChar c = [UInt8.ofNat c.toNat] := String.utf8EncodeChar_eq_singleton hsize
    have hpercent : percentByte (UInt8.ofNat c.toNat) = [c] := by
      unfold percentByte
      rw [if_pos hplain, hbyte, Char.ofNat_toNat]
    rw [List.flatMap_cons, List.flatMap_append, ih hrest, hutf8, List.flatMap_singleton, hpercent]
    rfl

theorem isSegment_plain {s : String} (h : s.toList.all isPlain = true) : IsSegment s.toList s := by
  rw [← quoteText_plain h]
  exact isSegment_quoteText s

/-! ### Paths -/

theorem splitOn_append_path {text : List Char} {texts : List (List Char)} (hsolid : '/' ∉ text)
    (h : ∀ t ∈ texts, '/' ∉ t) : (text ++ path texts).splitOn '/' = text :: texts := by
  induction texts generalizing text with
  | nil =>
    rw [show path [] = [] from rfl, List.append_nil, List.splitOn_eq_singleton hsolid]
  | cons t rest ih =>
    have hpath : path (t :: rest) = '/' :: (t ++ path rest) := List.flatMap_cons
    rw [hpath, List.splitOn_append_cons_self_of_not_mem hsolid,
      ih (h t List.mem_cons_self) fun t' ht' => h t' (List.mem_cons_of_mem t ht')]

/-- **The segments of a path are read back** as they were. -/
theorem segments_path {texts : List (List Char)} {names : List String} (h : List.Forall₂ IsSegment texts names) :
    segments (path texts) = some names := by
  have hsolid : ∀ t ∈ texts, '/' ∉ t := by
    induction h with
    | nil => exact fun t ht => absurd ht List.not_mem_nil
    | cons hname _ ih => exact List.forall_mem_cons.mpr ⟨hname.solid, ih⟩
  have hnames : texts.mapM unquoteText = some names := by
    induction h with
    | nil => rfl
    | cons hname _ ih =>
      rw [List.mapM_cons, hname.reads, ih fun t ht => hsolid t (List.mem_cons_of_mem _ ht)]
      rfl
  unfold segments
  rw [← List.nil_append (path texts), splitOn_append_path List.not_mem_nil hsolid]
  exact hnames

/-! ### Forms -/

def plusByte (b : UInt8) : List Char := if b = 32 then ['+'] else percentByte b

/-- `urllib.parse.quote_plus`, of a text that has no surrogates. -/
def quotePlus (s : String) : List Char := (s.toList.flatMap String.utf8EncodeChar).flatMap plusByte

def unquotePlus (text : List Char) : Option String := unquoteText (text.map fun c => if c = '+' then ' ' else c)

/-- `urllib.parse.urlencode`: the fields with `=` between name and value and `&` between each
other. -/
def urlencode (fields : List (String × String)) : List Char :=
  ['&'].intercalate (fields.map fun f => quotePlus f.1 ++ '=' :: quotePlus f.2)

def readField (text : List Char) : Option (String × String) := do
  let name ← unquotePlus (text.takeWhile (· ≠ '='))
  let value ← unquotePlus (text.dropWhile (· ≠ '=')).tail
  return (name, value)

/-- The fields of a form, as a server reads them. -/
def readForm (text : List Char) : Option (List (String × String)) := (text.splitOn '&').mapM readField

theorem hexDigit_ne {c : Char} (h : c ∈ ['&', '=', '+']) : ∀ n < 16, hexDigit n ≠ c := by
  simp only [List.mem_cons, List.not_mem_nil, or_false] at h
  rcases h with rfl | rfl | rfl <;> decide

/-- The characters between the parts of a form are quoted in them. -/
theorem not_mem_percentByte {c : Char} (h : c ∈ ['&', '=', '+']) (b : UInt8) : c ∉ percentByte b := by
  intro hc
  unfold percentByte at hc
  split at hc
  · next hb =>
    have hchar := unreserved_char b.toNat_lt
    rw [← List.mem_singleton.mp hc] at hchar
    simp only [List.mem_cons, List.not_mem_nil, or_false] at h
    rcases h with rfl | rfl | rfl
    · have hn : b.toNat = 38 := hchar.symm
      simp [isUnreserved, hn] at hb
    · have hn : b.toNat = 61 := hchar.symm
      simp [isUnreserved, hn] at hb
    · have hn : b.toNat = 43 := hchar.symm
      simp [isUnreserved, hn] at hb
  · have hb : b.toNat < 256 := b.toNat_lt
    simp only [List.mem_cons, List.not_mem_nil, or_false] at hc
    rcases hc with hc | hc | hc
    · subst hc
      revert h
      decide
    · exact hexDigit_ne h _ (by omega) hc.symm
    · exact hexDigit_ne h _ (by omega) hc.symm

theorem not_mem_quotePlus {c : Char} (h : c ∈ ['&', '=']) (s : String) : c ∉ quotePlus s := by
  intro hc
  obtain ⟨b, _, hb⟩ := List.mem_flatMap.mp hc
  unfold plusByte at hb
  split at hb
  · rw [List.mem_singleton.mp hb] at h
    revert h
    decide
  · exact not_mem_percentByte (List.mem_append_left ['+'] h) b hb

theorem percentDecode_plus (bytes : List UInt8) :
    percentDecode ((bytes.flatMap plusByte).map fun c => if c = '+' then ' ' else c) = bytes := by
  induction bytes with
  | nil => rw [List.flatMap_nil, List.map_nil, percentDecode]
  | cons b rest ih =>
    rw [List.flatMap_cons, List.map_append]
    by_cases hb : b = 32
    · rw [hb]
      show percentDecode (' ' :: (rest.flatMap plusByte).map fun c => if c = '+' then ' ' else c) = _
      rw [percentDecode_other (by decide), ih]
      rfl
    · have hkept : (percentByte b).map (fun c => if c = '+' then ' ' else c) = percentByte b := by
        refine (List.map_congr_left fun c hc => ?_).trans (List.map_id _)
        rw [if_neg fun h => not_mem_percentByte (c := c) (by rw [h]; decide) b hc]
        rfl
      rw [plusByte, if_neg hb, hkept, percentDecode_byte, ih]

theorem unquotePlus_quotePlus (s : String) : unquotePlus (quotePlus s) = some s := by
  have h := unquoteText_quoteText s
  unfold unquoteText quoteText at h
  rw [percentDecode_encode] at h
  unfold unquotePlus quotePlus unquoteText
  rw [percentDecode_plus, h]

/-- **The fields of a form are read back** as they were. -/
theorem readForm_urlencode {fields : List (String × String)} (hne : fields ≠ []) :
    readForm (urlencode fields) = some fields := by
  have hsplit : (urlencode fields).splitOn '&' = fields.map fun f => quotePlus f.1 ++ '=' :: quotePlus f.2 := by
    refine List.splitOn_intercalate '&' (fun text htext hmem => ?_) (by simpa using hne)
    obtain ⟨f, _, rfl⟩ := List.mem_map.mp htext
    rcases List.mem_append.mp hmem with h | h
    · exact not_mem_quotePlus (by decide) _ h
    · rcases List.mem_cons.mp h with h | h
      · exact absurd h (by decide)
      · exact not_mem_quotePlus (by decide) _ h
  have hfield (f : String × String) : readField (quotePlus f.1 ++ '=' :: quotePlus f.2) = some f := by
    have hname : ∀ c ∈ quotePlus f.1, decide (c ≠ '=') = true := fun c hc =>
      decide_eq_true fun h => not_mem_quotePlus (c := '=') (by decide) f.1 (h ▸ hc)
    unfold readField
    rw [List.takeWhile_append_of_pos hname, List.dropWhile_append_of_pos hname]
    simp [unquotePlus_quotePlus]
  unfold readForm
  rw [hsplit]
  clear hsplit hne
  induction fields with
  | nil => rfl
  | cons f rest ih =>
    rw [List.map_cons, List.mapM_cons, hfield, ih]
    rfl

end PveMaster.Encoding
