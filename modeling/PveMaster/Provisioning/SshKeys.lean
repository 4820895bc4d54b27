import PveMaster.Foundation.Base64
import PveMaster.Foundation.Encodings
import PveMaster.Foundation.Words
import Mathlib.Data.List.Forall2

/-! SSH keys on their way to Cloud-Init.

`CloudInitRequest.validate_ssh_keys` looks for two line breaks only, but it rebuilds a key from the
first three words of its text, and Python's white space contains all of its line breaks. A
normalised key has no separator but single spaces (`normal_of_validate`), so the lines of what
Cloud-Init gets are the keys. What the validator does not look for is a surrogate, on which the
percent-encoding fails: the keys survive exactly when they hold none (`trip_iff`). -/
namespace PveMaster.SshKeys
open Encoding Words

/-- A Python string. -/
abbrev Text := List CodePoint

/-! ### Python's separators -/

/-- `str.isspace` of a character. -/
def isSpace (c : CodePoint) : Bool :=
  let n := c.val
  (9 ≤ n && n ≤ 13) || (28 ≤ n && n ≤ 32) || n == 0x85 || n == 0xA0 || n == 0x1680 || (0x2000 ≤ n && n ≤ 0x200A) ||
    n == 0x2028 || n == 0x2029 || n == 0x202F || n == 0x205F || n == 0x3000

/-- Where `splitlines` ends a line. -/
def isBreak (c : CodePoint) : Bool :=
  let n := c.val
  (10 ≤ n && n ≤ 13) || (28 ≤ n && n ≤ 30) || n == 0x85 || n == 0x2028 || n == 0x2029

/-- A carriage return and a line feed end one line. -/
def isCrLf (c d : CodePoint) : Bool := c.val == 13 && d.val == 10

def strip : Text → Text := trim isSpace

def split : Text → List Text := words isSpace

def splitlines : Text → List Text := lines isBreak isCrLf

def space : CodePoint := 32

def newline : CodePoint := 10

def carriageReturn : CodePoint := 13

theorem isSpace_of_isBreak {c : CodePoint} (h : isBreak c = true) : isSpace c = true := by
  simp only [isBreak, isSpace, Bool.or_eq_true, Bool.and_eq_true, decide_eq_true_eq, beq_iff_eq] at h ⊢
  omega

theorem isBreak_of_isCrLf (c d : CodePoint) (h : isCrLf c d = true) : isBreak c = true ∧ isBreak d = true := by
  simp only [isCrLf, isBreak, Bool.or_eq_true, Bool.and_eq_true, decide_eq_true_eq, beq_iff_eq] at h ⊢
  omega

/-! ### The validator -/

def allowed : List Text := [ascii _ "ssh-ed25519", ascii _ "ssh-rsa", ascii _ "ecdsa-sha2-nistp256"]

/-- `base64.b64decode(s, validate=True)`. -/
def b64decode (s : Text) : Option (List Nat) := Base64.strictDecode (s.map Fin.val)

/-- The loop's body in `validate_ssh_keys`. -/
def validateSshKey (value : Text) : Except String Text :=
  if value.length > 4096 ∨ newline ∈ value ∨ carriageReturn ∈ value then
    .error "SSH public keys must be single-line and at most 4096 bytes"
  else
    match split (strip value) with
    | kind :: body :: rest =>
      if kind ∈ allowed then
        match b64decode body with
        | none => .error "invalid SSH public key encoding"
        | some decoded =>
          if decoded.length < 16 ∨ decoded.length > 2048 then .error "invalid SSH public key length"
          else .ok (join space ((kind :: body :: rest).take 3))
      else .error "unsupported SSH public key format"
    | _ => .error "unsupported SSH public key format"

/-- `CloudInitRequest.validate_ssh_keys`. -/
def validateSshKeys (values : List Text) : Except String (List Text) := values.mapM validateSshKey

/-- The field `ssh_public_keys`: its length is checked before the validator runs. -/
def sshPublicKeys (values : List Text) : Except String (List Text) :=
  if values.length > 8 then .error "too_long" else validateSshKeys values

/-- `_configure_identity`: what Proxmox shall write. -/
def sshkeys (keys : List Text) : Text := join newline keys

/-- `configure_qemu`: how it is sent, if it can be encoded. -/
def sshkeysPayload (keys : List Text) : Option (List Char) := quote (sshkeys keys)

/-- An allowed type, and a body that decodes to a number of bytes within the limits. -/
structure Opening (kind body : Text) : Prop where
  kind : kind ∈ allowed
  body : ∃ decoded, b64decode body = some decoded ∧ 16 ≤ decoded.length ∧ decoded.length ≤ 2048

/-- **When a key is accepted**, and as what. -/
theorem validateSshKey_ok {value key : Text} : validateSshKey value = .ok key ↔
    (value.length ≤ 4096 ∧ newline ∉ value ∧ carriageReturn ∉ value) ∧
      ∃ kind body rest, split value = kind :: body :: rest ∧ Opening kind body ∧ key = join space ((split value).take 3) := by
  have hwords : split (strip value) = split value := words_trim value
  unfold validateSshKey
  rw [hwords]
  constructor
  · intro h
    split at h
    · cases h
    next hfits =>
    split at h
    · next kind body rest hsplit =>
      split at h
      · next hkind =>
        split at h
        · cases h
        next decoded hdecoded =>
        split at h
        · cases h
        next hlength =>
        cases h
        refine ⟨by simpa [not_or, Nat.not_lt] using hfits, kind, body, rest, hsplit, ⟨hkind, decoded, hdecoded, ?_⟩, by rw [hsplit]⟩
        omega
      · cases h
    · cases h
  · rintro ⟨⟨hlength, hnewline, hreturn⟩, kind, body, rest, hsplit, ⟨hkind, decoded, hdecoded, hle, hge⟩, rfl⟩
    rw [if_neg (by simp [hnewline, hreturn, hlength]), hsplit]
    show (if kind ∈ allowed then _ else _) = _
    rw [if_pos hkind, hdecoded]
    show (if decoded.length < 16 ∨ decoded.length > 2048 then _ else _) = _
    rw [if_neg (by omega)]

/-! ### A normalised key -/

/-- What a consumer can rely on: the validator changes nothing more, the only separators are single
spaces, and the key begins with its type and its body. -/
structure Normal (key : Text) : Prop where
  fixed : validateSshKey key = .ok key
  separators : ∀ c ∈ key, isSpace c = true ∨ isBreak c = true → c = space
  line : splitlines key = [key]
  words : join space (split key) = key
  opening : ∃ kind body, Opening kind body ∧ (kind ++ space :: body) <+: key ∧ [kind, body] <+: split key

theorem isSpace_space : isSpace space = true := by decide

section Validated
variable {value key : Text}

theorem split_isWord (w : Text) (h : w ∈ (split value).take 3) : IsWord isSpace w :=
  isWord_of_mem (List.mem_of_mem_take h)

theorem split_join : split (join space ((split value).take 3)) = (split value).take 3 :=
  words_join isSpace_space split_isWord

/-- The rebuilt key separates its words with spaces only. -/
theorem separators_join {c : CodePoint} (hc : c ∈ join space ((split value).take 3)) (hspace : isSpace c = true) : c = space := by
  rcases mem_join hc with rfl | ⟨w, hw, hcw⟩
  · rfl
  · have hsolid := (split_isWord w hw).solid c hcw
    rw [hspace] at hsolid
    cases hsolid

/-- **A key that was validated is normal.** -/
theorem normal_of_validate (h : validateSshKey value = .ok key) : Normal key := by
  obtain ⟨⟨hlength, hnewline, hreturn⟩, kind, body, rest, hsplit, hopening, rfl⟩ := validateSshKey_ok.mp h
  have htake : (split value).take 3 = kind :: body :: rest.take 1 := by rw [hsplit]; rfl
  have hseparators {c : CodePoint} (hc : c ∈ join space ((split value).take 3)) (hspace : isSpace c = true ∨ isBreak c = true) :
      c = space :=
    separators_join hc (hspace.elim id isSpace_of_isBreak)
  have hsolid {c : CodePoint} (hbreak : isBreak c = true) : c ∉ join space ((split value).take 3) := by
    intro hc
    rw [hseparators hc (Or.inr hbreak)] at hbreak
    exact absurd hbreak (by decide)
  have hprefix : (kind ++ space :: body) <+: join space ((split value).take 3) := by
    rw [htake, join_cons_cons]
    cases rest.take 1 with
    | nil => exact ⟨[], by rw [join_singleton, List.append_nil]⟩
    | cons w ws =>
      rw [join_cons_cons]
      exact ⟨space :: join space (w :: ws), by simp⟩
  refine ⟨?_, fun c => hseparators, ?_, by rw [split_join], kind, body, hopening, hprefix, ?_⟩
  · refine validateSshKey_ok.mpr ⟨⟨?_, hsolid (by decide), hsolid (by decide)⟩, kind, body, rest.take 1, ?_, hopening, ?_⟩
    · exact Nat.le_trans (length_join_words (List.take_sublist 3 _)) hlength
    · rw [split_join, htake]
    · rw [split_join, List.take_take, Nat.min_self]
  · refine lines_solid (fun c d hcd => (isBreak_of_isCrLf c d hcd).1) ?_ ?_
    · rw [htake, join_cons_cons]
      exact List.append_ne_nil_of_right_ne_nil _ (List.cons_ne_nil _ _)
    · intro c hc
      by_contra hbreak
      exact hsolid (by simpa using hbreak) hc
  · rw [split_join, htake]
    exact ⟨rest.take 1, rfl⟩

end Validated

/-! ### The trip -/

/-- What is decoded on the other side has the keys for its lines. -/
def Survives (keys : List Text) : Prop :=
  ∃ payload, sshkeysPayload keys = some payload ∧ (unquote payload).map splitlines = some keys

/-- No surrogate is among the words that are kept of a text. -/
def Encodable (value : Text) : Prop := ∀ word ∈ (split value).take 3, ∀ c ∈ word, isSurrogate c = false

theorem encodable_iff (value : Text) :
    ((split value).take 3).all (fun word => word.all fun c => !isSurrogate c) = true ↔ Encodable value := by
  simp [Encodable]

instance (value : Text) : Decidable (Encodable value) := decidable_of_iff _ (encodable_iff value)

theorem validateSshKeys_ok {values keys : List Text} :
    validateSshKeys values = .ok keys ↔ List.Forall₂ (fun value key => validateSshKey value = .ok key) values keys := by
  unfold validateSshKeys
  induction values generalizing keys with
  | nil =>
    rw [List.forall₂_nil_left_iff]
    exact ⟨fun h => by cases h; rfl, fun h => by rw [h]; rfl⟩
  | cons value rest ih =>
    rw [List.mapM_cons, List.forall₂_cons_left_iff]
    constructor
    · intro h
      cases hvalue : validateSshKey value with
      | error e =>
        rw [hvalue] at h
        cases h
      | ok key =>
        cases hrest : rest.mapM validateSshKey with
        | error e =>
          rw [hvalue, hrest] at h
          cases h
        | ok keys' =>
          rw [hvalue, hrest] at h
          cases h
          exact ⟨key, keys', rfl, ih.mp hrest, rfl⟩
    · rintro ⟨key, keys', hvalue, hrest, rfl⟩
      rw [hvalue, ih.mpr hrest]
      rfl

theorem exists_left {α β : Type} {R : α → β → Prop} {as : List α} {bs : List β} (h : List.Forall₂ R as bs) :
    ∀ b ∈ bs, ∃ a ∈ as, R a b := by
  induction h with
  | nil => exact fun b hb => absurd hb List.not_mem_nil
  | @cons a b as bs hab _ ih =>
    intro c hc
    rcases List.mem_cons.mp hc with rfl | hc
    · exact ⟨a, List.mem_cons_self, hab⟩
    · obtain ⟨a', ha', hR⟩ := ih c hc
      exact ⟨a', List.mem_cons_of_mem a ha', hR⟩

section Trip
variable {values keys : List Text}

theorem normal_of_mem (h : validateSshKeys values = .ok keys) : ∀ key ∈ keys, Normal key := by
  intro key hkey
  obtain ⟨value, -, hvalue⟩ := exists_left (validateSshKeys_ok.mp h) key hkey
  exact normal_of_validate hvalue

theorem sshkeys_lines (h : ∀ key ∈ keys, Normal key) : splitlines (sshkeys keys) = keys := by
  refine lines_join isBreak_of_isCrLf (by decide) fun key hkey => ⟨?_, ?_⟩
  · rintro rfl
    cases (h [] hkey).line
  · intro c hc
    by_contra hbreak
    rw [(h key hkey).separators c hc (Or.inr (by simpa using hbreak))] at hbreak
    exact hbreak (by decide)

/-- Normal keys survive when there is no surrogate in them. -/
theorem survives_iff (h : ∀ key ∈ keys, Normal key) : Survives keys ↔ ∀ key ∈ keys, ∀ c ∈ key, isSurrogate c = false := by
  have hquote := quote_isSome (sshkeys keys)
  have hmem : (∀ c ∈ sshkeys keys, isSurrogate c = false) ↔ ∀ key ∈ keys, ∀ c ∈ key, isSurrogate c = false := by
    constructor
    · exact fun hall key hkey c hc => hall c (mem_join_of_mem hkey hc)
    · intro hall c hc
      rcases mem_join hc with rfl | ⟨key, hkey, hc⟩
      · decide
      · exact hall key hkey c hc
  rw [← hmem, ← hquote, Option.isSome_iff_exists]
  constructor
  · rintro ⟨payload, hpayload, -⟩
    exact ⟨payload, hpayload⟩
  · rintro ⟨payload, hpayload⟩
    refine ⟨payload, hpayload, ?_⟩
    rw [unquote_quote hpayload, Option.map_some, sshkeys_lines h]

/-- The value the runner puts together from strings without surrogates. -/
theorem sshkeys_strings (keys : List String) :
    ("\n".intercalate keys).toList.map ofChar = sshkeys (keys.map fun key => key.toList.map ofChar) := by
  induction keys with
  | nil => rfl
  | cons key rest ih =>
    cases rest with
    | nil => simp [sshkeys, join_singleton]
    | cons key' rest =>
      have hnewline : ofChar '\n' = newline := rfl
      simp only [sshkeys, List.map_cons, join_cons_cons] at ih ⊢
      rw [← ih, String.intercalate_cons_cons]
      simp [hnewline]

/-- Strings without surrogates survive. -/
theorem survives_strings {keys : List String} (h : ∀ key ∈ keys, Normal (key.toList.map ofChar)) :
    Survives (keys.map fun key => key.toList.map ofChar) := by
  refine (survives_iff ?_).mpr ?_
  · intro key hkey
    obtain ⟨key, hmem, rfl⟩ := List.mem_map.mp hkey
    exact h key hmem
  · intro key hkey c hc
    obtain ⟨key, -, rfl⟩ := List.mem_map.mp hkey
    obtain ⟨ch, -, rfl⟩ := List.mem_map.mp hc
    exact isSurrogate_ofChar ch

/-- The surrogates of a key are those of the words it was built from. -/
theorem surrogates_iff {value key : Text} (h : validateSshKey value = .ok key) :
    (∀ c ∈ key, isSurrogate c = false) ↔ Encodable value := by
  obtain ⟨-, -, -, -, -, -, rfl⟩ := validateSshKey_ok.mp h
  constructor
  · exact fun hall word hword c hc => hall c (mem_join_of_mem hword hc)
  · intro hall c hc
    rcases mem_join hc with rfl | ⟨word, hword, hc⟩
    · decide
    · exact hall word hword c hc

/-- **Accepted keys are normal, and they survive** exactly when no surrogate is among the words that
are kept of them. -/
theorem trip_iff (h : validateSshKeys values = .ok keys) :
    ((∀ key ∈ keys, Normal key) ∧ Survives keys) ↔ ∀ value ∈ values, Encodable value := by
  have hnormal := normal_of_mem h
  have hpairs := validateSshKeys_ok.mp h
  rw [survives_iff hnormal]
  constructor
  · rintro ⟨-, hall⟩ value hvalue
    obtain ⟨key, hkey, hok⟩ := exists_left hpairs.flip value hvalue
    exact (surrogates_iff hok).mp (hall key hkey)
  · intro hall
    refine ⟨hnormal, fun key hkey => ?_⟩
    obtain ⟨value, hvalue, hok⟩ := exists_left hpairs key hkey
    exact (surrogates_iff hok).mpr (hall value hvalue)

end Trip

/-- A key with sixteen bytes and this comment. -/
def sampleKey (comment : Text) : Text := ascii _ "ssh-ed25519 AAAAAAAAAAAAAAAAAAAAAA== " ++ comment

theorem sampleKey_ok : validateSshKeys [ascii _ "\t" ++ sampleKey (ascii _ "me at home")] = .ok [sampleKey (ascii _ "me")] := by
  decide

theorem trip_sampleKey : (∀ key ∈ [sampleKey (ascii _ "me")], Normal key) ∧ Survives [sampleKey (ascii _ "me")] :=
  (trip_iff sampleKey_ok).mpr (by decide)

/-- **A surrogate is accepted**, and cannot be sent. -/
theorem surrogate_stranded : validateSshKeys [sampleKey [0xD800]] = .ok [sampleKey [0xD800]] ∧
    sshkeysPayload [sampleKey [0xD800]] = none ∧
    ¬((∀ key ∈ [sampleKey [0xD800]], Normal key) ∧ Survives [sampleKey [0xD800]]) := by
  have hok : validateSshKeys [sampleKey [0xD800]] = .ok [sampleKey [0xD800]] := by decide
  have hsurrogate : ¬ ∀ c ∈ sshkeys [sampleKey [0xD800]], isSurrogate c = false := by
    intro h
    exact absurd (h 0xD800 (by decide)) (by decide)
  have hnone : sshkeysPayload [sampleKey [0xD800]] = none := by
    rw [← quote_isSome, Bool.not_eq_true, Option.isSome_eq_false_iff, Option.isNone_iff_eq_none] at hsurrogate
    exact hsurrogate
  refine ⟨hok, hnone, ?_⟩
  rintro ⟨-, payload, hpayload, -⟩
  rw [hnone] at hpayload
  cases hpayload

end PveMaster.SshKeys
