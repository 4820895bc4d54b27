import PveMaster.Provisioning.SshKeys

/-! The SSH keys of the browser's form, and what the server makes of them.

The form calls other characters white space than Python does: the byte order mark is one of
JavaScript's only, and a carriage return that is one for both is refused by the server. It splits
and decodes like the server otherwise, so what it lets pass is accepted, with the same type and
body, exactly when the keys are `Plain` (`agree_iff`). -/
namespace PveMaster.Browser
open Encoding Words

/-- A JavaScript string. -/
abbrev Units := List CodeUnit

/-! ### The form's validator -/

/-- What `\s` matches and `trim` removes. -/
def isWhiteSpace (u : CodeUnit) : Bool :=
  let n := u.val
  (9 ≤ n && n ≤ 13) || n == 32 || n == 0xA0 || n == 0x1680 || (0x2000 ≤ n && n ≤ 0x200A) || n == 0x2028 || n == 0x2029 ||
    n == 0x202F || n == 0x205F || n == 0x3000 || n == 0xFEFF

def lineFeed : CodeUnit := 10

def carriageReturn : CodeUnit := 13

def byteOrderMark : CodeUnit := 0xFEFF

/-- `SUPPORTED_KEY_TYPES`. -/
def supportedKeyTypes : List Units := [ascii _ "ssh-ed25519", ascii _ "ssh-rsa", ascii _ "ecdsa-sha2-nistp256"]

/-- `SshPublicKeyValidation`. -/
structure SshPublicKeyValidation where
  keys : List Units
  error : Option String

/-- The loop's body in `validateSshPublicKeys`. -/
def sshPublicKeyError (key : Units) : Option String :=
  if key.length > 4096 then some "SSH 공개키 한 줄은 4,096자를 넘을 수 없습니다."
  else
    match pieces isWhiteSpace key with
    | kind :: encoded :: _ =>
      if kind ∈ supportedKeyTypes then
        if encoded.length % 4 ≠ 0 ∨ Base64.isPattern (encoded.map Fin.val) = false then
          some "SSH 공개키의 Base64 데이터가 올바르지 않습니다."
        else
          match Base64.forgivingDecode (encoded.map Fin.val) with
          | some decoded =>
            if decoded.length < 16 ∨ decoded.length > 2048 then some "SSH 공개키의 길이가 올바르지 않습니다." else none
          | none => some "SSH 공개키의 Base64 데이터가 올바르지 않습니다."
      else some "SSH 공개키 형식이 아닙니다. ~/.ssh/id_ed25519.pub의 'ssh-ed25519 AAAA…' 전체 줄을 입력하세요."
    | _ => some "SSH 공개키 형식이 아닙니다. ~/.ssh/id_ed25519.pub의 'ssh-ed25519 AAAA…' 전체 줄을 입력하세요."

def sshPublicKeyLines (value : Units) : List Units :=
  ((value.splitOn lineFeed).map (trim isWhiteSpace)).filter fun key => !key.isEmpty

def validateSshPublicKeys (value : Units) : SshPublicKeyValidation :=
  let keys := sshPublicKeyLines value
  { keys
    error :=
      if keys.length = 0 then
        some "SSH 공개키를 1개 이상 입력하세요. 비밀번호 로그인은 현재 지원하지 않습니다."
      else if keys.length > 8 then some "SSH 공개키는 최대 8개까지 입력할 수 있습니다."
      else keys.findSome? sshPublicKeyError }

/-! ### The parts of a key -/

def kindOf (key : Units) : Units := key.takeWhile fun u => !isWhiteSpace u

/-- The white space behind the type. -/
def gapOf (key : Units) : Units := (key.dropWhile fun u => !isWhiteSpace u).takeWhile isWhiteSpace

def fieldsOf (key : Units) : Units := (key.dropWhile fun u => !isWhiteSpace u).dropWhile isWhiteSpace

def bodyOf (key : Units) : Units := (fieldsOf key).takeWhile fun u => !isWhiteSpace u

/-- What is behind the body. -/
def commentOf (key : Units) : Units := (fieldsOf key).dropWhile fun u => !isWhiteSpace u

theorem key_eq (key : Units) : kindOf key ++ (gapOf key ++ (bodyOf key ++ commentOf key)) = key := by
  unfold kindOf gapOf bodyOf commentOf fieldsOf
  rw [List.takeWhile_append_dropWhile, List.takeWhile_append_dropWhile, List.takeWhile_append_dropWhile]

theorem isWhiteSpace_gap (key : Units) : ∀ u ∈ gapOf key, isWhiteSpace u = true := fun _ => List.mem_takeWhile_imp

/-- What the form has checked of a key it lets pass. -/
structure Passed (key : Units) : Prop where
  length : key.length ≤ 4096
  gap : gapOf key ≠ []
  kind : kindOf key ∈ supportedKeyTypes
  groups : (bodyOf key).length % 4 = 0
  pattern : Base64.isPattern ((bodyOf key).map Fin.val) = true
  decoded : ∃ decoded, Base64.forgivingDecode ((bodyOf key).map Fin.val) = some decoded ∧
    16 ≤ decoded.length ∧ decoded.length ≤ 2048

theorem passed_of_none {key : Units} (h : sshPublicKeyError key = none) : Passed key := by
  unfold sshPublicKeyError at h
  split at h
  · cases h
  next hlength =>
  split at h
  · next kind encoded rest hpieces =>
    rw [pieces_eq] at hpieces
    split at hpieces
    · cases hpieces
    next hbehind =>
    rw [pieces_eq] at hpieces
    injection hpieces with hkind hpieces
    injection hpieces with hencoded _
    subst hkind hencoded
    split at h
    · next hkind =>
      split at h
      · cases h
      next hbody =>
      split at h
      · next decoded hdecoded =>
        split at h
        · cases h
        next hbytes =>
        rw [not_or, not_not, Bool.not_eq_false] at hbody
        refine ⟨Nat.le_of_not_lt hlength, ?_, hkind, hbody.1, hbody.2, decoded, hdecoded, by omega⟩
        obtain ⟨u, rest, hcons⟩ := List.exists_cons_of_ne_nil hbehind
        unfold gapOf
        rw [hcons, List.takeWhile_cons_of_pos (by simpa using stop_dropWhile hcons)]
        exact List.cons_ne_nil _ _
      · cases h
    · cases h
  · cases h

/-! ### The same characters on the server -/

/-- White space of the form is white space for Python, but for the byte order mark. -/
theorem isSpace_single {u : CodeUnit} (h : isWhiteSpace u = true) (hne : u ≠ byteOrderMark) :
    SshKeys.isSpace (single u) = true := by
  have hval : u.val ≠ 0xFEFF := fun heq => hne (Fin.ext heq)
  simp only [isWhiteSpace, SshKeys.isSpace, Bool.or_eq_true, Bool.and_eq_true, decide_eq_true_eq, beq_iff_eq] at h ⊢
  simp only [val_single]
  omega

theorem isSpace_gap {gap : Units} (hgap : ∀ u ∈ gap, isWhiteSpace u = true) (hmark : byteOrderMark ∉ gap) :
    ∀ c ∈ gap.map single, SshKeys.isSpace c = true := by
  intro c hc
  obtain ⟨u, hu, rfl⟩ := List.mem_map.mp hc
  refine isSpace_single (hgap u hu) ?_
  rintro rfl
  exact hmark hu

theorem isHigh_whiteSpace {u : CodeUnit} (h : isWhiteSpace u = true) : isHigh u = false := by
  by_contra hhigh
  simp only [isWhiteSpace, isHigh, Bool.or_eq_true, Bool.and_eq_true, decide_eq_true_eq, beq_iff_eq, Bool.not_eq_false] at h hhigh
  omega

theorem isSpace_graphic {u : CodeUnit} (h : 32 < u.val ∧ u.val < 128) : SshKeys.isSpace (single u) = false := by
  by_contra hspace
  simp only [SshKeys.isSpace, Bool.or_eq_true, Bool.and_eq_true, decide_eq_true_eq, beq_iff_eq, Bool.not_eq_false] at hspace
  simp only [val_single] at hspace
  omega

theorem isHigh_graphic {u : CodeUnit} (h : 32 < u.val ∧ u.val < 128) : isHigh u = false := by
  by_contra hhigh
  simp only [isHigh, Bool.and_eq_true, decide_eq_true_eq, Bool.not_eq_false] at hhigh
  omega

/-- The types are the same on both sides. -/
theorem supported_allowed {kind : Units} (h : kind ∈ supportedKeyTypes) :
    kind.map single ∈ SshKeys.allowed ∧ kind ≠ [] ∧ ∀ u ∈ kind, 32 < u.val ∧ u.val < 128 := by
  have hall : ∀ kind ∈ supportedKeyTypes, kind.map single ∈ SshKeys.allowed ∧ kind ≠ [] ∧
      kind.all (fun u => decide (32 < u.val ∧ u.val < 128)) = true := by
    decide
  obtain ⟨hallowed, hne, hgraphic⟩ := hall kind h
  exact ⟨hallowed, hne, by simpa using hgraphic⟩

/-- A key as the server splits it: a word, white space, and the rest. -/
theorem split_gap {a gap b : SshKeys.Text} (ha : IsWord SshKeys.isSpace a) (hne : gap ≠ [])
    (hgap : ∀ c ∈ gap, SshKeys.isSpace c = true) : SshKeys.split (a ++ (gap ++ b)) = a :: SshKeys.split b := by
  obtain ⟨c, rest, rfl⟩ := List.exists_cons_of_ne_nil hne
  obtain ⟨hc, hrest⟩ := List.forall_mem_cons.mp hgap
  unfold SshKeys.split
  rw [List.cons_append, words_append_cons hc, words_single ha.nonempty ha.solid, words_run hrest, List.singleton_append]

/-! ### Agreement on one key -/

/-- What the form overlooks: a carriage return, and byte order marks next to the body. -/
structure Plain (key : Units) : Prop where
  noReturn : carriageReturn ∉ key
  noMark : byteOrderMark ∉ gapOf key
  bodyEnds : (commentOf key).head? ≠ some byteOrderMark

/-- The server's key has the type and the body that the form has seen. -/
def SameKey (key : Units) (normalized : SshKeys.Text) : Prop :=
  ∃ kind body rest rest', pieces isWhiteSpace key = kind :: body :: rest ∧
    SshKeys.split normalized = codePoints kind :: codePoints body :: rest'

namespace Passed
variable {key : Units}

theorem graphic_kind (h : Passed key) : ∀ u ∈ kindOf key, 32 < u.val ∧ u.val < 128 := (supported_allowed h.kind).2.2

theorem graphic_body (h : Passed key) : ∀ u ∈ bodyOf key, 32 < u.val ∧ u.val < 128 := by
  intro u hu
  exact Base64.isPattern_graphic h.pattern u.val (List.mem_map_of_mem hu)

theorem isWord_kind (h : Passed key) : IsWord SshKeys.isSpace ((kindOf key).map single) := by
  refine ⟨by simpa using (supported_allowed h.kind).2.1, fun c hc => ?_⟩
  obtain ⟨u, hu, rfl⟩ := List.mem_map.mp hc
  exact isSpace_graphic (h.graphic_kind u hu)

theorem body_ne_nil (h : Passed key) : bodyOf key ≠ [] := by
  intro hnil
  have hpattern := h.pattern
  rw [hnil] at hpattern
  cases hpattern

theorem isWord_body (h : Passed key) : IsWord SshKeys.isSpace ((bodyOf key).map single) := by
  refine ⟨by simpa using h.body_ne_nil, fun c hc => ?_⟩
  obtain ⟨u, hu, rfl⟩ := List.mem_map.mp hc
  exact isSpace_graphic (h.graphic_body u hu)

theorem codePoints_kind (h : Passed key) : codePoints (kindOf key) = (kindOf key).map single := by
  have hkind := codePoints_append (fun u hu => isHigh_graphic (h.graphic_kind u hu)) []
  rwa [List.append_nil, codePoints, List.append_nil] at hkind

theorem codePoints_body (h : Passed key) : codePoints (bodyOf key) = (bodyOf key).map single := by
  have hbody := codePoints_append (fun u hu => isHigh_graphic (h.graphic_body u hu)) []
  rwa [List.append_nil, codePoints, List.append_nil] at hbody

/-- The parts of a key in the server's characters. -/
theorem codePoints_key (h : Passed key) : codePoints key =
    (kindOf key).map single ++ ((gapOf key).map single ++ ((bodyOf key).map single ++ codePoints (commentOf key))) := by
  have hgap : ∀ u ∈ gapOf key, isHigh u = false := fun u hu => isHigh_whiteSpace (isWhiteSpace_gap key u hu)
  rw [← codePoints_append fun u hu => isHigh_graphic (h.graphic_body u hu), ← codePoints_append hgap,
    ← codePoints_append fun u hu => isHigh_graphic (h.graphic_kind u hu), key_eq]

theorem pieces_key (h : Passed key) : ∃ rest, pieces isWhiteSpace key = kindOf key :: bodyOf key :: rest := by
  have hbehind : (key.dropWhile fun u => !isWhiteSpace u) ≠ [] := by
    intro hnil
    apply h.gap
    unfold gapOf
    rw [hnil, List.takeWhile_nil]
  rw [pieces_eq, if_neg hbehind, pieces_eq]
  exact ⟨_, rfl⟩

/-- **A plain key is split alike.** -/
theorem split_plain (h : Passed key) (hmark : byteOrderMark ∉ gapOf key) (hends : (commentOf key).head? ≠ some byteOrderMark) :
    ∃ rest, SshKeys.split (codePoints key) = (kindOf key).map single :: (bodyOf key).map single :: rest := by
  have hbody := h.isWord_body
  rw [h.codePoints_key, split_gap h.isWord_kind (by simpa using h.gap) (isSpace_gap (isWhiteSpace_gap key) hmark)]
  unfold SshKeys.split
  cases hcomment : commentOf key with
  | nil => exact ⟨[], by rw [codePoints, List.append_nil, words_single hbody.nonempty hbody.solid]⟩
  | cons u rest =>
    have hu : isWhiteSpace u = true := by simpa using stop_dropWhile hcomment
    have hne : u ≠ byteOrderMark := by
      rintro rfl
      rw [hcomment] at hends
      exact hends rfl
    rw [codePoints_cons (isHigh_whiteSpace hu), words_append_cons (isSpace_single hu hne),
      words_single hbody.nonempty hbody.solid]
    exact ⟨_, rfl⟩

/-- The byte order mark is a letter to the server. -/
theorem isSpace_mark : SshKeys.isSpace (single byteOrderMark) = false := by decide

theorem begins_mark {a b : SshKeys.Text} (ha : ∀ c ∈ a, SshKeys.isSpace c = false) :
    ∃ v vs, SshKeys.split (a ++ single byteOrderMark :: b) = (a ++ single byteOrderMark :: v) :: vs := by
  have hsolid : ∀ c ∈ a ++ [single byteOrderMark], SshKeys.isSpace c = false := by
    intro c hc
    rcases List.mem_append.mp hc with hc | hc
    · exact ha c hc
    · rw [List.mem_singleton.mp hc]
      exact isSpace_mark
  obtain ⟨v, vs, hwords⟩ : ∃ v vs, SshKeys.split ((a ++ [single byteOrderMark]) ++ b) = ((a ++ [single byteOrderMark]) ++ v) :: vs :=
    words_begin (List.concat_ne_nil _ _) hsolid
  rw [List.append_assoc, List.append_assoc] at hwords
  exact ⟨v, vs, hwords⟩

/-- **A key that is split alike is plain**: a mark would belong to the type or to the body. -/
theorem plain_of_split (h : Passed key) {rest : List SshKeys.Text}
    (hsplit : SshKeys.split (codePoints key) = (kindOf key).map single :: (bodyOf key).map single :: rest) :
    byteOrderMark ∉ gapOf key ∧ (commentOf key).head? ≠ some byteOrderMark := by
  have hkind := h.isWord_kind
  have hbody := h.isWord_body
  rw [h.codePoints_key] at hsplit
  have hmark : byteOrderMark ∉ gapOf key := by
    intro hmem
    obtain ⟨g, g', hg, hclean⟩ := List.eq_append_cons_of_mem hmem
    have hspace : ∀ c ∈ g.map single, SshKeys.isSpace c = true := by
      refine isSpace_gap (fun u hu => ?_) hclean
      exact isWhiteSpace_gap key u (hg ▸ List.mem_append_left _ hu)
    rw [hg, List.map_append, List.append_assoc, List.map_cons, List.cons_append] at hsplit
    by_cases hnil : g = []
    · obtain ⟨v, vs, hwords⟩ := begins_mark (b := g'.map single ++ ((bodyOf key).map single ++ codePoints (commentOf key))) hkind.solid
      rw [hnil, List.map_nil, List.nil_append, hwords] at hsplit
      injection hsplit with hword _
      simp at hword
    · obtain ⟨v, vs, hwords⟩ := begins_mark (a := []) (b := g'.map single ++ ((bodyOf key).map single ++ codePoints (commentOf key)))
        fun c hc => absurd hc List.not_mem_nil
      rw [List.nil_append] at hwords
      rw [split_gap hkind (by simpa using hnil) hspace, hwords] at hsplit
      injection hsplit with _ hsplit
      injection hsplit with hword _
      have hmem : single byteOrderMark ∈ (bodyOf key).map single := hword ▸ List.mem_cons_self
      obtain ⟨u, hu, heq⟩ := List.mem_map.mp hmem
      have hgraphic := h.graphic_body u hu
      rw [single_inj heq] at hgraphic
      exact absurd hgraphic (by decide)
  refine ⟨hmark, fun hhead => ?_⟩
  obtain ⟨rest', hcomment⟩ := List.head?_eq_some_iff.mp hhead
  obtain ⟨v, vs, hwords⟩ := begins_mark (b := codePoints rest') hbody.solid
  rw [split_gap hkind (by simpa using h.gap) (isSpace_gap (isWhiteSpace_gap key) hmark), hcomment, codePoints_cons (by decide), hwords] at hsplit
  injection hsplit with _ hsplit
  injection hsplit with hword _
  simp at hword

/-- The server accepts a plain key, and no other one as the same. -/
theorem accepts_iff (h : Passed key) (hline : lineFeed ∉ key) :
    (∃ normalized, SshKeys.validateSshKey (codePoints key) = .ok normalized ∧ SameKey key normalized) ↔ Plain key := by
  obtain ⟨pieces', hpieces⟩ := h.pieces_key
  have hnewline : SshKeys.newline ∉ codePoints key := by
    rw [show SshKeys.newline = single lineFeed from rfl, mem_codePoints (by decide) (by decide)]
    exact hline
  have hreturn : SshKeys.carriageReturn ∈ codePoints key ↔ carriageReturn ∈ key := by
    rw [show SshKeys.carriageReturn = single carriageReturn from rfl, mem_codePoints (by decide) (by decide)]
  constructor
  · rintro ⟨normalized, hok, kind, body, rest, rest', hparts, hnormalized⟩
    obtain ⟨⟨-, -, hnot⟩, kind', body', rest'', hsplit, -, rfl⟩ := SshKeys.validateSshKey_ok.mp hok
    rw [hpieces] at hparts
    injection hparts with hkind hparts
    injection hparts with hbody _
    subst hkind hbody
    rw [SshKeys.split_join, hsplit, h.codePoints_kind, h.codePoints_body] at hnormalized
    injection hnormalized with hkind hnormalized
    injection hnormalized with hbody _
    obtain ⟨hmark, hends⟩ := h.plain_of_split (hsplit.trans (by rw [hkind, hbody]))
    exact ⟨mt hreturn.mpr hnot, hmark, hends⟩
  · rintro ⟨hnot, hmark, hends⟩
    obtain ⟨rest, hsplit⟩ := h.split_plain hmark hends
    have hopening : SshKeys.Opening ((kindOf key).map single) ((bodyOf key).map single) := by
      refine ⟨(supported_allowed h.kind).1, ?_⟩
      obtain ⟨decoded, hdecoded, hlength⟩ := h.decoded
      refine ⟨decoded, ?_, hlength⟩
      have hagree := (Base64.decode_agree (by simpa using h.groups) h.pattern).1
      rw [← hdecoded, ← hagree]
      unfold SshKeys.b64decode
      rw [List.map_map]
      rfl
    refine ⟨_, SshKeys.validateSshKey_ok.mpr ⟨⟨?_, hnewline, mt hreturn.mp hnot⟩, _, _, rest, hsplit, hopening, rfl⟩, ?_⟩
    · exact Nat.le_trans (length_codePoints key) h.length
    · refine ⟨_, _, _, rest.take 1, hpieces, ?_⟩
      rw [SshKeys.split_join, hsplit, h.codePoints_kind, h.codePoints_body]
      rfl

end Passed

/-! ### Agreement on a text -/

/-- What the form lets pass is accepted, key by key with the same type and body. -/
def Agrees (value : Units) : Prop :=
  (validateSshPublicKeys value).error = none →
    ∃ normalized, SshKeys.sshPublicKeys ((validateSshPublicKeys value).keys.map codePoints) = .ok normalized ∧
      List.Forall₂ SameKey (validateSshPublicKeys value).keys normalized

theorem lineFeed_not_mem {value key : Units} (h : key ∈ sshPublicKeyLines value) : lineFeed ∉ key := by
  obtain ⟨line, hline, rfl⟩ := List.mem_map.mp (List.mem_filter.mp h).1
  intro hmem
  have hsub : lineFeed ∈ line :=
    (List.dropWhile_sublist _).mem ((List.rdropWhile_prefix _ _).sublist.mem hmem)
  have hne := (mem_splitOnP hline lineFeed hsub).1
  simp at hne

/-- Accepting a list as the same is accepting each of its keys so. -/
theorem forall₂_accepts {keys : List Units} :
    (∃ normalized, SshKeys.validateSshKeys (keys.map codePoints) = .ok normalized ∧ List.Forall₂ SameKey keys normalized) ↔
      ∀ key ∈ keys, ∃ normalized, SshKeys.validateSshKey (codePoints key) = .ok normalized ∧ SameKey key normalized := by
  simp only [SshKeys.validateSshKeys_ok, List.forall₂_map_left_iff]
  induction keys with
  | nil => simp
  | cons key rest ih =>
    rw [List.forall_mem_cons, ← ih]
    constructor
    · rintro ⟨_, hok, hsame⟩
      cases hok with
      | cons hkey hrest =>
        cases hsame with
        | cons hkey' hrest' => exact ⟨⟨_, hkey, hkey'⟩, _, hrest, hrest'⟩
    · rintro ⟨⟨n, hkey, hkey'⟩, ns, hrest, hrest'⟩
      exact ⟨n :: ns, List.Forall₂.cons hkey hrest, List.Forall₂.cons hkey' hrest'⟩

/-- **The form and the server agree** on a text that passes the form exactly when its keys are plain. -/
theorem agree_iff (value : Units) : Agrees value ↔
    ((validateSshPublicKeys value).error = none → ∀ key ∈ (validateSshPublicKeys value).keys, Plain key) := by
  refine imp_congr_right fun herror => ?_
  have hkeys : (validateSshPublicKeys value).keys = sshPublicKeyLines value := rfl
  have hpassed : (sshPublicKeyLines value).length ≤ 8 ∧ ∀ key ∈ sshPublicKeyLines value, Passed key := by
    unfold validateSshPublicKeys at herror
    dsimp only at herror
    split at herror
    · cases herror
    split at herror
    · cases herror
    next hlength => exact ⟨Nat.le_of_not_lt hlength, fun key hkey => passed_of_none (List.findSome?_eq_none_iff.mp herror key hkey)⟩
  rw [hkeys, SshKeys.sshPublicKeys, if_neg (by rw [List.length_map]; omega), forall₂_accepts]
  exact forall₂_congr fun key hkey => (hpassed.2 key hkey).accepts_iff (lineFeed_not_mem hkey)

/-- A byte order mark behind the body. -/
def markedKey : Units := ascii _ "ssh-ed25519 AAAAAAAAAAAAAAAAAAAAAA==" ++ byteOrderMark :: ascii _ " me"

/-- **The form lets it pass, the server refuses it.** -/
theorem marked_refused : (validateSshPublicKeys markedKey).error = none ∧
    SshKeys.sshPublicKeys ((validateSshPublicKeys markedKey).keys.map codePoints) = .error "invalid SSH public key encoding" ∧
    ¬Agrees markedKey := by
  have hpasses : (validateSshPublicKeys markedKey).error = none := by decide
  have hrefused : SshKeys.sshPublicKeys ((validateSshPublicKeys markedKey).keys.map codePoints) =
      .error "invalid SSH public key encoding" := by decide
  refine ⟨hpasses, hrefused, fun h => ?_⟩
  obtain ⟨normalized, hok, -⟩ := h hpasses
  rw [hrefused] at hok
  cases hok

end PveMaster.Browser
