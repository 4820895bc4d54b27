import Mathlib.Data.Nat.Log
import Mathlib.Order.WithBot
import Mathlib.Algebra.Order.Ring.Int
import Mathlib.Tactic.Ring
import Mathlib.Tactic.Linarith
import Mathlib.Tactic.Positivity
import PveMaster.Foundation.Text

/-! Binary floating-point numbers of 64 bits, and the greatest of some keyed values.

Every finite number is a multiple of the smallest positive one, `2 ^ -1074`. In this unit the
exact value of a number is an integer, and so is the exact result of what is computed here;
`nearest` is the one place where anything is rounded: to 53 significant bits, ties to even.

Numbers are compared by value. `nan` has none, so that neither it is less than another nor
another less than it; the greatest of a list (`firstGreatest`) depends on where its `nan`s
stand. -/
namespace PveMaster

/-! ### Rounding -/

/-- The integer nearest to `n / d`; halfway between two, the even one. -/
def roundDiv (n d : Nat) : Nat :=
  if 2 * (n % d) < d ∨ 2 * (n % d) = d ∧ n / d % 2 = 0 then n / d else n / d + 1

theorem le_roundDiv {n d m : Nat} (hd : 0 < d) (h : m * d ≤ n) : m ≤ roundDiv n d := by
  have hfloor : m ≤ n / d := (Nat.le_div_iff_mul_le hd).mpr h
  unfold roundDiv
  split
  · exact hfloor
  · exact Nat.le_succ_of_le hfloor

theorem roundDiv_le {n d m : Nat} (hd : 0 < d) (h : n ≤ m * d) : roundDiv n d ≤ m := by
  have hsplit : d * (n / d) + n % d = n := Nat.div_add_mod n d
  have hfloor : n / d ≤ m := Nat.div_le_of_le_mul (by rwa [Nat.mul_comm] at h)
  unfold roundDiv
  split
  · exact hfloor
  · next hup =>
    refine Nat.succ_le_of_lt (lt_of_le_of_ne hfloor fun hm => hup (Or.inl ?_))
    rw [← hm, Nat.mul_comm] at h
    omega

/-- The distance of the numbers of 53 bits around `n`, in units: from a power of two to the next
it is the same, and below `2 ^ 53` units it is one. -/
def spacing (n : Nat) : Nat := 2 ^ (n.log2 - 52)

theorem spacing_pos (n : Nat) : 0 < spacing n := Nat.two_pow_pos _

/-- `n / d`, rounded to 53 significant bits. All rounding of this module is this. -/
def nearest (n d : Nat) : Nat := roundDiv n (d * spacing (n / d)) * spacing (n / d)

theorem le_nearest {n d m : Nat} (hd : 0 < d) (hm : spacing (n / d) ∣ m) (h : m * d ≤ n) : m ≤ nearest n d := by
  obtain ⟨k, rfl⟩ := hm
  unfold nearest
  rw [Nat.mul_comm]
  refine Nat.mul_le_mul_right _ (le_roundDiv (Nat.mul_pos hd (spacing_pos _)) ?_)
  calc k * (d * spacing (n / d)) = spacing (n / d) * k * d := by ring
    _ ≤ n := h

theorem nearest_le {n d m : Nat} (hd : 0 < d) (hm : spacing (n / d) ∣ m) (h : n ≤ m * d) : nearest n d ≤ m := by
  obtain ⟨k, rfl⟩ := hm
  unfold nearest
  rw [Nat.mul_comm (spacing _) k]
  refine Nat.mul_le_mul_right _ (roundDiv_le (Nat.mul_pos hd (spacing_pos _)) ?_)
  calc n ≤ spacing (n / d) * k * d := h
    _ = k * (d * spacing (n / d)) := by ring

/-- Numbers of at most 53 bits, followed by any number of zeros. -/
theorem spacing_dvd {q t : Nat} (h : q ≤ 2 ^ 53) : spacing (q * 2 ^ t) ∣ q * 2 ^ t := by
  unfold spacing
  rcases Nat.eq_zero_or_pos q with rfl | hpos
  · rw [Nat.zero_mul]
    exact Nat.dvd_zero _
  have hlog : (q * 2 ^ t).log2 = q.log2 + t := by
    rw [Nat.log2_eq_iff (Nat.mul_ne_zero hpos.ne' (Nat.two_pow_pos t).ne'), Nat.pow_add, Nat.add_right_comm, Nat.pow_add]
    exact ⟨Nat.mul_le_mul_right _ (Nat.log2_self_le hpos.ne'),
      Nat.mul_lt_mul_of_pos_right Nat.lt_log2_self (Nat.two_pow_pos t)⟩
  rw [hlog]
  rcases h.lt_or_eq with hlt | rfl
  · have hsmall : q.log2 < 53 := (Nat.log2_lt hpos.ne').mpr hlt
    exact Dvd.dvd.mul_left (Nat.pow_dvd_pow 2 (by omega)) q
  · rw [Nat.log2_two_pow, ← Nat.pow_add]
    exact Nat.pow_dvd_pow 2 (by omega)

theorem roundDiv_le_bits (n : Nat) : roundDiv n (1 * spacing n) ≤ 2 ^ 53 := by
  rw [Nat.one_mul]
  refine roundDiv_le (spacing_pos n) (le_trans Nat.lt_log2_self.le ?_)
  unfold spacing
  rw [← Nat.pow_add]
  exact Nat.pow_le_pow_right (by decide) (by omega)

/-! ### Numbers -/

/-- The exponent of the least power of two that is too large for a finite number. -/
def topExponent : Nat := 1024
/-- The exponent of the units in 1, the smallest positive number being `2 ^ -1074`. -/
def unitExponent : Nat := 1074

def tooLarge : Nat := 2 ^ topExponent
def unitsPerOne : Nat := 2 ^ unitExponent

theorem tooLarge_pos : 0 < tooLarge := Nat.two_pow_pos _

theorem unitsPerOne_pos : 0 < unitsPerOne := Nat.two_pow_pos _

/-- The magnitude of a finite number, in units: one that has 53 bits, and is not too large. -/
structure IsMagnitude (units : Nat) : Prop where
  rounded : spacing units ∣ units
  small : units < tooLarge * unitsPerOne

/-- A number of 64 bits. Zero has a sign, though no comparison shows it. -/
inductive Double where
  | finite (negative : Bool) (units : Nat) (fits : IsMagnitude units)
  | infinite (negative : Bool)
  | nan
  deriving DecidableEq, Repr

namespace Double

/-- An integer rounded to 53 bits is a magnitude, unless it is too large for one. -/
theorem isMagnitude_nearest {n : Nat} (h : nearest n 1 < tooLarge) : IsMagnitude (nearest n 1 * unitsPerOne) where
  rounded := by
    have hbits := roundDiv_le_bits n
    unfold nearest
    rw [Nat.div_one]
    unfold spacing unitsPerOne
    rw [Nat.mul_assoc, ← Nat.pow_add]
    exact spacing_dvd hbits
  small := Nat.mul_lt_mul_of_pos_right h unitsPerOne_pos

/-- The nearest number to an integer, if there is one: `float(i)`, which raises where the integer
is too large. -/
def ofInt (i : Int) : Option Double :=
  if h : nearest i.natAbs 1 < tooLarge then
    some (.finite (decide (i < 0)) (nearest i.natAbs 1 * unitsPerOne) (isMagnitude_nearest h))
  else none

def zero : Double := .finite false 0 ⟨Nat.dvd_zero _, Nat.mul_pos tooLarge_pos unitsPerOne_pos⟩

def signed (negative : Bool) (n : Nat) : Int := if negative then -(n : Int) else n

/-- The value, in units, with the two infinities at the ends of the order. `nan` has none. -/
def value? : Double → Option (WithBot (WithTop ℤ))
  | .finite negative units _ => some ((signed negative units : WithTop ℤ) : WithBot (WithTop ℤ))
  | .infinite true => some ⊥
  | .infinite false => some ((⊤ : WithTop ℤ) : WithBot (WithTop ℤ))
  | .nan => none

/-- Whether the number is this integer, compared exactly and not as two floats. -/
def isInt (x : Double) (i : Int) : Bool :=
  match x with
  | .finite negative units _ => signed negative units == i * unitsPerOne
  | .infinite _ | .nan => false

/-! ### Millionths -/

/-- The number in millionths, as a time in seconds becomes one in microseconds: its fraction is
multiplied as a number, and the product rounded to an integer. -/
def millionths (units : Nat) : Nat :=
  units / unitsPerOne * 1000000 + roundDiv (nearest (units % unitsPerOne * 1000000) 1) unitsPerOne

/-- Below a million, whole ones are no finer than the numbers. -/
theorem spacing_dvd_ones {n : Nat} (h : n < 1000000 * unitsPerOne) (j : Nat) : spacing (n / 1) ∣ j * unitsPerOne := by
  refine Dvd.dvd.mul_left ?_ j
  rw [Nat.div_one]
  rcases Nat.eq_zero_or_pos n with rfl | hpos
  · unfold spacing
    rw [Nat.log2_zero]
    exact Nat.one_dvd _
  have hlog : n.log2 < 20 + unitExponent := by
    rw [Nat.log2_lt hpos.ne', Nat.pow_add, ← unitsPerOne]
    exact lt_of_lt_of_le h (Nat.mul_le_mul_right unitsPerOne (by decide))
  unfold spacing unitsPerOne
  exact Nat.pow_dvd_pow 2 (by omega)

theorem fraction_lt (units : Nat) : units % unitsPerOne * 1000000 < 1000000 * unitsPerOne := by
  rw [Nat.mul_comm]
  exact Nat.mul_lt_mul_of_pos_left (Nat.mod_lt _ unitsPerOne_pos) (by decide)

theorem units_split (units : Nat) : units * 1000000 =
    units / unitsPerOne * 1000000 * unitsPerOne + units % unitsPerOne * 1000000 := by
  have hsplit : units = unitsPerOne * (units / unitsPerOne) + units % unitsPerOne := (Nat.div_add_mod _ _).symm
  calc units * 1000000 = (unitsPerOne * (units / unitsPerOne) + units % unitsPerOne) * 1000000 := by rw [← hsplit]
    _ = units / unitsPerOne * 1000000 * unitsPerOne + units % unitsPerOne * 1000000 := by ring

/-- A whole number of millionths up to the number is one up to its millionths. -/
theorem le_millionths {units m : Nat} (h : m * unitsPerOne ≤ units * 1000000) : m ≤ millionths units := by
  rw [units_split] at h
  unfold millionths
  by_cases hm : m ≤ units / unitsPerOne * 1000000
  · exact le_trans hm (Nat.le_add_right _ _)
  obtain ⟨j, rfl⟩ := Nat.exists_eq_add_of_lt (not_le.mp hm)
  rw [Nat.add_assoc, Nat.add_mul] at h
  rw [Nat.add_assoc]
  refine Nat.add_le_add_left (le_roundDiv unitsPerOne_pos ?_) _
  refine le_nearest Nat.one_pos (spacing_dvd_ones (fraction_lt units) _) ?_
  rw [Nat.mul_one]
  exact Nat.le_of_add_le_add_left h

theorem millionths_le {units m : Nat} (h : units * 1000000 ≤ m * unitsPerOne) : millionths units ≤ m := by
  rw [units_split] at h
  have hwhole : units / unitsPerOne * 1000000 ≤ m :=
    Nat.le_of_mul_le_mul_right (le_trans (Nat.le_add_right _ _) h) unitsPerOne_pos
  obtain ⟨j, rfl⟩ := Nat.exists_eq_add_of_le hwhole
  rw [Nat.add_mul] at h
  unfold millionths
  refine Nat.add_le_add_left (roundDiv_le unitsPerOne_pos ?_) _
  refine nearest_le Nat.one_pos (spacing_dvd_ones (fraction_lt units) _) ?_
  rw [Nat.mul_one]
  exact Nat.le_of_add_le_add_left h

/-- A magnitude in other units, whatever the units are: if it keeps what the magnitude is at least
and at most, then with a sign it keeps what the number is at least. -/
theorem le_signed {one scale : Nat} (hone : 0 < one) {negative : Bool} {units scaled : Nat} {i : Int}
    (hle : ∀ m, m * one ≤ units * scale → m ≤ scaled) (hge : ∀ m, units * scale ≤ m * one → scaled ≤ m)
    (h : i * one ≤ signed negative units * scale) : i ≤ signed negative scaled := by
  have hpos : (0 : Int) < one := Int.natCast_pos.mpr hone
  cases negative with
  | false =>
    show i ≤ (scaled : Int)
    have h : i * one ≤ (units : Int) * scale := h
    rcases le_or_gt i 0 with hneg | hpos
    · exact le_trans hneg (Int.natCast_nonneg _)
    · obtain ⟨m, rfl⟩ := Int.eq_ofNat_of_zero_le hpos.le
      exact_mod_cast hle m (by exact_mod_cast h)
  | true =>
    show i ≤ -(scaled : Int)
    have h : i * one ≤ -(units : Int) * scale := h
    have hneg : (units : Int) * scale ≤ -i * one := by linarith
    have hnonneg : 0 ≤ -i := by
      by_contra hlt
      have hprod : -i * one < 0 := mul_neg_of_neg_of_pos (not_le.mp hlt) hpos
      have hunits : (0 : Int) ≤ (units : Int) * scale := by positivity
      linarith
    obtain ⟨m, hm⟩ := Int.eq_ofNat_of_zero_le hnonneg
    rw [hm] at hneg
    have hle : scaled ≤ m := hge m (by exact_mod_cast hneg)
    have hle : (scaled : Int) ≤ m := by exact_mod_cast hle
    linarith

/-- Millionths keep what the number is at least. -/
theorem le_signed_millionths {negative : Bool} {units : Nat} {i : Int}
    (h : i * unitsPerOne ≤ signed negative units * 1000000) : i ≤ signed negative (millionths units) :=
  le_signed unitsPerOne_pos (fun _ => le_millionths) (fun _ => millionths_le) h

/-! ### Texts -/

/-- The power of ten that a magnitude is at least, so the place of its first digit; `n` is how far
below 1 it is looked for. -/
def decimalPlace (units : Nat) : Nat → Int
  | 0 => Nat.log 10 (units / unitsPerOne)
  | n + 1 => if units * 10 ^ n < unitsPerOne ∧ unitsPerOne ≤ units * 10 ^ (n + 1) then -(n + 1) else decimalPlace units n

/-- The magnitude nearest to `d * 10 ^ e`. -/
def ofDecimal (d : Nat) (e : Int) : Nat :=
  nearest (d * 10 ^ e.toNat * unitsPerOne) (10 ^ (-e).toNat)

/-- A decimal of `n` digits that the magnitude is read back from, if there is one; of the two
decimals next to it the nearer is tried first. -/
def decimal? (units n : Nat) : Option (Nat × Int) :=
  let e := decimalPlace units 400 + 1 - n
  let below := units * 10 ^ (-e).toNat / (unitsPerOne * 10 ^ e.toNat)
  let near := roundDiv (units * 10 ^ (-e).toNat) (unitsPerOne * 10 ^ e.toNat)
  let far := if near = below then below + 1 else below
  [near, far].findSome? fun d => if ofDecimal d e = units then some (d, e) else none

/-- The digits of the shortest of them, without the zeros at the end, and the place of the point.
No more than seventeen digits are tried. -/
def shortest (units : Nat) : List Char × Int :=
  match (List.range 17).findSome? fun n => decimal? units (n + 1) with
  | some (d, e) =>
    let digits := Text.numeral 10 d
    ((digits.reverse.dropWhile (· == '0')).reverse, digits.length + e)
  | none => (['0'], 1)

/-- A magnitude as `repr` writes it: with an exponent below `1e-4` and from `1e16` on, and with a
point otherwise. -/
def magnitudeText (units : Nat) : List Char :=
  if units = 0 then ['0', '.', '0']
  else
    let (digits, point) := shortest units
    if point ≤ -4 ∨ 16 < point then
      let e := point - 1
      let place := Text.numeral 10 e.natAbs
      digits.take 1 ++ (if digits.length = 1 then [] else '.' :: digits.drop 1) ++
        ['e', if e < 0 then '-' else '+'] ++ (if place.length = 1 then '0' :: place else place)
    else if point ≤ 0 then ['0', '.'] ++ List.replicate point.natAbs '0' ++ digits
    else if digits.length ≤ point then digits ++ List.replicate (point.toNat - digits.length) '0' ++ ['.', '0']
    else digits.take point.toNat ++ '.' :: digits.drop point.toNat

/-- The shortest text that is read back as the number, with these words for what is not finite. -/
def text (infinity noNumber : List Char) : Double → List Char
  | .finite negative units _ => (if negative then ['-'] else []) ++ magnitudeText units
  | .infinite negative => (if negative then ['-'] else []) ++ infinity
  | .nan => noNumber

end Double

/-! ### The greatest of a list -/

section Greatest
variable {α β : Type*} [LinearOrder β] (key : α → Option β)

/-- Whether the key of `x` is greater than that of `y`. Where one of them has no key, neither
surpasses the other. -/
def surpasses (x y : α) : Bool :=
  match key x, key y with
  | some kx, some ky => decide (ky < kx)
  | _, _ => false

def greater (best x : α) : α := if surpasses key x best then x else best

/-- The greatest of a list, as a loop over it finds it: the first, replaced by whatever surpasses
what has been kept so far. -/
def firstGreatest : List α → Option α
  | [] => none
  | x :: rest => some (rest.foldl (greater key) x)

/-- What stands before and behind the one that is found. What has no key is passed over, but for
the first of all: nothing surpasses that. -/
structure FirstGreatest (before : List α) (own : α) (after : List α) : Prop where
  first : ∀ x ∈ before.head?, surpasses key own x = true
  before : ∀ x ∈ before, (key x).isSome → surpasses key own x = true
  after : ∀ x ∈ after, surpasses key x own = false

variable {key}

theorem isSome_of_surpasses {x y : α} (h : surpasses key x y = true) : (key x).isSome ∧ (key y).isSome := by
  unfold surpasses at h
  split at h
  · next hx hy => exact ⟨by rw [hx]; rfl, by rw [hy]; rfl⟩
  · cases h

theorem surpasses_trans {x y z : α} (hxy : surpasses key x y = true) (hyz : surpasses key y z = true) :
    surpasses key x z = true := by
  unfold surpasses at *
  cases hx : key x <;> cases hy : key y <;> cases hz : key z <;> simp_all only [decide_eq_true_eq, Bool.false_eq_true]
  exact lt_trans hyz hxy

/-- What surpasses something surpasses also what does not surpass that. -/
theorem surpasses_of_not {x y z : α} (hxy : surpasses key x y = true) (hzy : surpasses key z y = false)
    (hz : (key z).isSome) : surpasses key x z = true := by
  obtain ⟨kz, hz⟩ := Option.isSome_iff_exists.mp hz
  unfold surpasses at *
  cases hx : key x <;> cases hy : key y <;> simp_all only [decide_eq_true_eq, decide_eq_false_iff_not, Bool.false_eq_true]
  exact lt_of_le_of_lt (not_lt.mp hzy) hxy

theorem foldl_greater_of_unsurpassed {own : α} {l : List α} (h : ∀ x ∈ l, surpasses key x own = false) :
    l.foldl (greater key) own = own := by
  induction l with
  | nil => rfl
  | cons x rest ih =>
    have hx : greater key own x = own := if_neg (by rw [h x List.mem_cons_self]; exact Bool.false_ne_true)
    rw [List.foldl_cons, hx]
    exact ih fun y hy => h y (List.mem_cons_of_mem x hy)

/-- What surpasses the first of all and every key of a list surpasses the greatest of it. -/
theorem surpasses_foldl {own first : α} {l : List α} (hfirst : surpasses key own first = true)
    (h : ∀ x ∈ l, (key x).isSome → surpasses key own x = true) :
    surpasses key own (l.foldl (greater key) first) = true := by
  induction l generalizing first with
  | nil => exact hfirst
  | cons x rest ih =>
    refine ih ?_ fun y hy => h y (List.mem_cons_of_mem x hy)
    unfold greater
    split
    · next hup => exact h x List.mem_cons_self (isSome_of_surpasses hup).1
    · exact hfirst

theorem foldl_greater_found (first : α) (l : List α) :
    ∃ before after, first :: l = before ++ l.foldl (greater key) first :: after ∧
      FirstGreatest key before (l.foldl (greater key) first) after := by
  induction l using List.reverseRecOn with
  | nil => exact ⟨[], [], rfl, by simp, by simp, by simp⟩
  | append_singleton l x ih =>
    obtain ⟨before, after, hlist, found⟩ := ih
    rw [List.foldl_append]
    generalize l.foldl (greater key) first = best at *
    show ∃ before after, _ = before ++ greater key best x :: after ∧ FirstGreatest key before (greater key best x) after
    rw [← List.cons_append, hlist]
    unfold greater
    split
    · next hup =>
      refine ⟨before ++ best :: after, [], rfl, fun y hy => ?_, fun y hy hkey => ?_, by simp⟩
      · cases before with
        | nil =>
          obtain rfl := Option.some.inj hy
          exact hup
        | cons z rest => exact surpasses_trans hup (found.first y hy)
      · rcases List.mem_append.mp hy with hy | hy
        · exact surpasses_trans hup (found.before y hy hkey)
        · rcases List.mem_cons.mp hy with rfl | hy
          · exact hup
          · exact surpasses_of_not hup (found.after y hy) hkey
    · next hkeep =>
      refine ⟨before, after ++ [x], by rw [List.append_assoc, List.cons_append], found.first, found.before, fun y hy => ?_⟩
      rcases List.mem_append.mp hy with hy | hy
      · exact found.after y hy
      · rw [List.mem_singleton.mp hy]
        exact Bool.eq_false_iff.mpr hkeep

/-- **What is found**: the first of the greatest. -/
theorem firstGreatest_eq_some {l : List α} {own : α} :
    firstGreatest key l = some own ↔ ∃ before after, l = before ++ own :: after ∧ FirstGreatest key before own after := by
  constructor
  · intro h
    cases l with
    | nil => cases h
    | cons first rest =>
      obtain rfl := Option.some.inj h
      exact foldl_greater_found first rest
  · rintro ⟨before, after, rfl, found⟩
    cases before with
    | nil => exact congrArg some (foldl_greater_of_unsurpassed found.after)
    | cons first rest =>
      have hup := surpasses_foldl (found.first first rfl) fun x hx => found.before x (List.mem_cons_of_mem first hx)
      refine congrArg some ?_
      show (rest ++ own :: after).foldl (greater key) first = own
      rw [List.foldl_append, List.foldl_cons, greater, if_pos hup]
      exact foldl_greater_of_unsurpassed found.after

theorem firstGreatest_eq_none {l : List α} : firstGreatest key l = none ↔ l = [] := by
  cases l <;> simp [firstGreatest]

end Greatest
end PveMaster
