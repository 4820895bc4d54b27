import Mathlib.Data.Nat.Digits.Lemmas
import Mathlib.Algebra.Order.Floor.Semifield
import Mathlib.Data.Rat.Floor

/-! Decimal numbers of limited precision.

A nonnegative decimal is a coefficient and a power of ten. Arithmetic rounds its exact
result to the digits of a context, half to even, and fails where the result is too
large for it. A result that has no more digits than the context keeps is exact
(`Context.round_of_fits`). -/
namespace PveMaster.Decimals

/-- A nonnegative decimal as Python's `decimal` keeps it: the same number can have several
coefficients, and arithmetic does not reduce them. -/
structure Decimal where
  coefficient : Nat
  exponent : Int
  deriving DecidableEq, Repr

/-- The number of digits. -/
def digitCount (n : Nat) : Nat := (Nat.digits 10 n).length

namespace Decimal

/-- The number itself, for what is said about rounding. -/
def value (d : Decimal) : ℚ := d.coefficient * 10 ^ d.exponent

/-- `int(d)`: what stands behind the point is cut off. -/
def truncate (d : Decimal) : Nat :=
  if 0 ≤ d.exponent then d.coefficient * 10 ^ d.exponent.toNat
  else d.coefficient / 10 ^ (-d.exponent).toNat

/-- `d * n`, exactly, before a context rounds it. -/
def scale (d : Decimal) (n : Nat) : Decimal := ⟨d.coefficient * n, d.exponent⟩

theorem value_scale (d : Decimal) (n : Nat) : (d.scale n).value = d.value * n := by
  unfold value scale
  push_cast
  ring

/-- `int` cuts off what follows the point. -/
theorem truncate_eq_floor (d : Decimal) : d.truncate = ⌊d.value⌋₊ := by
  unfold truncate value
  by_cases h : 0 ≤ d.exponent
  · obtain ⟨n, hn⟩ := Int.eq_ofNat_of_zero_le h
    rw [if_pos h, hn, Int.toNat_natCast, zpow_natCast]
    have hcast : (d.coefficient : ℚ) * 10 ^ n = ((d.coefficient * 10 ^ n : ℕ) : ℚ) := by push_cast; rfl
    rw [hcast, Nat.floor_natCast]
  · obtain ⟨n, hn⟩ := Int.eq_ofNat_of_zero_le (show 0 ≤ -d.exponent by omega)
    have hexp : d.exponent = -(n : Int) := by omega
    rw [if_neg h, hexp, neg_neg, Int.toNat_natCast, zpow_neg, zpow_natCast, ← div_eq_mul_inv]
    have hcast : (d.coefficient : ℚ) / 10 ^ n = (d.coefficient : ℚ) / ((10 ^ n : ℕ) : ℚ) := by push_cast; rfl
    rw [hcast, Nat.floor_div_eq_div]

end Decimal

/-! ### Contexts -/

/-- How many digits are kept, and between which powers of ten the first of them is. -/
structure Context where
  prec : Nat
  emin : Int
  emax : Int

namespace Context

/-- The smallest power of ten of a last digit. -/
def etiny (ctx : Context) : Int := ctx.emin - ctx.prec + 1

/-- The largest power of ten of a last digit, in a number of full precision. -/
def etop (ctx : Context) : Int := ctx.emax - ctx.prec + 1

/-- `n` without its last `k` digits, rounded to the nearer neighbour and, halfway between two, to
the even one. -/
def halfEven (n k : Nat) : Nat :=
  let kept := n / 10 ^ k
  let rest := n % 10 ^ k
  if 10 ^ k < 2 * rest ∨ (2 * rest = 10 ^ k ∧ kept % 2 = 1) then kept + 1 else kept

/-- An exact result as the context has it: rounded to its precision, and none where it is above
the range of the context. -/
def round (ctx : Context) (d : Decimal) : Option Decimal :=
  if d.coefficient = 0 then some ⟨0, min (max d.exponent ctx.etiny) ctx.emax⟩
  else
    let expMin := digitCount d.coefficient + d.exponent - ctx.prec
    if ctx.etop < expMin then none
    else
      let expMin := max expMin ctx.etiny
      if d.exponent < expMin then
        let coefficient := halfEven d.coefficient (expMin - d.exponent).toNat
        -- a carry into one digit too many leaves a last digit that is zero
        if ctx.prec < digitCount coefficient then
          if ctx.etop < expMin + 1 then none else some ⟨coefficient / 10, expMin + 1⟩
        else some ⟨coefficient, expMin⟩
      else some d

/-- The rounded result has the integer part of the exact one, so a program that goes on with `int`
of it loses nothing. -/
def KeepsWhole (ctx : Context) (d : Decimal) : Prop :=
  (ctx.round d).map Decimal.truncate = some d.truncate

instance (ctx : Context) (d : Decimal) : Decidable (ctx.KeepsWhole d) :=
  inferInstanceAs (Decidable (_ = _))

/-- What has no more digits than are kept is not rounded. -/
theorem round_of_fits {ctx : Context} {d : Decimal} (hpos : 0 < d.coefficient)
    (hdigits : digitCount d.coefficient ≤ ctx.prec) (htiny : ctx.etiny ≤ d.exponent)
    (htop : d.exponent ≤ ctx.etop) : ctx.round d = some d := by
  have hexp : ((digitCount d.coefficient : Nat) : Int) + d.exponent - ctx.prec ≤ d.exponent := by omega
  unfold round
  rw [if_neg (by omega)]
  simp only
  rw [if_neg (not_lt.mpr (le_trans hexp htop)), if_neg (not_lt.mpr (max_le hexp htiny))]

theorem truncate_zero (e : Int) : (⟨0, e⟩ : Decimal).truncate = 0 := by
  unfold Decimal.truncate
  split
  · exact Nat.zero_mul _
  · exact Nat.zero_div _

end Context
end PveMaster.Decimals
