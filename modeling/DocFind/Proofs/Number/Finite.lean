import DocFind.Double
import Mathlib.Algebra.Group.Nat.Defs
import Mathlib.Tactic.SplitIfs

/-!
# Binary numbers that are finite

A magnitude below that of the infinities is the magnitude of a finite number, and rounding takes
every whole number of at most 64 bits to one: its leading bit is far below the last exponent.
-/
namespace DocFind.Double

theorem infiniteMagnitude_eq : infiniteMagnitude = 2047 * 2 ^ 52 := rfl

theorem magnitude_ofMagnitude (negative : Bool) (m : Nat) :
    (ofMagnitude negative m).magnitude = min m infiniteMagnitude := by
  have hinfinite := infiniteMagnitude_eq
  rw [magnitude, ofMagnitude, UInt64.toNat_ofNat']
  split_ifs <;> omega

theorem isFinite_ofMagnitude {m : Nat} (h : m < infiniteMagnitude) (negative : Bool) :
    (ofMagnitude negative m).isFinite = true := by
  rw [isFinite, magnitude_ofMagnitude, decide_eq_true_eq]
  omega

theorem roundHalfEven_le (num den : Nat) : roundHalfEven num den ≤ num / den + 1 := by
  rw [roundHalfEven]
  split_ifs <;> omega

theorem atLeastPowerOfTwo_log2 {n : Nat} (h : n ≠ 0) : atLeastPowerOfTwo n 1 n.log2 = true := by
  have hbit : 2 ^ n.log2 ≤ n := Nat.log2_self_le h
  simp [atLeastPowerOfTwo, hbit]

/-- At the scale of its leading bit a whole number has a significand of 53 bits. -/
theorem scaled_lt {n k e units : Nat} (h : n < 2 ^ (k + 1)) (hunits : units = 2 ^ (e + 52)) :
    n * units / (1 * Nat.pow 2 (k + e)) < 2 ^ 53 := by
  refine Nat.div_lt_of_lt_mul ?_
  have hpower : 1 * Nat.pow 2 (k + e) * 2 ^ 53 = 2 ^ (k + 1) * 2 ^ (e + 52) := by
    rw [Nat.one_mul, Nat.pow_eq, ← Nat.pow_add, ← Nat.pow_add]
    congr 1
    omega
  rw [hpower, hunits]
  exact Nat.mul_lt_mul_of_pos_right h (Nat.two_pow_pos _)

/-- A whole number of at most 64 bits is nearest to a finite number. -/
theorem isFinite_ofInt {n : Int} (h : n.natAbs < 2 ^ 64) : (ofInt n).isFinite = true := by
  rw [ofInt, ofRatio]
  split_ifs with hzero
  · exact isFinite_ofMagnitude (by decide) _
  have hlog : n.natAbs.log2 < 64 := (Nat.log2_lt hzero).mpr h
  have hestimate : ((n.natAbs.log2 : Int) - (1 : Nat).log2) = n.natAbs.log2 := by
    have hone : (1 : Nat).log2 = 0 := by decide
    rw [hone, Int.natCast_zero, Int.sub_zero]
  have hscale : ((n.natAbs.log2 : Int) + 1022).toNat = n.natAbs.log2 + 1022 := by omega
  dsimp only
  rw [hestimate, if_pos (atLeastPowerOfTwo_log2 hzero), hscale]
  refine isFinite_ofMagnitude ?_ _
  have hround := roundHalfEven_le (n.natAbs * unitsPerOne)
    (1 * Nat.pow 2 (n.natAbs.log2 + 1022))
  have hquotient : n.natAbs * unitsPerOne / (1 * Nat.pow 2 (n.natAbs.log2 + 1022)) < 2 ^ 53 :=
    scaled_lt Nat.lt_log2_self (by decide +kernel)
  have hbinade : binade = 2 ^ 52 := rfl
  rw [infiniteMagnitude_eq, hbinade]
  omega

end DocFind.Double
