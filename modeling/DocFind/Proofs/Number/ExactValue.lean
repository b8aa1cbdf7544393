import DocFind.Number
import Mathlib.Order.Monotone.Basic
import Mathlib.Tactic.Ring

/-!
# Numbers are ordered by exact value

Every word of 64 bits and every binary number that is no NaN is a whole number of the least units,
the infinities being `± 2 ^ 2098` of them. Comparison of mixed forms is comparison of these whole
numbers, with the NaNs equal and above. So it is a total order, and no rounding takes part in it.
-/
namespace DocFind

theorem compare_congr {a b c d : Int} (hlt : a < b ↔ c < d) (heq : a = b ↔ c = d) :
    compare a b = compare c d := by
  simp only [compare, compareOfLessAndEq, hlt, heq]

namespace Double

/-- The units that a magnitude stands for. -/
def magnitudeUnits (m : Nat) : Nat :=
  (if m < 2 ^ 52 then m else 2 ^ 52 + m % 2 ^ 52) * 2 ^ (m / 2 ^ 52 - 1)

theorem units_eq (x : Double) : x.units =
    if x.isNegative then -(magnitudeUnits x.magnitude : Int) else magnitudeUnits x.magnitude := rfl

theorem magnitudeUnits_of_lt {m : Nat} (h : m < 2 ^ 52) : magnitudeUnits m = m := by
  have hq : m / 2 ^ 52 - 1 = 0 := by omega
  rw [magnitudeUnits, if_pos h, hq, Nat.pow_zero, Nat.mul_one]

theorem magnitudeUnits_of_le {m : Nat} (h : 2 ^ 52 ≤ m) :
    magnitudeUnits m = (2 ^ 52 + m % 2 ^ 52) * 2 ^ (m / 2 ^ 52 - 1) := by
  rw [magnitudeUnits, if_neg (by omega)]

/-- A larger magnitude stands for more units: inside a binade the significand grows, and at the end
of one the next exponent takes over. -/
theorem magnitudeUnits_strictMono : StrictMono magnitudeUnits := by
  refine strictMono_nat_of_lt_succ fun m => ?_
  by_cases hm : m + 1 < 2 ^ 52
  · rw [magnitudeUnits_of_lt (by omega), magnitudeUnits_of_lt hm]
    omega
  by_cases hfirst : m < 2 ^ 52
  · have he : m + 1 = 2 ^ 52 := by omega
    rw [magnitudeUnits_of_lt hfirst, he, magnitudeUnits_of_le le_rfl]
    omega
  · rw [magnitudeUnits_of_le (by omega), magnitudeUnits_of_le (by omega)]
    by_cases hr : m % 2 ^ 52 + 1 < 2 ^ 52
    · have hd : (m + 1) / 2 ^ 52 = m / 2 ^ 52 := by omega
      have hmod : (m + 1) % 2 ^ 52 = m % 2 ^ 52 + 1 := by omega
      rw [hd, hmod]
      exact Nat.mul_lt_mul_of_pos_right (by omega) (Nat.two_pow_pos _)
    · have hd : (m + 1) / 2 ^ 52 - 1 = (m / 2 ^ 52 - 1) + 1 := by omega
      have hmod : (m + 1) % 2 ^ 52 = 0 := by omega
      rw [hd, hmod, Nat.pow_succ]
      have hp := Nat.two_pow_pos (m / 2 ^ 52 - 1)
      have hlast : 2 ^ 52 + m % 2 ^ 52 < (2 ^ 52 + 0) * 2 := by omega
      calc (2 ^ 52 + m % 2 ^ 52) * 2 ^ (m / 2 ^ 52 - 1)
          < ((2 ^ 52 + 0) * 2) * 2 ^ (m / 2 ^ 52 - 1) := Nat.mul_lt_mul_of_pos_right hlast hp
        _ = (2 ^ 52 + 0) * (2 ^ (m / 2 ^ 52 - 1) * 2) := by ring

theorem magnitudeUnits_lt_iff (m n : Nat) : magnitudeUnits m < magnitudeUnits n ↔ m < n :=
  magnitudeUnits_strictMono.lt_iff_lt

theorem magnitudeUnits_inj (m n : Nat) : magnitudeUnits m = magnitudeUnits n ↔ m = n :=
  magnitudeUnits_strictMono.injective.eq_iff

theorem magnitudeUnits_eq_zero (m : Nat) : magnitudeUnits m = 0 ↔ m = 0 := by
  rw [← magnitudeUnits_inj m 0, magnitudeUnits_of_lt (by decide : 0 < 2 ^ 52)]

theorem place_lt_iff (x y : Double) : x.place < y.place ↔ x.units < y.units := by
  have hlt := magnitudeUnits_lt_iff x.magnitude y.magnitude
  have hgt := magnitudeUnits_lt_iff y.magnitude x.magnitude
  have hx := magnitudeUnits_eq_zero x.magnitude
  have hy := magnitudeUnits_eq_zero y.magnitude
  simp only [place, units_eq]
  split_ifs <;> omega

theorem place_eq_iff (x y : Double) : x.place = y.place ↔ x.units = y.units := by
  have hlt := place_lt_iff x y
  have hgt := place_lt_iff y x
  omega

/-- Numbers that are no NaN compare as their units do. -/
theorem cmp_eq_compare_units {x y : Double} (hx : x.isNaN = false) (hy : y.isNaN = false) :
    x.cmp y = compare x.units y.units := by
  simp only [cmp, hx, hy]
  exact compare_congr (place_lt_iff x y) (place_eq_iff x y)

/-! ## A word of 64 bits against a binary number -/

theorem unitsPerOne_pos : 0 < (unitsPerOne : Int) :=
  Int.natCast_pos.mpr (by decide +kernel)

theorem units_twoPow63 : twoPow63.units = 2 ^ 63 * (unitsPerOne : Int) := by decide +kernel

theorem units_negTwoPow63 : negTwoPow63.units = -2 ^ 63 * (unitsPerOne : Int) := by decide +kernel

theorem floor_eq_ediv (x : Double) : x.floor = x.units / (unitsPerOne : Int) :=
  Int.fdiv_eq_ediv_of_nonneg _ unitsPerOne_pos.le

theorem le_floor_iff (x : Double) (k : Int) : k ≤ x.floor ↔ k * unitsPerOne ≤ x.units := by
  rw [floor_eq_ediv, Int.le_ediv_iff_mul_le unitsPerOne_pos]

theorem floor_lt_iff (x : Double) (k : Int) : x.floor < k ↔ x.units < k * unitsPerOne := by
  rw [floor_eq_ediv, Int.ediv_lt_iff_lt_mul unitsPerOne_pos]

theorem floor_mul_le (x : Double) : x.floor * (unitsPerOne : Int) ≤ x.units :=
  (x.le_floor_iff _).mp le_rfl

theorem lt_floor_add_one_mul (x : Double) : x.units < (x.floor + 1) * (unitsPerOne : Int) :=
  (x.floor_lt_iff _).mp (Int.lt_succ _)

/-- The test of the upper end is a test of the floor. -/
theorem twoPow63_le_iff {x : Double} (hx : x.isNaN = false) :
    (twoPow63.cmp x).isLE = true ↔ 2 ^ 63 ≤ x.floor := by
  rw [cmp_eq_compare_units (by decide) hx, units_twoPow63, Int.isLE_compare, le_floor_iff]

/-- The test of the lower end is a test of the floor. -/
theorem lt_negTwoPow63_iff {x : Double} (hx : x.isNaN = false) :
    x.cmp negTwoPow63 = .lt ↔ x.floor < -2 ^ 63 := by
  rw [cmp_eq_compare_units hx (by decide), units_negTwoPow63, Int.compare_eq_lt, floor_lt_iff]

theorem hasFraction_eq_false_iff (x : Double) :
    x.hasFraction = false ↔ x.units = x.floor * (unitsPerOne : Int) := by
  have hsplit := Int.mul_ediv_add_emod x.units unitsPerOne
  rw [floor_eq_ediv, Int.mul_comm]
  simp only [hasFraction, decide_eq_false_iff_not, ne_eq, not_not]
  omega

/-- The conversion to a word loses nothing where the floor fits one. -/
theorem toInt_floorWord {x : Double} (hlo : -2 ^ 63 ≤ x.floor) (hhi : x.floor < 2 ^ 63) :
    x.floorWord.toInt = x.floor :=
  Int64.toInt_ofInt_of_le hlo hhi

theorem compare_toInt (m n : Int64) : compare m n = compare m.toInt n.toInt := by
  simp only [compare, compareOfLessAndEq, Int64.lt_iff_toInt_lt, ← Int64.toInt_inj]

/-- The comparison with a word is exact: past either end of the words the number decides, and
inside the floor does, or the fraction above it. -/
theorem cmpInt64_eq_compare_units (n : Int64) {x : Double} (hx : x.isNaN = false) :
    cmpInt64 n x = compare (n.toInt * unitsPerOne) x.units := by
  have hU := unitsPerOne_pos
  have hlo : -2 ^ 63 * (unitsPerOne : Int) ≤ n.toInt * unitsPerOne :=
    Int.mul_le_mul_of_nonneg_right n.le_toInt hU.le
  have hhi : n.toInt * unitsPerOne < 2 ^ 63 * (unitsPerOne : Int) :=
    Int.mul_lt_mul_of_pos_right n.toInt_lt hU
  rw [cmpInt64, hx, Bool.false_or]
  by_cases habove : 2 ^ 63 ≤ x.floor
  · rw [if_pos ((twoPow63_le_iff hx).mpr habove)]
    have habove := (x.le_floor_iff _).mp habove
    exact (Int.compare_eq_lt.mpr (by omega)).symm
  rw [if_neg (mt (twoPow63_le_iff hx).mp habove)]
  by_cases hbelow : x.floor < -2 ^ 63
  · rw [if_pos ((lt_negTwoPow63_iff hx).mpr hbelow)]
    have hbelow := (x.floor_lt_iff _).mp hbelow
    exact (Int.compare_eq_gt.mpr (by omega)).symm
  rw [if_neg (mt (lt_negTwoPow63_iff hx).mp hbelow)]
  have hfloor := floor_mul_le x
  have hnext := lt_floor_add_one_mul x
  rw [compare_toInt, toInt_floorWord (Int.not_lt.mp hbelow) (Int.not_le.mp habove)]
  rcases lt_trichotomy n.toInt x.floor with hlt | heq | hgt
  · have hh := Int.mul_lt_mul_of_pos_right hlt hU
    rw [Int.compare_eq_lt.mpr hlt, Int.compare_eq_lt.mpr (by omega)]
  · rw [heq, Int.compare_eq_eq.mpr rfl]
    by_cases hfraction : x.hasFraction = true
    · have hne : x.units ≠ x.floor * unitsPerOne := by
        intro he
        have hnone := (hasFraction_eq_false_iff x).mpr he
        simp [hfraction] at hnone
      rw [if_pos hfraction, Int.compare_eq_lt.mpr (by omega)]
    · have he := (hasFraction_eq_false_iff x).mp (by simpa using hfraction)
      rw [if_neg hfraction, he, Int.compare_eq_eq.mpr rfl]
  · have hh := Int.mul_le_mul_of_nonneg_right (Int.add_one_le_of_lt hgt) hU.le
    rw [Int.compare_eq_gt.mpr hgt, Int.compare_eq_gt.mpr (by omega)]

end Double

namespace Number

def isNaN : Number → Bool
  | int _ => false
  | double x => x.isNaN

/-- The exact value in units. NaN has none; it takes part in comparisons through `isNaN` only. -/
def exact : Number → Int
  | int n => n.toInt * Double.unitsPerOne
  | double x => if x.isNaN then 0 else x.units

/-- Numbers of every mix of forms compare by exact value, NaN above all. -/
theorem cmp_eq_compareLex : cmp = compareLex (compareOn isNaN) (compareOn exact) := by
  funext m n
  cases m with
  | int m =>
    cases n with
    | int n =>
      have hmul {a b : Int} : a * Double.unitsPerOne < b * Double.unitsPerOne ↔ a < b :=
        Int.mul_lt_mul_right Double.unitsPerOne_pos
      have hinj : m.toInt * (Double.unitsPerOne : Int) = n.toInt * Double.unitsPerOne ↔
          m.toInt = n.toInt := Int.mul_eq_mul_right_iff Double.unitsPerOne_pos.ne'
      simp only [cmp, compareLex, compareOn, isNaN, exact]
      rw [Double.compare_toInt, compare_congr hmul hinj]
      rfl
    | double y =>
      cases hy : y.isNaN with
      | true => simp [cmp, compareLex, compareOn, isNaN, Double.cmpInt64, hy]; rfl
      | false =>
        simp only [cmp, compareLex, compareOn, isNaN, exact, hy,
          Double.cmpInt64_eq_compare_units m hy]
        rfl
  | double x =>
    cases n with
    | int n =>
      cases hx : x.isNaN with
      | true => simp [cmp, compareLex, compareOn, isNaN, Double.cmpInt64, hx]; rfl
      | false =>
        simp only [cmp, compareLex, compareOn, isNaN, exact, hx,
          Double.cmpInt64_eq_compare_units n hx, Int.compare_swap]
        rfl
    | double y =>
      cases hx : x.isNaN <;> cases hy : y.isNaN
      · simp only [cmp, compareLex, compareOn, isNaN, exact, hx, hy,
          Double.cmp_eq_compare_units hx hy]
        rfl
      all_goals simp only [cmp, Double.cmp, compareLex, compareOn, isNaN, exact, hx, hy]; rfl

instance : Std.TransCmp cmp := by
  rw [cmp_eq_compareLex]
  infer_instance

end Number

end DocFind
