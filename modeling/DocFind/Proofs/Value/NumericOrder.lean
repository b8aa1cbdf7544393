import DocFind.Proofs.Number.ExactValue
import DocFind.Proofs.Number.Finite
import DocFind.Value.Order
import Mathlib.Algebra.Order.Floor.Ring
import Mathlib.Data.Rat.Floor
import Mathlib.Order.WithBot

/-!
# The order of numeric values

A binary number is read from the fields of its word: a rational number, an infinity or NaN. Numbers
of all forms compare as these values do. Between words of 64 bits and binary numbers the floor is
formed just where it fits a word, so the conversion loses nothing.
-/
namespace DocFind

/-! ## Numeric values -/

/-- The rational numbers between two infinities, and NaN above them all. -/
abbrev NumericValue := WithTop (WithBot (WithTop ℚ))

namespace NumericValue

def nan : NumericValue := ⊤

def negInfinity : NumericValue := ((⊥ : WithBot (WithTop ℚ)) : NumericValue)

def posInfinity : NumericValue := (((⊤ : WithTop ℚ) : WithBot (WithTop ℚ)) : NumericValue)

def finite (q : ℚ) : NumericValue := (((q : WithTop ℚ) : WithBot (WithTop ℚ)) : NumericValue)

variable {p q : ℚ}

theorem finite_inj : finite p = finite q ↔ p = q := by
  simp only [finite, WithTop.coe_inj, WithBot.coe_inj]

theorem finite_lt_finite : finite p < finite q ↔ p < q := by
  simp only [finite, WithTop.coe_lt_coe, WithBot.coe_lt_coe]

theorem finite_ne_nan : finite q ≠ nan := WithTop.coe_ne_top

theorem finite_ne_negInfinity : finite q ≠ negInfinity := fun h =>
  WithBot.coe_ne_bot (WithTop.coe_injective h)

theorem finite_ne_posInfinity : finite q ≠ posInfinity := fun h =>
  WithTop.coe_ne_top (WithBot.coe_injective (WithTop.coe_injective h))

theorem negInfinity_lt_finite : negInfinity < finite q :=
  WithTop.coe_lt_coe.mpr (WithBot.bot_lt_coe _)

theorem finite_lt_posInfinity : finite q < posInfinity :=
  WithTop.coe_lt_coe.mpr (WithBot.coe_lt_coe.mpr (WithTop.coe_lt_top _))

end NumericValue

namespace Double

/-! ## The value of a word -/

/-- The eleven bits below the sign. -/
def exponentField (x : Double) : Nat := x.word.toNat / 2 ^ 52 % 2 ^ 11

/-- The lowest fifty-two bits. -/
def fractionField (x : Double) : Nat := x.word.toNat % 2 ^ 52

/-- The exact value of a finite number. An exponent field of zero has the exponent of one and no
leading one. -/
def dyadic (x : Double) : ℚ :=
  (if x.isNegative then -1 else 1) *
    (if x.exponentField = 0 then x.fractionField * (2 : ℚ) ^ (-1074 : ℤ)
    else (2 ^ 52 + x.fractionField) * (2 : ℚ) ^ ((x.exponentField : ℤ) - 1075))

def numeric (x : Double) : NumericValue :=
  if x.exponentField = 2047 then
    if x.fractionField ≠ 0 then .nan else if x.isNegative then .negInfinity else .posInfinity
  else .finite x.dyadic

theorem numeric_eq_finite_iff {x : Double} {q : ℚ} :
    x.numeric = .finite q ↔ x.exponentField ≠ 2047 ∧ x.dyadic = q := by
  rw [numeric]
  split_ifs with hlast hfraction hnegative
  · exact iff_of_false NumericValue.finite_ne_nan.symm fun h => h.1 hlast
  · exact iff_of_false NumericValue.finite_ne_negInfinity.symm fun h => h.1 hlast
  · exact iff_of_false NumericValue.finite_ne_posInfinity.symm fun h => h.1 hlast
  · rw [NumericValue.finite_inj]
    exact (and_iff_right hlast).symm

theorem magnitude_eq_fields (x : Double) :
    x.magnitude = x.exponentField * 2 ^ 52 + x.fractionField := by
  rw [magnitude, exponentField, fractionField]
  omega

theorem fractionField_lt (x : Double) : x.fractionField < 2 ^ 52 :=
  Nat.mod_lt _ (Nat.two_pow_pos 52)

theorem exponentField_lt (x : Double) : x.exponentField < 2048 :=
  Nat.mod_lt _ (Nat.two_pow_pos 11)

theorem isNaN_iff_fields (x : Double) :
    x.isNaN = true ↔ x.exponentField = 2047 ∧ x.fractionField ≠ 0 := by
  have hfraction := x.fractionField_lt
  have hexponent := x.exponentField_lt
  rw [isNaN, decide_eq_true_eq, magnitude_eq_fields, infiniteMagnitude_eq]
  omega

theorem unitsPerOne_eq : unitsPerOne = 2 ^ 1074 := by decide +kernel

theorem unitsPerOne_cast : (unitsPerOne : ℚ) = 2 ^ 1074 := by
  rw [unitsPerOne_eq, Nat.cast_pow, Nat.cast_ofNat]

theorem unitsPerOne_cast_pos : (0 : ℚ) < unitsPerOne :=
  Nat.cast_pos.mpr (Int.natCast_pos.mp unitsPerOne_pos)

/-- The fields give the magnitude as a multiple of the least unit. -/
theorem magnitudeUnits_div (x : Double) : (magnitudeUnits x.magnitude : ℚ) / unitsPerOne =
    if x.exponentField = 0 then x.fractionField * (2 : ℚ) ^ (-1074 : ℤ)
    else (2 ^ 52 + x.fractionField) * (2 : ℚ) ^ ((x.exponentField : ℤ) - 1075) := by
  have hfields := x.magnitude_eq_fields
  have hfraction := x.fractionField_lt
  rw [unitsPerOne_cast, div_eq_mul_inv]
  split_ifs with hzero
  · rw [magnitudeUnits_of_lt (by omega), hfields, hzero, Nat.zero_mul, Nat.zero_add, zpow_neg]
    rfl
  · have hmod : x.magnitude % 2 ^ 52 = x.fractionField := by omega
    have hdiv : x.magnitude / 2 ^ 52 = x.exponentField := by omega
    have hscale : (x.exponentField : ℤ) - 1075 = ((x.exponentField - 1 : ℕ) : ℤ) - (1074 : ℕ) := by
      omega
    rw [magnitudeUnits_of_le (by omega), hmod, hdiv, hscale, zpow_sub₀ two_ne_zero, zpow_natCast,
      zpow_natCast, div_eq_mul_inv, ← mul_assoc]
    push_cast
    rfl

/-- The value of a finite number is the one its units stand for. -/
theorem dyadic_eq_units (x : Double) : x.dyadic = x.units / unitsPerOne := by
  rw [dyadic, ← magnitudeUnits_div, units_eq]
  split_ifs
  · rw [neg_one_mul, Int.cast_neg, Int.cast_natCast, neg_div]
  · rw [one_mul, Int.cast_natCast]

/-! ## Units and values -/

/-- The units that an infinity counts as. -/
def infiniteUnits : Int := magnitudeUnits infiniteMagnitude

/-- The value of a number of units; past the finite numbers an infinity. -/
def unitsValue (units : Int) : WithBot (WithTop ℚ) :=
  if units ≤ -infiniteUnits then ⊥
  else if infiniteUnits ≤ units then ((⊤ : WithTop ℚ) : WithBot (WithTop ℚ))
  else (((units / unitsPerOne : ℚ) : WithTop ℚ) : WithBot (WithTop ℚ))

/-- Between the infinities more units are a larger value. -/
theorem unitsValue_lt {u v : Int} (hlo : -infiniteUnits ≤ u) (hhi : v ≤ infiniteUnits)
    (hlt : u < v) : unitsValue u < unitsValue v := by
  have hdiv : (u : ℚ) / unitsPerOne < v / unitsPerOne :=
    (div_lt_div_iff_of_pos_right unitsPerOne_cast_pos).mpr (Int.cast_lt.mpr hlt)
  -- The smaller one is not at the upper end and the larger one is not at the lower end.
  rw [unitsValue, unitsValue, if_neg (by omega : ¬ v ≤ -infiniteUnits),
    if_neg (by omega : ¬ infiniteUnits ≤ u)]
  split_ifs
  · exact WithBot.bot_lt_coe _
  · exact WithBot.bot_lt_coe _
  · exact WithBot.coe_lt_coe.mpr (WithTop.coe_lt_top _)
  · exact WithBot.coe_lt_coe.mpr (WithTop.coe_lt_coe.mpr hdiv)

/-- Every word of 64 bits stands for fewer units than an infinity. -/
theorem twoPow63_lt_infiniteUnits : 2 ^ 63 * (unitsPerOne : Int) < infiniteUnits := by
  have hlt : twoPow63.magnitude < infiniteMagnitude := by decide
  rw [← units_twoPow63, units_eq, if_neg (by decide)]
  exact Int.ofNat_lt.mpr (magnitudeUnits_strictMono hlt)

theorem infiniteUnits_pos : 0 < infiniteUnits :=
  (Int.mul_pos (by decide) unitsPerOne_pos).trans twoPow63_lt_infiniteUnits

theorem unitsValue_neg_infiniteUnits : unitsValue (-infiniteUnits) = ⊥ := if_pos le_rfl

theorem unitsValue_infiniteUnits : unitsValue infiniteUnits = ((⊤ : WithTop ℚ) : WithBot _) := by
  have hpos := infiniteUnits_pos
  rw [unitsValue, if_neg (by omega), if_pos le_rfl]

theorem unitsValue_of_lt {u : Int} (hlo : -infiniteUnits < u) (hhi : u < infiniteUnits) :
    unitsValue u = (((u / unitsPerOne : ℚ) : WithTop ℚ) : WithBot (WithTop ℚ)) := by
  rw [unitsValue, if_neg (by omega), if_neg (by omega)]

/-- A number that is no NaN has the value of its units. -/
theorem numeric_eq_unitsValue {x : Double} (hx : x.isNaN = false) :
    x.numeric = (unitsValue x.units : NumericValue) := by
  have hfields := x.magnitude_eq_fields
  have hfraction := x.fractionField_lt
  have hexponent := x.exponentField_lt
  have hinfinite := infiniteMagnitude_eq
  have hnan : ¬ (x.exponentField = 2047 ∧ x.fractionField ≠ 0) := by
    rw [← isNaN_iff_fields, hx]
    exact Bool.false_ne_true
  rw [numeric]
  by_cases hlast : x.exponentField = 2047
  · have hmagnitude : x.magnitude = infiniteMagnitude := by omega
    rw [if_pos hlast, if_neg (by omega), units_eq, hmagnitude, ← infiniteUnits]
    split_ifs
    · rw [unitsValue_neg_infiniteUnits, NumericValue.negInfinity]
    · rw [unitsValue_infiniteUnits, NumericValue.posInfinity]
  · have hlt : magnitudeUnits x.magnitude < magnitudeUnits infiniteMagnitude :=
      magnitudeUnits_strictMono (by omega)
    have hbounds : -infiniteUnits < x.units ∧ x.units < infiniteUnits := by
      rw [units_eq, infiniteUnits]
      split_ifs <;> omega
    rw [if_neg hlast, unitsValue_of_lt hbounds.1 hbounds.2, dyadic_eq_units, NumericValue.finite]

theorem compare_coe_unitsValue {u v : Int} (hu : -infiniteUnits ≤ u ∧ u ≤ infiniteUnits)
    (hv : -infiniteUnits ≤ v ∧ v ≤ infiniteUnits) :
    compare (unitsValue u : NumericValue) (unitsValue v) = compare u v := by
  rcases lt_trichotomy u v with h | rfl | h
  · rw [Int.compare_eq_lt.mpr h, compare_lt_iff_lt]
    exact WithTop.coe_lt_coe.mpr (unitsValue_lt hu.1 hv.2 h)
  · rw [Int.compare_eq_eq.mpr rfl, compare_eq_iff_eq]
  · rw [Int.compare_eq_gt.mpr h, compare_gt_iff_gt]
    exact WithTop.coe_lt_coe.mpr (unitsValue_lt hv.1 hu.2 h)

/-- The units of a number that is no NaN lie between those of the infinities. -/
theorem units_bounds {x : Double} (hx : x.isNaN = false) :
    -infiniteUnits ≤ x.units ∧ x.units ≤ infiniteUnits := by
  have hle : x.magnitude ≤ infiniteMagnitude := Nat.not_lt.mp (of_decide_eq_false hx)
  have hunits := magnitudeUnits_strictMono.monotone hle
  rw [units_eq, infiniteUnits]
  split_ifs <;> omega

theorem numeric_of_isNaN {x : Double} (hx : x.isNaN = true) : x.numeric = .nan := by
  obtain ⟨hexponent, hfraction⟩ := x.isNaN_iff_fields.mp hx
  rw [numeric, if_pos hexponent, if_pos hfraction]

/-! ## Where the floor is formed -/

/-- The comparison with a conversion to a word that need not answer. There is no outcome just when
the conversion is asked and gives no word. -/
def cmpInt64Via (convert : Double → Option Int64) (n : Int64) (x : Double) : Option Ordering :=
  if x.isNaN || (twoPow63.cmp x).isLE then some .lt
  else if x.cmp negTwoPow63 = .lt then some .gt
  else (convert x).map fun floor => match compare n floor with
    | .eq => if x.hasFraction then .lt else .eq
    | order => order

theorem cmpInt64Via_floorWord (n : Int64) (x : Double) :
    cmpInt64Via (fun x => some x.floorWord) n x = some (cmpInt64 n x) := by
  rw [cmpInt64Via, cmpInt64]
  split_ifs <;> rfl

/-- A finite number whose floor is a word of 64 bits. -/
def FloorFits (x : Double) : Prop :=
  ∃ q, x.numeric = .finite q ∧ -2 ^ 63 ≤ ⌊q⌋ ∧ ⌊q⌋ < 2 ^ 63

theorem floor_units_div (x : Double) : ⌊(x.units / unitsPerOne : ℚ)⌋ = x.floor := by
  rw [Rat.floor_intCast_div_natCast, floor_eq_ediv]

theorem floor_of_numeric_eq {x : Double} {q : ℚ} (h : x.numeric = .finite q) : ⌊q⌋ = x.floor := by
  obtain ⟨-, rfl⟩ := numeric_eq_finite_iff.mp h
  rw [dyadic_eq_units, floor_units_div]

theorem floorFits_iff (x : Double) :
    x.FloorFits ↔ x.isNaN = false ∧ -2 ^ 63 ≤ x.floor ∧ x.floor < 2 ^ 63 := by
  constructor
  · rintro ⟨q, hq, hlo, hhi⟩
    rw [floor_of_numeric_eq hq] at hlo hhi
    obtain ⟨hexponent, -⟩ := numeric_eq_finite_iff.mp hq
    exact ⟨Bool.eq_false_iff.mpr fun hx => hexponent (x.isNaN_iff_fields.mp hx).1, hlo, hhi⟩
  · rintro ⟨hx, hlo, hhi⟩
    -- An infinity has a floor past the words, so the bounds leave the finite numbers only.
    have hlast := twoPow63_lt_infiniteUnits
    have hunitslo := (x.le_floor_iff _).mp hlo
    have hunitshi := (x.floor_lt_iff _).mp hhi
    rw [FloorFits, numeric_eq_unitsValue hx, unitsValue_of_lt (by omega) (by omega)]
    refine ⟨_, rfl, ?_⟩
    rw [floor_units_div]
    exact ⟨hlo, hhi⟩

/-- The conversion is asked just for the numbers whose floor fits. -/
theorem cmpInt64Via_none_iff (n : Int64) (x : Double) :
    cmpInt64Via (fun _ => none) n x = none ↔ x.FloorFits := by
  rw [floorFits_iff, cmpInt64Via]
  cases hx : x.isNaN with
  | true => simp
  | false =>
    rw [Bool.false_or]
    by_cases habove : 2 ^ 63 ≤ x.floor
    · rw [if_pos ((twoPow63_le_iff hx).mpr habove)]
      exact iff_of_false (Option.some_ne_none _) (fun h => absurd habove (Int.not_le.mpr h.2.2))
    rw [if_neg (mt (twoPow63_le_iff hx).mp habove)]
    by_cases hbelow : x.floor < -2 ^ 63
    · rw [if_pos ((lt_negTwoPow63_iff hx).mpr hbelow)]
      exact iff_of_false (Option.some_ne_none _) (fun h => absurd hbelow (Int.not_lt.mpr h.2.1))
    rw [if_neg (mt (lt_negTwoPow63_iff hx).mp hbelow)]
    exact iff_of_true rfl ⟨rfl, Int.not_lt.mp hbelow, Int.not_le.mp habove⟩

/-- Where the floor fits, the conversion gives it. -/
theorem FloorFits.toInt_floorWord {x : Double} {q : ℚ} (h : x.FloorFits)
    (hq : x.numeric = .finite q) : x.floorWord.toInt = ⌊q⌋ := by
  obtain ⟨-, hlo, hhi⟩ := x.floorFits_iff.mp h
  rw [floor_of_numeric_eq hq, Double.toInt_floorWord hlo hhi]

end Double

namespace Number

open Double

/-- The exact value of a number of either form. -/
def numeric : Number → NumericValue
  | int n => .finite n.toInt
  | double x => x.numeric

theorem numeric_of_isNaN {m : Number} (h : m.isNaN = true) : m.numeric = .nan := by
  cases m with
  | int n => cases h
  | double x => exact Double.numeric_of_isNaN h

theorem exact_of_isNaN {m : Number} (h : m.isNaN = true) : m.exact = 0 := by
  cases m with
  | int n => cases h
  | double x => exact if_pos h

theorem int_exact_bounds (n : Int64) :
    -infiniteUnits < (int n).exact ∧ (int n).exact < infiniteUnits := by
  have hlast := twoPow63_lt_infiniteUnits
  have hlo : -2 ^ 63 * (unitsPerOne : Int) ≤ n.toInt * unitsPerOne :=
    Int.mul_le_mul_of_nonneg_right n.le_toInt unitsPerOne_pos.le
  have hhi : n.toInt * unitsPerOne < 2 ^ 63 * (unitsPerOne : Int) :=
    Int.mul_lt_mul_of_pos_right n.toInt_lt unitsPerOne_pos
  rw [exact]
  omega

theorem exact_bounds (m : Number) (h : m.isNaN = false) :
    -infiniteUnits ≤ m.exact ∧ m.exact ≤ infiniteUnits := by
  cases m with
  | int n => exact (int_exact_bounds n).imp Int.le_of_lt Int.le_of_lt
  | double x =>
    have hx : x.isNaN = false := h
    rw [exact, hx]
    exact Double.units_bounds hx

theorem numeric_eq_unitsValue (m : Number) (h : m.isNaN = false) :
    m.numeric = (unitsValue m.exact : NumericValue) := by
  cases m with
  | int n =>
    obtain ⟨hlo, hhi⟩ := int_exact_bounds n
    rw [unitsValue_of_lt hlo hhi, exact, numeric, NumericValue.finite, Int.cast_mul,
      Int.cast_natCast, mul_div_cancel_right₀ _ unitsPerOne_cast_pos.ne']
  | double x =>
    have hx : x.isNaN = false := h
    rw [exact, hx]
    exact Double.numeric_eq_unitsValue hx

theorem numeric_lt_nan {m : Number} (h : m.isNaN = false) : m.numeric < .nan := by
  rw [numeric_eq_unitsValue m h]
  exact WithTop.coe_lt_top _

theorem cmp_eq_compare_numeric (m n : Number) : m.cmp n = compare m.numeric n.numeric := by
  rw [cmp_eq_compareLex]
  simp only [compareLex, compareOn]
  cases hm : m.isNaN with
  | true =>
    rw [numeric_of_isNaN hm]
    cases hn : n.isNaN with
    | true =>
      rw [numeric_of_isNaN hn, compare_eq_iff_eq.mpr rfl, exact_of_isNaN hm, exact_of_isNaN hn]
      rfl
    | false =>
      rw [compare_gt_iff_gt.mpr (numeric_lt_nan hn)]
      rfl
  | false =>
    cases hn : n.isNaN with
    | true =>
      rw [numeric_of_isNaN hn, compare_lt_iff_lt.mpr (numeric_lt_nan hm)]
      rfl
    | false =>
      rw [numeric_eq_unitsValue m hm, numeric_eq_unitsValue n hn,
        compare_coe_unitsValue (exact_bounds m hm) (exact_bounds n hn)]
      rfl

end Number

namespace Value

/-- The exact value of a number in a form of 32 or 64 bits. -/
def numeric? : Value → Option NumericValue
  | int32 n => some (.finite n.toInt)
  | int64 n => some (.finite n.toInt)
  | double x => some x.numeric
  | _ => none

theorem exists_number {a : Value} {x : NumericValue} (h : a.numeric? = some x) :
    ∃ m : Number, a.scalar = .number m ∧ a.typeName = .number ∧ m.numeric = x := by
  cases a with
  | int32 n =>
    obtain rfl := Option.some.inj h
    refine ⟨.int n.toInt64, rfl, rfl, ?_⟩
    rw [Number.numeric, Int32.toInt_toInt64]
  | int64 n => exact ⟨.int n, rfl, rfl, Option.some.inj h⟩
  | double x => exact ⟨.double x, rfl, rfl, Option.some.inj h⟩
  | _ => cases h

theorem cmp_of_number {a b : Value} (ha : a.typeName = .number) (hb : b.typeName = .number) :
    a.cmp b = a.scalar.cmp b.scalar := by
  cases a with
  | int32 | int64 | double | decimal =>
    cases b with
    | int32 | int64 | double | decimal => rfl
    | _ => cases hb
  | _ => cases ha

/-- Numbers of the three forms are ordered by exact value. -/
theorem cmp_eq_compare_numeric {a b : Value} {x y : NumericValue} (ha : a.numeric? = some x)
    (hb : b.numeric? = some y) : a.cmp b = compare x y := by
  obtain ⟨m, hm, hatype, rfl⟩ := exists_number ha
  obtain ⟨n, hn, hbtype, rfl⟩ := exists_number hb
  rw [cmp_of_number hatype hbtype, hm, hn]
  exact Number.cmp_eq_compare_numeric m n

theorem numeric?_of_int? {a : Value} {n : Int64} (h : a.int? = some n) :
    a.numeric? = some (.finite n.toInt) := by
  cases a with
  | int32 m =>
    obtain rfl := Option.some.inj h
    rw [numeric?, Int32.toInt_toInt64]
  | int64 m =>
    obtain rfl := Option.some.inj h
    rfl
  | _ => cases h

/-- Numbers in a form of 32 or 64 bits are ordered by their exact values. An infinity is past every
integer on its side, the zeros are equal, the NaNs are equal and above the rest, and an integer
equals a binary number only if that has its value. Against a word of 64 bits the floor is converted
just for the numbers whose floor fits one, and there without loss. -/
theorem numbers_by_exact_value :
    (∀ a b x y, numeric? a = some x → numeric? b = some y → a.cmp b = compare x y) ∧
      (∀ a n, int? a = some n →
        (double (.infinite true)).cmp a = .lt ∧ a.cmp (double (.infinite false)) = .lt) ∧
      (double (.zero true)).cmp (double (.zero false)) = .eq ∧
      (∀ x, x.isNaN = true → ∀ a v, numeric? a = some v →
        a.cmp (double x) = if v = .nan then .eq else .lt) ∧
      (∀ a n x, int? a = some n →
        (a.cmp (double x) = .eq ↔ x.numeric = .finite n.toInt)) ∧
      ∀ n x, Double.cmpInt64Via (fun x => some x.floorWord) n x = some (Double.cmpInt64 n x) ∧
        (Double.cmpInt64Via (fun _ => none) n x = none ↔ x.FloorFits) ∧
        ∀ q, x.FloorFits → x.numeric = .finite q → x.floorWord.toInt = ⌊q⌋ := by
  refine ⟨fun a b x y => cmp_eq_compare_numeric, fun a n ha => ⟨?_, ?_⟩, rfl,
    fun x hx a v ha => ?_, fun a n x ha => ?_, fun n x =>
      ⟨Double.cmpInt64Via_floorWord n x, Double.cmpInt64Via_none_iff n x, fun q h =>
        h.toInt_floorWord⟩⟩
  · have hinfinite : (double (.infinite true)).numeric? = some .negInfinity := rfl
    rw [cmp_eq_compare_numeric hinfinite (numeric?_of_int? ha), compare_lt_iff_lt]
    exact NumericValue.negInfinity_lt_finite
  · have hinfinite : (double (.infinite false)).numeric? = some .posInfinity := rfl
    rw [cmp_eq_compare_numeric (numeric?_of_int? ha) hinfinite, compare_lt_iff_lt]
    exact NumericValue.finite_lt_posInfinity
  · have hnan : (double x).numeric? = some .nan := congrArg some (Double.numeric_of_isNaN hx)
    rw [cmp_eq_compare_numeric ha hnan]
    split_ifs with hv
    · exact compare_eq_iff_eq.mpr hv
    · exact compare_lt_iff_lt.mpr (lt_top_iff_ne_top.mpr hv)
  · rw [cmp_eq_compare_numeric (numeric?_of_int? ha) (rfl : (double x).numeric? = some x.numeric),
      compare_eq_iff_eq, eq_comm]

/-- The first integer that no binary number has is above the number that it rounds to. -/
theorem numbers_by_exact_value_past_two_pow_53 :
    let n : Int64 := 9007199254740993
    let x : Double := ⟨0x4340000000000000⟩
    x.numeric = .finite 9007199254740992 ∧ (int64 n).cmp (double x) = .gt ∧
      (double x).cmp (double (.infinite false)) = .lt ∧ x.floorWord.toInt = 9007199254740992 := by
  intro n x
  obtain ⟨horder, -, -, -, -, hvia⟩ := numbers_by_exact_value
  have hexponent : x.exponentField = 1076 := by decide
  have hfraction : x.fractionField = 0 := by decide
  have hx : x.numeric = .finite 9007199254740992 := by
    refine Double.numeric_eq_finite_iff.mpr ⟨by decide, ?_⟩
    rw [Double.dyadic, hexponent, hfraction, if_neg (by decide), if_neg (by decide)]
    norm_num
  have hnumeric : (double x).numeric? = some (.finite 9007199254740992) := congrArg some hx
  refine ⟨hx, ?_, ?_, ?_⟩
  · rw [horder (int64 n) (double x) _ _ rfl hnumeric, compare_gt_iff_gt]
    exact NumericValue.finite_lt_finite.mpr (by decide +kernel)
  · rw [horder (double x) (double (.infinite false)) _ .posInfinity hnumeric rfl, compare_lt_iff_lt]
    exact NumericValue.finite_lt_posInfinity
  · have hfits : x.FloorFits := ⟨_, hx, by norm_num, by norm_num⟩
    rw [(hvia n x).2.2 _ hfits hx]
    norm_num

end Value

end DocFind
