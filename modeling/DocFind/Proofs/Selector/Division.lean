import DocFind.Proofs.Selector.SingleEntry
import DocFind.Selector.Matching

/-!
# Divisions

A division is read from a pair of integers in either width, the first not zero. It holds of the
integers with the wanted remainder, which has the sign of the dividend. There is one exception: the
quotient of the least word by minus one is no word, and then there is no remainder either, though
minus one divides every integer.
-/
namespace DocFind

/-- The least word has no remainder by minus one. All other remainders by what is not zero are those
of the division that truncates. -/
theorem remainder?_eq_some_iff {dividend divisor : Int64} (hdivisor : divisor ≠ 0) {r : Int} :
    remainder? dividend divisor = some r ↔
      dividend.toInt.tmod divisor.toInt = r ∧ ¬ (dividend = Int64.minValue ∧ divisor = -1) := by
  have hzero : divisor.toInt ≠ 0 := fun h => hdivisor (Int64.toInt_inj.mp h)
  have hleast : dividend.toInt = -0x8000000000000000 ↔ dividend = Int64.minValue :=
    @Int64.toInt_inj _ Int64.minValue
  have hminus : divisor.toInt = -1 ↔ divisor = -1 := @Int64.toInt_inj _ (-1)
  simp only [remainder?, hleast, hminus, hzero, false_or]
  split_ifs with h
  · exact iff_of_false not_false fun hr => hr.2 h
  · rw [Option.some.injEq]
    exact (and_iff_left h).symm

/-- Whether an operand is a pair of integers, the first not zero. -/
def Value.IsDivision (operand : Value) (divisor remainder : Int64) : Prop :=
  ∃ d r, operand = .array [d, r] ∧ d.int? = some divisor ∧ r.int? = some remainder ∧ divisor ≠ 0

theorem Value.IsDivision.unique {operand : Value} {divisor remainder divisor' remainder' : Int64}
    (h : operand.IsDivision divisor remainder) (h' : operand.IsDivision divisor' remainder') :
    divisor = divisor' ∧ remainder = remainder' := by
  obtain ⟨d, r, rfl, hd, hr, -⟩ := h
  obtain ⟨d', r', hitems, hd', hr', -⟩ := h'
  obtain ⟨rfl, rfl⟩ : d = d' ∧ r = r' := by simpa using hitems
  exact ⟨Option.some.inj (hd.symm.trans hd'), Option.some.inj (hr.symm.trans hr')⟩

theorem readDivision_eq_ok_iff {operand : Value} {test : Test} : readDivision operand = .ok test ↔
    ∃ divisor remainder, operand.IsDivision divisor remainder ∧
      test = .modulo divisor remainder := by
  constructor
  · intro h
    obtain ⟨d, r, divisor, remainder, hoperand, hd, hr, htest, hdivisor⟩ := readDivision_eq_ok h
    exact ⟨divisor, remainder, ⟨d, r, hoperand, hd, hr, hdivisor⟩, htest⟩
  · rintro ⟨divisor, remainder, ⟨d, r, rfl, hd, hr, hdivisor⟩, rfl⟩
    simp only [readDivision, arrayOperand, ok_bind, hd, hr, if_neg hdivisor]

namespace Selector

/-- A division at a field is read just if its operand is one. -/
theorem parse_division {key : String} {path : FieldPath} (hkey : isOperatorKey key = false)
    (hpath : FieldPath.parse key = .ok path) (operand : Value) {s : Selector} :
    parse (.document [(key, .document [("$mod", operand)])]) = .ok s ↔
      ∃ divisor remainder, operand.IsDivision divisor remainder ∧
        s = .field path (.modulo divisor remainder) := by
  have hop : TestKey "$mod" := ⟨rfl, rfl, by decide, by decide⟩
  have hread : parse (.document [(key, .document [("$mod", operand)])]) =
      (readDivision operand).map (.field path) := by
    have hat := readAt_path false 0 hkey (.document [("$mod", operand)])
    rw [readPath_eq_ok.mpr hpath, ok_bind, hop.parseField] at hat
    exact hat
  simp only [hread, map_eq_ok, readDivision_eq_ok_iff]
  constructor
  · rintro ⟨_, ⟨divisor, remainder, hdivision, rfl⟩, rfl⟩
    exact ⟨divisor, remainder, hdivision, rfl⟩
  · rintro ⟨divisor, remainder, hdivision, rfl⟩
    exact ⟨_, ⟨divisor, remainder, hdivision, rfl⟩, rfl⟩

theorem accepts_modulo {path : FieldPath} {divisor remainder : Int64} (hdivisor : divisor ≠ 0)
    {body : Body} : (field path (.modulo divisor remainder)).accepts body = true ↔
      ∃ n, (Body.resolve? body path).bind Value.int? = some n ∧
        n.toInt.tmod divisor.toInt = remainder.toInt ∧
        ¬ (n = Int64.minValue ∧ divisor = -1) := by
  change ((Body.resolve? body path).bind Value.int?).any _ = true ↔ _
  simp only [Option.any_eq_true, beq_iff_eq, remainder?_eq_some_iff hdivisor]

/-- A division at a field is read just if its operand is a pair of integers, the first not zero. It
holds of the integers of either width whose remainder is the wanted one, but never of the least word
by minus one. With the remainder zero a divisor of one holds of every integer, and minus one of all
but the least word. -/
theorem division_accepts_iff {key : String} {path : FieldPath} (hkey : isOperatorKey key = false)
    (hpath : FieldPath.parse key = .ok path) (operand : Value) :
    let written : Value := .document [(key, .document [("$mod", operand)])]
    (Accepted (parse written) ↔ ∃ divisor remainder, operand.IsDivision divisor remainder) ∧
    ∀ s divisor remainder, parse written = .ok s → operand.IsDivision divisor remainder →
      (∀ body, s.accepts body = true ↔
        ∃ n, (Body.resolve? body path).bind Value.int? = some n ∧
          n.toInt.tmod divisor.toInt = remainder.toInt ∧
          ¬ (n = Int64.minValue ∧ divisor = -1)) ∧
      (remainder = 0 → ∀ body n, (Body.resolve? body path).bind Value.int? = some n →
        (divisor = 1 → s.accepts body = true) ∧
        (divisor = -1 → (s.accepts body = true ↔ n ≠ Int64.minValue))) := by
  intro written
  refine ⟨?_, fun s divisor remainder hs hdivision => ?_⟩
  · simp only [Accepted, written, parse_division hkey hpath]
    constructor
    · rintro ⟨s, divisor, remainder, hdivision, -⟩
      exact ⟨divisor, remainder, hdivision⟩
    · rintro ⟨divisor, remainder, hdivision⟩
      exact ⟨_, divisor, remainder, hdivision, rfl⟩
  obtain ⟨_, _, hread, rfl⟩ := (parse_division hkey hpath operand).mp hs
  obtain ⟨rfl, rfl⟩ := hdivision.unique hread
  obtain ⟨_, _, -, -, -, hdivisor⟩ := hdivision
  have haccepts (body : Body) : (field path (.modulo divisor remainder)).accepts body = true ↔ _ :=
    accepts_modulo hdivisor
  refine ⟨haccepts, ?_⟩
  rintro rfl body n hn
  simp only [haccepts, hn, Option.some.injEq, exists_eq_left']
  constructor
  · rintro rfl
    exact ⟨Int.tmod_one _, fun h => absurd h.2 (by decide)⟩
  · rintro rfl
    have hzero : n.toInt.tmod (-1 : Int64).toInt = (0 : Int64).toInt :=
      (Int.tmod_neg _ 1).trans (Int.tmod_one _)
    simp only [hzero, true_and, and_true, ne_eq]

/-- The remainder of the least word has its sign. One divides it, minus one another word. -/
theorem division_accepts_iff_least :
    let written (divisor remainder : Value) : Value :=
      .document [("a.n", .document [("$mod", .array [divisor, remainder])])]
    let holding (v : Value) : Body := [("a", .document [("n", v)])]
    ∃ thirds ones minusOnes, parse (written (.int64 3) (.int32 (-2))) = .ok thirds ∧
      parse (written (.int32 1) (.int32 0)) = .ok ones ∧
      parse (written (.int32 (-1)) (.int64 0)) = .ok minusOnes ∧
      thirds.accepts (holding (.int64 Int64.minValue)) = true ∧
      thirds.accepts (holding (.int32 2)) = false ∧
      ones.accepts (holding (.int64 Int64.minValue)) = true ∧
      minusOnes.accepts (holding (.int32 (-7))) = true := by
  intro written holding
  have hpath : FieldPath.parse "a.n" = .ok ⟨["a", "n"]⟩ := rfl
  have hiff := @division_accepts_iff "a.n" _ rfl hpath
  have hthirds : (Value.array [.int64 3, .int32 (-2)]).IsDivision 3 (-2) :=
    ⟨_, _, rfl, rfl, rfl, by decide⟩
  have hones : (Value.array [.int32 1, .int32 0]).IsDivision 1 0 := ⟨_, _, rfl, rfl, rfl, by decide⟩
  have hminusOnes : (Value.array [.int32 (-1), .int64 0]).IsDivision (-1) 0 :=
    ⟨_, _, rfl, rfl, rfl, by decide⟩
  obtain ⟨thirds, hs⟩ := (hiff _).1.mpr ⟨_, _, hthirds⟩
  obtain ⟨ones, ht⟩ := (hiff _).1.mpr ⟨_, _, hones⟩
  obtain ⟨minusOnes, hu⟩ := (hiff _).1.mpr ⟨_, _, hminusOnes⟩
  have hthird := ((hiff _).2 thirds _ _ hs hthirds).1
  have hone := ((hiff _).2 ones _ _ ht hones).2 rfl
  have hminusOne := ((hiff _).2 minusOnes _ _ hu hminusOnes).2 rfl
  refine ⟨thirds, ones, minusOnes, hs, ht, hu, ?_, ?_, ?_, ?_⟩
  · exact (hthird _).mpr ⟨Int64.minValue, rfl, by decide, by decide⟩
  · refine Bool.eq_false_iff.mpr fun h => ?_
    obtain ⟨n, hn, hremainder, -⟩ := (hthird _).mp h
    obtain rfl : 2 = n := Option.some.inj hn
    exact absurd hremainder (by decide)
  · exact (hone _ Int64.minValue rfl).1 rfl
  · exact ((hminusOne _ (-7) rfl).2 rfl).mpr (by decide)

/-- Minus one divides the least word, but the division does not hold of it. -/
theorem division_least_by_minus_one :
    let s : Selector := .field ⟨["n"]⟩ (.modulo (-1) 0)
    parse (.document [("n", .document [("$mod", .array [.int32 (-1), .int32 0])])]) = .ok s ∧
      Int64.minValue.toInt.tmod (-1) = 0 ∧ s.accepts [("n", .int64 Int64.minValue)] = false := by
  intro s
  exact ⟨rfl, by decide, by decide⟩

end Selector

end DocFind
