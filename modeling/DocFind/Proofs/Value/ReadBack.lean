import DocFind.Proofs.Json.Canonical
import DocFind.Value.Json

/-!
# Values read back

What a JSON text writes is stored in one form: an integer in the least width that holds it, binary
numbers finite, keys ascending. A stored value of this form is read back from the JSON value that
shows it.
-/
namespace DocFind.Value

theorem toJsonItems_eq_map (items : List Value) : toJsonItems items = items.map toJson := by
  induction items with
  | nil => rfl
  | cons v items ih => rw [toJsonItems, List.map_cons, ih]

theorem ofJsonItems_eq_map (items : List Json) : ofJsonItems items = items.map ofJson := by
  induction items with
  | nil => rfl
  | cons j items ih => rw [ofJsonItems, List.map_cons, ih]

theorem toJsonEntries_eq_mapValues (entries : List (String × Value)) :
    toJsonEntries entries = Entries.mapValues toJson entries := by
  induction entries with
  | nil => rfl
  | cons e entries ih =>
    rw [toJsonEntries, ih]
    rfl

theorem ofJsonEntries_eq_mapValues (entries : List (String × Json)) :
    ofJsonEntries entries = Entries.mapValues ofJson entries := by
  induction entries with
  | nil => rfl
  | cons e entries ih =>
    rw [ofJsonEntries, ih]
    rfl

/-! ## Integers -/

/-- Whether the words of 32 bits have an integer. -/
def IsShort (n : Int) : Prop := -0x80000000 ≤ n ∧ n < 0x80000000

theorem ofInt64_of_isShort {n : Int64} (h : IsShort n.toInt) : ofInt64 n = int32 n.toInt32 :=
  if_pos h

theorem ofInt64_of_not_isShort {n : Int64} (h : ¬ IsShort n.toInt) : ofInt64 n = int64 n :=
  if_neg h

theorem ofInt_of_word {n : Int} (hlo : -0x8000000000000000 ≤ n) (hhi : n < 0x8000000000000000) :
    ofInt n = ofInt64 (Int64.ofInt n) :=
  if_pos ⟨hlo, hhi⟩

theorem ofInt_of_not_word {n : Int}
    (h : ¬ (-0x8000000000000000 ≤ n ∧ n < 0x8000000000000000)) :
    ofInt n = double (Double.ofInt n) :=
  if_neg h

theorem ofInt_toInt (n : Int64) : ofInt n.toInt = ofInt64 n := by
  rw [ofInt_of_word n.le_toInt n.toInt_lt, Int64.ofInt_toInt]

theorem isShort_toInt (n : Int32) : IsShort n.toInt := ⟨n.le_toInt, n.toInt_lt⟩

theorem ofInt_toInt_short (n : Int32) : ofInt n.toInt = int32 n := by
  have hwide := ofInt_toInt n.toInt64
  rw [Int32.toInt_toInt64] at hwide
  have hshort : IsShort n.toInt64.toInt := by
    rw [Int32.toInt_toInt64]
    exact isShort_toInt n
  rw [hwide, ofInt64_of_isShort hshort, Int32.toInt32_toInt64]

/-- The word of an integer, in whichever width it is stored. -/
theorem int?_ofInt64 (n : Int64) : (ofInt64 n).int? = some n := by
  by_cases h : IsShort n.toInt
  · have hback : n.toInt32.toInt64 = n := by
      rw [← Int64.toInt_inj, Int32.toInt_toInt64, Int64.toInt_toInt32, Int.bmod_def]
      obtain ⟨hlo, hhi⟩ := h
      omega
    rw [ofInt64_of_isShort h, int?, hback]
  · rw [ofInt64_of_not_isShort h, int?]

theorem int?_ofInt_toInt (n : Int64) : (ofInt n.toInt).int? = some n := by
  rw [ofInt_toInt, int?_ofInt64]

/-! ## The form of stored values -/

/-- The form in which values are stored that a JSON text writes. -/
inductive Canonical : Value → Prop
  | null : Canonical .null
  | bool (b : Bool) : Canonical (.bool b)
  | int32 (n : Int32) : Canonical (.int32 n)
  | int64 {n : Int64} (hn : ¬ IsShort n.toInt) : Canonical (.int64 n)
  | double {x : Double} (hx : x.isFinite = true) : Canonical (.double x)
  | string (s : String) : Canonical (.string s)
  | array {items : List Value} (hitems : ∀ v ∈ items, Canonical v) : Canonical (.array items)
  | document {entries : List (String × Value)} (hkeys : Entries.Ascending entries)
      (hentries : ∀ e ∈ entries, Canonical e.2) : Canonical (.document entries)

theorem canonical_ofInt {n : Int} (hlo : -0x8000000000000000 ≤ n)
    (hhi : n < 0x10000000000000000) : (ofInt n).Canonical := by
  by_cases hword : n < 0x8000000000000000
  · rw [ofInt_of_word hlo hword]
    by_cases hshort : IsShort (Int64.ofInt n).toInt
    · rw [ofInt64_of_isShort hshort]
      exact .int32 _
    · rw [ofInt64_of_not_isShort hshort]
      exact .int64 hshort
  · rw [ofInt_of_not_word (fun h => hword h.2)]
    exact .double (Double.isFinite_ofInt (by omega))

theorem canonical_ofJson {j : Json} (h : j.Canonical) : (ofJson j).Canonical := by
  induction h with
  | null => exact .null
  | bool b => exact .bool b
  | integer hlo hhi => exact canonical_ofInt hlo hhi
  | float hx => exact .double hx
  | string s => exact .string s
  | array _ ih =>
    rw [ofJson, ofJsonItems_eq_map]
    refine .array fun v hv => ?_
    obtain ⟨j, hj, rfl⟩ := List.mem_map.mp hv
    exact ih j hj
  | object hkeys _ ih =>
    rw [ofJson, ofJsonEntries_eq_mapValues]
    refine .document (hkeys.mapValues ofJson) fun e he => ?_
    obtain ⟨j, hj, hvalue⟩ := Entries.mem_mapValues he
    rw [hvalue]
    exact ih _ hj

/-- A value in the form of JSON texts is the one that its JSON form stands for. -/
theorem Canonical.ofJson_toJson {v : Value} (h : v.Canonical) : ofJson v.toJson = v := by
  induction h with
  | null => rfl
  | bool b => rfl
  | int32 n => exact ofInt_toInt_short n
  | int64 hn => exact (ofInt_toInt _).trans (ofInt64_of_not_isShort hn)
  | double hx => rw [toJson, if_pos hx, ofJson]
  | string s => rfl
  | array _ ih =>
    rw [toJson, ofJson, toJsonItems_eq_map, ofJsonItems_eq_map, List.map_map]
    exact congrArg Value.array ((List.map_congr_left ih).trans (List.map_id _))
  | document hkeys _ ih =>
    rw [toJson, ofJson, toJsonEntries_eq_mapValues, (hkeys.mapValues toJson).toSorted_eq,
      ofJsonEntries_eq_mapValues, Entries.mapValues_mapValues_eq ih]

/-- A list of such values is read back item by item. -/
theorem ofJsonItems_toJsonItems {items : List Value} (h : ∀ v ∈ items, v.Canonical) :
    ofJsonItems (toJsonItems items) = items := by
  have harray := (Canonical.array h).ofJson_toJson
  rw [toJson, ofJson] at harray
  exact array.inj harray

end DocFind.Value
