import DocFind.Proofs.Value.ReadBack
import DocFind.Proofs.Value.Sameness

/-!
# Values through JSON and back

On the way through JSON an integer is brought to the least width that holds it, and the keys of
documents are sorted. The order of values tells neither apart, so a value comes back as the same
one, part by part. On the way through values JSON comes back as it was, as long as its integers fit
a word of 64 bits.
-/
namespace DocFind

namespace Value

/-- Null, booleans, integers of both widths, finite binary numbers and texts, and arrays and
documents of such values. No key of a document comes twice. -/
inductive Plain : Value → Prop
  | null : Plain .null
  | bool (b : Bool) : Plain (.bool b)
  | int32 (n : Int32) : Plain (.int32 n)
  | int64 (n : Int64) : Plain (.int64 n)
  | double {x : Double} (hx : x.isFinite = true) : Plain (.double x)
  | string (s : String) : Plain (.string s)
  | array {items : List Value} (hitems : ∀ v ∈ items, Plain v) : Plain (.array items)
  | document {entries : List (String × Value)} (hkeys : (Entries.keys entries).Nodup)
      (hentries : ∀ e ∈ entries, Plain e.2) : Plain (.document entries)

/-! ## Integers of both widths -/

theorem sortKeys_of_isLeaf {v : Value} (h : v.isLeaf) : v.sortKeys = v := by
  cases v <;> first | rfl | cases h

/-- Values without parts are the same if they are compared by the same. -/
theorem cmp_of_isLeaf {a b : Value} (ha : a.isLeaf) (hb : b.isLeaf)
    (htype : a.typeName = b.typeName) (hscalar : a.scalar = b.scalar) : a.cmp b = .eq := by
  rw [cmp, sortKeys_of_isLeaf ha, sortKeys_of_isLeaf hb, cmpParts_of_isLeaf b ha, htype, hscalar,
    Ordering.then_eq_eq]
  exact ⟨Nat.compare_eq_eq.mpr rfl, Std.ReflCmp.compare_self⟩

theorem number_of_int? {a : Value} {n : Int64} (h : a.int? = some n) :
    a.isLeaf ∧ a.typeName = .number ∧ a.scalar = .number (.int n) := by
  cases a <;> cases h <;> exact ⟨rfl, rfl, rfl⟩

/-- The width of an integer is not told apart. -/
theorem cmp_of_int? {a b : Value} {n : Int64} (ha : a.int? = some n) (hb : b.int? = some n) :
    a.cmp b = .eq := by
  obtain ⟨hleaf, htype, hscalar⟩ := number_of_int? ha
  obtain ⟨hleaf', htype', hscalar'⟩ := number_of_int? hb
  exact cmp_of_isLeaf hleaf hleaf' (htype.trans htype'.symm) (hscalar.trans hscalar'.symm)

theorem toJson_of_int? {a : Value} {n : Int64} (h : a.int? = some n) :
    a.toJson = .integer n.toInt := by
  cases a with
  | int32 m =>
    obtain rfl := Option.some.inj h
    rw [toJson, Int32.toInt_toInt64]
  | int64 m =>
    obtain rfl := Option.some.inj h
    rfl
  | _ => cases h

/-! ## Values read back -/

/-- A value and the one that its JSON form stands for are not told apart. -/
theorem Plain.ofJson_toJson_cmp {v : Value} (h : v.Plain) : (ofJson v.toJson).cmp v = .eq := by
  induction h with
  | null => rfl
  | bool b => exact Std.ReflCmp.compare_self
  | int32 n =>
    rw [toJson, ofJson, ofInt_toInt_short]
    exact Std.ReflCmp.compare_self
  | int64 n => exact cmp_of_int? (int?_ofInt_toInt n) rfl
  | double hx =>
    rw [toJson, if_pos hx, ofJson]
    exact Std.ReflCmp.compare_self
  | string s => exact Std.ReflCmp.compare_self
  | array _ ih =>
    rw [toJson, ofJson, toJsonItems_eq_map, ofJsonItems_eq_map, List.map_map, array_cmp_array,
      List.forall₂_map_left_iff, List.forall₂_same]
    exact ih
  | @document entries hkeys _ ih =>
    -- The keys come back in another order, so the two are compared by what they hold.
    have hsorted := Entries.ascending_toSorted (Entries.mapValues toJson entries)
    rw [toJson, ofJson, toJsonEntries_eq_mapValues, ofJsonEntries_eq_mapValues]
    refine document_cmp_of_get? (hsorted.mapValues ofJson).nodup hkeys fun k => ?_
    rw [Entries.get?_mapValues, Entries.get?_toSorted (by rwa [Entries.keys_mapValues]),
      Entries.get?_mapValues]
    cases hfound : Entries.get? k entries with
    | none => exact .none
    | some w => exact .some (ih _ (Entries.mem_of_get? hfound))

/-- In values that are the same a path leads to values of one type, or leads nowhere in both. -/
theorem typeName_resolve?_of_cmp_eq {a b : Value} (h : a.cmp b = .eq) (path : FieldPath) :
    (a.resolve? path).map typeName = (b.resolve? path).map typeName := by
  rw [resolve?, resolve?]
  rcases rel_cases (follow?_of_cmp_eq h path.segments) with ⟨ha, hb⟩ | ⟨x, y, ha, hb, hpart⟩
  · rw [ha, hb]
  · rw [ha, hb, Option.map_some, Option.map_some, typeName_eq_of_cmp_eq hpart]

end Value

/-! ## JSON read back -/

/-- The integers that are written in a JSON value, at any depth. -/
inductive Json.HasInteger : Json → Int → Prop
  | self {n : Int} : HasInteger (.integer n) n
  | item {items : List Json} {j : Json} {n : Int} (hj : j ∈ items) (h : HasInteger j n) :
      HasInteger (.array items) n
  | entry {entries : List (String × Json)} {e : String × Json} {n : Int} (he : e ∈ entries)
      (h : HasInteger e.2 n) : HasInteger (.object entries) n

namespace Value

theorem toJson_ofInt {n : Int} (hlo : -0x8000000000000000 ≤ n) (hhi : n < 0x8000000000000000) :
    (ofInt n).toJson = .integer n := by
  rw [ofInt_of_word hlo hhi, toJson_of_int? (int?_ofInt64 _), Int64.toInt_ofInt_of_le hlo hhi]

/-- JSON whose integers fit words of 64 bits is what shows the value that it stands for. -/
theorem toJson_ofJson {j : Json} (h : j.Canonical)
    (hwords : ∀ n, j.HasInteger n → -0x8000000000000000 ≤ n ∧ n < 0x8000000000000000) :
    (ofJson j).toJson = j := by
  induction h with
  | null => rfl
  | bool b => rfl
  | integer _ _ =>
    obtain ⟨hlo, hhi⟩ := hwords _ .self
    exact toJson_ofInt hlo hhi
  | float hx => rw [ofJson, toJson, if_pos hx]
  | string s => rfl
  | array _ ih =>
    rw [ofJson, toJson, ofJsonItems_eq_map, toJsonItems_eq_map, List.map_map]
    refine congrArg Json.array ((List.map_congr_left fun j hj => ?_).trans (List.map_id _))
    exact ih j hj fun n hn => hwords n (.item hj hn)
  | object hkeys _ ih =>
    rw [ofJson, toJson, ofJsonEntries_eq_mapValues, toJsonEntries_eq_mapValues,
      Entries.mapValues_mapValues_eq, hkeys.toSorted_eq]
    exact fun e he => ih e he fun n hn => hwords n (.entry he hn)

/-- A value comes back through JSON as the same one, with a value of the same type at every path,
and JSON whose integers fit words of 64 bits comes back through values as it was. -/
theorem json_conversions_inverse :
    (∀ v : Value, v.Plain →
      (ofJson v.toJson).same v = true ∧
        ∀ path, ((ofJson v.toJson).resolve? path).map typeName =
          (v.resolve? path).map typeName) ∧
    ∀ j : Json, j.Canonical →
      (∀ n, j.HasInteger n → -0x8000000000000000 ≤ n ∧ n < 0x8000000000000000) →
      (ofJson j).toJson = j := by
  refine ⟨fun v hv => ?_, fun j => toJson_ofJson⟩
  have hcmp := hv.ofJson_toJson_cmp
  exact ⟨same_iff.mpr hcmp, typeName_resolve?_of_cmp_eq hcmp⟩

/-- On the way through JSON the width of an integer and the order of keys change. On the way through
values integers of both widths stay integers, and a whole float stays a float. -/
theorem json_conversions_inverse_nested :
    let v : Value := .document [("b", .array [.int64 5, .double ⟨0x3FF8000000000000⟩]),
      ("a", .document [("d", .null), ("c", .int64 5000000000)])]
    let back : Value := .document [("a", .document [("c", .int64 5000000000), ("d", .null)]),
      ("b", .array [.int32 5, .double ⟨0x3FF8000000000000⟩])]
    let j : Json := .object [("a", .array [.integer (-2), .float ⟨0x4000000000000000⟩]),
      ("b", .object [("c", .integer 0x7FFFFFFFFFFFFFFF), ("d", .string "2")])]
    let stored : Value := .document [("a", .array [.int32 (-2), .double ⟨0x4000000000000000⟩]),
      ("b", .document [("c", .int64 0x7FFFFFFFFFFFFFFF), ("d", .string "2")])]
    v.Plain ∧ ofJson v.toJson = back ∧ back.same v = true ∧
      (back.resolve? ⟨["b", "0"]⟩).map typeName = some .number ∧
      j.Canonical ∧ ofJson j = stored ∧ stored.toJson = j := by
  intro v back j stored
  have hv : v.Plain := by
    refine .document (by decide) (List.forall_mem_cons.mpr ⟨?_, List.forall_mem_singleton.mpr ?_⟩)
    · exact .array
        (List.forall_mem_cons.mpr ⟨.int64 5, List.forall_mem_singleton.mpr (.double rfl)⟩)
    · exact .document (by decide)
        (List.forall_mem_cons.mpr ⟨.null, List.forall_mem_singleton.mpr (.int64 5000000000)⟩)
  have hj : j.Canonical := by
    refine .object (by decide) (List.forall_mem_cons.mpr ⟨?_, List.forall_mem_singleton.mpr ?_⟩)
    · exact .array (List.forall_mem_cons.mpr ⟨.integer (by decide) (by decide),
        List.forall_mem_singleton.mpr (.float rfl)⟩)
    · exact .object (by decide) (List.forall_mem_cons.mpr ⟨.integer (by decide) (by decide),
        List.forall_mem_singleton.mpr (.string "2")⟩)
  have hwords : ∀ n, j.HasInteger n → -0x8000000000000000 ≤ n ∧ n < 0x8000000000000000 := by
    intro n hn
    change Json.HasInteger (.object [_, _]) n at hn
    cases hn with
    | entry he hn =>
      rcases List.mem_pair.mp he with rfl | rfl
      · cases hn with
        | item hmem hn =>
          rcases List.mem_pair.mp hmem with rfl | rfl
          · cases hn with
            | self => decide
          · cases hn
      · cases hn with
        | entry he hn =>
          rcases List.mem_pair.mp he with rfl | rfl
          · cases hn with
            | self => decide
          · cases hn
  have hback : ofJson v.toJson = back := rfl
  have hstored : ofJson j = stored := rfl
  obtain ⟨hvalues, htexts⟩ := json_conversions_inverse
  obtain ⟨hsame, htypes⟩ := hvalues v hv
  rw [hback] at hsame htypes
  exact ⟨hv, hback, hsame, htypes ⟨["b", "0"]⟩, hj, hstored, hstored ▸ htexts j hj hwords⟩

end Value

end DocFind
