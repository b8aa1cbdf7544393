import DocFind.Proofs.Refusal
import DocFind.Request
import Mathlib.Tactic.SplitIfs

/-!
# Values of options

What the value of an option may be, said without the readers. Each reader accepts exactly these
values. The entries of a sort are read one after the other, and the first one sets the direction for
all of them.
-/
namespace DocFind

/-! ## Values that options take -/

namespace Value

/-- The value is an integer, of either width, and the whole number is what it counts. -/
inductive Counts : Value → Nat → Prop
  | int32 {w : Int32} {n : Nat} (h : w.toInt = n) : Counts (.int32 w) n
  | int64 {w : Int64} {n : Nat} (h : w.toInt = n) : Counts (.int64 w) n

/-- A text is the path of a field. -/
inductive NamesField : Value → FieldPath → Prop
  | text {raw : String} {path : FieldPath} (h : FieldPath.parse raw = .ok path) :
      NamesField (.string raw) path

/-- An entry of a sort is a text, which ascends, or the one entry of a document, which holds its
direction. -/
inductive SortsBy : Value → FieldPath → Direction → Prop
  | text {raw : String} {path : FieldPath} (h : FieldPath.parse raw = .ok path) :
      SortsBy (.string raw) path .asc
  | entry {raw : String} {path : FieldPath} {direction : Direction}
      (h : FieldPath.parse raw = .ok path) :
      SortsBy (.document [(raw, .string direction.text)]) path direction

/-- The entries of a sort share one direction. No entries ask for no order. -/
inductive Sorts : Value → Option SortOrder → Prop
  | unsorted : Sorts (.array []) none
  | sorted {items : List Value} {paths : List FieldPath} {direction : Direction}
      (hitems : items ≠ [])
      (h : List.Forall₂ (fun item path => SortsBy item path direction) items paths) :
      Sorts (.array items) (some ⟨paths, direction⟩)

/-- The fields to keep. No fields ask for all of them. -/
inductive Keeps : Value → Option (List FieldPath) → Prop
  | all : Keeps (.array []) none
  | listed {items : List Value} {paths : List FieldPath} (hitems : items ≠ [])
      (h : List.Forall₂ NamesField items paths) : Keeps (.array items) (some paths)

/-- The name of an index, by itself or last of one or two texts. -/
inductive NamesIndex : Value → String → Prop
  | text {name : String} (h : name ≠ "") : NamesIndex (.string name) name
  | single {name : String} (h : name ≠ "") : NamesIndex (.array [.string name]) name
  | pair {first name : String} (h : name ≠ "") :
      NamesIndex (.array [.string first, .string name]) name

end Value

namespace FindOptions

/-! ## Readers of single values -/

theorem counts_iff {v : Value} {n : Nat} :
    v.Counts n ↔ ∃ w, v.int? = some w ∧ w.toInt = n := by
  constructor
  · rintro (⟨h⟩ | ⟨h⟩)
    · exact ⟨_, rfl, (Int32.toInt_toInt64 _).trans h⟩
    · exact ⟨_, rfl, h⟩
  · rintro ⟨w, hw, h⟩
    cases v with
    | int32 m =>
      obtain rfl := Option.some.inj hw
      exact .int32 ((Int32.toInt_toInt64 m).symm.trans h)
    | int64 m =>
      obtain rfl := Option.some.inj hw
      exact .int64 h
    | _ => cases hw

theorem natOfInt64?_eq_some {w : Int64} {n : Nat} : natOfInt64? w = some n ↔ w.toInt = n := by
  rw [natOfInt64?]
  split_ifs with h
  · rw [Option.some.injEq]
    omega
  · exact iff_of_false nofun (by omega)

theorem readNat_eq_ok {name : OptionName} {v : Value} {n : Nat} :
    readNat name v = .ok n ↔ v.Counts n := by
  rw [counts_iff, readNat]
  cases v.int? with
  | none => exact iff_of_false (error_ne_ok _ _) (by simp)
  | some w =>
    simp only [Option.some.injEq, exists_eq_left', ← natOfInt64?_eq_some]
    cases natOfInt64? w with
    | none => exact iff_of_false (error_ne_ok _ _) nofun
    | some k => simp

theorem readQuorum_eq_ok {v : Value} {n : Nat} :
    readQuorum v = .ok n ↔ v.Counts n ∧ 0 < n ∧ n < 0x100000000 := by
  simp only [readQuorum, bind_eq_ok, readNat_eq_ok]
  constructor
  · rintro ⟨m, hm, h⟩
    split_ifs at h with hrange
    · obtain rfl := Except.ok.inj h
      exact ⟨hm, hrange⟩
    · cases h
  · rintro ⟨hn, hrange⟩
    exact ⟨n, hn, if_pos hrange⟩

theorem readBool_eq_ok {name : OptionName} {v : Value} {b : Bool} :
    readBool name v = .ok b ↔ v = .bool b := by
  fun_cases readBool name v with
  | case1 => simp
  | case2 v hv => exact iff_of_false (error_ne_ok _ _) (hv b)

theorem readOptionPath_eq_ok {name : OptionName} {raw : String} {path : FieldPath} :
    readOptionPath name raw = .ok path ↔ FieldPath.parse raw = .ok path := mapError_eq_ok

theorem readUseIndex_eq_ok {v : Value} {name : String} :
    readUseIndex v = .ok name ↔ v.NamesIndex name := by
  have hindex : readUseIndex v = .ok name ↔ indexName? v = some name ∧ name ≠ "" := by
    rw [readUseIndex]
    cases indexName? v with
    | none => exact iff_of_false (error_ne_ok _ _) nofun
    | some found =>
      simp only [Option.some.injEq]
      split_ifs with h
      · exact iff_of_false (error_ne_ok _ _) (by rintro ⟨rfl, hne⟩; exact hne h)
      · rw [Except.ok.injEq]
        exact ⟨fun hfound => ⟨hfound, hfound ▸ h⟩, And.left⟩
  rw [hindex]
  constructor
  · rintro ⟨h, hne⟩
    unfold indexName? at h
    split at h
    · exact Option.some.inj h ▸ .text (Option.some.inj h ▸ hne)
    · exact Option.some.inj h ▸ .single (Option.some.inj h ▸ hne)
    · exact Option.some.inj h ▸ .pair (Option.some.inj h ▸ hne)
    · cases h
  · rintro (h | h | h) <;> exact ⟨rfl, h⟩

/-! ## Readers of lists -/

theorem readDirection_eq_ok {v : Value} {direction : Direction} :
    readDirection v = .ok direction ↔ v = .string direction.text := by
  constructor
  · intro h
    unfold readDirection at h
    split at h
    · rename_i s
      split at h
      · rename_i found hfound
        obtain rfl := Except.ok.inj h
        unfold Direction.ofText? at hfound
        split at hfound <;> cases hfound <;> rfl
      · cases h
    · cases h
  · rintro rfl
    cases direction <;> rfl

theorem readSortEntry_eq_ok {v : Value} {raw : String} {direction : Direction} :
    readSortEntry v = .ok (raw, direction) ↔
      (v = .string raw ∧ direction = .asc) ∨ v = .document [(raw, .string direction.text)] := by
  fun_cases readSortEntry v with
  | case1 s => simp [eq_comm]
  | case2 key d => simp [readDirection_eq_ok, and_comm]
  | case3 entries hentries =>
    refine iff_of_false (error_ne_ok _ _) ?_
    rintro (⟨h, -⟩ | h)
    · cases h
    · cases h
      exact hentries _ _ rfl
  | case4 v hstring _ hdocument =>
    refine iff_of_false (error_ne_ok _ _) ?_
    rintro (⟨h, -⟩ | h)
    · exact hstring _ h
    · exact hdocument _ h

theorem sortsBy_iff {v : Value} {path : FieldPath} {direction : Direction} :
    v.SortsBy path direction ↔
      ∃ raw, readSortEntry v = .ok (raw, direction) ∧ FieldPath.parse raw = .ok path := by
  simp only [readSortEntry_eq_ok]
  constructor
  · rintro (h | h)
    · exact ⟨_, .inl ⟨rfl, rfl⟩, h⟩
    · exact ⟨_, .inr rfl, h⟩
  · rintro ⟨raw, ⟨rfl, rfl⟩ | rfl, h⟩
    · exact .text h
    · exact .entry h

/-- One step of the reader: the entry joins those read before if it shares their direction. -/
theorem readSortEntries_cons {before : Option Direction} {v : Value} {rest : List Value}
    {result : List FieldPath × Option Direction} :
    readSortEntries before (v :: rest) = .ok result ↔
      ∃ path direction others, v.SortsBy path direction ∧ (∀ d ∈ before, d = direction) ∧
        readSortEntries (some direction) rest = .ok others ∧
        result = (path :: others.1, others.2) := by
  have hbefore (direction : Direction) :
      before.any (· ≠ direction) = false ↔ ∀ d ∈ before, d = direction := by
    cases before <;> simp
  rw [readSortEntries]
  simp only [bind_eq_ok, readOptionPath_eq_ok, sortsBy_iff]
  constructor
  · rintro ⟨⟨raw, direction⟩, hentry, path, hpath, h⟩
    split_ifs at h with hmixed
    · cases h
    · simp only [bind_eq_ok] at h
      obtain ⟨others, hothers, hresult⟩ := h
      have hshared := (hbefore direction).mp (Bool.eq_false_iff.mpr hmixed)
      exact ⟨path, direction, others, ⟨raw, hentry, hpath⟩, hshared, hothers,
        (Except.ok.inj hresult).symm⟩
  · rintro ⟨path, direction, others, ⟨raw, hentry, hpath⟩, hshared, hothers, rfl⟩
    refine ⟨(raw, direction), hentry, path, hpath, ?_⟩
    rw [if_neg (Bool.eq_false_iff.mp ((hbefore direction).mpr hshared))]
    exact bind_eq_ok.mpr ⟨others, hothers, rfl⟩

/-- Behind an entry all others have its direction. -/
theorem readSortEntries_some {direction : Direction} {items : List Value}
    {result : List FieldPath × Option Direction} :
    readSortEntries (some direction) items = .ok result ↔
      List.Forall₂ (fun item path => item.SortsBy path direction) items result.1 ∧
        result.2 = some direction := by
  induction items generalizing result with
  | nil =>
    rw [readSortEntries, Except.ok.injEq, List.forall₂_nil_left_iff, Prod.ext_iff]
    exact and_congr eq_comm eq_comm
  | cons v rest ih =>
    rw [readSortEntries_cons, List.forall₂_cons_left_iff]
    constructor
    · rintro ⟨path, d, others, hv, hshared, hothers, rfl⟩
      obtain rfl := hshared direction rfl
      obtain ⟨hrest, hdirection⟩ := ih.mp hothers
      exact ⟨⟨path, others.1, hv, hrest, rfl⟩, hdirection⟩
    · rintro ⟨⟨path, paths, hv, hrest, hpaths⟩, hdirection⟩
      refine ⟨path, direction, (paths, some direction), hv, ?_, ih.mpr ⟨hrest, rfl⟩, ?_⟩
      · rintro d ⟨⟩
        rfl
      · exact Prod.ext hpaths hdirection

theorem readSort_eq_ok {v : Value} {order : Option SortOrder} :
    readSort v = .ok order ↔ v.Sorts order := by
  constructor
  · intro h
    unfold readSort at h
    split at h
    · rename_i items
      simp only [bind_eq_ok] at h
      obtain ⟨⟨paths, found⟩, hread, horder⟩ := h
      obtain rfl := Except.ok.inj horder
      -- Nothing was read before the first entry, so it may have either direction.
      cases items with
      | nil =>
        cases hread
        exact .unsorted
      | cons item rest =>
        obtain ⟨path, direction, others, hitem, -, hothers, hresult⟩ :=
          readSortEntries_cons.mp hread
        obtain ⟨hrest, hdirection⟩ := readSortEntries_some.mp hothers
        cases hresult
        rw [hdirection]
        exact .sorted (List.cons_ne_nil _ _) (.cons hitem hrest)
    · cases h
  · rintro (_ | ⟨hitems, h⟩)
    · rfl
    · cases h with
      | nil => exact absurd rfl hitems
      | cons hitem hrest =>
        rename_i direction item path rest paths
        refine bind_eq_ok.mpr ⟨(path :: paths, some direction), ?_, rfl⟩
        refine readSortEntries_cons.mpr ⟨path, direction, (paths, some direction), hitem, ?_, ?_⟩
        · exact fun _ hd => absurd hd (Option.not_mem_none _)
        · exact ⟨readSortEntries_some.mpr ⟨hrest, rfl⟩, rfl⟩

theorem readField_eq_ok {v : Value} {path : FieldPath} :
    readField v = .ok path ↔ v.NamesField path := by
  fun_cases readField v with
  | case1 raw =>
    rw [readOptionPath_eq_ok]
    exact ⟨.text, fun (.text h) => h⟩
  | case2 v hv => exact iff_of_false (error_ne_ok _ _) (by rintro ⟨h⟩; exact hv _ rfl)

theorem readFields_eq_ok {v : Value} {paths : Option (List FieldPath)} :
    readFields v = .ok paths ↔ v.Keeps paths := by
  fun_cases readFields v with
  | case1 =>
    rw [Except.ok.injEq]
    constructor
    · rintro rfl
      exact .all
    · rintro (_ | ⟨hitems, -⟩)
      · rfl
      · exact absurd rfl hitems
  | case2 items hitems =>
    simp only [map_eq_ok, mapM_eq_ok, readField_eq_ok]
    constructor
    · rintro ⟨paths, h, rfl⟩
      exact .listed hitems h
    · rintro (_ | ⟨-, h⟩)
      · exact absurd rfl hitems
      · exact ⟨_, h, rfl⟩
  | case3 v hempty hitems =>
    refine iff_of_false (error_ne_ok _ _) ?_
    rintro (_ | _)
    · exact hempty rfl
    · exact hitems _ rfl

end FindOptions

end DocFind
