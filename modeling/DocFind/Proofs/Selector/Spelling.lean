import DocFind.Proofs.FieldPath.RoundTrip
import DocFind.Proofs.Selector.ReadBack

/-!
# How paths are spelled

A path is spelled by the keys that its test stands under, from the outermost one or from behind the
last `$elemMatch`. Every key is checked to have no more than 32 segments, and keys are nested no
deeper than selectors may be, but what the keys have together is not checked. So a path of more
segments can be spelled by several keys, though its text is not read back.
-/
namespace DocFind

namespace FieldPath

variable {keys : List String}

/-- The path that keys spell, one below the other. -/
def spelled (keys : List String) : FieldPath := ⟨keys.flatMap segmentsOf⟩

theorem spelled_nil : spelled [] = root := rfl

theorem spelled_cons {key : String} {path : FieldPath} (h : parse key = .ok path) :
    spelled (key :: keys) = path.join (spelled keys) := by
  obtain ⟨-, rfl⟩ := parse_eq_ok_iff.mp h
  rfl

theorem join_root (path : FieldPath) : path.join root = path := by
  rw [join, root, List.append_nil]

theorem join_assoc (path below last : FieldPath) :
    (path.join below).join last = path.join (below.join last) := by
  rw [join, join, join, join, List.append_assoc]

theorem spelled_snoc {key : String} {below : FieldPath} (h : parse key = .ok below) :
    spelled (keys ++ [key]) = (spelled keys).join below := by
  obtain ⟨-, rfl⟩ := parse_eq_ok_iff.mp h
  rw [spelled, List.flatMap_append, List.flatMap_singleton]
  rfl

theorem length_spelled (keys : List String) : (spelled keys).segments.length =
    (keys.map fun key => (segmentsOf key).length).sum := List.length_flatMap

/-- Keys that are read as paths, no more than a limit. -/
structure Legible (limit : Nat) (keys : List String) : Prop where
  readable : ∀ key ∈ keys, Accepted (parse key)
  short : keys.length ≤ limit

theorem legible_nil (limit : Nat) : Legible limit [] := ⟨List.forall_mem_nil _, Nat.zero_le _⟩

theorem Legible.mono {limit limit' : Nat} (h : Legible limit keys) (hle : limit ≤ limit') :
    Legible limit' keys := ⟨h.readable, h.short.trans hle⟩

theorem Legible.snoc {limit : Nat} (h : Legible limit keys) {key : String} {below : FieldPath}
    (hkey : parse key = .ok below) : Legible (limit + 1) (keys ++ [key]) where
  readable := by
    refine List.forall_mem_append.mpr ⟨h.readable, List.forall_mem_singleton.mpr ⟨below, hkey⟩⟩
  short := by
    have hshort := h.short
    simp only [List.length_append, List.length_singleton]
    omega

/-- A path has at most 32 segments for every key. -/
theorem Legible.length_spelled_le {limit : Nat} (h : Legible limit keys) :
    (spelled keys).segments.length ≤ keys.length * maxSegments := by
  have hreadable := h.readable
  clear h
  induction keys with
  | nil => exact Nat.zero_le _
  | cons key keys ih =>
    rw [List.forall_mem_cons] at hreadable
    obtain ⟨⟨path, hpath⟩, hrest⟩ := hreadable
    have hfirst := (writable_of_parse hpath).short
    have hothers := ih hrest
    rw [spelled_cons hpath, join, List.length_append, List.length_cons, Nat.add_mul]
    omega

/-- None of the segments that keys spell is empty. -/
theorem Legible.hasSegments {limit : Nat} (h : Legible limit keys)
    (hroot : (spelled keys).isRoot = false) : (spelled keys).HasSegments := by
  refine ⟨fun hnil => by simp [isRoot, hnil] at hroot, fun hmem => ?_⟩
  obtain ⟨key, hkey, hempty⟩ := List.mem_flatMap.mp hmem
  obtain ⟨path, hpath⟩ := h.readable key hkey
  exact (parse_eq_ok_iff.mp hpath).1.2.2 hempty

end FieldPath

theorem Selector.paths_conjoin (parts : List Selector) :
    (conjoin parts).paths = pathsAll parts := by
  unfold conjoin
  split
  · simp [pathsAll]
  · rfl

/-! ## The keys of a raw selector -/

namespace RawSelector

mutual

/-- The keys that spell the path of each test at field level, in order. Those in front lead to the
field. -/
def fieldSpellings (front : List String) (v : Value) : List (List String) :=
  match v with
  | .document (entry :: entries) => fieldEntriesSpellings front (entry :: entries)
  | _ => [front]
termination_by structural v

def fieldEntriesSpellings (front : List String) (entries : List (String × Value)) :
    List (List String) :=
  match entries with
  | [] => []
  | (key, operand) :: rest =>
    (match Combinator.ofKey? key with
    | some _ =>
      match operand with
      | .array items => fieldItemsSpellings front items
      | _ => []
    | none =>
      if key = "$not" then fieldSpellings front operand
      else if key = "$elemMatch" then front :: fieldSpellings [] operand
      else if isOperatorKey key then [front]
      else fieldSpellings (front ++ [key]) operand) ++ fieldEntriesSpellings front rest
termination_by structural entries

def fieldItemsSpellings (front : List String) (items : List Value) : List (List String) :=
  match items with
  | [] => []
  | v :: rest => fieldSpellings front v ++ fieldItemsSpellings front rest
termination_by structural items

end

mutual

/-- The keys that spell the path of each test of a raw selector, in order. -/
def spellings (v : Value) : List (List String) :=
  match v with
  | .document entries => entriesSpellings entries
  | _ => []
termination_by structural v

def entriesSpellings (entries : List (String × Value)) : List (List String) :=
  match entries with
  | [] => []
  | (key, operand) :: rest =>
    (match Combinator.ofKey? key with
    | some _ =>
      match operand with
      | .array items => itemsSpellings items
      | _ => []
    | none =>
      if key = "$not" then spellings operand
      else fieldSpellings [key] operand) ++ entriesSpellings rest
termination_by structural entries

def itemsSpellings (items : List Value) : List (List String) :=
  match items with
  | [] => []
  | v :: rest => spellings v ++ itemsSpellings rest
termination_by structural items

end

/-! ## The paths of what is read -/

open FieldPath (Legible spelled)

/-- Some paths are spelled by keys that are read, nested no deeper than selectors may be. -/
structure Spells (spellings : List (List String)) (paths : List FieldPath) : Prop where
  paths : paths = spellings.map spelled
  legible : ∀ keys ∈ spellings, Legible maxSelectorDepth keys

namespace Spells

variable {spellings others : List (List String)} {paths more : List FieldPath}

theorem nil : Spells [] [] := ⟨rfl, List.forall_mem_nil _⟩

theorem append (h : Spells spellings paths) (h' : Spells others more) :
    Spells (spellings ++ others) (paths ++ more) where
  paths := by rw [h.paths, h'.paths, List.map_append]
  legible := List.forall_mem_append.mpr ⟨h.legible, h'.legible⟩

theorem singleton {front : List String} {depth : Nat} (hfront : Legible depth front)
    (hdepth : depth ≤ maxSelectorDepth) : Spells [front] [spelled front] :=
  ⟨rfl, List.forall_mem_singleton.mpr (hfront.mono hdepth)⟩

end Spells

mutual

theorem parseField_spells {front : List String} {depth : Nat} (hfront : Legible depth front)
    (v : Value) {s : Selector} (h : parseField (spelled front) depth v = .ok s) :
    Spells (fieldSpellings front v) s.paths := by
  -- The induction is on the raw value. Every key is one level deeper, so there are no more keys in
  -- front than levels; behind `$elemMatch` there are none.
  have hdepth := depth_le_of_parseField h
  match v with
  | .document (entry :: entries) =>
    obtain ⟨parts, hparts, rfl⟩ := parseField_document h
    rw [Selector.paths_conjoin]
    exact parseFieldEntries_spells hfront hdepth _ hparts
  | .document [] | .null | .bool _ | .int32 _ | .int64 _ | .double _ | .decimal _ | .string _
  | .array _ | .foreign _ =>
    obtain rfl := parseField_plain (by simp) h
    exact .singleton hfront hdepth
termination_by sizeOf v

theorem parseFieldEntries_spells {front : List String} {depth : Nat}
    (hfront : Legible depth front) (hdepth : depth ≤ maxSelectorDepth)
    (entries : List (String × Value)) {parts : List Selector}
    (h : parseFieldEntries (spelled front) depth entries = .ok parts) :
    Spells (fieldEntriesSpellings front entries) (Selector.pathsAll parts) := by
  match entries with
  | [] =>
    obtain rfl := Except.ok.inj h
    exact .nil
  | (key, operand) :: rest =>
    obtain ⟨part, others, hpart, hothers, rfl⟩ := parseFieldEntries_cons h
    unfold fieldEntriesSpellings
    refine .append ?_ (parseFieldEntries_spells hfront hdepth rest hothers)
    have hdeeper := hfront.mono (Nat.le_succ depth)
    cases hpart with
    | combine hkind hoperands hitems =>
      rw [hkind]
      exact parseFieldItems_spells hdeeper _ hitems
    | not hchild =>
      have hinside := parseField_spells hdeeper _ hchild
      simpa [Combinator.ofKey?, Selector.paths] using hinside
    | elemMatch hinner =>
      have hinside := parseField_spells (FieldPath.legible_nil _) _ hinner
      simpa [Combinator.ofKey?, Selector.paths] using
        (Spells.singleton hfront hdepth).append hinside
    | test hop hcombinator hnot helem htest =>
      rw [hcombinator]
      simp only [if_neg hnot, if_neg helem, if_pos hop]
      exact .singleton hfront hdepth
    | below hkey hpath hpart =>
      have hnot : key ≠ "$not" := ne_of_not_isOperatorKey hkey rfl
      have helem : key ≠ "$elemMatch" := ne_of_not_isOperatorKey hkey rfl
      rw [← FieldPath.spelled_snoc hpath] at hpart
      simp only [Combinator.ofKey?_of_not_isOperatorKey hkey, if_neg hnot, if_neg helem, hkey,
        Bool.false_eq_true, if_false]
      exact parseField_spells (hfront.snoc hpath) _ hpart
termination_by sizeOf entries

theorem parseFieldItems_spells {front : List String} {depth : Nat} (hfront : Legible depth front)
    (items : List Value) {children : List Selector}
    (h : parseFieldItems (spelled front) depth items = .ok children) :
    Spells (fieldItemsSpellings front items) (Selector.pathsAll children) := by
  match items with
  | [] =>
    obtain rfl := Except.ok.inj h
    exact .nil
  | v :: rest =>
    obtain ⟨child, others, hchild, hothers, rfl⟩ := parseFieldItems_cons h
    exact (parseField_spells hfront v hchild).append (parseFieldItems_spells hfront rest hothers)
termination_by sizeOf items

end

mutual

theorem parseObject_spells {depth : Nat} (v : Value) {s : Selector}
    (h : parseObject depth v = .ok s) : Spells (spellings v) s.paths := by
  match v with
  | .document entries =>
    obtain ⟨parts, hparts, rfl⟩ := parseObject_document h
    rw [Selector.paths_conjoin]
    exact parseEntries_spells entries hparts
  | .null | .bool _ | .int32 _ | .int64 _ | .double _ | .decimal _ | .string _ | .array _
  | .foreign _ => cases h
termination_by sizeOf v

theorem parseEntries_spells {depth : Nat} (entries : List (String × Value))
    {parts : List Selector} (h : parseEntries depth entries = .ok parts) :
    Spells (entriesSpellings entries) (Selector.pathsAll parts) := by
  match entries with
  | [] =>
    obtain rfl := Except.ok.inj h
    exact .nil
  | (key, operand) :: rest =>
    obtain ⟨part, others, hpart, hothers, rfl⟩ := parseEntries_cons h
    unfold entriesSpellings
    refine .append ?_ (parseEntries_spells rest hothers)
    cases hpart with
    | combine hkind hoperands hitems =>
      rw [hkind]
      exact parseItems_spells _ hitems
    | not hchild =>
      have hinside := parseObject_spells _ hchild
      simpa [Combinator.ofKey?, Selector.paths] using hinside
    | field hkey hpath hpart =>
      have hnot : key ≠ "$not" := ne_of_not_isOperatorKey hkey rfl
      have hone : Legible (depth + 1) [key] :=
        ((FieldPath.legible_nil 0).snoc hpath).mono (Nat.le_add_left 1 depth)
      rw [Combinator.ofKey?_of_not_isOperatorKey hkey]
      simp only [if_neg hnot]
      refine parseField_spells hone _ ?_
      rw [← List.nil_append [key], FieldPath.spelled_snoc hpath]
      exact hpart
termination_by sizeOf entries

theorem parseItems_spells {depth : Nat} (items : List Value) {children : List Selector}
    (h : parseItems depth items = .ok children) :
    Spells (itemsSpellings items) (Selector.pathsAll children) := by
  match items with
  | [] =>
    obtain rfl := Except.ok.inj h
    exact .nil
  | v :: rest =>
    obtain ⟨child, others, hchild, hothers, rfl⟩ := parseItems_cons h
    exact (parseObject_spells v hchild).append (parseItems_spells rest hothers)
termination_by sizeOf items

end

/-! ## Nested keys -/

/-- A value below keys, one in the other. -/
def nest : List String → Value → Value
  | [], v => v
  | key :: keys, v => .document [(key, nest keys v)]

/-- Keys that lead to a field and are read as paths. -/
def Plain (keys : List String) : Prop :=
  ∀ key ∈ keys, isOperatorKey key = false ∧ Accepted (FieldPath.parse key)

/-- Below a field the keys are joined to its path, however long the join is. -/
theorem parseField_nest {path : FieldPath} {depth : Nat} {keys : List String} (hkeys : Plain keys)
    (hdepth : depth + keys.length ≤ maxSelectorDepth) {v : Value}
    (hv : ∀ entries, v ≠ .document entries) :
    parseField path depth (nest keys v) =
      .ok (.field (path.join (spelled keys)) (.compare .eq v)) := by
  have hcheck : checkDepth depth = .ok () := checkDepth_eq_ok.mpr (by omega)
  induction keys generalizing path depth with
  | nil =>
    rw [nest, parseField_of_plain path depth fun _ _ => hv _, hcheck, FieldPath.spelled_nil,
      FieldPath.join_root]
    rfl
  | cons key keys ih =>
    obtain ⟨⟨hkey, below, hbelow⟩, hrest⟩ := List.forall_mem_cons.mp hkeys
    rw [List.length_cons] at hdepth
    rw [nest, parseField_path path depth hkey, hcheck, readPath_eq_ok.mpr hbelow,
      FieldPath.spelled_cons hbelow, ← FieldPath.join_assoc]
    have hnext : checkDepth (depth + 1) = .ok () := checkDepth_eq_ok.mpr (by omega)
    exact ih hrest (by omega) hnext

/-- As many keys as selectors may be nested are read, and joined. -/
theorem parse_nest {keys : List String} (hne : keys ≠ []) (hkeys : Plain keys)
    (hlength : keys.length ≤ maxSelectorDepth) {v : Value} (hv : ∀ entries, v ≠ .document entries) :
    Selector.parse (nest keys v) = .ok (.field (spelled keys) (.compare .eq v)) := by
  obtain ⟨key, keys, rfl⟩ := List.exists_cons_of_ne_nil hne
  obtain ⟨⟨hkey, path, hpath⟩, hrest⟩ := List.forall_mem_cons.mp hkeys
  rw [List.length_cons] at hlength
  have hread := readAt_path false 0 hkey (nest keys v)
  rw [readPath_eq_ok.mpr hpath] at hread
  rw [FieldPath.spelled_cons hpath]
  exact hread.trans (parseField_nest hrest (by omega) hv)

end RawSelector

namespace Selector

/-- The text of a path that is shown is read back unless the path is longer than texts may be. -/
theorem parse_text_of_mem_paths {v : Value} {s : Selector} (h : parse v = .ok s)
    {path : FieldPath} (hmem : path ∈ s.paths) (hroot : path.isRoot = false) :
    FieldPath.parse path.text =
      if FieldPath.maxSegments < path.segments.length then .error (.tooDeep path.text)
      else .ok path := by
  have hspells := RawSelector.parseObject_spells v h
  rw [hspells.paths] at hmem
  obtain ⟨keys, hkeys, rfl⟩ := List.mem_map.mp hmem
  exact ((hspells.legible keys hkeys).hasSegments hroot).parse_text

/-- The paths of a selector that is read are the joins of the keys that spell them. At most 64 keys
spell a path, and each is read as a path itself, so a path has at most 32 segments for each of its
keys. The text of a path is read back just if there are at most 32 in all, and all paths are as short
as that just if the segments of their keys add up to no more, as they do where a path has one key. -/
theorem paths_spelled {v : Value} {s : Selector} (h : parse v = .ok s) :
    s.paths = (RawSelector.spellings v).map FieldPath.spelled ∧
    (∀ keys ∈ RawSelector.spellings v, FieldPath.Legible maxSelectorDepth keys ∧
      (FieldPath.spelled keys).segments.length ≤ keys.length * FieldPath.maxSegments) ∧
    (∀ path ∈ s.paths, path.isRoot = false → FieldPath.parse path.text =
      if FieldPath.maxSegments < path.segments.length then .error (.tooDeep path.text)
      else .ok path) ∧
    ((∀ path ∈ s.paths, path.segments.length ≤ FieldPath.maxSegments) ↔
      ∀ keys ∈ RawSelector.spellings v,
        (keys.map fun key => (FieldPath.segmentsOf key).length).sum ≤ FieldPath.maxSegments) ∧
    ((∀ keys ∈ RawSelector.spellings v, keys.length ≤ 1) →
      ∀ path ∈ s.paths, path.segments.length ≤ FieldPath.maxSegments) := by
  have hspells := RawSelector.parseObject_spells v h
  have hlength : ∀ keys ∈ RawSelector.spellings v,
      (FieldPath.spelled keys).segments.length ≤ keys.length * FieldPath.maxSegments :=
    fun keys hkeys => (hspells.legible keys hkeys).length_spelled_le
  refine ⟨hspells.paths, fun keys hkeys => ⟨hspells.legible keys hkeys, hlength keys hkeys⟩,
    fun path hmem hroot => parse_text_of_mem_paths h hmem hroot, ?_, fun hone => ?_⟩
  · rw [hspells.paths, List.forall_mem_map]
    simp only [FieldPath.length_spelled]
  · rw [hspells.paths, List.forall_mem_map]
    intro keys hkeys
    calc (FieldPath.spelled keys).segments.length
        ≤ keys.length * FieldPath.maxSegments := hlength keys hkeys
      _ ≤ 1 * FieldPath.maxSegments := Nat.mul_le_mul_right _ (hone keys hkeys)
      _ = FieldPath.maxSegments := Nat.one_mul _

/-- Keys with an escaped dot and with parts, one in the other, and one key for each path. -/
theorem paths_spelled_nested :
    let nested : Value := .document [("a\\.b", .document [("c.d", .document [("$not", .document
      [("$elemMatch", .document [("$gt", .int32 5), ("e", .document [("f", .null)])])])])])]
    let single : Value := .document [("a.b.c", .document [("$elemMatch", .document
      [("d.e", .bool true)])])]
    (∃ s, parse nested = .ok s ∧ s.paths = [⟨["a.b", "c", "d"]⟩, ⟨[]⟩, ⟨["e", "f"]⟩] ∧
      (∀ path ∈ s.paths, path.segments.length ≤ FieldPath.maxSegments) ∧
      FieldPath.parse "a\\.b.c.d" = .ok ⟨["a.b", "c", "d"]⟩) ∧
    ∃ s, parse single = .ok s ∧ s.paths = [⟨["a", "b", "c"]⟩, ⟨["d", "e"]⟩] ∧
      ∀ path ∈ s.paths, path.segments.length ≤ FieldPath.maxSegments := by
  intro nested single
  constructor
  · have hread : ∃ s, parse nested = .ok s := ⟨_, rfl⟩
    obtain ⟨s, hs⟩ := hread
    obtain ⟨hpaths, -, htext, hshort, -⟩ := paths_spelled hs
    have hspelled : s.paths = [⟨["a.b", "c", "d"]⟩, ⟨[]⟩, ⟨["e", "f"]⟩] := by
      rw [hpaths]
      decide
    have hmem : (⟨["a.b", "c", "d"]⟩ : FieldPath) ∈ s.paths := by simp [hspelled]
    exact ⟨s, hs, hspelled, hshort.mpr (by decide), htext _ hmem rfl⟩
  · have hread : ∃ s, parse single = .ok s := ⟨_, rfl⟩
    obtain ⟨s, hs⟩ := hread
    obtain ⟨hpaths, -, -, -, hone⟩ := paths_spelled hs
    exact ⟨s, hs, by rw [hpaths]; decide, hone (by decide)⟩

/-- A key of 32 segments above one of one segment spells a path of 33, whose text is refused. -/
theorem paths_spelled_too_deep :
    let key := "x.x.x.x.x.x.x.x.x.x.x.x.x.x.x.x.x.x.x.x.x.x.x.x.x.x.x.x.x.x.x.x"
    let path : FieldPath := ⟨List.replicate 32 "x" ++ ["y"]⟩
    let s : Selector := .field path (.compare .eq (.int32 1))
    parse (.document [(key, .document [("y", .int32 1)])]) = .ok s ∧
      path ∈ s.paths ∧ FieldPath.maxSegments < path.segments.length ∧
      FieldPath.parse path.text = .error (.tooDeep path.text) := by
  intro key path s
  have hdeep : FieldPath.maxSegments < path.segments.length := by decide
  have hsegments : path.HasSegments := ⟨by decide, by decide⟩
  have hkey : FieldPath.parse key = .ok ⟨List.replicate 32 "x"⟩ := by decide +kernel
  have hplain : RawSelector.Plain [key, "y"] := by
    rintro other hother
    rcases List.mem_pair.mp hother with rfl | rfl
    · exact ⟨by decide +kernel, _, hkey⟩
    · exact ⟨rfl, _, rfl⟩
  have hread := @RawSelector.parse_nest _ (List.cons_ne_nil _ _) hplain (by decide) (.int32 1)
    fun _ h => Value.noConfusion h
  have hpath : FieldPath.spelled [key, "y"] = path := by
    rw [FieldPath.spelled_cons hkey]
    rfl
  rw [hpath] at hread
  exact ⟨hread, List.mem_singleton.mpr rfl, hdeep, by rw [hsegments.parse_text, if_pos hdeep]⟩

end Selector

end DocFind
