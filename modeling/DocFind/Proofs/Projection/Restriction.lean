import DocFind.Projection
import DocFind.Proofs.Entries.Ascending
import DocFind.Proofs.Value.Inside
import DocFind.Proofs.Value.Sameness

/-!
# Projection as restriction

A projection is the body restricted to the listed paths that lead somewhere in it. What stands at
or below the end of such a path is found as in the body, above it there are mappings, and nothing
else is found. So a projection does not depend on the order of the paths or on their repetition,
but for the order of keys, and projecting again changes nothing.
-/
namespace DocFind

variable {source target body : Body} {fields : List FieldPath} {path : FieldPath}
  {segments q : List String} {v : Value}

/-! ## Copying one field -/

/-- A field inside a mapping is copied into the mapping under the same key, or into a new one. -/
theorem copyField?_cons {key : String} {inner : Body} (h : segments ≠ [])
    (hinner : Entries.get? key source = some (.document inner)) (target : Body) :
    copyField? source (key :: segments) target =
      (copyField? inner segments ((Entries.get? key target).getD (.document [])).entries).map
        fun entries => Entries.put key (.document entries) target := by
  obtain ⟨next, rest, rfl⟩ := List.exists_cons_of_ne_nil h
  rw [copyField?, hinner]
  cases Entries.get? key target with
  | none => rfl
  | some present => cases present <;> rfl

/-- Nothing is copied from inside what is no mapping. -/
theorem copyField?_cons_eq_none {key : String} (h : segments ≠ [])
    (hinner : ∀ inner, Entries.get? key source ≠ some (.document inner)) (target : Body) :
    copyField? source (key :: segments) target = none := by
  obtain ⟨next, rest, rfl⟩ := List.exists_cons_of_ne_nil h
  rw [copyField?]
  split
  · rename_i inner hfound
    exact absurd hfound (hinner inner)
  · rfl

/-- A field is copied by writing what stands there. -/
theorem copyField?_document (h : segments ≠ []) (source target : Body) :
    (copyField? source segments target).map Value.document =
      ((Value.document source).inside? segments).map fun v =>
        v.writeInside segments (.document target) := by
  induction segments generalizing source target with
  | nil => exact absurd rfl h
  | cons key rest ih =>
    cases rest with
    | nil =>
      rw [copyField?, Value.inside?, Value.entries]
      cases Entries.get? key source <;> rfl
    | cons next rest =>
      have hne := List.cons_ne_nil next rest
      by_cases hinner : ∃ inner, Entries.get? key source = some (.document inner)
      · obtain ⟨inner, hinner⟩ := hinner
        have hcopied := ih hne inner ((Entries.get? key target).getD (.document [])).entries
        rw [copyField?_cons hne hinner, Value.inside?, Value.entries, hinner, Option.bind_some,
          Option.map_map]
        have hput :=
          congrArg (Option.map fun v => Value.document (Entries.put key v target)) hcopied
        rwa [Option.map_map, Option.map_map] at hput
      · rw [copyField?_cons_eq_none hne (not_exists.mp hinner), Option.map_none, eq_comm,
          Option.map_eq_none_iff, Option.eq_none_iff_forall_ne_some]
        intro v hv
        have hsome : ((Value.document source).inside? ([key] ++ next :: rest)).isSome :=
          Option.isSome_iff_exists.mpr ⟨v, hv⟩
        obtain ⟨inner, hinside⟩ := Value.document_of_inside?_append hsome hne
        exact hinner ⟨inner, (Value.inside?_singleton _ key).symm.trans hinside⟩

/-- What is copied depends on the body only in what stands at the field. -/
theorem copyField?_congr {other : Body} (target : Body)
    (h : (Value.document source).inside? segments = (Value.document other).inside? segments) :
    copyField? source segments target = copyField? other segments target := by
  by_cases hne : segments = []
  · subst hne
    rfl
  · refine Option.map_injective (fun _ _ => Value.document.inj) ?_
    rw [copyField?_document hne, copyField?_document hne, h]

/-! ## Mappings up to the order of keys -/

theorem sizeOf_lt_of_get? {key : String} {inner es : Body}
    (h : Entries.get? key es = some (.document inner)) : sizeOf inner < sizeOf es := by
  have hmem := List.sizeOf_lt_of_mem (Entries.mem_of_get? h)
  simp only [Prod.mk.sizeOf_spec, Value.document.sizeOf_spec] at hmem
  omega

namespace Body

/-- A path leads somewhere in a body, through mappings only. The path without segments names no
field. -/
def Reaches (body : Body) (path : FieldPath) : Prop :=
  path.segments ≠ [] ∧ ((Value.document body).inside? path.segments).isSome

/-- The segments lead to a listed field or to something inside one. -/
def Covers (body : Body) (fields : List FieldPath) (q : List String) : Prop :=
  ∃ path ∈ fields, body.Reaches path ∧ path.segments <+: q

/-- The segments lead to something that contains a listed field. -/
def Encloses (body : Body) (fields : List FieldPath) (q : List String) : Prop :=
  ∃ path ∈ fields, body.Reaches path ∧ q <+: path.segments ∧ q ≠ path.segments

/-- A body in which look-ups find what the listed fields of another hold, mappings above them, and
nothing else. -/
structure Restricts (body : Body) (fields : List FieldPath) (target : Body) : Prop where
  nodup : (Entries.keys target).Nodup
  covered : ∀ {q}, body.Covers fields q →
    (Value.document target).inside? q = (Value.document body).inside? q
  enclosing : ∀ {q}, ¬ body.Covers fields q → body.Encloses fields q →
    ∃ entries, (Value.document target).inside? q = some (.document entries) ∧
      (Entries.keys entries).Nodup
  missing : ∀ {q}, q ≠ [] → ¬ body.Covers fields q → ¬ body.Encloses fields q →
    (Value.document target).inside? q = none

/-! ## One more field -/

theorem covers_append : body.Covers (fields ++ [path]) q ↔
    body.Covers fields q ∨ body.Reaches path ∧ path.segments <+: q := by
  simp [Covers, or_and_right, exists_or]

theorem encloses_append : body.Encloses (fields ++ [path]) q ↔
    body.Encloses fields q ∨ body.Reaches path ∧ q <+: path.segments ∧ q ≠ path.segments := by
  simp [Encloses, or_and_right, exists_or]

theorem restricts_nil (body : Body) : Restricts body [] [] where
  nodup := List.nodup_nil
  covered := by
    rintro q ⟨path, hmem, -⟩
    cases hmem
  enclosing := by
    rintro q - ⟨path, hmem, -⟩
    cases hmem
  missing hq _ _ := Value.inside?_empty hq

namespace Restricts

/-- A path that leads nowhere leaves no trace. -/
theorem append_of_not_reaches (h : Restricts body fields target) (hpath : ¬ body.Reaches path) :
    Restricts body (fields ++ [path]) target := by
  have hcovers (q : List String) : body.Covers (fields ++ [path]) q ↔ body.Covers fields q :=
    covers_append.trans (or_iff_left fun hreaches => hpath hreaches.1)
  have hencloses (q : List String) : body.Encloses (fields ++ [path]) q ↔ body.Encloses fields q :=
    encloses_append.trans (or_iff_left fun hreaches => hpath hreaches.1)
  exact {
    nodup := h.nodup
    covered := fun hq => h.covered ((hcovers _).mp hq)
    enclosing := fun hq hin => h.enclosing (hq ∘ (hcovers _).mpr) ((hencloses _).mp hin)
    missing := fun hne hq hin => h.missing hne (hq ∘ (hcovers _).mpr) (hin ∘ (hencloses _).mpr) }

/-- Above and beside the listed fields no key comes twice. -/
theorem nodup_at (h : Restricts body fields target) (hq : ¬ body.Covers fields q) :
    (Entries.keys (((Value.document target).inside? q).getD (.document [])).entries).Nodup := by
  by_cases hne : q = []
  · subst hne
    exact h.nodup
  by_cases hin : body.Encloses fields q
  · obtain ⟨entries, hfound, hnodup⟩ := h.enclosing hq hin
    rw [hfound]
    exact hnodup
  · rw [h.missing hne hq hin]
    exact List.nodup_nil

/-- Writing what a path leads to adds the path to the listed ones. -/
theorem append_of_reaches (h : Restricts body fields target) (hne : path.segments ≠ [])
    (hv : (Value.document body).inside? path.segments = some v) {next : Body}
    (hnext : Value.document next = v.writeInside path.segments (.document target)) :
    Restricts body (fields ++ [path]) next := by
  have hreaches : body.Reaches path := ⟨hne, Option.isSome_iff_exists.mpr ⟨v, hv⟩⟩
  have hbeside {q : List String} (hbelow : ¬ path.segments <+: q)
      (habove : ¬ q <+: path.segments) :
      (Value.document next).inside? q = (Value.document target).inside? q := by
    rw [hnext]
    exact Value.inside?_writeInside_of_not_prefix v _ hbelow habove
  refine ⟨?nodup, fun {q} hcovers => ?covered, fun {q} hcovers hencloses => ?enclosing,
    fun {q} hq hcovers hencloses => ?missing⟩
  case nodup =>
    obtain ⟨entries, hentries, hnodup⟩ : ∃ entries,
        v.writeInside path.segments (.document target) = .document entries ∧ _ :=
      Value.nodup_keys_writeInside v hne h.nodup
    rw [← hnext, Value.document.injEq] at hentries
    rwa [hentries]
  case covered =>
    by_cases hbelow : path.segments <+: q
    · obtain ⟨r, rfl⟩ := hbelow
      rw [hnext, Value.inside?_writeInside_below, Value.inside?_append_of_eq_some hv]
    -- what is covered without the new path may still contain it
    have hold := (covers_append.mp hcovers).resolve_right fun hnew => hbelow hnew.2
    by_cases habove : q <+: path.segments
    · obtain ⟨r, hr⟩ := habove
      rw [hnext, ← hr]
      exact Value.inside?_writeInside_of_same (hr ▸ hv) (h.covered hold)
    · rw [hbeside hbelow habove, h.covered hold]
  case enclosing =>
    rw [covers_append, not_or] at hcovers
    have hbelow : ¬ path.segments <+: q := fun hprefix => hcovers.2 ⟨hreaches, hprefix⟩
    by_cases habove : q <+: path.segments
    · obtain ⟨r, hr⟩ := habove
      have hrne : r ≠ [] := by
        rintro rfl
        exact hbelow (by rw [← hr, List.append_nil])
      obtain ⟨entries, hentries, hnodup⟩ :=
        Value.nodup_keys_writeInside v hrne (h.nodup_at hcovers.1)
      exact ⟨entries, by rw [hnext, ← hr, Value.inside?_writeInside_append, hentries], hnodup⟩
    · rw [hbeside hbelow habove]
      exact h.enclosing hcovers.1
        ((encloses_append.mp hencloses).resolve_right fun hnew => habove hnew.2.1)
  case missing =>
    rw [covers_append, not_or] at hcovers
    rw [encloses_append, not_or] at hencloses
    have hbelow : ¬ path.segments <+: q := fun hprefix => hcovers.2 ⟨hreaches, hprefix⟩
    have habove : ¬ q <+: path.segments := fun hprefix =>
      hencloses.2 ⟨hreaches, hprefix, fun heq => hbelow (heq ▸ List.prefix_rfl)⟩
    rw [hbeside hbelow habove, h.missing hq hcovers.1 hencloses.1]

/-- Copying a listed field into a target adds the field to the listed ones, if it is there. -/
theorem append (h : Restricts body fields target) (path : FieldPath) :
    Restricts body (fields ++ [path]) ((copyField? body path.segments target).getD target) := by
  by_cases hne : path.segments = []
  · rw [hne]
    exact h.append_of_not_reaches fun hreaches => hreaches.1 hne
  have hcopy := copyField?_document hne body target
  cases hv : (Value.document body).inside? path.segments with
  | none =>
    rw [hv, Option.map_none, Option.map_eq_none_iff] at hcopy
    rw [hcopy]
    exact h.append_of_not_reaches fun hreaches => by simpa [hv] using hreaches.2
  | some v =>
    rw [hv, Option.map_some, Option.map_eq_some_iff] at hcopy
    obtain ⟨next, hnext, hdocument⟩ := hcopy
    rw [hnext]
    exact h.append_of_reaches hne hv hdocument

end Restricts

/-- Projections restrict to the listed fields, one field after the other. -/
theorem restricts_project (fields : List FieldPath) (body : Body) :
    Restricts body fields (project fields body) := by
  induction fields using List.reverseRecOn with
  | nil => exact restricts_nil body
  | append_singleton fields path ih =>
    rw [project, List.foldl_append]
    exact ih.append path

/-! ## The order of the listed fields -/

theorem covers_congr {others : List FieldPath} (h : ∀ path, path ∈ others ↔ path ∈ fields) :
    body.Covers others q ↔ body.Covers fields q := by
  simp only [Covers, h]

theorem encloses_congr {others : List FieldPath} (h : ∀ path, path ∈ others ↔ path ∈ fields) :
    body.Encloses others q ↔ body.Encloses fields q := by
  simp only [Encloses, h]

/-- Two look-ups found the same, or both found mappings that hold no key twice. -/
def Alike (x y : Option Value) : Prop :=
  x = y ∨ ∃ xs ys, x = some (.document xs) ∧ y = some (.document ys) ∧
    (Entries.keys xs).Nodup ∧ (Entries.keys ys).Nodup

/-- What restricts a body to the same fields cannot be told apart by look-ups. -/
theorem Restricts.alike {others : List FieldPath} {other : Body}
    (hmem : ∀ path, path ∈ others ↔ path ∈ fields) (h : Restricts body fields target)
    (hother : Restricts body others other) (hq : q ≠ []) :
    Alike ((Value.document other).inside? q) ((Value.document target).inside? q) := by
  by_cases hcovers : body.Covers fields q
  · rw [h.covered hcovers, hother.covered ((covers_congr hmem).mpr hcovers)]
    exact .inl rfl
  have hcovers' : ¬ body.Covers others q := hcovers ∘ (covers_congr hmem).mp
  by_cases hencloses : body.Encloses fields q
  · obtain ⟨xs, hxs, hnodupx⟩ := hother.enclosing hcovers' ((encloses_congr hmem).mpr hencloses)
    obtain ⟨ys, hys, hnodupy⟩ := h.enclosing hcovers hencloses
    exact .inr ⟨xs, ys, hxs, hys, hnodupx, hnodupy⟩
  · rw [h.missing hq hcovers hencloses,
      hother.missing hq hcovers' (hencloses ∘ (encloses_congr hmem).mp)]
    exact .inl rfl

/-- Mappings that look-ups do not tell apart differ in the order of their keys only. -/
theorem sortKeys_eq_of_alike (xs ys : Body) (hxs : (Entries.keys xs).Nodup)
    (hys : (Entries.keys ys).Nodup)
    (h : ∀ q, q ≠ [] → Alike ((Value.document xs).inside? q) ((Value.document ys).inside? q)) :
    Value.sortKeysEntries xs = Value.sortKeysEntries ys := by
  have hxs := Value.ascending_sortKeysEntries hxs
  refine hxs.ext (Value.ascending_sortKeysEntries hys) fun key => ?_
  rw [Value.get?_sortKeysEntries, Value.get?_sortKeysEntries]
  have hkey := h [key] (List.cons_ne_nil key [])
  rw [Value.inside?_singleton, Value.inside?_singleton, Value.entries, Value.entries] at hkey
  rcases hkey with heq | ⟨inner, inner', hinner, hinner', hnodup, hnodup'⟩
  · rw [heq]
  · rw [hinner, hinner']
    have hlt : sizeOf inner < sizeOf xs := sizeOf_lt_of_get? hinner
    refine congrArg (some ∘ Value.document) (sortKeys_eq_of_alike inner inner' hnodup hnodup' ?_)
    intro q hq
    have hbelow := h (key :: q) (List.cons_ne_nil key q)
    rwa [Value.inside?, Value.inside?, Value.entries, Value.entries, hinner, hinner'] at hbelow
termination_by sizeOf xs

/-- The order of the listed fields and their repetition decide on the order of keys only. -/
theorem project_sortKeys {others : List FieldPath} (body : Body)
    (h : ∀ path, path ∈ others ↔ path ∈ fields) :
    (Value.document (project others body)).sortKeys =
      (Value.document (project fields body)).sortKeys := by
  have hfields := restricts_project fields body
  have hothers := restricts_project others body
  rw [Value.sortKeys, Value.sortKeys, sortKeys_eq_of_alike _ _ hothers.nodup hfields.nodup]
  exact fun q hq => hfields.alike h hothers hq

/-! ## Projecting again -/

/-- Above a field that is there, there is a mapping. -/
theorem Encloses.document (h : body.Encloses fields q) :
    ∃ entries, (Value.document body).inside? q = some (.document entries) := by
  obtain ⟨path, -, ⟨-, hsome⟩, ⟨r, hr⟩, hne⟩ := h
  rw [← hr] at hsome hne
  refine Value.document_of_inside?_append hsome fun hnil => hne ?_
  rw [hnil, List.append_nil]

/-- At the listed fields a projection is like the body. -/
theorem Restricts.inside?_listed (h : Restricts body fields target) (hpath : path ∈ fields)
    (hne : path.segments ≠ []) :
    (Value.document target).inside? path.segments =
      (Value.document body).inside? path.segments := by
  by_cases hcovers : body.Covers fields path.segments
  · exact h.covered hcovers
  have hnone : (Value.document body).inside? path.segments = none :=
    Option.not_isSome_iff_eq_none.mp fun hsome =>
      hcovers ⟨path, hpath, ⟨hne, hsome⟩, List.prefix_rfl⟩
  rw [hnone]
  refine h.missing hne hcovers fun hencloses => ?_
  obtain ⟨entries, hentries⟩ := hencloses.document
  rw [hnone] at hentries
  cases hentries

theorem project_project (fields : List FieldPath) (body : Body) :
    project fields (project fields body) = project fields body := by
  refine List.foldl_ext _ _ _ fun target path hpath => ?_
  by_cases hne : path.segments = []
  · rw [hne]
    rfl
  · rw [copyField?_congr target ((restricts_project fields body).inside?_listed hpath hne)]

/-! ## Nothing new -/

/-- What is found in a restriction is found in the body, but that mappings may hold less. -/
theorem Restricts.inside?_eq_some (h : Restricts body fields target) (hq : q ≠ [])
    (hv : (Value.document target).inside? q = some v) :
    (Value.document body).inside? q = some v ∨
      ∃ part entries, v = .document part ∧
        (Value.document body).inside? q = some (.document entries) := by
  by_cases hcovers : body.Covers fields q
  · exact .inl ((h.covered hcovers).symm.trans hv)
  by_cases hencloses : body.Encloses fields q
  · obtain ⟨part, hpart, -⟩ := h.enclosing hcovers hencloses
    obtain ⟨entries, hentries⟩ := hencloses.document
    exact .inr ⟨part, entries, Option.some.inj (hv.symm.trans hpart), hentries⟩
  · rw [h.missing hq hcovers hencloses] at hv
    cases hv

/-- A projection holds what the listed fields of the body hold, inside mappings, and nothing else.
It does not depend on the order or the repetition of the paths, but for the order of keys; it is
its own projection; and no value is found in it that is not in the body. -/
theorem project_exact (fields : List FieldPath) (body : Body) :
    Restricts body fields (project fields body) ∧
      (∀ others : List FieldPath, (∀ path, path ∈ others ↔ path ∈ fields) →
        (Value.document (project others body)).sortKeys =
          (Value.document (project fields body)).sortKeys) ∧
      project fields (project fields body) = project fields body ∧
      ∀ q v, q ≠ [] → (Value.document (project fields body)).inside? q = some v →
        (Value.document body).inside? q = some v ∨
          ∃ part entries, v = .document part ∧
            (Value.document body).inside? q = some (.document entries) :=
  ⟨restricts_project fields body, fun _ h => project_sortKeys body h, project_project fields body,
    fun _ _ hq hv => (restricts_project fields body).inside?_eq_some hq hv⟩

/-- Two fields, one of them inside a mapping, listed in two ways. -/
theorem project_exact_reordered :
    let body : Body :=
      [("id", .int32 1), ("name", .document [("first", .null), ("last", .bool true)])]
    let fields : List FieldPath := [⟨["id"]⟩, ⟨["name", "last"]⟩]
    let others : List FieldPath := [⟨["name", "last"]⟩, ⟨["id"]⟩, ⟨["name", "last"]⟩]
    let kept : Value := .document [("last", .bool true)]
    (∀ path, path ∈ others ↔ path ∈ fields) ∧
      (Value.document (project others body)).sortKeys =
        (Value.document (project fields body)).sortKeys ∧
      ["name"] ≠ [] ∧ (Value.document (project fields body)).inside? ["name"] = some kept ∧
      ((Value.document body).inside? ["name"] = some kept ∨
        ∃ part entries, kept = .document part ∧
          (Value.document body).inside? ["name"] = some (.document entries)) := by
  intro body fields others kept
  obtain ⟨-, horder, -, hvalues⟩ := project_exact fields body
  have hmem : ∀ path, path ∈ others ↔ path ∈ fields := by simp [others, fields, or_comm]
  have hne : ["name"] ≠ [] := List.cons_ne_nil _ _
  have hkept : (Value.document (project fields body)).inside? ["name"] = some kept := rfl
  exact ⟨hmem, horder others hmem, hne, hkept, hvalues ["name"] kept hne hkept⟩

/-- Positions in arrays are not projected, and what leads nowhere leaves no trace. -/
example : project [⟨["id"]⟩, ⟨["name", "last"]⟩, ⟨["likes", "0"]⟩, ⟨["missing", "x"]⟩]
    [("id", .int32 1), ("name", .document [("first", .null), ("last", .bool true)]),
      ("likes", .array [.null])] =
    [("id", .int32 1), ("name", .document [("last", .bool true)])] := by rfl

end Body

end DocFind
