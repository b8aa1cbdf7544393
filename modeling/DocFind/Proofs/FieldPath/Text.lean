import DocFind.Proofs.FieldPath.Join
import DocFind.Selector.Parse
import Mathlib.Tactic.SplitIfs

/-!
# Texts of paths

The text of a path is read back as the path, whatever characters its segments have, if it has
segments, none of them is empty, and there are at most 32 of them. As a key such a text is taken for
an operator just if its first segment begins with a dollar sign, which no escape marks.
-/
namespace DocFind

namespace FieldPath

/-- A path has segments, and none of them is empty. -/
def HasSegments (path : FieldPath) : Prop := path.segments ≠ [] ∧ "" ∉ path.segments

/-! ## Splitting -/

/-- A character that is no dot and no backslash belongs to its piece. -/
theorem splitPieces_cons {c : Char} (hslash : c ≠ '\\') (hdot : c ≠ '.') (cs : List Char) :
    splitPieces (c :: cs) = consFirst c (splitPieces cs) := by
  rw [splitPieces.eq_def]
  split
  · contradiction
  · rename_i h
    exact absurd (List.cons.inj h).1 hslash
  · rename_i h
    exact absurd (List.cons.inj h).1 hslash
  · rename_i h
    exact absurd (List.cons.inj h).1 hdot
  · rename_i h
    obtain ⟨rfl, rfl⟩ := List.cons.inj h
    rfl

theorem splitPieces_escapeChar (c : Char) (cs : List Char) :
    splitPieces (escapeChar c ++ cs) = consFirst c (splitPieces cs) := by
  rw [escapeChar]
  split_ifs with h
  · rfl
  · obtain ⟨hslash, hdot⟩ := not_or.mp h
    exact splitPieces_cons hslash hdot cs

/-- The text of a segment belongs to one piece, whatever follows. -/
theorem splitPieces_escaped {cs : List Char} {piece : List Char} {pieces : List (List Char)}
    (h : splitPieces cs = piece :: pieces) (segment : List Char) :
    splitPieces (segment.flatMap escapeChar ++ cs) = (segment ++ piece) :: pieces := by
  induction segment with
  | nil => exact h
  | cons c segment ih =>
    rw [List.flatMap_cons, List.append_assoc, splitPieces_escapeChar, ih]
    rfl

theorem splitPieces_intercalate (segment : List Char) (segments : List (List Char)) :
    splitPieces (['.'].intercalate ((segment :: segments).map fun s => s.flatMap escapeChar)) =
      segment :: segments := by
  induction segments generalizing segment with
  | nil =>
    have hlast := splitPieces_escaped (show splitPieces [] = [[]] from rfl) segment
    simpa using hlast
  | cons next segments ih =>
    have hdot : splitPieces ('.' :: ['.'].intercalate
        ((next :: segments).map fun s => s.flatMap escapeChar)) = [] :: next :: segments :=
      congrArg ([] :: ·) (ih next)
    have hfirst := splitPieces_escaped hdot segment
    rw [List.append_nil] at hfirst
    exact hfirst

theorem toList_text (path : FieldPath) : path.text.toList =
    ['.'].intercalate ((path.segments.map String.toList).map fun s => s.flatMap escapeChar) := by
  rw [text, String.toList_intercalate, List.map_map, List.map_map]
  congr 1
  refine List.map_congr_left fun segment _ => ?_
  exact String.toList_ofList

/-- The pieces of the text of a path are its segments. -/
theorem splitPieces_text {path : FieldPath} (h : path.segments ≠ []) :
    splitPieces path.text.toList = path.segments.map String.toList := by
  rw [toList_text]
  obtain ⟨segment, segments, hsegments⟩ := List.exists_cons_of_ne_nil h
  rw [hsegments, List.map_cons]
  exact splitPieces_intercalate _ _

/-! ## Reading -/

theorem HasSegments.parse_text {path : FieldPath} (h : path.HasSegments) : parse path.text =
    if maxSegments < path.segments.length then .error (.tooDeep path.text) else .ok path := by
  have hpieces := splitPieces_text h.1
  have hnonempty : path.text.toList ≠ [] := by
    intro hnil
    rw [hnil] at hpieces
    obtain ⟨segment, segments, hsegments⟩ := List.exists_cons_of_ne_nil h.1
    rw [hsegments] at hpieces
    obtain ⟨hsegment, -⟩ := List.cons.inj hpieces
    have hempty : segment = "" := String.toList_eq_nil_iff.mp hsegment.symm
    exact h.2 (by simp [hsegments, hempty])
  have hfull : [] ∉ path.segments.map String.toList := by
    intro hmem
    obtain ⟨segment, hsegment, hnil⟩ := List.mem_map.mp hmem
    exact h.2 (String.toList_eq_nil_iff.mp hnil ▸ hsegment)
  rw [parse, if_neg hnonempty, hpieces]
  dsimp only
  rw [if_neg hfull, List.length_map, List.map_map]
  simp

/-- What is read from a text has segments. -/
theorem hasSegments_of_parse {raw : String} {path : FieldPath} (h : parse raw = .ok path) :
    path.HasSegments := by
  have hroot := parse_isRoot h
  refine ⟨fun hnil => by simp [isRoot, hnil] at hroot, fun hmem => ?_⟩
  unfold parse at h
  dsimp only at h
  split_ifs at h with hraw hempty
  obtain rfl := Except.ok.inj h
  obtain ⟨piece, hpiece, hnil⟩ := List.mem_map.mp hmem
  obtain rfl : piece = [] := by simpa using congrArg String.toList hnil
  exact hempty hpiece

/-! ## Operator keys -/

theorem head?_escapeChar (c : Char) (cs : List Char) :
    (escapeChar c ++ cs).head? = some '$' ↔ c = '$' := by
  rw [escapeChar]
  split_ifs with h
  · rcases h with rfl | rfl <;> simp
  · simp

/-- No escape marks the dollar sign, so the text of a path is an operator key if its first segment
begins like one. -/
theorem isOperatorKey_text {path : FieldPath} {segment : String} {segments : List String}
    (hsegments : path.segments = segment :: segments) (hsegment : segment ≠ "") :
    isOperatorKey path.text = isOperatorKey segment := by
  obtain ⟨c, cs, hc⟩ := List.exists_cons_of_ne_nil (mt String.toList_eq_nil_iff.mp hsegment)
  have htext : ∃ rest, path.text.toList = escapeChar c ++ rest := by
    rw [toList_text, hsegments, List.map_cons, hc]
    cases segments with
    | nil => exact ⟨cs.flatMap escapeChar, by simp⟩
    | cons next segments =>
      rw [List.map_cons, List.map_cons, List.map_cons, List.intercalate_cons_cons,
        List.flatMap_cons, List.append_assoc, List.append_assoc]
      exact ⟨_, rfl⟩
  obtain ⟨rest, hrest⟩ := htext
  rw [isOperatorKey, isOperatorKey, hrest, hc, Bool.eq_iff_iff, decide_eq_true_eq,
    decide_eq_true_eq, head?_escapeChar]
  simp

/-- A path whose first segment begins like an operator. -/
def LikeOperator (path : FieldPath) : Prop :=
  ∃ segment ∈ path.segments.head?, isOperatorKey segment = true

instance (path : FieldPath) : Decidable path.LikeOperator :=
  inferInstanceAs (Decidable (∃ segment ∈ path.segments.head?, isOperatorKey segment = true))

theorem HasSegments.isOperatorKey_text_iff {path : FieldPath} (h : path.HasSegments) :
    isOperatorKey path.text = true ↔ path.LikeOperator := by
  obtain ⟨segment, segments, hsegments⟩ := List.exists_cons_of_ne_nil h.1
  have hsegment : segment ≠ "" := by
    rintro rfl
    exact h.2 (hsegments ▸ List.mem_cons_self)
  rw [isOperatorKey_text hsegments hsegment, LikeOperator, hsegments]
  simp

end FieldPath

end DocFind
