import DocFind.Proofs.FieldPath.Text
import Mathlib.Data.List.ReduceOption

/-!
# Paths and their texts

A text is a run of characters, with dots between the segments. Reading it is removing the escapes
and splitting at the dots that were not escaped; writing a path doubles the backslashes of each
segment and then marks its dots. So every path of one to 32 segments, none of them empty, is what
its text is read as, and the texts that are read are those with such segments.
-/
namespace DocFind.FieldPath

/-! ## Writing -/

/-- The text with another one in place of every occurrence of a character. -/
def replaceEach (c : Char) (replacement : String) (s : String) : String :=
  String.ofList (s.toList.flatMap fun x => if x = c then replacement.toList else [x])

/-- The dots that are marked are those of the segment: doubling the backslashes first makes none. -/
theorem escape_eq_replaceEach (segment : String) :
    escape segment = replaceEach '.' "\\." (replaceEach '\\' "\\\\" segment) := by
  have hchar (c : Char) : escapeChar c =
      (if c = '\\' then "\\\\".toList else [c]).flatMap
        fun x => if x = '.' then "\\.".toList else [x] := by
    by_cases hslash : c = '\\'
    · subst hslash
      rfl
    · by_cases hdot : c = '.'
      · subst hdot
        rfl
      · simp [escapeChar, hslash, hdot]
  have hdoubled : (replaceEach '\\' "\\\\" segment).toList =
      segment.toList.flatMap fun x => if x = '\\' then "\\\\".toList else [x] :=
    String.toList_ofList
  rw [escape, replaceEach, hdoubled, List.flatMap_assoc]
  exact congrArg (fun f => String.ofList (segment.toList.flatMap f)) (funext hchar)

/-! ## Reading -/

/-- A text with its escapes removed: the characters of segments, and `none` for a dot that parts
two of them. A backslash makes the next character one of its segment; a last one stands for
itself. -/
def unescape : List Char → List (Option Char)
  | [] => []
  | ['\\'] => [some '\\']
  | '\\' :: c :: rest => some c :: unescape rest
  | '.' :: rest => none :: unescape rest
  | c :: rest => some c :: unescape rest

/-- The segments of a text: what stands between the dots that are not escaped. -/
def segmentsOf (raw : String) : List String :=
  ((unescape raw.toList).splitOnP Option.isNone).map fun piece => String.ofList piece.reduceOption

/-- A character goes to the piece in front. -/
theorem consFirst_splitOnP (c : Char) (tokens : List (Option Char)) :
    consFirst c ((tokens.splitOnP Option.isNone).map List.reduceOption) =
      ((some c :: tokens).splitOnP Option.isNone).map List.reduceOption := by
  obtain ⟨piece, rest, hpieces⟩ :=
    List.exists_cons_of_ne_nil (List.splitOnP_ne_nil Option.isNone tokens)
  rw [List.splitOnP_cons_eq_if_modifyHead, if_neg (by simp), hpieces]
  rfl

theorem splitPieces_eq_splitOnP (cs : List Char) :
    splitPieces cs = ((unescape cs).splitOnP Option.isNone).map List.reduceOption := by
  fun_induction unescape cs with
  | case1 => rfl
  | case2 => rfl
  | case3 c rest ih =>
    rw [← consFirst_splitOnP, ← ih, splitPieces]
  | case4 rest ih =>
    rw [List.splitOnP_cons_eq_if_modifyHead, if_pos (by rfl), List.map_cons, ← ih]
    rfl
  | case5 c rest hlast hslash hdot ih =>
    have hplain : c ≠ '\\' := by
      rintro rfl
      cases rest with
      | nil => exact hlast rfl rfl
      | cons d rest => exact hslash d rest rfl rfl
    rw [← consFirst_splitOnP, ← ih]
    exact splitPieces_cons hplain hdot rest

/-- The pieces that the reader collects are the segments of the text. -/
theorem map_splitPieces (raw : String) :
    (splitPieces raw.toList).map String.ofList = segmentsOf raw := by
  rw [splitPieces_eq_splitOnP, List.map_map]
  rfl

theorem nil_mem_splitPieces_iff (raw : String) :
    [] ∈ splitPieces raw.toList ↔ "" ∈ segmentsOf raw := by
  rw [← map_splitPieces, List.mem_map]
  constructor
  · exact fun h => ⟨[], h, rfl⟩
  · rintro ⟨piece, hpiece, hempty⟩
    obtain rfl : piece = [] := String.toList_ofList.symm.trans (congrArg String.toList hempty)
    exact hpiece

/-- A text is read if it splits into segments, at most 32 and none of them empty. -/
theorem parse_eq (raw : String) : parse raw =
    if raw = "" then .error .empty
    else if "" ∈ segmentsOf raw then .error (.emptySegment raw)
    else if maxSegments < (segmentsOf raw).length then .error (.tooDeep raw)
    else .ok ⟨segmentsOf raw⟩ := by
  have hlength : (splitPieces raw.toList).length = (segmentsOf raw).length := by
    rw [← map_splitPieces, List.length_map]
  simp only [parse, String.toList_eq_nil_iff, nil_mem_splitPieces_iff, map_splitPieces, hlength]

theorem parse_eq_ok_iff {raw : String} {path : FieldPath} : parse raw = .ok path ↔
    (raw ≠ "" ∧ (segmentsOf raw).length ≤ maxSegments ∧ "" ∉ segmentsOf raw) ∧
      path = ⟨segmentsOf raw⟩ := by
  rw [parse_eq]
  split_ifs with hraw hempty hdeep
  · simp [hraw]
  · simp [hempty]
  · refine iff_of_false (by simp) fun h => ?_
    have hshort := h.1.2.1
    omega
  · rw [Except.ok.injEq, eq_comm]
    exact (and_iff_right ⟨hraw, by omega, hempty⟩).symm

/-! ## Both -/

/-- The paths that a text can write. -/
structure Writable (path : FieldPath) : Prop where
  segments : path.HasSegments
  short : path.segments.length ≤ maxSegments

theorem Writable.parse_text {path : FieldPath} (h : path.Writable) : parse path.text = .ok path := by
  have hshort := h.short
  rw [h.segments.parse_text, if_neg (by omega)]

theorem writable_of_parse {raw : String} {path : FieldPath} (h : parse raw = .ok path) :
    path.Writable := by
  refine ⟨hasSegments_of_parse h, ?_⟩
  obtain ⟨⟨-, hshort, -⟩, rfl⟩ := parse_eq_ok_iff.mp h
  exact hshort

/-- A path of one to 32 segments, none of them empty, is what its text is read as, so no two of them
share a text. A text is read just if it is not empty and splits at its unescaped dots into such
segments; the text of the path that they make is read as this path again. -/
theorem text_and_parse_inverse :
    (∀ path : FieldPath, path.text = String.intercalate "." (path.segments.map fun segment =>
      replaceEach '.' "\\." (replaceEach '\\' "\\\\" segment))) ∧
    (∀ path : FieldPath, path.Writable → parse path.text = .ok path) ∧
    (∀ p q : FieldPath, p.Writable → q.Writable → p.text = q.text → p = q) ∧
    (∀ raw : String, (∃ path, parse raw = .ok path) ↔
      raw ≠ "" ∧ (segmentsOf raw).length ≤ 32 ∧ "" ∉ segmentsOf raw) ∧
    ∀ (raw : String) (path : FieldPath), parse raw = .ok path →
      path.segments = segmentsOf raw ∧ parse path.text = .ok path := by
  refine ⟨fun path => ?_, fun path h => h.parse_text, fun p q hp hq htext => ?_, fun raw => ?_,
    fun raw path h => ?_⟩
  · simp only [text, ← escape_eq_replaceEach]
  · have hread := hp.parse_text
    rw [htext, hq.parse_text] at hread
    exact (Except.ok.inj hread).symm
  · simp only [parse_eq_ok_iff, exists_and_left, exists_eq, and_true]
    rfl
  · obtain ⟨-, hpath⟩ := parse_eq_ok_iff.mp h
    exact ⟨congrArg segments hpath, (writable_of_parse h).parse_text⟩

/-- Runs of backslashes before dots, and a last backslash that stands for itself. -/
theorem text_and_parse_inverse_slashes :
    let path : FieldPath := ⟨["a.b", "c\\", "\\\\."]⟩
    let other : FieldPath := ⟨["a", "b", "c\\", "\\\\."]⟩
    let raw := "a\\.b.c\\\\.\\"
    let read : FieldPath := ⟨["a.b", "c\\", "\\"]⟩
    parse path.text = .ok path ∧ path.text ≠ other.text ∧
      parse raw = .ok read ∧ parse read.text = .ok read := by
  intro path other raw read
  have hpath : path.Writable := ⟨⟨by decide, by decide⟩, by decide⟩
  have hother : other.Writable := ⟨⟨by decide, by decide⟩, by decide⟩
  have hraw : parse raw = .ok read :=
    parse_eq_ok_iff.mpr ⟨⟨by decide, by decide, by decide⟩, by decide⟩
  obtain ⟨-, hread, hinjective, -, hagain⟩ := text_and_parse_inverse
  refine ⟨hread path hpath, fun htext => ?_, hraw, (hagain raw read hraw).2⟩
  have hsame := hinjective path other hpath hother htext
  exact absurd hsame (by decide)

end DocFind.FieldPath
