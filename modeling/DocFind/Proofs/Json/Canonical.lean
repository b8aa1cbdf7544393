import DocFind.Json.Reader
import DocFind.Proofs.Entries.Ascending
import DocFind.Proofs.Number.Finite
import DocFind.Proofs.Refusal

/-!
# What texts write

Whatever a JSON text writes is in one form: integers fit a signed or an unsigned word of 64 bits,
binary numbers are finite, and the keys of every object ascend. It is kept by every reader on the
way, from digits to whole texts.
-/
namespace DocFind.Json

/-- The form of the values that texts write. -/
inductive Canonical : Json → Prop
  | null : Canonical .null
  | bool (b : Bool) : Canonical (.bool b)
  | integer {n : Int} (hlo : -0x8000000000000000 ≤ n) (hhi : n < 0x10000000000000000) :
    Canonical (.integer n)
  | float {x : Double} (hx : x.isFinite = true) : Canonical (.float x)
  | string (s : String) : Canonical (.string s)
  | array {items : List Json} (hitems : ∀ j ∈ items, Canonical j) : Canonical (.array items)
  | object {entries : List (String × Json)} (hkeys : Entries.Ascending entries)
      (hentries : ∀ e ∈ entries, Canonical e.2) : Canonical (.object entries)

/-- A reader yields values of this form only, whatever it leaves unread. -/
abbrev Reads (x : Except Stop (Json × List Char)) : Prop := AcceptedOnly (fun r => r.1.Canonical) x

/-! ## Words and numbers -/

theorem readWord_reads {value : Json} (h : value.Canonical) (word cs : List Char) :
    Reads (readWord value word cs) := by
  induction word generalizing cs with
  | nil => exact .ok h
  | cons w word ih =>
    cases cs with
    | nil => exact .error _
    | cons c cs =>
      rw [readWord]
      split_ifs
      · exact ih cs
      · exact .error _

theorem finish_reads (negative : Bool) (whole fraction : List Char) (shift : Int)
    (rest : List Char) : Reads (finish negative whole fraction shift rest) := by
  rw [finish]
  dsimp only
  split_ifs with hfinite
  · refine .ok (.float (Double.isFinite_ofMagnitude ?_ _))
    exact of_decide_eq_true hfinite
  · exact .error _

theorem readExponent_reads (negative : Bool) (whole fraction cs : List Char) :
    Reads (readExponent negative whole fraction cs) := by
  rw [readExponent]
  dsimp only
  split
  · exact .error _
  · split
    · split
      · exact finish_reads _ _ _ _ _
      · split
        · exact finish_reads _ _ _ _ _
        · exact .error _
    · exact .error _

theorem readShift_reads (negative : Bool) (whole fraction cs : List Char) :
    Reads (readShift negative whole fraction cs) := by
  unfold readShift
  split
  · exact finish_reads _ _ _ _ _
  · split_ifs
    · exact readExponent_reads _ _ _ _
    · exact finish_reads _ _ _ _ _

theorem readInteger_reads (negative : Bool) (digits rest : List Char) :
    Reads (readInteger negative digits rest) := by
  rw [readInteger]
  split_ifs with _ hword hword
  · exact finish_reads _ _ _ _ _
  · exact .ok (.integer (by omega) (by omega))
  · exact .ok (.integer (by omega) (by omega))
  · exact finish_reads _ _ _ _ _

theorem readFraction_reads (negative : Bool) (whole cs : List Char) :
    Reads (readFraction negative whole cs) := by
  unfold readFraction
  split
  · split
    · exact .error _
    · exact .error _
    · exact readShift_reads _ _ _ _
  · split_ifs
    · exact readExponent_reads _ _ _ _
    · exact readInteger_reads _ _ _
  · exact readInteger_reads _ _ _

theorem readNumber_reads (negative : Bool) (cs : List Char) : Reads (readNumber negative cs) := by
  unfold readNumber
  split
  · exact .error _
  · split_ifs
    · exact .error _
    · exact readFraction_reads _ _ _
  · split_ifs
    · exact readFraction_reads _ _ _
    · exact .error _

/-! ## Values -/

/-- The readers that call one another, with one fuel less at each call. -/
structure ReadsAll (fuel : Nat) : Prop where
  value : ∀ room cs, Reads (readValue fuel room cs)
  items : ∀ room place cs,
    AcceptedOnly (fun r => ∀ j ∈ r.1, j.Canonical) (readItems fuel room place cs)
  entries : ∀ room place cs,
    AcceptedOnly (fun r => ∀ e ∈ r.1, e.2.Canonical) (readEntries fuel room place cs)

theorem readValue_reads {fuel : Nat} (h : ReadsAll fuel) (room : Nat) (cs : List Char) :
    Reads (readValue (fuel + 1) room cs) := by
  unfold readValue
  split
  · exact .error _
  · exact readWord_reads .null _ _
  · exact readWord_reads (.bool true) _ _
  · exact readWord_reads (.bool false) _ _
  · exact readNumber_reads _ _
  · exact .bind (P := fun _ => True) (fun _ _ => trivial) fun r _ => .ok (.string r.1)
  · split_ifs
    · exact .error _
    · exact .bind (h.items _ _ _) fun r hitems => .ok (.array hitems)
  · split_ifs
    · exact .error _
    · refine .bind (h.entries _ _ _) fun r hentries => .ok ?_
      exact .object (Entries.ascending_toSorted _) fun e he => hentries e (Entries.mem_toSorted he)
  · split_ifs
    · exact readNumber_reads _ _
    · exact .error _

theorem readItems_reads {fuel : Nat} (h : ReadsAll fuel) (room : Nat) (place : Place)
    (cs : List Char) :
    AcceptedOnly (fun r => ∀ j ∈ r.1, j.Canonical) (readItems (fuel + 1) room place cs) := by
  unfold readItems
  extract_lets item
  have hitem (cs : List Char) : AcceptedOnly (fun r => ∀ j ∈ r.1, j.Canonical) (item cs) :=
    .bind (h.value _ _) fun _ hj => .bind (h.items _ _ _) fun _ hitems =>
      .ok (List.forall_mem_cons.mpr ⟨hj, hitems⟩)
  split
  · exact .error _
  · exact .ok (List.forall_mem_nil _)
  · exact hitem _
  · split
    · exact .error _
    · exact .error _
    · exact hitem _
  · exact .error _

theorem readEntries_reads {fuel : Nat} (h : ReadsAll fuel) (room : Nat) (place : Place)
    (cs : List Char) :
    AcceptedOnly (fun r => ∀ e ∈ r.1, e.2.Canonical) (readEntries (fuel + 1) room place cs) := by
  unfold readEntries
  extract_lets entry
  have hentry (cs : List Char) : AcceptedOnly (fun r => ∀ e ∈ r.1, e.2.Canonical) (entry cs) := by
    refine .bind (P := fun _ => True) (fun _ _ => trivial) fun (_, rest) _ => ?_
    dsimp only
    split
    · exact .error _
    · exact .bind (h.value _ _) fun _ hj => .bind (h.entries _ _ _) fun _ hentries =>
        .ok (List.forall_mem_cons.mpr ⟨hj, hentries⟩)
    · exact .error _
  split
  · exact .error _
  · exact .ok (List.forall_mem_nil _)
  · exact hentry _
  · exact .error _
  · split
    · exact .error _
    · exact hentry _
    · exact .error _
    · exact .error _
  · exact .error _

theorem readsAll (fuel : Nat) : ReadsAll fuel := by
  induction fuel with
  | zero =>
    exact ⟨fun _ _ => .error _, fun _ _ _ => .error _, fun _ _ _ => .error _⟩
  | succ fuel ih =>
    exact ⟨readValue_reads ih, readItems_reads ih, readEntries_reads ih⟩

/-- Whatever a text writes is in the form of texts. -/
theorem canonical_of_parse {text : String} {j : Json} (h : parse text = .ok j) : j.Canonical := by
  rw [parse, mapError_eq_ok, readText] at h
  refine AcceptedOnly.bind ((readsAll _).value _ _) (fun (_, rest) hj => ?_) j h
  dsimp only
  split
  · exact .ok hj
  · exact .error _

end DocFind.Json
