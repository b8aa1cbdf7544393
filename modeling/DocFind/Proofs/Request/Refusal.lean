import DocFind.Proofs.Refusal
import DocFind.Request
import Mathlib.Tactic.SplitIfs

/-!
# Refused requests

Whatever refuses a request while it is read is a fault of the request: each of the readers, of
selectors, of options and of whole bodies, refuses with client errors only.
-/
namespace DocFind

/-- Every refusal is a fault of the request. -/
abbrev ClientOnly {α : Type} (x : Except Failure α) : Prop :=
  RefusedOnly (fun failure => failure.isClientError = true) x

theorem Failure.status_of_isClientError {failure : Failure} (h : failure.isClientError = true) :
    failure.status = 400 := if_pos h

/-! ## Selectors -/

theorem checkDepth_clientOnly (depth : Nat) : ClientOnly (checkDepth depth) := by
  rw [checkDepth]
  split_ifs
  · exact .error rfl
  · exact .ok ()

theorem checkOperands_clientOnly (op : String) (items : List Value) :
    ClientOnly (checkOperands op items) := by
  fun_induction checkOperands op items with
  | case1 => exact .ok ()
  | case2 _ _ ih => exact ih
  | case3 => exact .error rfl

theorem arrayOperand_clientOnly (op : String) (operand : Value) :
    ClientOnly (arrayOperand op operand) := by
  fun_cases arrayOperand op operand
  · exact .ok _
  · exact .error rfl

theorem readSize_clientOnly (operand : Value) : ClientOnly (readSize operand) := by
  fun_cases readSize operand
  · exact .ok _
  · exact .error rfl
  · exact .error rfl

theorem readDivision_clientOnly (operand : Value) : ClientOnly (readDivision operand) := by
  refine .bind (arrayOperand_clientOnly "$mod" operand) fun items => ?_
  split
  · split
    · split
      · exact .error rfl
      · exact .ok _
    · exact .error rfl
  · exact .error rfl

theorem readTypeName_clientOnly (operand : Value) : ClientOnly (readTypeName operand) := by
  fun_cases readTypeName operand
  · exact .ok _
  · exact .error rfl
  · exact .error rfl

theorem readTest_clientOnly (op : String) (operand : Value) : ClientOnly (readTest op operand) := by
  unfold readTest
  split
  · exact .ok _
  · split
    · split
      · exact .ok _
      · exact .error rfl
    · exact readTypeName_clientOnly operand
    · exact (arrayOperand_clientOnly _ operand).map _
    · exact (arrayOperand_clientOnly _ operand).map _
    · exact (arrayOperand_clientOnly _ operand).map _
    · exact readSize_clientOnly operand
    · exact readDivision_clientOnly operand
    · exact .error rfl
    · exact .error rfl

theorem readPath_clientOnly (key : String) : ClientOnly (readPath key) := by
  refine .mapError (fun fault => ?_) _
  rfl

theorem misplacedOperator_isClientError (op : String) :
    (misplacedOperator op).isClientError = true := rfl

mutual

theorem parseField_clientOnly (path : FieldPath) (depth : Nat) (v : Value) :
    ClientOnly (parseField path depth v) := by
  unfold parseField
  split
  · exact .bind (checkDepth_clientOnly depth) fun _ =>
      .bind (parseFieldEntries_clientOnly path depth _) fun _ => .ok _
  · exact .bind (checkDepth_clientOnly depth) fun _ => .ok _
  · exact .bind (checkDepth_clientOnly depth) fun _ => .ok _
termination_by sizeOf v

theorem parseFieldEntries_clientOnly (path : FieldPath) (depth : Nat)
    (entries : List (String × Value)) : ClientOnly (parseFieldEntries path depth entries) := by
  match entries with
  | [] => exact .ok []
  | (key, operand) :: rest =>
    have hrest (part : Selector) :
        ClientOnly (parseFieldEntries path depth rest >>= fun parts => .ok (part :: parts)) :=
      .bind (parseFieldEntries_clientOnly path depth rest) fun _ => .ok _
    unfold parseFieldEntries
    simp only
    split
    · split
      · split
        · exact .bind (checkOperands_clientOnly key _) fun _ =>
            .bind (parseFieldItems_clientOnly path _ _) fun _ => .bind (.ok _) hrest
        · exact .bind (.error rfl) hrest
      · split
        · split
          · exact .bind (parseField_clientOnly path _ _) fun _ => .bind (.ok _) hrest
          · exact .bind (.error rfl) hrest
        · split
          · split
            · exact .bind (parseField_clientOnly _ _ _) fun _ => .bind (.ok _) hrest
            · exact .bind (.error rfl) hrest
          · exact .bind ((readTest_clientOnly key operand).map _) hrest
    · exact .bind (readPath_clientOnly key) fun _ =>
        .bind (parseField_clientOnly _ _ operand) hrest
termination_by sizeOf entries

theorem parseFieldItems_clientOnly (path : FieldPath) (depth : Nat) (items : List Value) :
    ClientOnly (parseFieldItems path depth items) := by
  unfold parseFieldItems
  split
  · exact .ok []
  · exact .bind (parseField_clientOnly path depth _) fun _ =>
      .bind (parseFieldItems_clientOnly path depth _) fun _ => .ok _
termination_by sizeOf items

end

mutual

theorem parseObject_clientOnly (depth : Nat) (v : Value) : ClientOnly (parseObject depth v) := by
  unfold parseObject
  split
  · exact .bind (checkDepth_clientOnly depth) fun _ =>
      .bind (parseEntries_clientOnly depth _) fun _ => .ok _
  · exact .error rfl
termination_by sizeOf v

theorem parseEntries_clientOnly (depth : Nat) (entries : List (String × Value)) :
    ClientOnly (parseEntries depth entries) := by
  match entries with
  | [] => exact .ok []
  | (key, operand) :: rest =>
    have hrest (part : Selector) :
        ClientOnly (parseEntries depth rest >>= fun parts => .ok (part :: parts)) :=
      .bind (parseEntries_clientOnly depth rest) fun _ => .ok _
    unfold parseEntries
    simp only
    split
    · split
      · exact .bind (checkOperands_clientOnly key _) fun _ =>
          .bind (parseItems_clientOnly _ _) fun _ => .bind (.ok _) hrest
      · exact .bind (.error rfl) hrest
    · split
      · split
        · exact .bind (parseObject_clientOnly _ _) fun _ => .bind (.ok _) hrest
        · exact .bind (.error rfl) hrest
      · split
        · exact .bind (.error (misplacedOperator_isClientError key)) hrest
        · exact .bind (readPath_clientOnly key) fun _ =>
            .bind (parseField_clientOnly _ _ operand) hrest
termination_by sizeOf entries

theorem parseItems_clientOnly (depth : Nat) (items : List Value) :
    ClientOnly (parseItems depth items) := by
  unfold parseItems
  split
  · exact .ok []
  · exact .bind (parseObject_clientOnly depth _) fun _ =>
      .bind (parseItems_clientOnly depth _) fun _ => .ok _
termination_by sizeOf items

end

/-! ## Options -/

/-- Every refusal is a fault in the value of the option. -/
abbrev BlamesOption {α : Type} (name : OptionName) (x : Except Failure α) : Prop :=
  RefusedOnly (fun failure => ∃ fault, failure = .invalidOption name fault) x

namespace FindOptions

theorem fail_blamesOption {α : Type} (name : OptionName) (fault : OptionFault) :
    BlamesOption name (fail name fault : Except Failure α) := .error ⟨fault, rfl⟩

theorem readNat_blamesOption (name : OptionName) (v : Value) :
    BlamesOption name (readNat name v) := by
  rw [readNat]
  split
  · exact fail_blamesOption name _
  · split
    · exact .ok _
    · exact fail_blamesOption name _

theorem readQuorum_blamesOption (v : Value) : BlamesOption .r (readQuorum v) := by
  refine .bind (readNat_blamesOption .r v) fun n => ?_
  split
  · exact .ok n
  · exact fail_blamesOption .r _

theorem readBool_blamesOption (name : OptionName) (v : Value) :
    BlamesOption name (readBool name v) := by
  rw [readBool.eq_def]
  split
  · exact .ok _
  · exact fail_blamesOption name _

theorem readOptionPath_blamesOption (name : OptionName) (raw : String) :
    BlamesOption name (readOptionPath name raw) := by
  refine .mapError (fun fault => ?_) _
  exact ⟨_, rfl⟩

theorem readDirection_blamesOption (v : Value) : BlamesOption .sort (readDirection v) := by
  rw [readDirection.eq_def]
  split
  · split
    · exact .ok _
    · exact fail_blamesOption .sort _
  · exact fail_blamesOption .sort _

theorem readSortEntry_blamesOption (v : Value) : BlamesOption .sort (readSortEntry v) := by
  rw [readSortEntry.eq_def]
  split
  · exact .ok _
  · exact (readDirection_blamesOption _).map _
  · exact fail_blamesOption .sort _
  · exact fail_blamesOption .sort _

theorem readSortEntries_blamesOption (direction : Option Direction) (items : List Value) :
    BlamesOption .sort (readSortEntries direction items) := by
  induction items generalizing direction with
  | nil => exact .ok _
  | cons v rest ih =>
    refine .bind (readSortEntry_blamesOption v) fun (raw, d) => ?_
    refine .bind (readOptionPath_blamesOption .sort raw) fun path => ?_
    split
    · exact fail_blamesOption .sort _
    · exact .bind (ih (some d)) fun _ => .ok _

theorem readSort_blamesOption (v : Value) : BlamesOption .sort (readSort v) := by
  rw [readSort.eq_def]
  split
  · exact .bind (readSortEntries_blamesOption none _) fun _ => .ok _
  · exact fail_blamesOption .sort _

theorem readField_blamesOption (v : Value) : BlamesOption .fields (readField v) := by
  rw [readField.eq_def]
  split
  · exact readOptionPath_blamesOption .fields _
  · exact fail_blamesOption .fields _

theorem readFields_blamesOption (v : Value) : BlamesOption .fields (readFields v) := by
  rw [readFields.eq_def]
  split
  · exact .ok none
  · exact (RefusedOnly.mapM readField_blamesOption _).map _
  · exact fail_blamesOption .fields _

theorem readUseIndex_blamesOption (v : Value) : BlamesOption .useIndex (readUseIndex v) := by
  rw [readUseIndex]
  split
  · split
    · exact fail_blamesOption .useIndex _
    · exact .ok _
  · exact fail_blamesOption .useIndex _

theorem set_blamesOption (config : FindConfig) (o : FindOptions) (name : OptionName) (v : Value) :
    BlamesOption name (o.set config name v) := by
  cases name with
  | limit => exact (readNat_blamesOption .limit v).map _
  | skip => exact (readNat_blamesOption .skip v).map _
  | sort => exact (readSort_blamesOption v).map _
  | fields => exact (readFields_blamesOption v).map _
  | r => exact (readQuorum_blamesOption v).map _
  | conflicts => exact (readBool_blamesOption .conflicts v).map _
  | useIndex => exact (readUseIndex_blamesOption v).map _
  | executionStats => exact (readBool_blamesOption .executionStats v).map _

theorem set_clientOnly (config : FindConfig) (o : FindOptions) (name : OptionName) (v : Value) :
    ClientOnly (o.set config name v) := by
  refine (set_blamesOption config o name v).mono ?_
  rintro _ ⟨fault, rfl⟩
  rfl

theorem setAll_clientOnly (config : FindConfig) (o : FindOptions)
    (entries : List (String × Value)) : ClientOnly (setAll config o entries) := by
  induction entries generalizing o with
  | nil => exact .ok o
  | cons entry rest ih =>
    obtain ⟨key, v⟩ := entry
    rw [setAll]
    split
    · exact .error rfl
    · exact .bind (set_clientOnly config o _ v) ih

end FindOptions

/-! ## Requests -/

namespace FindRequest

theorem validate_clientOnly (config : FindConfig) (selector : Value) (options : Body) :
    ClientOnly (validate config selector options) :=
  .bind (parseObject_clientOnly 0 selector) fun _ =>
    .bind (FindOptions.setAll_clientOnly config _ options) fun _ => .ok _

/-- A body that is no request is refused for a fault of its own. -/
theorem fromJson_clientOnly (config : FindConfig) (text : String) :
    ClientOnly (fromJson config text) := by
  have hjson : ClientOnly ((Json.parse text).mapError Failure.json) := by
    refine .mapError (fun fault => ?_) _
    rfl
  refine .bind hjson fun j => ?_
  split
  · rw [ofBody]
    split
    · exact .error rfl
    · exact validate_clientOnly config _ _
  · exact .error rfl

end FindRequest

end DocFind
