import DocFind.Proofs.Entries.Lookup
import DocFind.Proofs.Request.OptionValues
import DocFind.Proofs.Request.Refusal

/-!
# Options of a request

A document of options is accepted if each of its entries is. What an entry means touches no other
option, so the order of the entries does not matter, and a refusal is the fault of one of them.
-/
namespace DocFind

/-! ## Settings -/

/-- What an option is. -/
inductive Setting where
  | count (n : Nat)
  | sort (order : Option SortOrder)
  | fields (paths : Option (List FieldPath))
  | flag (b : Bool)
  | index (name : Option String)

/-- The values that an option may have, and what it then is. -/
inductive OptionName.Means (config : FindConfig) : OptionName → Value → Setting → Prop
  | limit {v : Value} {n : Nat} (h : v.Counts n) :
      Means config .limit v (.count (min n config.maxLimit))
  | skip {v : Value} {n : Nat} (h : v.Counts n) : Means config .skip v (.count n)
  | sort {v : Value} {order : Option SortOrder} (h : v.Sorts order) :
      Means config .sort v (.sort order)
  | fields {v : Value} {paths : Option (List FieldPath)} (h : v.Keeps paths) :
      Means config .fields v (.fields paths)
  | r {v : Value} {n : Nat} (h : v.Counts n) (hpos : 0 < n) (hword : n < 0x100000000) :
      Means config .r v (.count n)
  | conflicts {b : Bool} : Means config .conflicts (.bool b) (.flag b)
  | useIndex {v : Value} {name : String} (h : v.NamesIndex name) :
      Means config .useIndex v (.index (some name))
  | executionStats {b : Bool} : Means config .executionStats (.bool b) (.flag b)

theorem OptionName.ofText?_eq_some {key : String} {name : OptionName} :
    ofText? key = some name ↔ name.text = key := by
  constructor
  · intro h
    simpa using List.find?_some h
  · rintro rfl
    cases name <;> rfl

theorem OptionName.text_injective : Function.Injective OptionName.text := fun _ _ h =>
  Option.some.inj ((ofText?_eq_some.mpr h).symm.trans (ofText?_eq_some.mpr rfl))

theorem OptionName.ofText?_eq_none {key : String} :
    ofText? key = none ↔ ∀ name : OptionName, name.text ≠ key := by
  simp [Option.eq_none_iff_forall_ne_some, ofText?_eq_some]

namespace FindOptions

/-- What one of the options is. -/
def setting (o : FindOptions) : OptionName → Setting
  | .limit => .count o.limit
  | .skip => .count o.skip
  | .sort => .sort o.sort
  | .fields => .fields o.fields
  | .r => .count o.r
  | .conflicts => .flag o.conflicts
  | .useIndex => .index o.useIndex
  | .executionStats => .flag o.executionStats

theorem ext_setting {a b : FindOptions} (h : ∀ name, a.setting name = b.setting name) : a = b := by
  have hlimit : a.limit = b.limit := Setting.count.inj (h .limit)
  have hskip : a.skip = b.skip := Setting.count.inj (h .skip)
  have hsort : a.sort = b.sort := Setting.sort.inj (h .sort)
  have hfields : a.fields = b.fields := Setting.fields.inj (h .fields)
  have hr : a.r = b.r := Setting.count.inj (h .r)
  have hconflicts : a.conflicts = b.conflicts := Setting.flag.inj (h .conflicts)
  have hindex : a.useIndex = b.useIndex := Setting.index.inj (h .useIndex)
  have hstats : a.executionStats = b.executionStats := Setting.flag.inj (h .executionStats)
  cases a
  cases b
  rw [FindOptions.mk.injEq]
  exact ⟨hlimit, hskip, hsort, hfields, hr, hconflicts, hindex, hstats⟩

/-! ## One option -/

variable {config : FindConfig}

/-- Writing an option succeeds just if it may have the value, and makes it what the value means. -/
theorem means_iff {o : FindOptions} {name : OptionName} {v : Value} {s : Setting} :
    name.Means config v s ↔ ∃ o', o.set config name v = .ok o' ∧ o'.setting name = s := by
  constructor
  · rintro (h | h | h | h | ⟨h, hpos, hword⟩ | _ | h | _)
    · exact ⟨_, map_eq_ok.mpr ⟨_, readNat_eq_ok.mpr h, rfl⟩, rfl⟩
    · exact ⟨_, map_eq_ok.mpr ⟨_, readNat_eq_ok.mpr h, rfl⟩, rfl⟩
    · exact ⟨_, map_eq_ok.mpr ⟨_, readSort_eq_ok.mpr h, rfl⟩, rfl⟩
    · exact ⟨_, map_eq_ok.mpr ⟨_, readFields_eq_ok.mpr h, rfl⟩, rfl⟩
    · exact ⟨_, map_eq_ok.mpr ⟨_, readQuorum_eq_ok.mpr ⟨h, hpos, hword⟩, rfl⟩, rfl⟩
    · exact ⟨_, rfl, rfl⟩
    · exact ⟨_, map_eq_ok.mpr ⟨_, readUseIndex_eq_ok.mpr h, rfl⟩, rfl⟩
    · exact ⟨_, rfl, rfl⟩
  · rintro ⟨o', h, rfl⟩
    cases name with
    | limit =>
      obtain ⟨n, hn, rfl⟩ := map_eq_ok.mp h
      exact .limit (readNat_eq_ok.mp hn)
    | skip =>
      obtain ⟨n, hn, rfl⟩ := map_eq_ok.mp h
      exact .skip (readNat_eq_ok.mp hn)
    | sort =>
      obtain ⟨order, horder, rfl⟩ := map_eq_ok.mp h
      exact .sort (readSort_eq_ok.mp horder)
    | fields =>
      obtain ⟨paths, hpaths, rfl⟩ := map_eq_ok.mp h
      exact .fields (readFields_eq_ok.mp hpaths)
    | r =>
      obtain ⟨n, hn, rfl⟩ := map_eq_ok.mp h
      obtain ⟨hn, hpos, hword⟩ := readQuorum_eq_ok.mp hn
      exact .r hn hpos hword
    | conflicts =>
      obtain ⟨b, hb, rfl⟩ := map_eq_ok.mp h
      obtain rfl := readBool_eq_ok.mp hb
      exact .conflicts
    | useIndex =>
      obtain ⟨index, hindex, rfl⟩ := map_eq_ok.mp h
      exact .useIndex (readUseIndex_eq_ok.mp hindex)
    | executionStats =>
      obtain ⟨b, hb, rfl⟩ := map_eq_ok.mp h
      obtain rfl := readBool_eq_ok.mp hb
      exact .executionStats

theorem means_unique {name : OptionName} {v : Value} {s t : Setting}
    (hs : name.Means config v s) (ht : name.Means config v t) : s = t := by
  obtain ⟨a, ha, rfl⟩ := (means_iff (o := default config)).mp hs
  obtain ⟨b, hb, rfl⟩ := (means_iff (o := default config)).mp ht
  obtain rfl := Except.ok.inj (ha.symm.trans hb)
  rfl

theorem accepted_set_iff {o : FindOptions} {name : OptionName} {v : Value} :
    Accepted (o.set config name v) ↔ ∃ s, name.Means config v s := by
  simp only [means_iff (o := o)]
  exact ⟨fun ⟨o', h⟩ => ⟨_, o', h, rfl⟩, fun ⟨_, o', h, _⟩ => ⟨o', h⟩⟩

/-- Writing an option leaves the others as they are. -/
theorem setting_of_set_ne {o o' : FindOptions} {name other : OptionName} {v : Value}
    (h : o.set config name v = .ok o') (hne : other ≠ name) :
    o'.setting other = o.setting other := by
  cases name <;> obtain ⟨_, -, rfl⟩ := map_eq_ok.mp h <;> cases other <;>
    first | rfl | exact absurd rfl hne

/-! ## All options -/

/-- The entry writes one of the options, with a value that it may have. -/
def Writes (config : FindConfig) (e : String × Value) : Prop :=
  ∃ name s, OptionName.text name = e.1 ∧ name.Means config e.2 s

theorem writes_iff {name : OptionName} {v : Value} :
    Writes config (name.text, v) ↔ ∃ s, name.Means config v s := by
  constructor
  · rintro ⟨other, s, htext, hs⟩
    obtain rfl := OptionName.text_injective htext
    exact ⟨s, hs⟩
  · rintro ⟨s, hs⟩
    exact ⟨name, s, rfl, hs⟩

section

variable {o o' : FindOptions} {key : String} {v : Value} {entries : List (String × Value)}

theorem setAll_cons_text (name : OptionName) :
    setAll config o ((name.text, v) :: entries) =
      o.set config name v >>= fun o' => setAll config o' entries := by
  rw [setAll, OptionName.ofText?_eq_some.mpr rfl]

theorem setAll_cons_unknown (h : ∀ name : OptionName, name.text ≠ key) :
    setAll config o ((key, v) :: entries) = .error (.invalidRequest (.unknownOption key)) := by
  rw [setAll, OptionName.ofText?_eq_none.mpr h]

theorem accepted_setAll_iff :
    Accepted (setAll config o entries) ↔ ∀ e ∈ entries, Writes config e := by
  induction entries generalizing o with
  | nil => exact iff_of_true (accepted_ok o) (List.forall_mem_nil _)
  | cons e rest ih =>
    obtain ⟨key, v⟩ := e
    rw [List.forall_mem_cons]
    by_cases hknown : ∃ name : OptionName, name.text = key
    · obtain ⟨name, rfl⟩ := hknown
      rw [setAll_cons_text, accepted_bind, writes_iff, ← accepted_set_iff (o := o)]
      simp only [ih]
      exact exists_and_right
    · rw [setAll_cons_unknown (not_exists.mp hknown)]
      refine iff_of_false (not_accepted_error _) ?_
      rintro ⟨⟨name, -, htext, -⟩, -⟩
      exact hknown ⟨name, htext⟩

/-- A refusal blames an entry at fault: its value, or a key that is no option. -/
theorem exists_fault_of_setAll {failure : Failure} (h : setAll config o entries = .error failure) :
    ∃ e ∈ entries, ¬ Writes config e ∧
      ((∃ name fault, OptionName.text name = e.1 ∧ failure = .invalidOption name fault) ∨
        (∀ name : OptionName, name.text ≠ e.1) ∧
          failure = .invalidRequest (.unknownOption e.1)) := by
  induction entries generalizing o with
  | nil => cases h
  | cons e rest ih =>
    obtain ⟨key, v⟩ := e
    by_cases hknown : ∃ name : OptionName, name.text = key
    · obtain ⟨name, rfl⟩ := hknown
      rw [setAll_cons_text] at h
      cases hset : o.set config name v with
      | error first =>
        rw [hset, error_bind] at h
        obtain rfl := Except.error.inj h
        obtain ⟨fault, rfl⟩ := set_blamesOption config o name v _ hset
        refine ⟨_, List.mem_cons_self, ?_, .inl ⟨name, fault, rfl, rfl⟩⟩
        rw [writes_iff, ← accepted_set_iff (o := o), hset]
        exact not_accepted_error _
      | ok next =>
        rw [hset, ok_bind] at h
        obtain ⟨e, he, hfault⟩ := ih h
        exact ⟨e, List.mem_cons_of_mem _ he, hfault⟩
    · have hunknown := not_exists.mp hknown
      rw [setAll_cons_unknown hunknown] at h
      refine ⟨_, List.mem_cons_self, ?_, .inr ⟨hunknown, (Except.error.inj h).symm⟩⟩
      rintro ⟨name, -, htext, -⟩
      exact hunknown name htext

/-- An option is at the end what one of its entries means, or as it was if it has none. -/
theorem setting_of_setAll (h : setAll config o entries = .ok o') (name : OptionName) :
    ((∀ v, (name.text, v) ∉ entries) ∧ o'.setting name = o.setting name) ∨
      ∃ v, (name.text, v) ∈ entries ∧ name.Means config v (o'.setting name) := by
  induction entries generalizing o with
  | nil =>
    obtain rfl := Except.ok.inj h
    exact .inl ⟨fun _ => List.not_mem_nil, rfl⟩
  | cons e rest ih =>
    obtain ⟨key, v⟩ := e
    by_cases hknown : ∃ written : OptionName, written.text = key
    · obtain ⟨written, rfl⟩ := hknown
      rw [setAll_cons_text] at h
      obtain ⟨next, hset, hrest⟩ := bind_eq_ok.mp h
      -- An entry further on would go over what this one wrote.
      rcases ih hrest with ⟨habsent, hkept⟩ | ⟨w, hw, hmeans⟩
      · rw [hkept]
        by_cases hname : name = written
        · subst hname
          exact .inr ⟨v, List.mem_cons_self, means_iff.mpr ⟨next, hset, rfl⟩⟩
        · refine .inl ⟨fun w hw => ?_, setting_of_set_ne hset hname⟩
          rcases List.mem_cons.mp hw with hw | hw
          · exact hname (OptionName.text_injective (congrArg Prod.fst hw))
          · exact habsent w hw
      · exact .inr ⟨w, List.mem_cons_of_mem _ hw, hmeans⟩
    · rw [setAll_cons_unknown (not_exists.mp hknown)] at h
      cases h

end

/-! ## Options documents -/

section

variable {options other : Body} {o : FindOptions} {name : OptionName} {v : Value}

theorem means_of_mem (hkeys : (Entries.keys options).Nodup) (h : parse config options = .ok o)
    (hv : (name.text, v) ∈ options) : name.Means config v (o.setting name) := by
  rcases setting_of_setAll h name with ⟨habsent, -⟩ | ⟨w, hw, hmeans⟩
  · exact absurd hv (habsent v)
  · rw [← Entries.get?_eq_some_iff hkeys] at hv hw
    obtain rfl := Option.some.inj (hv.symm.trans hw)
    exact hmeans

theorem setting_of_not_mem (h : parse config options = .ok o)
    (hname : ∀ v, (name.text, v) ∉ options) :
    o.setting name = (default config).setting name := by
  rcases setting_of_setAll h name with ⟨-, hdefault⟩ | ⟨v, hv, -⟩
  · exact hdefault
  · exact absurd hv (hname v)

/-- The order of the entries does not matter. -/
theorem parse_eq_of_mem_iff (hkeys : (Entries.keys options).Nodup)
    (hother : (Entries.keys other).Nodup) (hsame : ∀ e, e ∈ other ↔ e ∈ options)
    (h : parse config options = .ok o) : parse config other = .ok o := by
  have hwrites := accepted_setAll_iff.mp ⟨o, h⟩
  obtain ⟨o', h'⟩ : Accepted (parse config other) :=
    accepted_setAll_iff.mpr fun e he => hwrites e ((hsame e).mp he)
  rw [h', ext_setting (a := o') (b := o) fun name => ?_]
  by_cases hname : ∃ v, (name.text, v) ∈ options
  · obtain ⟨v, hv⟩ := hname
    exact means_unique (means_of_mem hother h' ((hsame _).mpr hv)) (means_of_mem hkeys h hv)
  · have habsent := not_exists.mp hname
    rw [setting_of_not_mem h habsent,
      setting_of_not_mem h' fun v hv => habsent v ((hsame _).mp hv)]

end

end FindOptions

/-! ## Loaded configurations -/

/-- The configuration comes from a configuration text or from the environment. -/
inductive FindConfig.Loaded : FindConfig → Prop
  | toml {text : String} {config : FindConfig} (h : ofToml text = .ok config) : Loaded config
  | environment {base config : FindConfig} {lookup : String → Option String}
      (h : base.withOverrides lookup = .ok config) : Loaded config

theorem FindConfig.defaultLimit_le_of_validate {base config : FindConfig}
    (h : base.validate = .ok config) : config.defaultLimit ≤ config.maxLimit := by
  unfold validate at h
  split_ifs at h with hzero habove
  · obtain rfl := Except.ok.inj h
    exact Nat.le_of_not_lt habove

theorem FindConfig.Loaded.defaultLimit_le {config : FindConfig} (h : config.Loaded) :
    config.defaultLimit ≤ config.maxLimit := by
  cases h with
  | toml h =>
    unfold ofToml at h
    split at h
    · cases h
    · obtain ⟨base, -, hbase⟩ := bind_eq_ok.mp h
      exact defaultLimit_le_of_validate hbase
  | environment h =>
    unfold withOverrides at h
    obtain ⟨defaultLimit, -, h⟩ := bind_eq_ok.mp h
    obtain ⟨maxLimit, -, h⟩ := bind_eq_ok.mp h
    obtain ⟨slowQueryMs, -, h⟩ := bind_eq_ok.mp h
    split at h
    · exact defaultLimit_le_of_validate h
    · obtain ⟨tieBreak, -, h⟩ := bind_eq_ok.mp h
      exact defaultLimit_le_of_validate h

namespace FindOptions

theorem limit_le {config : FindConfig} (hconfig : config.Loaded) {options : Body}
    {o : FindOptions} (h : parse config options = .ok o) : o.limit ≤ config.maxLimit := by
  rcases setting_of_setAll h .limit with ⟨-, hdefault⟩ | ⟨v, -, hmeans⟩
  · have hlimit : o.limit = config.defaultLimit := Setting.count.inj hdefault
    exact hlimit ▸ hconfig.defaultLimit_le
  · generalize hs : o.setting .limit = s at hmeans
    cases hmeans
    rw [Setting.count.inj hs]
    exact Nat.min_le_right _ _

/-- A document of options is accepted just if each of its entries writes an option with a value that
it may have, and a refusal blames an entry that does not. Of accepted options each is what its entry
means, or the default if it has none, whatever the order of the entries. The limit is within the
bound of a configuration that was loaded. -/
theorem parse_exact (config : FindConfig) {options : Body}
    (hkeys : (Entries.keys options).Nodup) :
    (Accepted (parse config options) ↔ ∀ e ∈ options, Writes config e) ∧
    (∀ failure, parse config options = .error failure →
      ∃ e ∈ options, ¬ Writes config e ∧
        ((∃ name fault, OptionName.text name = e.1 ∧ failure = .invalidOption name fault) ∨
          (∀ name : OptionName, name.text ≠ e.1) ∧
            failure = .invalidRequest (.unknownOption e.1))) ∧
    ∀ o, parse config options = .ok o →
      (∀ name v, (OptionName.text name, v) ∈ options → name.Means config v (o.setting name)) ∧
      (∀ name, (∀ v, (OptionName.text name, v) ∉ options) →
        o.setting name = (default config).setting name) ∧
      (∀ other : Body, (Entries.keys other).Nodup → (∀ e, e ∈ other ↔ e ∈ options) →
        parse config other = .ok o) ∧
      (config.Loaded → o.limit ≤ config.maxLimit) := by
  refine ⟨accepted_setAll_iff, fun failure => exists_fault_of_setAll, fun o h => ?_⟩
  exact ⟨fun _ _ => means_of_mem hkeys h, fun _ => setting_of_not_mem h,
    fun _ hother hsame => parse_eq_of_mem_iff hkeys hother hsame h, fun hc => limit_le hc h⟩

/-- The order of the entries does not show in the result, and a limit above the greatest one is
lowered to it. -/
theorem parse_exact_swapped :
    let options : Body :=
      [("sort", .array [.document [("age", .string "desc")], .document [("name", .string "desc")]]),
        ("limit", .int64 1000000), ("use_index", .array [.string "_design/x", .string "age"])]
    let o : FindOptions :=
      { default .default with
        limit := 10000, sort := some ⟨[⟨["age"]⟩, ⟨["name"]⟩], .desc⟩, useIndex := some "age" }
    (Entries.keys options).Nodup ∧ FindConfig.Loaded .default ∧
      parse .default options = .ok o ∧ parse .default options.reverse = .ok o ∧
      o.limit ≤ FindConfig.default.maxLimit ∧ ¬ Writes .default ("limit", .double ⟨0⟩) := by
  intro options o
  have hkeys : (Entries.keys options).Nodup := by decide
  have hloaded : FindConfig.Loaded .default :=
    .environment (show FindConfig.default.withOverrides (fun _ => none) = .ok .default from rfl)
  have hparse : parse .default options = .ok o := rfl
  have hreversed : (Entries.keys options.reverse).Nodup := by decide
  obtain ⟨-, -, hresult⟩ := parse_exact .default hkeys
  obtain ⟨-, -, horder, hlimit⟩ := hresult o hparse
  obtain ⟨haccepted, -, -⟩ := parse_exact .default
    (show (Entries.keys [("limit", Value.double ⟨0⟩)]).Nodup by decide)
  refine ⟨hkeys, hloaded, hparse, horder _ hreversed fun e => List.mem_reverse, hlimit hloaded, ?_⟩
  intro hwrites
  obtain ⟨_, h⟩ := haccepted.mpr (List.forall_mem_singleton.mpr hwrites)
  cases h

end FindOptions

end DocFind
