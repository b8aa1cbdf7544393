import DocFind.Plan
import DocFind.Proofs.Index.Range
import DocFind.Proofs.Selector.Conjuncts
import DocFind.Proofs.Selector.Constraints

/-!
# The range of an index under constraints

A derived range holds the key of a body just if the conjuncts that it settles accept the body. All
keys in it agree in the leading fields that it fixes. The proof follows the derivation along the
fields of the index: the key built so far is equal to the beginning of a document's key just if the
conjuncts used so far accept the document.
-/
namespace DocFind

theorem IndexKey.ofBody_append (front rest : List FieldPath) (body : Body) :
    ofBody (front ++ rest) body = ⟨(ofBody front body).parts ++ (ofBody rest body).parts⟩ := by
  simp [ofBody]

namespace Constraints

variable {c : Constraints} {path : FieldPath} {k : FieldConstraint} {body : Body}

theorem value_cmp_ofOption (v : Value) (o : Option Value) :
    (KeyPart.value v).cmp (KeyPart.ofOption o) = .eq ↔
      (o.any fun x => Comparison.eq.admits (x.cmp v)) = true := by
  cases o with
  | none => exact ⟨fun h => (by cases h), fun h => (by cases h)⟩
  | some x =>
    have hcomm : v.cmp x = .eq ↔ x.cmp v = .eq := Std.OrientedCmp.eq_comm
    simp [KeyPart.ofOption, Comparison.admits, hcomm]

/-- The equality of a constraint is a conjunct. -/
theorem conjunct_of_equality (h : c.on? path = some k) {i : Nat} {v : Value}
    (heq : k.equality = some (i, v)) :
    c.conjuncts[i]? = some (.field path (.compare .eq v)) :=
  (mem_comparisons.mp ((on?_eq_some h).1.equality i v heq)).1

/-- Without an equality, the conjuncts that bound a field accept the bodies that hold a value there
between the bounds. -/
theorem acceptAt_boundPositions (h : c.on? path = some k) (heq : k.equality = none) :
    c.AcceptAt k.boundPositions body ↔ ∃ v, Body.resolve? body path = some v ∧ k.Admits v := by
  obtain ⟨hsums, hne⟩ := on?_eq_some h
  have hbound := hsums.bounds_only heq
  have hmember : ∀ f ∈ c.comparisons path,
      c.conjuncts[f.1]? = some (.field path (.compare f.2.1 f.2.2)) ∧ f.2.1 ≠ .ne := by
    rintro ⟨i, op, v⟩ hf
    obtain ⟨hs, -, hop⟩ := mem_comparisons.mp hf
    exact ⟨hs, hop⟩
  constructor
  · intro haccept
    have hholds : ∀ f ∈ c.comparisons path,
        (Body.resolve? body path).any (fun x => f.2.1.admits (x.cmp f.2.2)) = true := by
      intro f hf
      obtain ⟨hs, hop⟩ := hmember f hf
      rw [← accepts_compare hop]
      exact haccept f.1 ((hsums.positions f.1).mpr ⟨f, hf, rfl, hbound f hf⟩) _ hs
    obtain ⟨first, hfirst⟩ := List.exists_mem_of_ne_nil _ hne
    cases hresolve : Body.resolve? body path with
    | none =>
      have hnone := hholds first hfirst
      rw [hresolve] at hnone
      cases hnone
    | some x =>
      rw [hresolve] at hholds
      exact ⟨x, rfl, (hsums.admits x).mpr fun f hf _ => hholds f hf⟩
  · rintro ⟨x, hresolve, hadmits⟩ i hi s hs
    obtain ⟨f, hf, rfl, hop⟩ := (hsums.positions i).mp hi
    obtain ⟨hconjunct, hne⟩ := hmember f hf
    obtain rfl := Option.some.inj (hs.symm.trans hconjunct)
    rw [accepts_compare hne, hresolve]
    exact (hsums.admits x).mp hadmits f hf hop

/-- The key is equal to what a body holds in some fields just if the conjuncts at some positions
accept the body. -/
structure Pins (c : Constraints) (key : IndexKey) (used : List Nat) (fields : List FieldPath) :
    Prop where
  length : key.parts.length = fields.length
  equal : ∀ body, key.cmp (.ofBody fields body) = .eq ↔ c.AcceptAt used body

theorem pins_nil (c : Constraints) : c.Pins ⟨[]⟩ [] [] where
  length := rfl
  equal body := by
    refine ⟨fun _ i hi => ?_, fun _ => rfl⟩
    simp at hi

theorem Pins.snoc {key : IndexKey} {used : List Nat} {fields : List FieldPath}
    (hp : c.Pins key used fields) (h : c.on? path = some k) {i : Nat} {v : Value}
    (heq : k.equality = some (i, v)) :
    c.Pins (key.snoc (.value v)) (used ++ [i]) (fields ++ [path]) where
  length := by simp [hp.length]
  equal body := by
    have hconjunct := conjunct_of_equality h heq
    have hlen : key.parts.length = (IndexKey.ofBody fields body).parts.length := by
      rw [hp.length, IndexKey.length_ofBody]
    have hcmp : (key.snoc (.value v)).cmp (.ofBody (fields ++ [path]) body) =
        (key.cmp (.ofBody fields body)).then
          ((KeyPart.value v).cmp (KeyPart.ofOption (Body.resolve? body path))) := by
      have hone : (IndexKey.ofBody [path] body).parts =
          [KeyPart.ofOption (Body.resolve? body path)] := rfl
      rw [IndexKey.ofBody_append, IndexKey.snoc, IndexKey.cmp_append hlen, hone,
        List.compareLex_cons_cons, List.compareLex_nil_nil, Ordering.then_eq]
    rw [hcmp, Ordering.then_eq_eq, hp.equal, value_cmp_ofOption, acceptAt_append,
      acceptAt_singleton hconjunct, accepts_compare Comparison.noConfusion]

end Constraints

namespace DerivedRange

variable {c : Constraints}

/-- What a scan relies on. -/
structure Sound (derived : DerivedRange) (c : Constraints) (fields : List FieldPath) : Prop where
  /-- The range holds the bodies that the settled conjuncts accept. -/
  settles : ∀ body, derived.range.holds (.ofBody fields body) = true ↔
    c.AcceptAt derived.used body
  /-- The keys in the range agree in the leading fields that it fixes. -/
  pinned : ∃ pins : IndexKey, ∀ body, derived.range.holds (.ofBody fields body) = true →
    pins.cmp (.ofBody (fields.take derived.fixed) body) = .eq
  /-- No key of a document is on the edge of the range. -/
  clear : ∀ key : IndexKey, key.Stored → derived.range.ClearOf key

theorem stopAt_sound {key : IndexKey} {used : List Nat} {front rest : List FieldPath}
    (hp : c.Pins key used front) : (deriveFrom.stopAt key used).Sound c (front ++ rest) := by
  rw [deriveFrom.stopAt]
  split_ifs with hnil
  · have hfront : front = [] := by
      have hlen := hp.length
      rw [hnil] at hlen
      exact List.length_eq_zero_iff.mp hlen.symm
    obtain ⟨parts⟩ := key
    obtain rfl : parts = [] := hnil
    subst hfront
    refine ⟨fun body => ?_, ⟨⟨[]⟩, fun body _ => rfl⟩, fun key _ => ScanRange.full_clearOf key⟩
    rw [← hp.equal body]
    exact ⟨fun _ => rfl, fun _ => rfl⟩
  · have hholds (body : Body) :
        (ScanRange.startingWith key).holds (.ofBody (front ++ rest) body) = true ↔
          key.cmp (.ofBody front body) = .eq := by
      rw [IndexKey.ofBody_append]
      exact ScanRange.startingWith_holds (by rw [hp.length, IndexKey.length_ofBody])
        (IndexKey.ofBody_stored rest body)
    have htake : (front ++ rest).take key.parts.length = front := by rw [hp.length, List.take_left]
    refine ⟨fun body => (hholds body).trans (hp.equal body), ⟨key, fun body hin => ?_⟩,
      fun other _ => ScanRange.startingWith_clearOf key other⟩
    rw [htake]
    exact (hholds body).mp hin

theorem bounded_sound {key : IndexKey} {used : List Nat} {front rest : List FieldPath}
    {path : FieldPath} {k : FieldConstraint} (hp : c.Pins key used front)
    (hon : c.on? path = some k) (heq : k.equality = none) :
    (⟨.bounded key k.lower k.upper, used ++ k.boundPositions, key.parts.length⟩ :
      DerivedRange).Sound c (front ++ path :: rest) := by
  have hholds (body : Body) :
      (ScanRange.bounded key k.lower k.upper).holds (.ofBody (front ++ path :: rest) body) = true ↔
        key.cmp (.ofBody front body) = .eq ∧
          ∃ v, KeyPart.ofOption (Body.resolve? body path) = .value v ∧ k.Admits v := by
    rw [IndexKey.ofBody_append]
    exact ScanRange.bounded_holds (by rw [hp.length, IndexKey.length_ofBody])
      (KeyPart.ofOption_cmp_greatest _) (IndexKey.ofBody_stored rest body) k.lower k.upper
  have hvalue (o : Option Value) (v : Value) : KeyPart.ofOption o = .value v ↔ o = some v := by
    cases o <;> simp [KeyPart.ofOption]
  have htake : (front ++ path :: rest).take key.parts.length = front := by
    rw [hp.length, List.take_left]
  refine ⟨fun body => ?_, ⟨key, fun body hin => ?_⟩,
    fun other hother => ScanRange.bounded_clearOf key _ _ hother⟩
  · simp only [hholds, hvalue, hp.equal, Constraints.acceptAt_append,
      Constraints.acceptAt_boundPositions hon heq]
  · rw [htake]
    exact ((hholds body).mp hin).1

theorem deriveFrom_sound {key : IndexKey} {used : List Nat} {front : List FieldPath}
    (rest : List FieldPath) (hp : c.Pins key used front) :
    (deriveFrom c key used rest).Sound c (front ++ rest) := by
  -- The key and the used positions grow along the fields, so `Pins` is carried with them.
  induction rest generalizing key used front with
  | nil => exact stopAt_sound hp
  | cons path rest ih =>
    rw [deriveFrom]
    cases hon : c.on? path with
    | none => exact stopAt_sound hp
    | some k =>
      cases heq : k.equality with
      | none =>
        simp only [heq]
        exact bounded_sound hp hon heq
      | some pin =>
        simp only [heq]
        have hstep := ih (hp.snoc hon heq)
        rwa [List.append_assoc, List.singleton_append] at hstep

end DerivedRange

theorem deriveRange_sound (c : Constraints) (fields : List FieldPath) :
    (deriveRange c fields).Sound c fields :=
  DerivedRange.deriveFrom_sound fields c.pins_nil

/-- A selector accepts a body, stored or not, just if the key of the body lies in the range that is
derived for the fields of an index and the residual accepts the body. -/
theorem Selector.accepts_iff_inRange_and_residual (s : Selector) (d : IndexDefinition)
    (body : Body) :
    let c := Constraints.ofSelector s
    let derived := deriveRange c d.fields
    s.accepts body = true ↔ derived.range.holds (.ofBody d.fields body) = true ∧
      (c.residual derived.used).all (fun r => r.accepts body) = true := by
  intro c derived
  have hsound : derived.Sound c d.fields := deriveRange_sound c d.fields
  rw [hsound.settles body]
  exact Constraints.accepts_iff_used_and_residual s derived.used body

/-- A bound of null admits every stored value. A missing one is outside of the range, so nothing
is left to check. -/
example :
    let c := Constraints.ofSelector (.field ⟨["a"]⟩ (.compare .gte .null))
    let derived := deriveRange c [⟨["a"]⟩, ⟨["b"]⟩]
    derived.range.holds (.ofBody [⟨["a"]⟩, ⟨["b"]⟩] [("a", .null)]) = true ∧
      derived.range.holds (.ofBody [⟨["a"]⟩, ⟨["b"]⟩] [("b", .null)]) = false ∧
      (c.residual derived.used).isNone = true := by decide

end DocFind
