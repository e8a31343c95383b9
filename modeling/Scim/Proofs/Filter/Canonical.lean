import Scim.Filter.Canonical
import Scim.Filter.Matching
import Scim.Filter.Printer
import Scim.Proofs.View

/-!
# Canonical names

What a reference is bound to does not depend on the case of its names, and a declared name is another
case of the one that was written. A filter in canonical form therefore reads the same values as
before, in a resource as in an element, equals the filter it was made from, and is canonical already.
None of this asks anything of the view.
-/

namespace Scim

/-! ### References -/

namespace View

variable {view : View} {left right reference : Reference} {resolved : Resolved} {member : Member}

/-- References that name the same thing are looked up alike. -/
theorem resolveIn?_congr (same : left.key = right.key) (member : Member) :
    resolveIn? left member = resolveIn? right member := by
  obtain ⟨_, sameName, sameSub⟩ : left.urn = right.urn ∧
      Text.fold left.name = Text.fold right.name ∧
      left.sub.map Text.fold = right.sub.map Text.fold := by simpa [Reference.key] using same
  have sameDefinition : member.schema.find? left.name = member.schema.find? right.name :=
    Attribute.find?_congr sameName
  simp only [resolveIn?, sameDefinition]
  cases leftSub : left.sub with
  | none =>
    rw [leftSub] at sameSub
    rw [Option.map_eq_none_iff.mp sameSub.symm]
  | some name =>
    rw [leftSub] at sameSub
    obtain ⟨other, rightSub, sameNames⟩ := Option.map_eq_some_iff.mp sameSub.symm
    have sameSubs (definition : Attribute) : definition.sub? name = definition.sub? other :=
      Attribute.find?_congr sameNames.symm
    simp only [rightSub, sameSubs]

theorem resolveAttribute?_congr (same : left.key = right.key) :
    view.resolveAttribute? left = view.resolveAttribute? right := by
  have sameUrn : left.urn = right.urn := congrArg Prod.fst same
  have alike : resolveIn? left = resolveIn? right := funext (resolveIn?_congr same)
  unfold resolveAttribute?
  rw [sameUrn, alike]

/-- The declared names of what is looked up are those of the reference, up to case. -/
theorem canonicalReference_key (bound : resolveIn? reference member = some resolved) :
    (resolved.canonicalReference reference).key = reference.key := by
  simp only [resolveIn?, Option.bind_eq_bind, Option.bind_eq_some_iff] at bound
  obtain ⟨definition, found, bound⟩ := bound
  have sameName := (Attribute.find?_eq_some found).2
  cases sub : reference.sub with
  | none =>
    rw [sub] at bound
    cases bound
    simp [Reference.key, Resolved.canonicalReference, sub, sameName]
  | some name =>
    rw [sub] at bound
    obtain ⟨inner, foundSub, bound⟩ := Option.bind_eq_some_iff.mp bound
    cases bound
    have sameSub := (Attribute.find?_eq_some foundSub).2
    simp [Reference.key, Resolved.canonicalReference, sub, sameName, sameSub]

end View

namespace Filter

variable {view : View} {parent : Option Attribute} {path : Reference} {scope : Scope}

/-- Names change nothing but their case. -/
theorem canonicalPath_key (view : View) (parent : Option Attribute) (path : Reference) :
    (canonicalPath view parent path).key = path.key := by
  cases parent with
  | some parent =>
    cases named : parent.sub? path.name with
    | none => simp only [canonicalPath, named]
    | some sub =>
      have sameName := (Attribute.find?_eq_some named).2
      simp only [canonicalPath, named, Reference.key, sameName]
  | none =>
    cases bound : view.resolveAttribute? path with
    | none => simp only [canonicalPath, bound]
    | some resolved =>
      obtain ⟨member, _, found⟩ := View.exists_resolveIn?_eq_some bound
      simp only [canonicalPath, bound, View.canonicalReference_key found]

theorem resolveAttribute?_canonicalPath (view : View) (parent : Option Attribute) (path : Reference) :
    view.resolveAttribute? (canonicalPath view parent path) = view.resolveAttribute? path :=
  View.resolveAttribute?_congr (canonicalPath_key view parent path)

/-- Canonical names are found under themselves. -/
theorem canonicalPath_canonicalPath (view : View) (parent : Option Attribute) (path : Reference) :
    canonicalPath view parent (canonicalPath view parent path) = canonicalPath view parent path := by
  cases parent with
  | some parent =>
    cases named : parent.sub? path.name with
    | none => simp only [canonicalPath, named]
    | some sub =>
      have again : parent.sub? sub.name = some sub := Attribute.find?_again named
      simp only [canonicalPath, named, again]
  | none =>
    have again := resolveAttribute?_canonicalPath view none path
    cases bound : view.resolveAttribute? path with
    | none => simp only [canonicalPath, bound]
    | some resolved =>
      rw [bound] at again
      simp only [canonicalPath, bound] at again ⊢
      rw [again]
      rfl

/-- As far as the names of a path are found, they are spelled as they are declared. -/
def HasDeclaredNames (view : View) (parent : Option Attribute) (path : Reference) : Prop :=
  match parent with
  | some parent => ∀ sub, parent.sub? path.name = some sub → path.name = sub.name
  | none => ∀ resolved, view.resolveAttribute? path = some resolved →
      path.name = resolved.definition.name ∧ path.sub = resolved.sub.map Attribute.name

theorem hasDeclaredNames_canonicalPath (view : View) (parent : Option Attribute) (path : Reference) :
    HasDeclaredNames view parent (canonicalPath view parent path) := by
  -- The names are found again, and what is found is what they were taken from.
  cases parent with
  | some parent =>
    intro sub named
    rw [← canonicalPath_canonicalPath]
    rw [canonicalPath, named]
  | none =>
    intro resolved bound
    rw [← canonicalPath_canonicalPath]
    rw [canonicalPath, bound]
    exact ⟨rfl, rfl⟩

/-! ### Filters -/

/-- Every name in a filter that is found is spelled as it is declared. The names in brackets are those
of sub-attributes where the brackets stand behind an attribute that is found, and are looked up in
the view anywhere else. -/
def IsCanonical (view : View) (parent : Option Attribute) : Filter → Prop
  | .compare path _ _ | .present path => HasDeclaredNames view parent path
  | .logical left _ right => IsCanonical view parent left ∧ IsCanonical view parent right
  | .group _ inner => IsCanonical view parent inner
  | .valuePath path inner =>
    HasDeclaredNames view parent path ∧
      match parent with
      | some _ => IsCanonical view none inner
      | none => IsCanonical view ((view.resolveAttribute? path).map Resolved.definition) inner

/-- Names are rewritten for the scope in which they are read: those of a resource by the view, those
of an element by the attribute it is an element of. -/
inductive Mirrors (view : View) : Option Attribute → Scope → Prop
  | resource (object : Object) : Mirrors view none (.resource object view)
  | element (object : Object) (parent : Attribute) :
    Mirrors view (some parent) (.element object parent)

/-- A path in canonical form reads the same values. -/
theorem lookup?_canonicalPath (mirrors : Mirrors view parent scope) (path : Reference)
    (asValue : Bool) :
    scope.lookup? (canonicalPath view parent path) asValue = scope.lookup? path asValue := by
  cases mirrors with
  | resource object => simp only [Scope.lookup?, resolveAttribute?_canonicalPath]
  | element object parent =>
    cases named : parent.sub? path.name with
    | none => simp only [canonicalPath, named]
    | some sub =>
      have again : parent.sub? sub.name = some sub := Attribute.find?_again named
      simp only [Scope.lookup?, canonicalPath, named, again]

/-- A filter in canonical form holds where it held before. -/
theorem holds_canonicalIn (mirrors : Mirrors view parent scope) (filter : Filter) :
    (canonicalIn view parent filter).holds scope = filter.holds scope := by
  -- By induction on the filter, for both kinds of scope at once: brackets go from one to the other.
  induction filter generalizing parent scope with
  | compare path operator literal =>
    simp only [canonicalIn, holds, lookup?_canonicalPath mirrors]
  | present path => simp only [canonicalIn, holds, lookup?_canonicalPath mirrors]
  | logical left connective right ihLeft ihRight =>
    cases connective <;> simp only [canonicalIn, holds, ihLeft mirrors, ihRight mirrors]
  | group negated inner ih => simp only [canonicalIn, holds, ih mirrors]
  | valuePath path inner ih =>
    cases mirrors with
    | element object parent => simp only [canonicalIn, holds]
    | resource object =>
      simp only [canonicalIn, holds, resolveAttribute?_canonicalPath]
      cases view.resolveAttribute? path with
      | none => rfl
      | some resolved =>
        have inElement (element : Object) :
            (canonicalIn view (some resolved.definition) inner).holds
              (.element element resolved.definition) =
              inner.holds (.element element resolved.definition) := ih (.element element _)
        simp only [Option.map_some, inElement]

theorem same_canonicalIn (view : View) (parent : Option Attribute) (filter : Filter) :
    (canonicalIn view parent filter).same filter = true := by
  have samePath (parent : Option Attribute) (path : Reference) :
      (canonicalPath view parent path).same path = true :=
    Reference.same_iff.mpr (canonicalPath_key view parent path)
  induction filter generalizing parent with
  | compare path operator literal =>
    simp only [canonicalIn, same, samePath, Json.same_refl, beq_self_eq_true, Bool.and_self]
  | present path => simp only [canonicalIn, same, samePath]
  | logical left connective right ihLeft ihRight =>
    simp only [canonicalIn, same, ihLeft, ihRight, beq_self_eq_true, Bool.and_self]
  | group negated inner ih => simp only [canonicalIn, same, ih, beq_self_eq_true, Bool.and_self]
  | valuePath path inner ih => simp only [canonicalIn, same, samePath, ih, Bool.and_self]

theorem isCanonical_canonicalIn (view : View) (parent : Option Attribute) (filter : Filter) :
    (canonicalIn view parent filter).IsCanonical view parent := by
  have declared := hasDeclaredNames_canonicalPath view
  induction filter generalizing parent with
  | compare path operator literal => exact declared parent path
  | present path => exact declared parent path
  | logical left connective right ihLeft ihRight => exact ⟨ihLeft parent, ihRight parent⟩
  | group negated inner ih => exact ih parent
  | valuePath path inner ih =>
    refine ⟨declared parent path, ?_⟩
    cases parent with
    | some parent => exact ih none
    | none =>
      simp only [resolveAttribute?_canonicalPath]
      exact ih _

theorem canonicalIn_canonicalIn (view : View) (parent : Option Attribute) (filter : Filter) :
    canonicalIn view parent (canonicalIn view parent filter) = canonicalIn view parent filter := by
  induction filter generalizing parent with
  | compare path operator literal => simp only [canonicalIn, canonicalPath_canonicalPath]
  | present path => simp only [canonicalIn, canonicalPath_canonicalPath]
  | logical left connective right ihLeft ihRight => simp only [canonicalIn, ihLeft, ihRight]
  | group negated inner ih => simp only [canonicalIn, ih]
  | valuePath path inner ih =>
    -- The brackets are rewritten for the same attribute, as the path is still bound to it.
    cases parent <;>
      simp only [canonicalIn, canonicalPath_canonicalPath, resolveAttribute?_canonicalPath, ih]

/-- **Canonical form keeps the meaning of a filter**: it spells every name that is found as it is
declared, equals the filter up to the case of names, matches the same resources, and is written the
same if it is taken once more. -/
theorem canonicalize_keeps (filter : Filter) (view : View) :
    (filter.canonicalize view).IsCanonical view none ∧
    (filter.canonicalize view).same filter = true ∧
    (∀ resource, (filter.canonicalize view).isMatch view resource = filter.isMatch view resource) ∧
    ((filter.canonicalize view).canonicalize view).text = (filter.canonicalize view).text := by
  refine ⟨isCanonical_canonicalIn view none filter, same_canonicalIn view none filter,
    fun resource => ?_, ?_⟩
  · cases resource with
    | object object => exact holds_canonicalIn (.resource object) filter
    | _ => rfl
  · exact congrArg text (canonicalIn_canonicalIn view none filter)

end Filter

end Scim
