/-!
# Splitting at a mark

A text is split at the first or at the last occurrence of a character, and the character itself is
dropped. Where it does not occur there is nothing to split. Main statements: the parts and the mark
between them are the text, and the mark does not occur on the side that is passed over.
-/

namespace Scim.Text

def splitFirst (mark : Char) : List Char → Option (List Char × List Char)
  | [] => none
  | c :: rest =>
    if c = mark then some ([], rest)
    else (splitFirst mark rest).map fun (before, after) => (c :: before, after)

def splitLast (mark : Char) : List Char → Option (List Char × List Char)
  | [] => none
  | c :: rest =>
    match splitLast mark rest with
    | some (before, after) => some (c :: before, after)
    | none => if c = mark then some ([], rest) else none

theorem splitFirst_eq_none_iff {mark : Char} {text : List Char} :
    splitFirst mark text = none ↔ mark ∉ text := by
  induction text with
  | nil => simp [splitFirst]
  | cons c rest ih =>
    by_cases same : c = mark
    · simp [splitFirst, same]
    · simp [splitFirst, same, ih, Ne.symm same]

/-- The mark stands between the two parts, and not in the first one. -/
theorem splitFirst_eq_some_iff {mark : Char} {text before after : List Char} :
    splitFirst mark text = some (before, after) ↔ text = before ++ mark :: after ∧ mark ∉ before := by
  induction text generalizing before with
  | nil => simp [splitFirst]
  | cons c rest ih =>
    by_cases same : c = mark
    · cases before <;> simp [splitFirst, same]
      intro equal _ different
      exact absurd equal different
    · cases before with
      | nil => simp [splitFirst, same]
      | cons first before =>
        simp only [splitFirst, same, if_false, Option.map_eq_some_iff, Prod.exists, Prod.mk.injEq,
          List.cons.injEq, List.cons_append, List.mem_cons, not_or]
        constructor
        · rintro ⟨_, _, found, ⟨rfl, rfl⟩, rfl⟩
          obtain ⟨equal, absent⟩ := ih.mp found
          exact ⟨⟨rfl, equal⟩, Ne.symm same, absent⟩
        · rintro ⟨⟨rfl, equal⟩, _, absent⟩
          exact ⟨before, after, ih.mpr ⟨equal, absent⟩, ⟨rfl, rfl⟩, rfl⟩

theorem splitLast_eq_none_iff {mark : Char} {text : List Char} :
    splitLast mark text = none ↔ mark ∉ text := by
  induction text with
  | nil => simp [splitLast]
  | cons c rest ih =>
    cases found : splitLast mark rest with
    | none =>
      have absent := ih.mp found
      by_cases same : c = mark
      · simp [splitLast, found, same]
      · simp [splitLast, found, same, absent, Ne.symm same]
    | some parts =>
      have present : mark ∈ rest := by
        refine Decidable.byContradiction fun absent => ?_
        simp [ih.mpr absent] at found
      simp [splitLast, found, present]

/-- The mark stands between the two parts, and not in the second one. -/
theorem splitLast_eq_some_iff {mark : Char} {text before after : List Char} :
    splitLast mark text = some (before, after) ↔ text = before ++ mark :: after ∧ mark ∉ after := by
  induction text generalizing before after with
  | nil => simp [splitLast]
  | cons c rest ih =>
    cases found : splitLast mark rest with
    | none =>
      have absent := splitLast_eq_none_iff.mp found
      cases before with
      | nil =>
        by_cases same : c = mark
        · subst same
          simp only [splitLast, found, if_true, Option.some.injEq, Prod.mk.injEq, true_and,
            List.nil_append, List.cons.injEq]
          exact ⟨fun equal => ⟨equal, equal ▸ absent⟩, And.left⟩
        · simp [splitLast, found, same]
      | cons first before =>
        constructor
        · intro split
          by_cases same : c = mark <;> simp [splitLast, found, same] at split
        · rintro ⟨equal, _⟩
          simp only [List.cons_append, List.cons.injEq] at equal
          exact absurd (by simp [equal.2]) absent
    | some parts =>
      obtain ⟨front, back⟩ := parts
      obtain ⟨restEq, absent⟩ := ih.mp found
      cases before with
      | nil =>
        constructor
        · intro split
          simp [splitLast, found] at split
        · rintro ⟨equal, absentAfter⟩
          simp only [List.nil_append, List.cons.injEq] at equal
          exact absurd (by simp [← equal.2, restEq]) absentAfter
      | cons first before =>
        simp only [splitLast, found, Option.some.injEq, Prod.mk.injEq, List.cons.injEq,
          List.cons_append]
        constructor
        · rintro ⟨⟨rfl, rfl⟩, rfl⟩
          exact ⟨⟨rfl, restEq⟩, absent⟩
        · rintro ⟨⟨rfl, equal⟩, absentAfter⟩
          have same := ih.mpr ⟨equal, absentAfter⟩
          rw [found] at same
          simp only [Option.some.injEq, Prod.mk.injEq] at same
          exact ⟨⟨rfl, same.1⟩, same.2⟩

end Scim.Text
