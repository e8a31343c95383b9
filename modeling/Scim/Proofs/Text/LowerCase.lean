import Mathlib.Data.List.Forall2
import Scim.Text.LowerCase

/-!
# Lowercasing a part of a text

Every character but one is lowercased on its own. A capital sigma is lowercased by what stands before
and after it, so that a part of a text may have one lowercase form in its place and another one on its
own. The two forms are compared here sigma by sigma.
-/

namespace Scim.Text

/-- Whether a capital sigma ends a word between two texts, of which the one before it is reversed. -/
def endsWord (before after : List Char) : Bool := meetsCased before && !meetsCased after

def lowerSigma (before after : List Char) : Char := if endsWord before after then 'ς' else 'σ'

/-- The lowercase form of one character between two texts. -/
def lowerAt (before : List Char) (c : Char) (after : List Char) : List Char :=
  if c = 'İ' then ['i', '\u0307']
  else if c = 'Σ' then [lowerSigma before after]
  else [lowerLetter c]

/-- The lowercase form of a text between two others. -/
def lowerBetween (before : List Char) : List Char → List Char → List Char
  | [], _ => []
  | c :: rest, after => lowerAt before c (rest ++ after) ++ lowerBetween (c :: before) rest after

variable {before before' text after after' : List Char}

theorem lowerAt_of_ne {c : Char} (other : c ≠ 'Σ') : lowerAt before c after = lowerAt before' c after' := by
  simp only [lowerAt, other, if_false]

theorem lowerAfter_cons {c : Char} {rest : List Char} :
    lowerAfter before (c :: rest) = lowerAt before c rest ++ lowerAfter (c :: before) rest := by
  simp only [lowerAfter, lowerAt, lowerSigma, endsWord]
  split
  · rfl
  · split <;> rfl

/-- A text is lowercased part by part, each part in its place. -/
theorem lowerAfter_append :
    lowerAfter before (text ++ after) =
      lowerBetween before text after ++ lowerAfter (text.reverse ++ before) after := by
  induction text generalizing before with
  | nil => rfl
  | cons c rest ih => simp [lowerAfter_cons, lowerBetween, ih]

theorem lowerCase_eq_lowerBetween : lowerCase text = lowerBetween [] text [] := by
  have parts : lowerAfter [] (text ++ []) = _ := lowerAfter_append
  simpa [lowerAfter, lowerCase] using parts

theorem lowerCase_append_append :
    lowerCase (before ++ text ++ after) =
      lowerBetween [] before (text ++ after) ++ lowerBetween before.reverse text after ++
        lowerAfter (text.reverse ++ before.reverse) after := by
  simp [lowerCase, lowerAfter_append]

/-! ## Sigma by sigma -/

/-- A statement about all sigmas of a text is one about its first character and about the others. -/
theorem forall_sigma_cons {c : Char} {rest : List Char} {P : List Char → List Char → Prop} :
    (∀ x y, c :: rest = x ++ 'Σ' :: y → P x y) ↔
      (c = 'Σ' → P [] rest) ∧ ∀ x y, rest = x ++ 'Σ' :: y → P (c :: x) y := by
  constructor
  · intro all
    refine ⟨fun sigma => all [] rest (by rw [sigma]; rfl), ?_⟩
    rintro x y rfl
    exact all (c :: x) y rfl
  · rintro ⟨first, others⟩ x y place
    cases x with
    | nil =>
      obtain ⟨rfl, rfl⟩ := List.cons.inj place
      exact first rfl
    | cons d x =>
      obtain ⟨rfl, inRest⟩ := List.cons.inj place
      exact others x y inRest

/-- Two forms of one text are related character by character if those of its sigmas are. -/
theorem forall₂_lowerBetween {R : Char → Char → Prop} (refl : ∀ c, R c c)
    (sigmas : ∀ x y, text = x ++ 'Σ' :: y →
      R (lowerSigma (x.reverse ++ before) (y ++ after))
        (lowerSigma (x.reverse ++ before') (y ++ after'))) :
    List.Forall₂ R (lowerBetween before text after) (lowerBetween before' text after') := by
  induction text generalizing before before' with
  | nil => exact .nil
  | cons c rest ih =>
    obtain ⟨first, others⟩ := forall_sigma_cons.mp sigmas
    refine List.rel_append ?_ (ih fun x y place => by simpa using others x y place)
    by_cases sigma : c = 'Σ'
    · subst sigma
      exact .cons (first rfl) .nil
    · have alone : lowerAt before c (rest ++ after) = lowerAt before' c (rest ++ after') :=
        lowerAt_of_ne sigma
      rw [alone]
      exact List.forall₂_same.mpr fun d _ => refl d

theorem length_lowerBetween :
    (lowerBetween before text after).length = (lowerBetween before' text after').length :=
  (forall₂_lowerBetween (R := fun _ _ => True) (fun _ => trivial) fun _ _ _ => trivial).length_eq

theorem lowerSigma_inj :
    lowerSigma before after = lowerSigma before' after' ↔ endsWord before after = endsWord before' after' := by
  simp only [lowerSigma]
  cases endsWord before after <;> cases endsWord before' after' <;> decide

theorem lowerBetween_eq_iff :
    lowerBetween before text after = lowerBetween before' text after' ↔
      ∀ x y, text = x ++ 'Σ' :: y →
        endsWord (x.reverse ++ before) (y ++ after) = endsWord (x.reverse ++ before') (y ++ after') := by
  constructor
  · intro same
    induction text generalizing before before' with
    | nil => simp
    | cons c rest ih =>
      have parts := List.append_inj same (by
        by_cases sigma : c = 'Σ'
        · subst sigma; rfl
        · rw [lowerAt_of_ne sigma])
      refine forall_sigma_cons.mpr ⟨?_, fun x y place => by simpa using ih parts.2 x y place⟩
      rintro rfl
      exact lowerSigma_inj.mp (List.singleton_inj.mp parts.1)
  · intro agree
    refine List.forall₂_eq_eq_eq ▸ forall₂_lowerBetween (fun _ => rfl) fun x y place => ?_
    exact lowerSigma_inj.mpr (agree x y place)

/-- Every capital sigma of a text ends a word between two others exactly if it does so in the text on
its own. -/
def SigmasAgree (before text after : List Char) : Prop :=
  ∀ x y, text = x ++ 'Σ' :: y → endsWord (before ++ x).reverse (y ++ after) = endsWord x.reverse y

/-- The sigmas decide whether a text has the same lowercase form in its place as on its own. -/
theorem sigmasAgree_iff :
    SigmasAgree before text after ↔ lowerBetween before.reverse text after = lowerCase text := by
  rw [lowerCase_eq_lowerBetween, lowerBetween_eq_iff]
  simp [SigmasAgree]

instance : Decidable (SigmasAgree before text after) := decidable_of_iff' _ sigmasAgree_iff

theorem sigmasAgree_alone : SigmasAgree [] text [] := by
  intro x y _
  simp

/-! ## Every place at once -/

/-- Case rules look through a text to what follows it only if they look through all of it. -/
theorem meetsCased_append :
    meetsCased (text ++ after) = (meetsCased text || text.all isCaseIgnorable && meetsCased after) := by
  induction text with
  | nil => rfl
  | cons c rest ih =>
    cases ignorable : isCaseIgnorable c with
    | true => simpa [meetsCased, ignorable] using ih
    | false => simp [meetsCased, ignorable]

theorem meetsCased_letter : meetsCased ['a'] = true := by decide +kernel

theorem lowerAfter_letter : lowerAfter before ['a'] = ['a'] := rfl

theorem lowerBetween_letter : lowerBetween before ['a'] after = ['a'] := rfl

/-- Whether the sigmas agree in every place shows in two places: before a letter and after one. -/
theorem sigmasAgree_of_letter (followed : SigmasAgree [] text ['a']) (preceded : SigmasAgree ['a'] text []) :
    SigmasAgree before text after := by
  intro x y place
  have right := followed x y place
  have left := preceded x y place
  -- What comes after a sigma can undo the end of a word, what comes before it can make one.
  simp only [endsWord, List.nil_append, List.append_nil, List.reverse_append, meetsCased_append,
    List.reverse_singleton, meetsCased_letter, Bool.and_true] at right left ⊢
  generalize meetsCased x.reverse = endsBefore, meetsCased y = startsAfter,
    x.reverse.all isCaseIgnorable = opensLeft, y.all isCaseIgnorable = opensRight,
    meetsCased before.reverse = letterBefore, meetsCased after = letterAfter at right left ⊢
  revert endsBefore startsAfter opensLeft opensRight letterBefore letterAfter
  decide

/-- One form of a text has `c` wherever it differs from the other one. -/
def Gains (c : Char) : List Char → List Char → Prop := List.Forall₂ fun a b => a = b ∨ a ≠ c ∧ b = c

/-- What follows a text can only make a sigma of it one that does not end a word. -/
theorem gains_of_followed : Gains 'ς' (lowerBetween [] text after) (lowerCase text) := by
  rw [lowerCase_eq_lowerBetween]
  refine forall₂_lowerBetween (fun _ => Or.inl rfl) fun x y _ => ?_
  simp only [lowerSigma, endsWord, List.append_nil, meetsCased_append]
  cases meetsCased x.reverse <;> cases meetsCased y <;>
    cases y.all isCaseIgnorable && meetsCased after <;> decide

/-- What precedes a text can only make a sigma of it one that ends a word. -/
theorem gains_of_preceded : Gains 'σ' (lowerBetween before text []) (lowerCase text) := by
  rw [lowerCase_eq_lowerBetween]
  refine forall₂_lowerBetween (fun _ => Or.inl rfl) fun x y _ => ?_
  simp only [lowerSigma, endsWord, List.append_nil, meetsCased_append]
  cases meetsCased x.reverse <;> cases meetsCased y <;>
    cases x.reverse.all isCaseIgnorable && meetsCased before <;> decide

/-- Gains show in the number of occurrences. -/
theorem Gains.count {c : Char} {s t : List Char} (gains : Gains c s t) :
    s.count c ≤ t.count c ∧ (t.count c ≤ s.count c → s = t) := by
  induction gains with
  | nil => exact ⟨Nat.le_refl _, fun _ => rfl⟩
  | cons related _ ih =>
    obtain ⟨grows, equal⟩ := ih
    rcases related with rfl | ⟨other, rfl⟩
    · rw [List.count_cons, List.count_cons]
      refine ⟨by omega, fun enough => ?_⟩
      rw [equal (by omega)]
    · rw [List.count_cons_of_ne other, List.count_cons_self]
      exact ⟨by omega, fun enough => by omega⟩

/-- A text that only loses occurrences of `c` in its place is not found there, unless it keeps its
form. -/
theorem Gains.eq_of_infix {c : Char} {s t : List Char} (gains : Gains c s t)
    (found : t <:+: before ++ s ++ after) (notBefore : c ∉ before) (notAfter : c ∉ after) : s = t := by
  refine gains.count.2 ?_
  have enough := found.sublist.count_le c
  rw [List.count_append, List.count_append, List.count_eq_zero.mpr notBefore,
    List.count_eq_zero.mpr notAfter] at enough
  omega

end Scim.Text
