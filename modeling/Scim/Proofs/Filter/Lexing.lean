import Scim.Filter.Token
import Scim.Proofs.Except

/-!
# Tokens of a text

`Token.scan` counts its steps, and any number of steps that covers the text gives the same tokens.
With that number out of the way, `tokensAt` is described by one equation for each kind of token at
the front of a text: white space, marks, string literals and words.
-/

namespace Scim.Token

theorem splitQuoted_plain {c : Char} (notQuote : c ≠ '"') (notBackslash : c ≠ '\\') (rest : List Char) :
    splitQuoted (c :: rest) = (splitQuoted rest).map fun (body, after) => (c :: body, after) :=
  splitQuoted.eq_4 c rest (absurd · notQuote) fun _ _ is => absurd is notBackslash

/-- What closes a literal stands behind the quote that opened it. -/
theorem append_of_splitQuoted {text body after : List Char}
    (split : splitQuoted text = some (body, after)) :
    text = body ++ after := by
  fun_induction splitQuoted text generalizing body with
  | case1 => cases split
  | case2 rest =>
    cases split
    rfl
  | case3 escaped rest ih =>
    obtain ⟨⟨before, behind⟩, found, same⟩ := Option.map_eq_some_iff.mp split
    cases same
    simp [ih found]
  | case4 c rest _ _ ih =>
    obtain ⟨⟨before, behind⟩, found, same⟩ := Option.map_eq_some_iff.mp split
    cases same
    simp [ih found]

/-- Only at the end of a text a backslash takes no character with it. -/
theorem ne_backslash {c : Char} {rest : List Char}
    (notEscape : ∀ escaped behind, c = '\\' → rest = escaped :: behind → False) (nonempty : rest ≠ []) :
    c ≠ '\\' := by
  rintro rfl
  cases rest with
  | nil => exact nonempty rfl
  | cons escaped behind => exact notEscape escaped behind rfl rfl

/-- A mark has a kind of its own. -/
theorem ne_word_of_ofMark? {c : Char} {kind : Kind} (mark : Kind.ofMark? c = some kind) :
    kind ≠ .word := by
  rintro rfl
  unfold Kind.ofMark? at mark
  split at mark <;> cases mark

/-- A delimiter does not start a word. -/
theorem not_isDelimiter {c : Char} (notBlank : Text.isBlank c = false) (noMark : Kind.ofMark? c = none)
    (notQuote : c ≠ '"') : isDelimiter c = false := by
  simp [isDelimiter, notBlank, noMark, notQuote]

/-- A word takes at least one character from the front of a text. -/
theorem length_dropWhile_le {c : Char} (plain : isDelimiter c = false) (rest : List Char) :
    ((c :: rest).dropWhile (!isDelimiter ·)).length ≤ rest.length := by
  rw [List.dropWhile_cons_of_pos (by simp [plain])]
  exact (List.dropWhile_sublist _).length_le

/-- Any number of steps that covers the text will do. -/
theorem scan_eq_scan {steps others position : Nat} {text : List Char} (enough : text.length ≤ steps)
    (alsoEnough : text.length ≤ others) : scan steps position text = scan others position text := by
  induction steps generalizing others position text with
  | zero =>
    have empty : text = [] := List.length_eq_zero_iff.mp (Nat.le_zero.mp enough)
    subst empty
    rw [scan, scan]
  | succ steps ih =>
    match text, others with
    | [], _ => rw [scan, scan]
    | _ :: _, 0 => simp at alsoEnough
    | c :: rest, others + 1 =>
      -- Whatever stands at the front, less than the whole text is left behind it.
      simp only [List.length_cons, Nat.add_le_add_iff_right] at enough alsoEnough
      have next {at' : Nat} {after : List Char} (shorter : after.length ≤ rest.length) :
          scan steps at' after = scan others at' after :=
        ih (Nat.le_trans shorter enough) (Nat.le_trans shorter alsoEnough)
      rw [scan, scan]
      split
      · exact next (Nat.le_refl _)
      · split
        · rw [next (Nat.le_refl _)]
        next noMark =>
          split
          · split
            · rfl
            next body after split =>
              have shorter : after.length ≤ rest.length := by
                simp [append_of_splitQuoted split]
              split
              · rfl
              · rw [next shorter]
          next notQuote =>
            have start : isDelimiter c = false := not_isDelimiter (by simp_all) noMark notQuote
            simp only [next (length_dropWhile_le start rest)]

/-- The tokens of a text that starts at byte `position`. -/
def tokensAt (position : Nat) (text : List Char) : Except FilterError (List Token) :=
  scan text.length position text

theorem tokensAt_nil (position : Nat) : tokensAt position [] = .ok [] := rfl

theorem tokensAt_blank {c : Char} (blank : Text.isBlank c = true) (position : Nat) (rest : List Char) :
    tokensAt position (c :: rest) = tokensAt (position + c.utf8Size) rest := by
  rw [tokensAt, List.length_cons, scan, if_pos blank, tokensAt]

theorem tokensAt_mark {c : Char} {kind : Kind} (notBlank : Text.isBlank c = false)
    (mark : Kind.ofMark? c = some kind) (position : Nat) (rest : List Char) :
    tokensAt position (c :: rest) =
      (tokensAt (position + c.utf8Size) rest).map (⟨kind, position, String.singleton c⟩ :: ·) := by
  rw [tokensAt, List.length_cons, scan, if_neg (by simp [notBlank]), mark, tokensAt]
  rfl

/-- A string literal ends at the quote that closes it, whatever follows. -/
theorem tokensAt_quoted {body rest content : List Char}
    (split : splitQuoted (body ++ rest) = some (body, rest))
    (decoded : Json.decodeLiteral? ('"' :: body) = some content) (position : Nat) :
    tokensAt position ('"' :: (body ++ rest)) =
      (tokensAt (position + Text.byteLength ('"' :: body)) rest).map
        (⟨.string (String.ofList content), position, String.ofList ('"' :: body)⟩ :: ·) := by
  -- The steps that were meant for the literal are left over.
  have shorter : rest.length ≤ (body ++ rest).length := by simp
  rw [tokensAt, List.length_cons, scan, if_neg (by decide), show Kind.ofMark? '"' = none from rfl]
  simp only [if_true, split, decoded]
  rw [scan_eq_scan shorter (Nat.le_refl _), ← tokensAt]
  rfl

/-- What may follow a word: nothing, or a delimiter. -/
def EndsWord (rest : List Char) : Prop := ∀ c ∈ rest.head?, isDelimiter c = true

theorem takeWhile_word {word rest : List Char} (chars : ∀ c ∈ word, isDelimiter c = false)
    (ends : EndsWord rest) :
    (word ++ rest).takeWhile (!isDelimiter ·) = word ∧
      (word ++ rest).dropWhile (!isDelimiter ·) = rest := by
  induction word with
  | nil =>
    cases rest with
    | nil => exact ⟨rfl, rfl⟩
    | cons c rest =>
      have delimiter : isDelimiter c = true := ends c rfl
      simp [delimiter]
  | cons c word ih =>
    obtain ⟨taken, dropped⟩ := ih fun c member => chars c (List.mem_cons_of_mem _ member)
    have plain : isDelimiter c = false := chars c List.mem_cons_self
    simp [plain, taken, dropped]

/-- A word ends at the first delimiter. -/
theorem tokensAt_word {word rest : List Char} (nonempty : word ≠ [])
    (chars : ∀ c ∈ word, isDelimiter c = false) (ends : EndsWord rest) (position : Nat) :
    tokensAt position (word ++ rest) =
      (tokensAt (position + Text.byteLength word) rest).map
        (⟨.word, position, String.ofList word⟩ :: ·) := by
  obtain ⟨taken, dropped⟩ := takeWhile_word chars ends
  cases word with
  | nil => exact absurd rfl nonempty
  | cons c word =>
    have plain : isDelimiter c = false := chars c List.mem_cons_self
    simp only [isDelimiter, Bool.or_eq_false_iff, beq_eq_false_iff_ne, ne_eq] at plain
    obtain ⟨⟨notBlank, noMark⟩, notQuote⟩ := plain
    have noMark : Kind.ofMark? c = none := by simpa using noMark
    have shorter : rest.length ≤ (word ++ rest).length := by simp
    rw [List.cons_append] at taken dropped ⊢
    rw [tokensAt, List.length_cons, scan, if_neg (by simp [notBlank]), noMark]
    simp only [notQuote, if_false, taken, dropped]
    rw [scan_eq_scan shorter (Nat.le_refl _), ← tokensAt]
    rfl

/-- White space in front of a text only moves its tokens. -/
theorem tokensAt_gap {gap : List Char} (blank : ∀ c ∈ gap, Text.isBlank c = true) (position : Nat)
    (rest : List Char) :
    tokensAt position (gap ++ rest) = tokensAt (position + Text.byteLength gap) rest := by
  induction gap generalizing position with
  | nil => rfl
  | cons c gap ih =>
    obtain ⟨blankFirst, blankGap⟩ := List.forall_mem_cons.mp blank
    rw [List.cons_append, tokensAt_blank blankFirst, ih blankGap, Text.byteLength_cons, Nat.add_assoc]

/-- White space has no tokens. -/
theorem tokensAt_of_isBlank {text : List Char} (blank : ∀ c ∈ text, Text.isBlank c = true)
    (position : Nat) :
    tokensAt position text = .ok [] := by
  rw [← List.append_nil text, tokensAt_gap blank, tokensAt_nil]

theorem tokenize_of_isBlankText {text : String} (blank : Text.isBlankText text = true) :
    tokenize text = .ok [] :=
  tokensAt_of_isBlank (List.all_eq_true.mp blank) 0

end Scim.Token
