import Mathlib.Data.List.TakeWhile
import Scim.Json.NumberLiteral
import Scim.Json.Printer
import Scim.Proofs.Filter.Lexing

/-!
# Reading what was written

A string literal is read back as the text it was written for, and a decimal integer as the integer,
if it fits the signed or the unsigned 64-bit range. Floating point numbers are not covered: the
reader rounds in each step, so the text of a number may be read as one of its neighbours.
-/

namespace Scim.Json

/-! ### Strings -/

/-- A character is written with a one-letter escape, with an escape by its code, or as itself. -/
theorem escapeChar_cases (c : Char) :
    (∃ escape, escape ≠ 'u' ∧ unescape? escape = some c ∧ escapeChar c = ['\\', escape]) ∨
    (c.toNat < 0x20 ∧ escapeChar c =
      ['\\', 'u', '0', '0', hexChar (c.toNat / 16), hexChar (c.toNat % 16)]) ∨
    (c ≠ '"' ∧ c ≠ '\\' ∧ ¬ c.toNat < 0x20 ∧ escapeChar c = [c]) := by
  by_cases short : c ∈ ['"', '\\', '\x08', '\x0c', '\n', '\r', '\t']
  · left
    simp only [List.mem_cons, List.not_mem_nil, or_false] at short
    rcases short with rfl | rfl | rfl | rfl | rfl | rfl | rfl
    · exact ⟨'"', by decide, rfl, rfl⟩
    · exact ⟨'\\', by decide, rfl, rfl⟩
    · exact ⟨'b', by decide, rfl, rfl⟩
    · exact ⟨'f', by decide, rfl, rfl⟩
    · exact ⟨'n', by decide, rfl, rfl⟩
    · exact ⟨'r', by decide, rfl, rfl⟩
    · exact ⟨'t', by decide, rfl, rfl⟩
  · simp only [List.mem_cons, List.not_mem_nil, or_false, not_or] at short
    obtain ⟨quote, backslash, b, f, n, r, t⟩ := short
    right
    by_cases control : c.toNat < 0x20
    · left
      exact ⟨control, by simp [escapeChar, quote, backslash, b, f, n, r, t, control]⟩
    · right
      exact ⟨quote, backslash, control, by
        simp [escapeChar, quote, backslash, b, f, n, r, t, control]⟩

theorem hexCode?_of_lt (code : Nat) (small : code < 0x20) :
    hexCode? '0' '0' (hexChar (code / 16)) (hexChar (code % 16)) = some code := by
  revert code
  decide

/-- A written character is read as one piece, and that piece stands for the character. -/
theorem readPieces_escapeChar (c : Char) :
    ∃ piece,
      (∀ rest, readPieces (escapeChar c ++ rest) =
        (readPieces rest).map fun (pieces, after) => (piece :: pieces, after)) ∧
      ∀ pieces, joinPieces none (piece :: pieces) = (joinPieces none pieces).map (c :: ·) := by
  rcases escapeChar_cases c with ⟨escape, notCode, stands, written⟩ | ⟨control, written⟩ |
    ⟨notQuote, notBackslash, plain, written⟩
  · -- An escape of one letter stands for the character itself.
    refine ⟨.char c, fun rest => ?_, fun pieces => rfl⟩
    rw [written, List.cons_append, List.cons_append, List.nil_append,
      readPieces.eq_4 escape rest fun _ _ _ _ _ isCode => absurd isCode notCode, stands]
    cases readPieces rest <;> rfl
  · refine ⟨.unit c.toNat, fun rest => ?_, fun pieces => ?_⟩
    · rw [written]
      simp only [List.cons_append, List.nil_append, readPieces.eq_3, hexCode?_of_lt _ control]
      cases readPieces rest <;> rfl
    · -- The codes of control characters are no surrogates, so none waits for another half.
      have notLeading : isLeadingSurrogate c.toNat = false := by
        simp only [isLeadingSurrogate, Bool.and_eq_false_iff, decide_eq_false_iff_not]
        omega
      have notTrailing : isTrailingSurrogate c.toNat = false := by
        simp only [isTrailingSurrogate, Bool.and_eq_false_iff, decide_eq_false_iff_not]
        omega
      simp [joinPieces, notLeading, notTrailing]
  · refine ⟨.char c, fun rest => ?_, fun pieces => rfl⟩
    rw [written, List.cons_append, List.nil_append,
      readPieces.eq_5 c rest (absurd · notQuote) (fun _ _ _ _ _ is => absurd is notBackslash)
        (fun _ _ is => absurd is notBackslash), if_neg plain]
    cases readPieces rest <;> rfl

/-- The body of a literal is read as pieces that stand for the text. -/
theorem readPieces_escaped (text rest : List Char) :
    ∃ pieces, readPieces (text.flatMap escapeChar ++ '"' :: rest) = some (pieces, rest) ∧
      joinPieces none pieces = some text := by
  induction text with
  | nil => exact ⟨[], rfl, rfl⟩
  | cons c text ih =>
    obtain ⟨pieces, read, joined⟩ := ih
    obtain ⟨piece, readOne, joinOne⟩ := readPieces_escapeChar c
    refine ⟨piece :: pieces, ?_, ?_⟩
    · rw [List.flatMap_cons, List.append_assoc, readOne, read, Option.map_some]
    · rw [joinOne, joined, Option.map_some]

theorem decodeLiteral?_quote (text : List Char) : decodeLiteral? (quote text) = some text := by
  obtain ⟨pieces, read, joined⟩ := readPieces_escaped text []
  simp only [quote, decodeLiteral?, List.cons_append, read, joined]

/-! ### Integers -/

/-- The digits that a natural number is written with. -/
def decimalDigits (n : Nat) : List Nat := (Nat.toDigits 10 n).map digitValue

theorem spanDigits_toDigits (n : Nat) : spanDigits (Nat.toDigits 10 n) = (decimalDigits n, []) := by
  have digits : ∀ c ∈ Nat.toDigits 10 n, c.isDigit = true := fun c member =>
    Nat.isDigit_of_mem_toDigits (by decide) (by decide) member
  rw [spanDigits, decimalDigits, List.takeWhile_eq_self_iff.mpr digits,
    List.dropWhile_eq_nil_iff.mpr digits]

theorem decimalDigits_of_lt {n : Nat} (small : n < 10) : decimalDigits n = [n] := by
  simp [decimalDigits, Nat.toDigits_of_lt_base small, digitValue,
    Nat.toNat_digitChar_sub_48_of_lt_ten small]

theorem decimalDigits_of_le {n : Nat} (large : 10 ≤ n) :
    decimalDigits n = decimalDigits (n / 10) ++ [n % 10] := by
  have last : digitValue (n % 10).digitChar = n % 10 :=
    Nat.toNat_digitChar_sub_48_of_lt_ten (Nat.mod_lt n (by decide))
  simp [decimalDigits, Nat.toDigits_of_base_le (by decide) large, last]

theorem ofDigits_decimalDigits (n : Nat) : ofDigits (decimalDigits n) = n := by
  induction n using Nat.strongRecOn with
  | _ n ih =>
    rcases Nat.lt_or_ge n 10 with small | large
    · simp [decimalDigits_of_lt small, ofDigits]
    · have front := ih (n / 10) (by omega)
      rw [ofDigits] at front
      rw [decimalDigits_of_le large, ofDigits, List.foldl_append, front, List.foldl_cons,
        List.foldl_nil]
      omega

/-- A positive number does not start with a zero. -/
theorem decimalDigits_of_pos {n : Nat} (positive : 0 < n) :
    ∃ first rest, decimalDigits n = first :: rest ∧ first ≠ 0 := by
  induction n using Nat.strongRecOn with
  | _ n ih =>
    rcases Nat.lt_or_ge n 10 with small | large
    · exact ⟨n, [], decimalDigits_of_lt small, by omega⟩
    · obtain ⟨first, rest, front, nonzero⟩ := ih (n / 10) (by omega) (by omega)
      have digits : decimalDigits n = first :: (rest ++ [n % 10]) := by
        rw [decimalDigits_of_le large, front, List.cons_append]
      exact ⟨first, rest ++ [n % 10], digits, nonzero⟩

theorem scanUnsigned_toDigits (negative : Bool) (n : Nat) :
    NumberLiteral.scanUnsigned negative (Nat.toDigits 10 n) =
      some (⟨negative, decimalDigits n, [], none⟩, []) := by
  rw [NumberLiteral.scanUnsigned, spanDigits_toDigits]
  rcases Nat.eq_zero_or_pos n with rfl | positive
  · rfl
  · obtain ⟨first, rest, digits, nonzero⟩ := decimalDigits_of_pos positive
    rw [digits]
    cases first with
    | zero => exact absurd rfl nonzero
    | succ first => rfl

theorem le_foldl_digits (significand : Nat) (digits : List Nat) :
    significand ≤ digits.foldl (fun n d => n * 10 + d) significand := by
  induction digits generalizing significand with
  | nil => exact Nat.le_refl _
  | cons d rest ih =>
    have step := ih (significand * 10 + d)
    rw [List.foldl_cons]
    omega

/-- Digits whose value fits 64 bits are all taken into the significand. -/
theorem accumulate_of_lt (significand : Nat) (digits : List Nat)
    (fits : digits.foldl (fun n d => n * 10 + d) significand < twoTo 64) :
    NumberLiteral.accumulate significand digits =
      (digits.foldl (fun n d => n * 10 + d) significand, []) := by
  induction digits generalizing significand with
  | nil => rfl
  | cons d rest ih =>
    -- The digits that follow only add to the value, so it fits with this one already.
    have below := Nat.lt_of_le_of_lt (le_foldl_digits (significand * 10 + d) rest) fits
    rw [NumberLiteral.accumulate, if_pos below]
    exact ih _ fits

/-- The value of a literal that consists of the digits of a natural number. -/
theorem value?_decimalDigits (negative : Bool) (n : Nat) (fits : n < twoTo 64) :
    NumberLiteral.value? ⟨negative, decimalDigits n, [], none⟩ =
      if !negative then some (.integer n)
      else if n = 0 ∨ twoTo 63 < n then floatOf? true n 0
      else some (.integer (-n)) := by
  have taken : NumberLiteral.accumulate 0 (decimalDigits n) = (n, []) := by
    have value := ofDigits_decimalDigits n
    rw [ofDigits] at value
    rw [accumulate_of_lt 0 _ (by rwa [value]), value]
  simp [NumberLiteral.value?, taken]

end Scim.Json

namespace Scim.Number

/-- Whether a number is one that documents can hold: integers fit the signed or the unsigned 64-bit
range. -/
def IsRepresentable : Number → Prop
  | .integer n => -(twoTo 63 : Int) ≤ n ∧ n < twoTo 64
  | .float _ => True

/-- Digits are not taken for a sign. -/
theorem scan_toDigits (n : Nat) :
    Json.NumberLiteral.scan (Nat.toDigits 10 n) =
      some (⟨false, Json.decimalDigits n, [], none⟩, []) := by
  have digits : ∀ c ∈ Nat.toDigits 10 n, c.isDigit = true := fun c member =>
    Nat.isDigit_of_mem_toDigits (by decide) (by decide) member
  rw [Json.NumberLiteral.scan.eq_def]
  split
  next rest written =>
    exact absurd (digits '-' (by simp [written])) (by decide)
  · exact Json.scanUnsigned_toDigits false n

/-- The text of an integer is read back as that integer. -/
theorem readNumber?_text_integer {n : Int} (fits : IsRepresentable (.integer n)) :
    Json.readNumber? (text (.integer n)).toList = some (.integer n) := by
  obtain ⟨least, below⟩ := fits
  cases n with
  | ofNat n =>
    have written : (text (.integer (.ofNat n))).toList = Nat.toDigits 10 n := Nat.toList_repr
    have bound : n < twoTo 64 := Int.ofNat_lt.mp below
    rw [written, Json.readNumber?, scan_toDigits]
    exact Json.value?_decimalDigits false n bound
  | negSucc n =>
    have written : (text (.integer (.negSucc n))).toList = '-' :: Nat.toDigits 10 (n + 1) := by
      simp [text, Int.repr, Nat.toList_repr]
    have bound : n + 1 ≤ twoTo 63 := by omega
    have inRange : n + 1 < twoTo 64 := Nat.lt_of_le_of_lt bound (by decide)
    rw [written, Json.readNumber?, Json.NumberLiteral.scan, Json.scanUnsigned_toDigits]
    refine (Json.value?_decimalDigits true (n + 1) inRange).trans ?_
    rw [if_neg (by decide), if_neg (by omega)]
    rfl

theorem accumulate_lt {significand : Nat} (bound : significand < twoTo 64) (digits : List Nat) :
    (Json.NumberLiteral.accumulate significand digits).1 < twoTo 64 := by
  fun_induction Json.NumberLiteral.accumulate significand digits with
  | case1 => exact bound
  | case2 _ _ _ fits ih => exact ih fits
  | case3 => exact bound

theorem exists_float_of_floatOf? {negative : Bool} {significand : Nat} {places : Int} {value : Number}
    (read : Json.floatOf? negative significand places = some value) : ∃ x, value = .float x := by
  simp only [Json.floatOf?, Option.bind_eq_bind, Option.bind_eq_some_iff, Option.pure_def,
    Option.some.injEq] at read
  obtain ⟨_, _, _, _, rfl⟩ := read
  exact ⟨_, rfl⟩

/-- The value of a literal can be held. -/
theorem isRepresentable_of_value? {literal : Json.NumberLiteral} {value : Number}
    (read : literal.value? = some value) : value.IsRepresentable := by
  have float {negative : Bool} {significand : Nat} {places : Int}
      (read : Json.floatOf? negative significand places = some value) : value.IsRepresentable := by
    obtain ⟨x, rfl⟩ := exists_float_of_floatOf? read
    trivial
  have bound := accumulate_lt (by decide : 0 < twoTo 64) literal.whole
  simp only [Json.NumberLiteral.value?] at read
  split at read
  · split at read
    · cases read
      exact ⟨by omega, Int.ofNat_lt.mpr bound⟩
    · -- Behind a sign, zero and what is too large for an integer become floating point numbers.
      split at read
      · exact float read
      next inRange =>
        cases read
        simp only [IsRepresentable]
        omega
  · exact float read

/-- Every number that is read can be held. -/
theorem isRepresentable_of_readNumber? {text : List Char} {value : Number}
    (read : Json.readNumber? text = some value) : value.IsRepresentable := by
  unfold Json.readNumber? at read
  split at read
  · exact isRepresentable_of_value? read
  · cases read

end Scim.Number

namespace Scim.Token

open Json

theorem hexChar_plain (digit : Nat) (small : digit < 16) :
    hexChar digit ≠ '"' ∧ hexChar digit ≠ '\\' := by
  revert digit
  decide

/-- A written character holds no quote that could close the literal. -/
theorem splitQuoted_escapeChar (c : Char) (rest : List Char) :
    splitQuoted (escapeChar c ++ rest) =
      (splitQuoted rest).map fun (body, after) => (escapeChar c ++ body, after) := by
  rcases escapeChar_cases c with ⟨escape, _, _, written⟩ | ⟨control, written⟩ |
    ⟨notQuote, notBackslash, _, written⟩
  · rw [written]
    rfl
  · -- None of the six characters of an escape by code needs a second look.
    have high := hexChar_plain (c.toNat / 16) (by omega)
    have low := hexChar_plain (c.toNat % 16) (by omega)
    rw [written]
    simp only [List.cons_append, List.nil_append, splitQuoted.eq_3]
    rw [splitQuoted_plain (by decide) (by decide), splitQuoted_plain (by decide) (by decide),
      splitQuoted_plain high.1 high.2, splitQuoted_plain low.1 low.2]
    simp only [Option.map_map, Function.comp_def]
  · rw [written, List.cons_append, List.nil_append, splitQuoted_plain notQuote notBackslash]
    rfl

/-- The quote behind a written text closes the literal. -/
theorem splitQuoted_escaped (text rest : List Char) :
    splitQuoted (text.flatMap escapeChar ++ '"' :: rest) =
      some (text.flatMap escapeChar ++ ['"'], rest) := by
  induction text with
  | nil => rfl
  | cons c text ih =>
    rw [List.flatMap_cons, List.append_assoc, splitQuoted_escapeChar, ih, Option.map_some,
      List.append_assoc]

end Scim.Token
