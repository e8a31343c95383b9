import Scim.Proofs.Patch.Path

/-!
# Places of faults in value filters

A value filter that is rejected is rejected with the whole path, at a byte of the path. Faults of the
grammar are placed there, because the tokens are moved behind the bracket before they are read. A
string literal that cannot be decoded is found earlier, when the tokens are cut, and is reported at
its place in the filter. A literal that is never closed does not come up: the search for the closing
bracket keeps track of literals in the same way, and does not end inside one.
-/

namespace Scim

namespace PatchPath

/-! ### Open literals -/

/-- Where the text stands behind a character with regard to string literals. -/
def Quotation.next : Quotation → Char → Quotation
  | .outside, c => if c = '"' then .inside else .outside
  | .inside, c => if c = '\\' then .afterBackslash else if c = '"' then .outside else .inside
  | .afterBackslash, _ => .inside

/-- Where the text stands behind some characters. -/
def Quotation.after (quotation : Quotation) (text : List Char) : Quotation :=
  text.foldl Quotation.next quotation

section Quotation

variable {quotation : Quotation} {depth : Nat} {text inside rest body after : List Char}

theorem after_append (front back : List Char) :
    quotation.after (front ++ back) = (quotation.after front).after back :=
  List.foldl_append

theorem after_of_keep {c : Char} {found : Option (List Char × List Char)}
    (ih : ∀ {inside}, found = some (inside, rest) → (quotation.next c).after inside = .outside)
    (split : splitBracket.keep c found = some (inside, rest)) : quotation.after inside = .outside := by
  obtain ⟨⟨before, behind⟩, found, same⟩ := Option.map_eq_some_iff.mp split
  cases same
  exact ih found

/-- The closing bracket stands outside of literals. -/
theorem after_of_splitBracket (split : splitBracket quotation depth text = some (inside, rest)) :
    quotation.after inside = .outside := by
  fun_induction splitBracket quotation depth text generalizing inside with
  | case1 => cases split
  | case2 _ c rest ih => exact after_of_keep ih split
  | case3 _ c rest next => exact after_of_keep (by assumption) split
  | case4 _ rest ih => exact after_of_keep ih split
  | case5 _ rest _ ih => exact after_of_keep ih split
  | case6 =>
    cases split
    rfl
  | case7 rest _ _ depth ih => exact after_of_keep ih split
  | case8 _ c rest notQuote _ _ ih =>
    refine after_of_keep (fun found => ?_) split
    rw [Quotation.next, if_neg notQuote]
    exact ih found

theorem after_outside (plain : ∀ c ∈ text, c ≠ '"') : Quotation.outside.after text = .outside := by
  induction text with
  | nil => rfl
  | cons c rest ih =>
    have next : Quotation.outside.next c = .outside := if_neg (plain c List.mem_cons_self)
    rw [Quotation.after, List.foldl_cons, next]
    exact ih fun c member => plain c (List.mem_cons_of_mem _ member)

/-- Inside a literal, a character is passed over unless it is a quote or takes the next one along. -/
theorem next_inside {c : Char} (notQuote : c ≠ '"')
    (notEscape : ∀ escaped behind, c = '\\' → rest = escaped :: behind → False) (nonempty : rest ≠ []) :
    Quotation.inside.next c = .inside := by
  rw [Quotation.next, if_neg (Token.ne_backslash notEscape nonempty), if_neg notQuote]

/-- A literal that closes is left again. -/
theorem after_of_closes (closes : Token.Closes body) : Quotation.inside.after body = .outside := by
  induction closes with
  | quote => rfl
  | escape escaped _ ih =>
    -- The backslash and the character that it takes with it lead back into the literal.
    exact ih
  | plain notQuote notBackslash _ ih =>
    rw [Quotation.after, List.foldl_cons, Quotation.next, if_neg notBackslash, if_neg notQuote]
    exact ih

/-- A token leaves no literal open. -/
theorem after_of_spells {kind : Token.Kind} (spells : Token.Spells kind text) :
    Quotation.outside.after text = .outside := by
  cases spells with
  | mark mark =>
    refine after_outside (List.forall_mem_singleton.mpr ?_)
    rintro rfl
    cases mark
  | string decoded =>
    obtain ⟨body, rfl, closes⟩ := Token.exists_closes_of_decodeLiteral? decoded
    exact after_of_closes closes
  | word _ plain =>
    refine after_outside fun c member => ?_
    rintro rfl
    exact (plain _ member).2 (by simp)

theorem after_of_isCut {start : Nat} {tokens : List Token} (cut : Token.IsCut start text tokens) :
    Quotation.outside.after text = .outside := by
  have outside {gap : List Char} (blank : ∀ c ∈ gap, Text.isBlank c = true) :
      Quotation.outside.after gap = .outside := by
    refine after_outside fun c member => ?_
    rintro rfl
    cases blank _ member
  induction cut with
  | blank gap => exact outside gap
  | token gap spells _ _ ih => rw [after_append, outside gap, after_append, after_of_spells spells, ih]

/-- A literal that does not end is not left. -/
theorem after_of_splitQuoted_eq_none (quoted : Token.splitQuoted text = none) :
    Quotation.inside.after text ≠ .outside := by
  fun_induction Token.splitQuoted text with
  | case1 => simp [Quotation.after]
  | case2 => cases quoted
  | case3 escaped rest ih => exact ih (Option.map_eq_none_iff.mp quoted)
  | case4 c rest notQuote notEscape ih =>
    have notLeft := ih (Option.map_eq_none_iff.mp quoted)
    cases rest with
    | nil =>
      -- The last character may be a backslash, which has nothing to take along.
      have notQuote : c ≠ '"' := notQuote
      by_cases escape : c = '\\' <;> simp [Quotation.after, Quotation.next, escape, notQuote]
    | cons following rest =>
      rwa [Quotation.after, List.foldl_cons, next_inside notQuote notEscape (List.cons_ne_nil _ _)]

/-- A text is cut in vain only at a literal that cannot be decoded, or in one that does not end. -/
theorem fault_of_tokenize {text : String} {error : FilterError}
    (failed : Token.tokenize text = .error error) :
    error.fault = .invalidString ∨ Quotation.outside.after text.toList ≠ .outside := by
  obtain ⟨before, rest, tokens, split, cut, faulty, _⟩ := Token.tokensAt_eq_iff.mp failed
  generalize error.fault = fault at faulty
  generalize error.near.toList = near at faulty
  cases faulty with
  | invalid _ _ => exact .inl rfl
  | unterminated unclosed =>
    rw [split, after_append, after_of_isCut cut]
    exact .inr (after_of_splitQuoted_eq_none (Token.splitQuoted_eq_none_iff.mpr unclosed))

end Quotation

/-! ### Moved faults -/

section Rejected

variable {limits : Limits} {text before inside : String} {reference : Reference} {error : FilterError}

theorem parse_of_parseFragment_eq_error (fits : text.utf8ByteSize ≤ limits.maxFilterLength)
    (split : text = before ++ "[" ++ inside ++ "]") (first : '[' ∉ before.toList)
    (named : Reference.parse before = .ok reference) (whole : reference.sub = none)
    (closed : splitBracket .outside 0 (inside.toList ++ [']']) = some (inside.toList, []))
    (failed : Filter.parseFragment limits (before.utf8ByteSize + 1) inside = .error error) :
    parse limits text = .error error := by
  have opening : Text.splitFirst '[' text.toList = some (before.toList, inside.toList ++ [']']) :=
    Text.splitFirst_eq_some_iff.mpr ⟨by simp [split], first⟩
  have named : parseReference before.toList text 0 = .ok reference :=
    parseReference_eq_ok_iff.mpr (by rwa [String.ofList_toList])
  rw [parse, if_neg (Nat.not_lt.mpr fits), opening]
  simp [named, whole, closed, failed, bind, Except.bind]

/-- **A rejected value filter is reported at its place in the path**, with the fault that it is
rejected with on its own, unless that is a string literal that cannot be decoded, which is reported at
its place in the filter. -/
theorem parse_of_rejected_filter (fits : text.utf8ByteSize ≤ limits.maxFilterLength)
    (split : text = before ++ "[" ++ inside ++ "]") (first : '[' ∉ before.toList)
    (named : Reference.parse before = .ok reference) (whole : reference.sub = none)
    (closed : splitBracket .outside 0 (inside.toList ++ [']']) = some (inside.toList, []))
    (rejected : Filter.parse limits inside = .error error) :
    parse limits text =
      .error (if error.fault = .invalidString then error else error.shift (before.utf8ByteSize + 1)) := by
  apply parse_of_parseFragment_eq_error fits split first named whole closed
  rcases Filter.parseFragment_eq limits inside (before.utf8ByteSize + 1) with
    ⟨moved, grammatical⟩ | ⟨fault, lexical, failed, failedThere⟩
  · rw [moved, rejected, if_neg (grammatical error rejected)]
    rfl
  · -- The bracket was found outside of literals, so none of them is open at the end of the filter.
    have isInvalid : fault.fault = .invalidString := by
      rcases fault_of_tokenize lexical with isInvalid | notLeft
      · exact isInvalid
      · exact absurd (after_of_splitBracket closed) notLeft
    rw [rejected] at failed
    cases failed
    rw [failedThere, if_pos isInvalid]

/-- The filter starts at byte 7 of the path. -/
theorem parse_of_rejected_filter_operator :
    Filter.parse {} "type xx 1" = .error ⟨.unknownOperator "type", "xx", 5⟩ ∧
      parse {} "emails[type xx 1]" = .error ⟨.unknownOperator "type", "xx", 12⟩ := by
  have tokenized : Token.tokenize "type xx 1" =
      .ok [⟨.word, 0, "type"⟩, ⟨.word, 5, "xx"⟩, ⟨.word, 8, "1"⟩] := rfl
  have read : Filter.Reading.whole ⟨32, 9⟩ [⟨.word, 0, "type"⟩, ⟨.word, 5, "xx"⟩, ⟨.word, 8, "1"⟩] =
      .error ⟨.unknownOperator "type", "xx", 5⟩ := by
    simp only [Filter.Reading.whole, List.length, Nat.reduceAdd, Nat.reduceMul,
      Filter.Reading.disjunction, Filter.Reading.conjunction, Filter.Reading.term,
      Filter.Reading.attributeTerm]
    rfl
  have rejected : Filter.parse {} "type xx 1" = .error ⟨.unknownOperator "type", "xx", 5⟩ := by
    rw [Filter.parse_of_fits (by decide) (by decide), tokenized]
    exact read
  have named : Reference.parse "emails" = .ok ⟨none, "emails", none⟩ := rfl
  exact ⟨rejected, parse_of_rejected_filter (by decide) (by decide) (by decide) named rfl rfl rejected⟩

/-- A literal that cannot be decoded is reported seven bytes in front of its place. -/
theorem parse_of_rejected_filter_literal :
    let fault : FilterError := ⟨.invalidString, "\"\\q\"", 8⟩
    Reference.parse "emails" = .ok ⟨none, "emails", none⟩ ∧
      splitBracket .outside 0 ("type eq \"\\q\"".toList ++ [']']) =
        some ("type eq \"\\q\"".toList, []) ∧
      Filter.parse {} "type eq \"\\q\"" = .error fault ∧
      parse {} "emails[type eq \"\\q\"]" = .error fault ∧
      fault ≠ fault.shift ("emails".utf8ByteSize + 1) := by
  intro fault
  have lexical : Token.tokenize "type eq \"\\q\"" = .error fault := rfl
  have named : Reference.parse "emails" = .ok ⟨none, "emails", none⟩ := rfl
  have closed : splitBracket .outside 0 ("type eq \"\\q\"".toList ++ [']']) =
      some ("type eq \"\\q\"".toList, []) := rfl
  have rejected : Filter.parse {} "type eq \"\\q\"" = .error fault := by
    rw [Filter.parse_of_fits (by decide) (by decide), lexical]
    rfl
  have failed : Filter.parseFragment {} ("emails".utf8ByteSize + 1) "type eq \"\\q\"" = .error fault := by
    rw [Filter.parseFragment_of_fits (by decide) (by decide), lexical]
    rfl
  have whole : parse {} "emails[type eq \"\\q\"]" = .error fault :=
    parse_of_parseFragment_eq_error (by decide) (by decide) (by decide) named rfl closed failed
  exact ⟨named, closed, rejected, whole, by decide⟩

end Rejected

end PatchPath

end Scim
