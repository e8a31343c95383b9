import Scim.Proofs.Filter.Lexing

/-!
# Where the tokens of a text stand

A text is cut into tokens in one way at most: each token stands at the byte it reports, only white
space stands around the tokens, and words go on for as long as they can. `IsCut` says so without
reading the text from the front, and is shown to hold of exactly what `Token.tokenize` returns. It
returns nothing if and only if some quote opens a literal that is not closed or cannot be decoded.
-/

namespace Scim.Token

variable {start position : Nat} {c : Char} {kind : Kind} {token : Token} {tokens : List Token}
  {text rest after body raw content : List Char}

/-! ### Literals -/

/-- What stands behind an opening quote, up to the first quote that no backslash takes along. -/
inductive Closes : List Char → Prop
  | quote : Closes ['"']
  | escape (escaped : Char) {body : List Char} : Closes body → Closes ('\\' :: escaped :: body)
  | plain {c : Char} {body : List Char} : c ≠ '"' → c ≠ '\\' → Closes body → Closes (c :: body)

theorem splitQuoted_of_closes (closes : Closes body) (rest : List Char) :
    splitQuoted (body ++ rest) = some (body, rest) := by
  induction closes with
  | quote => rfl
  | escape escaped _ ih =>
    rw [List.cons_append, List.cons_append, splitQuoted, ih]
    rfl
  | plain notQuote notBackslash _ ih =>
    rw [List.cons_append, splitQuoted_plain notQuote notBackslash, ih]
    rfl

theorem closes_of_splitQuoted (split : splitQuoted text = some (body, after)) : Closes body := by
  fun_induction splitQuoted text generalizing body with
  | case1 => cases split
  | case2 rest =>
    cases split
    exact .quote
  | case3 escaped rest ih =>
    obtain ⟨⟨before, behind⟩, found, same⟩ := Option.map_eq_some_iff.mp split
    cases same
    exact .escape escaped (ih found)
  | case4 c rest notQuote notEscape ih =>
    obtain ⟨⟨before, behind⟩, found, same⟩ := Option.map_eq_some_iff.mp split
    cases same
    have nonempty : rest ≠ [] := by
      rintro rfl
      cases found
    exact .plain notQuote (ne_backslash notEscape nonempty) (ih found)

/-- Text is split behind a literal where the literal closes, and nowhere else. -/
theorem splitQuoted_eq_some_iff :
    splitQuoted text = some (body, after) ↔ text = body ++ after ∧ Closes body := by
  constructor
  · exact fun split => ⟨append_of_splitQuoted split, closes_of_splitQuoted split⟩
  · rintro ⟨rfl, closes⟩
    exact splitQuoted_of_closes closes after

theorem splitQuoted_eq_none_iff :
    splitQuoted text = none ↔ ∀ body after, text = body ++ after → ¬Closes body := by
  simp only [Option.eq_none_iff_forall_ne_some, ne_eq, Prod.forall, splitQuoted_eq_some_iff, not_and]

/-- Neither a quote nor a backslash is a digit. -/
theorem closes_of_hexDigit {digit : Nat} (read : Json.hexDigit? c = some digit) (closes : Closes body) :
    Closes (c :: body) := by
  refine .plain ?_ ?_ closes
  · rintro rfl
    cases read
  · rintro rfl
    cases read

/-- What is read as a literal closes where its reading ends. -/
theorem closes_of_readPieces {pieces : List Json.Piece}
    (read : Json.readPieces text = some (pieces, after)) : ∃ body, text = body ++ after ∧ Closes body := by
  fun_induction Json.readPieces text generalizing pieces with
  | case1 => cases read
  | case2 rest =>
    cases read
    exact ⟨['"'], rfl, .quote⟩
  | case3 a b c d rest ih =>
    obtain ⟨code, isCode, read⟩ := Option.bind_eq_some_iff.mp read
    obtain ⟨⟨others, behind⟩, readRest, same⟩ := Option.bind_eq_some_iff.mp read
    cases same
    obtain ⟨body, rfl, closes⟩ := ih readRest
    obtain ⟨_, isA, isCode⟩ := Option.bind_eq_some_iff.mp isCode
    obtain ⟨_, isB, isCode⟩ := Option.bind_eq_some_iff.mp isCode
    obtain ⟨_, isC, isCode⟩ := Option.bind_eq_some_iff.mp isCode
    obtain ⟨_, isD, _⟩ := Option.bind_eq_some_iff.mp isCode
    -- The backslash takes the `u` along, and the four digits stand for themselves.
    have digits : Closes (a :: b :: c :: d :: body) :=
      closes_of_hexDigit isA (closes_of_hexDigit isB (closes_of_hexDigit isC
        (closes_of_hexDigit isD closes)))
    exact ⟨_, rfl, .escape 'u' digits⟩
  | case4 escape rest _ ih =>
    obtain ⟨_, _, read⟩ := Option.bind_eq_some_iff.mp read
    obtain ⟨⟨others, behind⟩, readRest, same⟩ := Option.bind_eq_some_iff.mp read
    cases same
    obtain ⟨body, rfl, closes⟩ := ih readRest
    exact ⟨_, rfl, .escape escape closes⟩
  | case5 => cases read
  | case6 c rest notQuote _ notEscape _ ih =>
    obtain ⟨⟨others, behind⟩, readRest, same⟩ := Option.bind_eq_some_iff.mp read
    cases same
    have nonempty : rest ≠ [] := by
      rintro rfl
      cases readRest
    obtain ⟨body, rfl, closes⟩ := ih readRest
    exact ⟨_, rfl, .plain notQuote (ne_backslash notEscape nonempty) closes⟩

/-- A text that can be decoded is a single literal: its first quote opens it and the last closes it. -/
theorem exists_closes_of_decodeLiteral? (decoded : Json.decodeLiteral? raw = some content) :
    ∃ body, raw = '"' :: body ∧ Closes body := by
  unfold Json.decodeLiteral? at decoded
  split at decoded
  next body =>
    split at decoded
    next pieces read =>
      obtain ⟨literal, rfl, closes⟩ := closes_of_readPieces read
      exact ⟨_, rfl, by rwa [List.append_nil]⟩
    · cases decoded
  · cases decoded

/-! ### Texts of tokens -/

/-- A character that a word can hold. -/
def IsPlain (c : Char) : Prop := Text.isBlank c = false ∧ c ∉ ['(', ')', '[', ']', '"']

theorem isPlain_iff : IsPlain c ↔ isDelimiter c = false := by
  have marked : (Kind.ofMark? c).isSome = true ↔ c ∈ ['(', ')', '[', ']'] := by
    unfold Kind.ofMark?
    split <;> simp_all
  have noMark : (Kind.ofMark? c).isSome = false ↔ c ∉ ['(', ')', '[', ']'] := by
    rw [← marked, Bool.not_eq_true]
  simp only [IsPlain, isDelimiter, Bool.or_eq_false_iff, noMark, beq_eq_false_iff_ne]
  simp [and_assoc]

/-- Which texts tokens of a kind can have. -/
inductive Spells : Kind → List Char → Prop
  | mark {c : Char} {kind : Kind} : Kind.ofMark? c = some kind → Spells kind [c]
  | string {raw content : List Char} :
    Json.decodeLiteral? raw = some content → Spells (.string (String.ofList content)) raw
  | word {text : List Char} : text ≠ [] → (∀ c ∈ text, IsPlain c) → Spells .word text

/-- What stands behind a token of a kind: a word is not followed by a character that it could hold. -/
def Ends (kind : Kind) (rest : List Char) : Prop := kind = .word → ∀ c ∈ rest.head?, ¬IsPlain c

theorem endsWord_iff : EndsWord rest ↔ ∀ c ∈ rest.head?, ¬IsPlain c := by
  simp only [EndsWord, isPlain_iff, Bool.not_eq_false]

theorem isBlank_of_ofMark? (mark : Kind.ofMark? c = some kind) : Text.isBlank c = false := by
  unfold Kind.ofMark? at mark
  split at mark <;> first | decide | cases mark

theorem Spells.ne_nil (spells : Spells kind raw) : raw ≠ [] := by
  cases spells with
  | mark _ => exact List.cons_ne_nil _ _
  | string decoded =>
    obtain ⟨body, rfl, _⟩ := exists_closes_of_decodeLiteral? decoded
    exact List.cons_ne_nil '"' body
  | word nonempty _ => exact nonempty

theorem Spells.isDelimiter (spells : Spells kind raw) (isWord : kind = .word) :
    ∀ c ∈ raw, isDelimiter c = false := by
  cases spells with
  | mark mark => exact absurd isWord (ne_word_of_ofMark? mark)
  | string _ => cases isWord
  | word _ plain => exact fun c member => isPlain_iff.mp (plain c member)

/-- Wherever a token stands, it is taken from the front of the text. -/
theorem tokensAt_spells (spells : Spells kind raw) (ends : Ends kind rest) (position : Nat) :
    tokensAt position (raw ++ rest) =
      (tokensAt (position + Text.byteLength raw) rest).map
        (⟨kind, position, String.ofList raw⟩ :: ·) := by
  cases spells with
  | mark mark => exact tokensAt_mark (isBlank_of_ofMark? mark) mark position rest
  | string decoded =>
    obtain ⟨body, rfl, closes⟩ := exists_closes_of_decodeLiteral? decoded
    exact tokensAt_quoted (splitQuoted_of_closes closes rest) decoded position
  | word nonempty plain =>
    exact tokensAt_word nonempty (fun c member => isPlain_iff.mp (plain c member))
      (endsWord_iff.mpr (ends rfl)) position

/-! ### Texts that are cut into tokens -/

/-- How a text that starts at byte `start` is cut into tokens. -/
inductive IsCut : Nat → List Char → List Token → Prop
  | blank {start : Nat} {gap : List Char} : (∀ c ∈ gap, Text.isBlank c = true) → IsCut start gap []
  | token {start : Nat} {gap raw rest : List Char} {kind : Kind} {tokens : List Token} :
    (∀ c ∈ gap, Text.isBlank c = true) → Spells kind raw → Ends kind rest →
      IsCut (start + Text.byteLength gap + Text.byteLength raw) rest tokens →
        IsCut start (gap ++ (raw ++ rest))
          (⟨kind, start + Text.byteLength gap, String.ofList raw⟩ :: tokens)

namespace IsCut

/-- A token at the very front. -/
theorem front (spells : Spells kind raw) (ends : Ends kind rest)
    (cut : IsCut (start + Text.byteLength raw) rest tokens) :
    IsCut start (raw ++ rest) (⟨kind, start, String.ofList raw⟩ :: tokens) :=
  @token start [] raw rest kind tokens nofun spells ends cut

/-- White space in front only moves the tokens. -/
theorem behind (blank : Text.isBlank c = true) (cut : IsCut (start + c.utf8Size) text tokens) :
    IsCut start (c :: text) tokens := by
  cases cut with
  | blank gap => exact .blank (List.forall_mem_cons.mpr ⟨blank, gap⟩)
  | @token _ gap raw rest kind tokens isGap spells ends cut =>
    have same : start + c.utf8Size + Text.byteLength gap = start + Text.byteLength (c :: gap) := by
      rw [Text.byteLength_cons, Nat.add_assoc]
    rw [same] at cut ⊢
    exact @IsCut.token start (c :: gap) raw rest kind tokens
      (List.forall_mem_cons.mpr ⟨blank, isGap⟩) spells ends cut

/-- Each token has a text of its kind. -/
theorem spells (cut : IsCut start text tokens) :
    ∀ token ∈ tokens, Spells token.kind token.text.toList := by
  induction cut with
  | blank _ => exact nofun
  | token _ spells _ _ ih =>
    refine List.forall_mem_cons.mpr ⟨?_, ih⟩
    rwa [String.toList_ofList]

end IsCut

theorem Ends.append {front : List Char} (ends : Ends kind front) (endsWord : EndsWord rest) :
    Ends kind (front ++ rest) := by
  intro isWord
  cases front with
  | nil => exact endsWord_iff.mp endsWord
  | cons c front => exact ends isWord

/-- A text that is cut has its tokens in front of whatever does not extend its last word. -/
theorem IsCut.tokensAt_append (cut : IsCut start text tokens) (ends : EndsWord rest) :
    tokensAt start (text ++ rest) =
      (tokensAt (start + Text.byteLength text) rest).map (tokens ++ ·) := by
  induction cut with
  | blank gap =>
    rw [tokensAt_gap gap]
    cases tokensAt _ rest <;> rfl
  | token gap spells endsToken _ ih =>
    rw [List.append_assoc, tokensAt_gap gap, List.append_assoc,
      tokensAt_spells spells (endsToken.append ends), ih, Text.byteLength_append,
      Text.byteLength_append, ← Nat.add_assoc, ← Nat.add_assoc]
    cases tokensAt _ rest <;> rfl

/-! ### Cutting texts -/

/-- What is wrong with the literal that a quote opens, where `rest` stands behind the quote, and what is
shown of it. -/
inductive IsFaulty : List Char → FilterFault → List Char → Prop
  | unterminated {rest : List Char} :
    (∀ body after, rest = body ++ after → ¬Closes body) →
      IsFaulty rest .unterminatedString ('"' :: rest)
  | invalid {body after : List Char} :
    Closes body → Json.decodeLiteral? ('"' :: body) = none →
      IsFaulty (body ++ after) .invalidString ('"' :: body)

/-- What is shown of a faulty literal is there, and starts with its quote. -/
theorem IsFaulty.ne_nil_and_exists {fault : FilterFault} {near : List Char}
    (faulty : IsFaulty rest fault near) : near ≠ [] ∧ ∃ behind, '"' :: rest = near ++ behind := by
  cases faulty with
  | unterminated _ => exact ⟨List.cons_ne_nil _ _, [], (List.append_nil _).symm⟩
  | @invalid body after _ _ => exact ⟨List.cons_ne_nil _ _, after, rfl⟩

/-- A text is cut up to a quote that opens a faulty literal. -/
def FailsAt (start : Nat) (text : List Char) (error : FilterError) : Prop :=
  ∃ before rest tokens, text = before ++ '"' :: rest ∧ IsCut start before tokens ∧
    IsFaulty rest error.fault error.near.toList ∧ error.position = start + Text.byteLength before

/-- What comes of a text: its tokens, or the fault in it. -/
def Yields (start : Nat) (text : List Char) : Except FilterError (List Token) → Prop
  | .ok tokens => IsCut start text tokens
  | .error error => FailsAt start text error

section Yields

variable {scanned : Except FilterError (List Token)}

theorem Yields.behind (blank : Text.isBlank c = true)
    (yields : Yields (start + c.utf8Size) text scanned) : Yields start (c :: text) scanned := by
  cases scanned with
  | ok tokens => exact IsCut.behind blank yields
  | error error =>
    obtain ⟨before, rest, tokens, rfl, cut, faulty, position⟩ := yields
    exact ⟨c :: before, rest, tokens, rfl, cut.behind blank, faulty,
      by rw [position, Text.byteLength_cons, Nat.add_assoc]⟩

theorem Yields.front (spells : Spells kind raw) (ends : Ends kind text)
    (yields : Yields (start + Text.byteLength raw) text scanned) :
    Yields start (raw ++ text) do
      let tokens ← scanned
      return ⟨kind, start, String.ofList raw⟩ :: tokens := by
  cases scanned with
  | ok tokens => exact IsCut.front spells ends yields
  | error error =>
    obtain ⟨before, rest, tokens, rfl, cut, faulty, position⟩ := yields
    -- Up to the quote, a word is followed by less, or by nothing.
    have endsBefore : Ends kind before := by
      intro isWord c first
      exact ends isWord c (by rw [List.head?_append, Option.mem_def.mp first]; rfl)
    refine ⟨raw ++ before, rest, _, (List.append_assoc ..).symm, cut.front spells endsBefore, faulty, ?_⟩
    rw [position, Text.byteLength_append, Nat.add_assoc]

/-- What is left behind a word that goes on for as long as it can. -/
theorem endsWord_dropWhile (text : List Char) : EndsWord (text.dropWhile (!isDelimiter ·)) := by
  intro c first
  have stopped := List.head?_dropWhile_not (!isDelimiter ·) text
  rw [Option.mem_def.mp first] at stopped
  simpa using stopped

theorem yields_scan {steps : Nat} (enough : text.length ≤ steps) :
    Yields start text (scan steps start text) := by
  fun_induction scan steps start text with
  | case1 => exact IsCut.blank nofun
  | case2 _ _ nonempty => exact absurd (List.length_eq_zero_iff.mp (Nat.le_zero.mp enough)) nonempty
  | case3 _ _ _ _ blank ih => exact (ih (Nat.le_of_succ_le_succ enough)).behind blank
  | case4 _ _ c rest _ kind mark ih =>
    have ends : Ends kind rest := fun isWord => absurd isWord (ne_word_of_ofMark? mark)
    exact (ih (Nat.le_of_succ_le_succ enough)).front (.mark mark) ends
  | case5 _ position rest unclosed =>
    refine ⟨[], rest, [], rfl, .blank nofun, ?_, rfl⟩
    rw [String.toList_ofList]
    exact .unterminated (splitQuoted_eq_none_iff.mp unclosed)
  | case6 _ position rest body after split _ _ undecoded =>
    obtain ⟨rfl, closes⟩ := splitQuoted_eq_some_iff.mp split
    refine ⟨[], body ++ after, [], rfl, .blank nofun, ?_, rfl⟩
    rw [String.toList_ofList]
    exact .invalid closes undecoded
  | case7 _ _ rest body after split content _ _ decoded ih =>
    obtain ⟨rfl, closes⟩ := splitQuoted_eq_some_iff.mp split
    have shorter : after.length ≤ (body ++ after).length := by simp
    have yields := ih (Nat.le_trans shorter (Nat.le_of_succ_le_succ enough))
    exact yields.front (.string decoded) nofun
  | case8 steps position c rest =>
    rename_i blank noMark notQuote word ih
    have start : isDelimiter c = false := not_isDelimiter (by simpa using blank) noMark notQuote
    have yields := ih (Nat.le_trans (length_dropWhile_le start rest) (Nat.le_of_succ_le_succ enough))
    have split : word ++ (c :: rest).dropWhile (!isDelimiter ·) = c :: rest :=
      List.takeWhile_append_dropWhile
    have spells : Spells .word word := by
      refine .word (by simp [word, start]) fun c member => isPlain_iff.mpr ?_
      simpa using List.all_eq_true.mp (List.all_takeWhile (p := (!isDelimiter ·))) c member
    have ends : Ends .word ((c :: rest).dropWhile (!isDelimiter ·)) :=
      fun _ => endsWord_iff.mp (endsWord_dropWhile (c :: rest))
    have whole := yields.front spells ends
    rwa [split] at whole

end Yields

theorem tokensAt_faulty {fault : FilterFault} {near : List Char} (faulty : IsFaulty rest fault near)
    (position : Nat) :
    tokensAt position ('"' :: rest) = .error ⟨fault, String.ofList near, position⟩ := by
  rw [tokensAt, List.length_cons, scan, if_neg (by decide), show Kind.ofMark? '"' = none from rfl]
  simp only [if_true]
  cases faulty with
  | unterminated unclosed => rw [splitQuoted_eq_none_iff.mpr unclosed]
  | invalid closes undecoded => rw [splitQuoted_of_closes closes]; simp only [undecoded]

theorem endsWord_quote (rest : List Char) : EndsWord ('"' :: rest) := by
  rintro c ⟨⟩
  rfl

/-- Nothing comes of a text but what is in it. -/
theorem tokensAt_eq_iff {result : Except FilterError (List Token)} :
    tokensAt start text = result ↔ Yields start text result := by
  constructor
  · rintro rfl
    exact yields_scan (Nat.le_refl _)
  · intro yields
    cases result with
    | ok tokens =>
      have whole : tokensAt start (text ++ []) = _ := IsCut.tokensAt_append yields nofun
      rwa [List.append_nil, tokensAt_nil, Except.map, List.append_nil] at whole
    | error error =>
      obtain ⟨before, rest, tokens, rfl, cut, faulty, position⟩ := yields
      rw [cut.tokensAt_append (endsWord_quote rest), tokensAt_faulty faulty, ← position,
        String.ofList_toList]
      rfl

/-- No word holds a delimiter. -/
theorem isDelimiter_of_tokenize {text : String} (tokenized : tokenize text = .ok tokens) :
    ∀ token ∈ tokens, token.kind = .word → ∀ c ∈ token.text.toList, isDelimiter c = false :=
  fun token member => (IsCut.spells (tokensAt_eq_iff.mp tokenized) token member).isDelimiter

/-! ### Tokens in a row -/

/-- The texts of tokens with single spaces between them are cut into tokens of the same kinds. -/
theorem exists_isCut_row (spelt : ∀ token ∈ tokens, Spells token.kind token.text.toList) (start : Nat) :
    ∃ again, IsCut start ([' '].intercalate (tokens.map (·.text.toList))) again ∧
      again.map (·.kind) = tokens.map (·.kind) ∧ again.map (·.text) = tokens.map (·.text) := by
  induction tokens generalizing start with
  | nil => exact ⟨[], .blank nofun, rfl, rfl⟩
  | cons token rest ih =>
    obtain ⟨first, others⟩ := List.forall_mem_cons.mp spelt
    have same : String.ofList token.text.toList = token.text := String.ofList_toList
    cases rest with
    | nil =>
      have cut : IsCut start (token.text.toList ++ []) _ := .front first (fun _ => nofun) (.blank nofun)
      rw [List.append_nil, same] at cut
      rw [List.map_singleton, List.intercalate_singleton]
      exact ⟨_, cut, rfl, rfl⟩
    | cons next rest =>
      -- The space ends a word, and is not part of the token behind it.
      obtain ⟨again, cut, kinds, texts⟩ := ih others _
      have ends : Ends token.kind (' ' :: [' '].intercalate ((next :: rest).map (·.text.toList))) := by
        rintro - c ⟨⟩ plain
        cases plain.1
      have whole : IsCut start (token.text.toList ++ _) _ := .front first ends (cut.behind (by decide))
      rw [same] at whole
      rw [List.map_cons, List.map_cons, List.intercalate_cons_cons, List.append_assoc]
      exact ⟨_, whole, congrArg (token.kind :: ·) kinds, congrArg (token.text :: ·) texts⟩

/-- **Cutting loses nothing.** A text is cut into exactly those tokens that stand in it in their order,
each at the byte it reports and with a text of its kind, where only white space stands before, between
and behind them and no word could go on. The texts of these tokens with single spaces between them have
tokens of the same kinds and texts. A text is rejected for the reason that is reported if and only if it
is cut up to a quote behind which no quote closes the literal, or the literal is not one of JSON. -/
theorem tokenize_cuts (text : String) :
    (∀ tokens, tokenize text = .ok tokens ↔ IsCut 0 text.toList tokens) ∧
    (∀ tokens, tokenize text = .ok tokens →
      ∃ again, tokenize (" ".intercalate (tokens.map (·.text))) = .ok again ∧
        again.map (·.kind) = tokens.map (·.kind) ∧ again.map (·.text) = tokens.map (·.text)) ∧
    ∀ error, tokenize text = .error error ↔ FailsAt 0 text.toList error := by
  refine ⟨fun tokens => tokensAt_eq_iff, fun tokens cut => ?_, fun error => tokensAt_eq_iff⟩
  obtain ⟨again, row, same⟩ := exists_isCut_row (IsCut.spells (tokensAt_eq_iff.mp cut)) 0
  refine ⟨again, tokensAt_eq_iff.mpr ?_, same⟩
  rwa [String.toList_intercalate, List.map_map]

/-- The space in front takes three bytes, and the quoted text holds a quote and a bracket. -/
theorem tokenize_cuts_quoted :
    let text := "\u3000a eq\"x\\\"[ \"and(b pr)"
    let tokens : List Token :=
      [⟨.word, 3, "a"⟩, ⟨.word, 5, "eq"⟩, ⟨.string "x\"[ ", 7, "\"x\\\"[ \""⟩, ⟨.word, 14, "and"⟩,
        ⟨.openParen, 17, "("⟩, ⟨.word, 18, "b"⟩, ⟨.word, 20, "pr"⟩, ⟨.closeParen, 22, ")"⟩]
    tokenize text = .ok tokens ∧ IsCut 0 text.toList tokens ∧
      ∃ again, tokenize "a eq \"x\\\"[ \" and ( b pr )" = .ok again ∧
        again.map (·.kind) = tokens.map (·.kind) ∧ again.map (·.text) = tokens.map (·.text) := by
  intro text tokens
  have tokenized : tokenize text = .ok tokens := by
    unfold text tokens
    rfl
  exact ⟨tokenized, ((tokenize_cuts text).1 tokens).mp tokenized,
    (tokenize_cuts text).2.1 tokens tokenized⟩

end Scim.Token
