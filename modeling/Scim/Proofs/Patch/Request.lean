import Scim.Patch.Request
import Scim.Proofs.Filter.Writing
import Scim.Proofs.Json.Records
import Scim.Proofs.Patch.Path

/-!
# Writing requests and reading them again

A request that was read from a text is written as an object of its own, with canonical names, without
what is absent, and with the canonical text of each path. Read again this is the request itself, unless
a path has become too long or a floating point number is read as a neighbour.
-/

namespace Scim

open Json

/-! ### Paths -/

namespace PatchPath

variable {limits : Limits} {text : String} {path : PatchPath}

/-- The floating point numbers in the value filter of a path. -/
def floats (path : PatchPath) : List Double :=
  match path.filter with
  | some filter => filter.floats
  | none => []

theorem fits_of_parse (read : parse limits text = .ok path) :
    text.utf8ByteSize ≤ limits.maxFilterLength := by
  refine Nat.not_lt.mp fun tooLong => ?_
  rw [parse, if_pos tooLong] at read
  cases read

/-- The text of a filtered path, from its parts. -/
theorem toList_text_of_isSub (reference : Reference) (filter : Filter) {behind : List Char}
    {sub : Option String} (followed : IsSub behind sub) :
    (PatchPath.mk reference (some filter) sub).text.toList =
      reference.text.toList ++ '[' :: (filter.text.toList ++ ']' :: behind) := by
  cases followed with
  | none => simp [PatchPath.text]
  | named is => simp [PatchPath.text]

/-- A path that was read is read again from its own text, if that is short enough and its numbers are
read back. -/
theorem parse_text_of_parse (read : parse limits text = .ok path)
    (fits : path.text.utf8ByteSize ≤ limits.maxFilterLength)
    (readsBack : ∀ x ∈ path.floats, Filter.ReadsBack x) : parse limits path.text = .ok path := by
  cases split : Text.splitFirst '[' text.toList with
  | none =>
    have plain := Text.splitFirst_eq_none_iff.mp split
    obtain ⟨reference, named, rfl⟩ := (parse_of_notMem (fits_of_parse read) plain).mp read
    have same : PatchPath.text { reference } = text := by
      simp [PatchPath.text, Reference.text_of_parse named]
    rw [same]
    exact read
  | some parts =>
    obtain ⟨inside, behind, parts⟩ := (parse_of_splitFirst (fits_of_parse read) split).mp read
    obtain ⟨reference, filter, sub⟩ := path
    obtain ⟨filter, rfl, filtered⟩ := parts.filtered
    have text_eq := toList_text_of_isSub reference filter parts.followed
    have named := parts.named
    have shorter : filter.text.utf8ByteSize ≤ limits.maxFilterLength := by
      simp only [PatchPath.text, String.utf8ByteSize_append] at fits
      omega
    obtain ⟨writable, same⟩ := Filter.isWritable_of_parse filtered
    obtain ⟨_, _, _, _, bounded⟩ := Filter.parse_eq_ok_iff.mp filtered
    have again := Filter.parse_text writable readsBack shorter (same.symm ▸ bounded)
    rw [same] at again
    -- The attribute is written as it was, so the first bracket is still the one behind it.
    have opening : '[' ∉ reference.text.toList := by
      rw [Reference.text_of_parse named, String.toList_ofList]
      exact parts.first
    refine (parse_of_splitFirst fits (Text.splitFirst_eq_some_iff.mpr ⟨text_eq, opening⟩)).mpr
      ⟨_, behind, text_eq, opening, ?_, parts.whole, ⟨filter, rfl, ?_⟩, parts.followed⟩
    · rw [String.ofList_toList, Reference.text_of_parse named]
      exact named
    · rwa [String.ofList_toList]

end PatchPath

theorem PatchVerb.parse_keyword (verb : PatchVerb) : parse verb.keyword = .ok verb := by
  cases verb <;> rfl

/-! ### Operations -/

namespace PatchOperation

variable {origin : Origin} {room : Nat} {document : Document} {operation : PatchOperation}

/-- The floating point numbers in the path and in the value of an operation. -/
def floats (operation : PatchOperation) : List Double :=
  (match operation.path with
    | some path => path.floats
    | none => []) ++
  (match operation.value with
    | some value => value.floats
    | none => [])

/-- What holds of an operation that was decoded, where its value may be nested `room` deep. -/
structure IsRead (room : Nat) (operation : PatchOperation) : Prop where
  path : ∀ path, operation.path = some path → ∃ text, PatchPath.parse {} text = .ok path
  notNull : operation.value ≠ some .null
  ordered : ∀ value, operation.value = some value → value.Ordered
  nested : ∀ value, operation.value = some value → (Document.ofJson value).nesting ≤ room
  held : ∀ value, operation.value = some value → ∀ n ∈ value.numbers, n.IsRepresentable

theorem parsePath_eq_ok_iff {text : String} {path : PatchPath} :
    fields.parsePath text = .ok path ↔ PatchPath.parse {} text = .ok path :=
  mapError_eq_ok_iff

/-- Each field of an operation is stored on its own. -/
theorem keeps_isRead {documents : List Document} (held : ∀ document ∈ documents, document.IsHeld) :
    Keeps (IsRead room) (fields room) documents := by
  intro field isField document member before after holds stored
  simp only [fields, List.mem_cons, List.not_mem_nil, or_false] at isField
  -- The verb says nothing about the rest; the other two fields answer for themselves.
  rcases isField with rfl | rfl | rfl <;> obtain ⟨content, decoded, same⟩ := bind_eq_ok_iff.mp stored <;>
    cases same
  · exact ⟨holds.path, holds.notNull, holds.ordered, holds.nested, holds.held⟩
  · refine ⟨fun path is => ?_, holds.notNull, holds.ordered, holds.nested, holds.held⟩
    subst is
    rcases decodeOptional_eq_ok_iff.mp decoded with ⟨_, impossible⟩ | ⟨_, _, decoded, same⟩
    · cases impossible
    · cases same
      obtain ⟨text, _, parsed⟩ := decodeParsed_eq_ok_iff.mp decoded
      exact ⟨text, parsePath_eq_ok_iff.mp parsed⟩
  · rcases decodeOptional_eq_ok_iff.mp decoded with ⟨_, rfl⟩ | ⟨notNull, value, read, rfl⟩
    · exact ⟨holds.path, nofun, nofun, nofun, nofun⟩
    · have isValue := decodeValue_eq_ok_iff.mp read
      have is := Document.isValueOf_of_value? _ _ _ isValue
      refine ⟨holds.path, ?_, ?_, ?_, ?_⟩
      · rintro ⟨⟩
        exact notNull (Document.eq_null_of_value? isValue)
      · rintro _ ⟨⟩
        exact is.ordered
      · rintro _ ⟨⟩
        exact is.nested
      · rintro _ ⟨⟩ n inValue
        exact held document member n (is.numbers n inValue)

theorem isRead_of_decode (held : document.IsHeld)
    (decoded : decode origin room document = .ok operation) :
    operation.IsRead (room - 1) := by
  refine decodeRecord_keeps (keeps_isRead fun part member n inPart => ?_) decoded
    ⟨nofun, nofun, nofun, nofun, nofun⟩
  exact held n (Document.numbers_of_mem_parts member inPart)

/-- The text of a path, where a path may be absent. -/
theorem decodeOptional_parsePath {text : String} {path : PatchPath}
    (parsed : PatchPath.parse {} text = .ok path) :
    decodeOptional (decodeParsed fields.parsePath) (.string (some text)) = .ok (some path) := by
  refine decodeOptional_eq_ok_iff.mpr (.inr ⟨nofun, path, ?_, rfl⟩)
  exact decodeParsed_eq_ok_iff.mpr ⟨text, rfl, parsePath_eq_ok_iff.mpr parsed⟩

/-- An operation is decoded from what it is written as. -/
theorem decode_toJson (read : operation.IsRead room)
    (again : ∀ path, operation.path = some path → PatchPath.parse {} path.text = .ok path) :
    decode origin (room + 1) (Document.ofJson operation.toJson) = .ok operation := by
  obtain ⟨verb, path, value⟩ := operation
  have isVerb : decodeParsed PatchVerb.parse (.string (some verb.keyword)) = .ok verb :=
    decodeParsed_eq_ok_iff.mpr ⟨_, rfl, PatchVerb.parse_keyword verb⟩
  have isPath : ∀ path', path = some path' →
      decodeOptional (decodeParsed fields.parsePath) (.string (some path'.text)) = .ok (some path') :=
    fun path' is => decodeOptional_parsePath (again path' is)
  have isValue : ∀ value', value = some value' →
      decodeOptional (decodeValue room) (Document.ofJson value') = .ok (some value') := by
    intro value' is
    refine decodeOptional_eq_ok_iff.mpr (.inr ⟨fun null => ?_, value', ?_, rfl⟩)
    · cases value' with
      | null => exact read.notNull is
      | _ => cases null
    · exact decodeValue_eq_ok_iff.mpr
        (Document.value?_ofJson _ _ (read.ordered _ is) (read.nested _ is))
  refine decodeRecord_object_eq_ok_iff.mpr ⟨Nat.succ_pos room, ?_⟩
  -- What is absent has no entry.
  cases path <;> cases value <;>
    simp [Document.ofJson, Document.ofEntries, storeEntries, fields, RecordField.answersTo,
      bind_eq_ok_iff, isVerb, isPath, isValue]

end PatchOperation

/-! ### Requests -/

namespace PatchRequest

variable {origin : Origin} {room : Nat} {document : Document} {request : PatchRequest}

/-- The floating point numbers in a request. -/
def floats (request : PatchRequest) : List Double := request.operations.flatMap PatchOperation.floats

/-- The operations of a request stand in a list in an object, so there is room for two levels less. -/
theorem isRead_of_decode (held : document.IsHeld) (decoded : decode origin room document = .ok request) :
    ∀ operation ∈ request.operations, operation.IsRead (room - 3) := by
  refine decodeRecord_keeps
    (P := fun request => ∀ operation ∈ request.operations, operation.IsRead (room - 3))
    (fun field isField part member before after holds stored => ?_) decoded nofun
  simp only [fields, List.mem_cons, List.not_mem_nil, or_false] at isField
  rcases isField with rfl | rfl <;> obtain ⟨content, decoded, same⟩ := bind_eq_ok_iff.mp stored <;>
    cases same
  · exact holds
  · intro operation isOperation
    obtain ⟨_, items, rfl, each⟩ := decodeList_eq_ok_iff.mp decoded
    obtain ⟨item, isItem, decoded⟩ := exists_of_mem_decoded each isOperation
    exact PatchOperation.isRead_of_decode (fun n inItem => held n (Document.numbers_of_mem_parts member
      (Document.mem_itemNumbers_iff.mpr ⟨item, isItem, inItem⟩))) decoded

/-- A request is decoded from what it is written as. -/
theorem decode_toJson
    (each : ∀ operation ∈ request.operations, operation.IsRead room ∧
      ∀ path, operation.path = some path → PatchPath.parse {} path.text = .ok path) :
    decode origin (room + 3) (Document.ofJson request.toJson) = .ok request := by
  obtain ⟨schemas, operations⟩ := request
  have areSchemas : decodeList (room + 2) decodeString (.ofJson (.array (schemas.map .string))) =
      .ok schemas :=
    decodeList_map (Nat.succ_pos _) fun schema _ => rfl
  have areOperations : decodeList (room + 2) (PatchOperation.decode origin (room + 1))
      (.ofJson (.array (operations.map PatchOperation.toJson))) = .ok operations :=
    decodeList_map (Nat.succ_pos _) fun operation member =>
      PatchOperation.decode_toJson (each operation member).1 (each operation member).2
  refine decodeRecord_object_eq_ok_iff.mpr ⟨Nat.succ_pos _, ?_⟩
  simp [Document.ofEntries, storeEntries, fields, RecordField.answersTo, bind_eq_ok_iff, areSchemas,
    areOperations]

/-- All numbers of a written request come from the values of its operations. -/
theorem numbers_toJson {n : Number} (member : n ∈ request.toJson.numbers) :
    ∃ operation ∈ request.operations, ∃ value, operation.value = some value ∧ n ∈ value.numbers := by
  simp only [toJson, numbers, entryNumbers, List.append_nil, List.mem_append, mem_itemNumbers_iff,
    List.mem_map] at member
  rcases member with ⟨_, ⟨operation, isOperation, rfl⟩, inOperation⟩ | ⟨_, ⟨schema, _, rfl⟩, inSchema⟩
  · refine ⟨operation, isOperation, ?_⟩
    obtain ⟨verb, path, value⟩ := operation
    cases value with
    | none => cases path <;> simp [PatchOperation.toJson, numbers, entryNumbers] at inOperation
    | some value => cases path <;> simpa [PatchOperation.toJson, numbers, entryNumbers] using inOperation
  · cases inSchema

theorem ofText_eq_ok_iff {body : String} :
    ofText body = .ok request ↔
      decodeText (decode .text maxNesting) body = .ok request ∧ request.validate = .ok () := by
  unfold ofText
  constructor
  · intro read
    obtain ⟨decoded, isDecoded, read⟩ := bind_eq_ok_iff.mp read
    obtain ⟨valid, same⟩ := check_bind_eq_ok_iff.mp read
    cases same
    exact ⟨mapError_eq_ok_iff.mp isDecoded, mapError_eq_ok_iff.mp valid⟩
  · rintro ⟨decoded, valid⟩
    rw [decoded]
    exact check_bind_eq_ok_iff.mpr ⟨mapError_eq_ok_iff.mpr valid, rfl⟩

/-- **Writing a request and reading it again** gives the request, for all texts from which it can have been
read, as long as the text of each path is within the limit on paths and each floating point number is
read back. -/
theorem ofText_text {body : String} {request : PatchRequest} (read : ofText body = .ok request)
    (fits : ∀ operation ∈ request.operations, ∀ path, operation.path = some path →
      path.text.utf8ByteSize ≤ ({} : Limits).maxFilterLength)
    (readsBack : ∀ x ∈ request.floats, Filter.ReadsBack x) :
    ofText request.toJson.text = .ok request := by
  obtain ⟨decoded, valid⟩ := ofText_eq_ok_iff.mp read
  obtain ⟨_, decoded⟩ := decodeText_eq_ok_iff.mp decoded
  have isRead := isRead_of_decode (isHeld_read body) decoded
  have floatsOf {operation : PatchOperation} (member : operation ∈ request.operations) :
      ∀ x ∈ operation.floats, Filter.ReadsBack x :=
    fun x inOperation => readsBack x (List.mem_flatMap.mpr ⟨operation, member, inOperation⟩)
  -- The document of the request is decoded as the request, and the text is read as that document.
  have again : decode .text maxNesting (Document.ofJson request.toJson) = .ok request := by
    refine decode_toJson fun operation member => ⟨isRead operation member, fun path is => ?_⟩
    obtain ⟨text, parsed⟩ := (isRead operation member).path path is
    refine PatchPath.parse_text_of_parse parsed (fits operation member path is) fun x inPath => ?_
    exact floatsOf member x (by simp [PatchOperation.floats, is, inPath])
  have numbers : ∀ n ∈ request.toJson.numbers, n.ReadsBack := by
    intro n inRequest
    obtain ⟨operation, member, value, is, inValue⟩ := numbers_toJson inRequest
    refine readsBack_of_isRepresentable ((isRead operation member).held value is)
      (fun x inFloats => ?_) n inValue
    exact floatsOf member x (by simp [PatchOperation.floats, is, inFloats])
  have document := Document.read_text numbers
  exact ofText_eq_ok_iff.mpr
    ⟨decodeText_eq_ok_iff.mpr (by rw [document]; exact ⟨rfl, again⟩), valid⟩

/-- A request with names in another case, the second spelling of its list, a value that is out of order,
absent parts that are written as `null`, and a path with all its parts. -/
theorem ofText_text_respelt :
    let half : Double := ⟨false, 4602678819172646912, by decide⟩
    let filter : Filter := .compare ⟨none, "size", none⟩ .gt (.number (.float half))
    let path : PatchPath := ⟨⟨some "urn:acme:2.0:Card", "sizes", none⟩, some filter, some "value"⟩
    let added : Json := .object [("value", .object [("b", .array [.number (.integer 7), .null]),
      ("a", .string "x")]), ("op", .string "ADD"), ("path", .null)]
    let removed : Json := .object [("op", .string "Remove"), ("value", .null),
      ("path", .string "urn:acme:2.0:Card:sizes[size  GT 5e-1].value")]
    let body : Json := .object [("operations", .array [added, removed]),
      ("schemas", .array [.string "URN:ietf:params:scim:api:messages:2.0:patchop"])]
    let request : PatchRequest := ⟨["URN:ietf:params:scim:api:messages:2.0:patchop"],
      [⟨.add, none, some (.object [("a", .string "x"), ("b", .array [.number (.integer 7), .null])])⟩,
        ⟨.remove, some path, none⟩]⟩
    ofText body.text = .ok request ∧ path.text = "urn:acme:2.0:Card:sizes[size gt 0.5].value" ∧
      ofText request.toJson.text = .ok request := by
  intro half filter path added removed body request
  have tokenized : Token.tokenize "size  GT 5e-1" =
      .ok [⟨.word, 0, "size"⟩, ⟨.word, 6, "GT"⟩, ⟨.word, 9, "5e-1"⟩] := rfl
  have comparison : Filter.Derives .term [⟨.word, 0, "size"⟩, ⟨.word, 6, "GT"⟩, ⟨.word, 9, "5e-1"⟩]
      filter :=
    .compare ⟨rfl, rfl⟩ rfl (.number rfl (by decide +kernel))
  have filtered : Filter.parse {} "size  GT 5e-1" = .ok filter :=
    Filter.parse_eq_ok_iff.mpr
      ⟨by decide, _, tokenized, .ofConjunction (.ofTerm comparison), by decide⟩
  have split : PatchPath.IsSplit {} "urn:acme:2.0:Card:sizes[size  GT 5e-1].value"
      "urn:acme:2.0:Card:sizes".toList "size  GT 5e-1".toList ".value".toList path :=
    ⟨by decide, by decide, by decide +kernel, rfl, ⟨filter, rfl, by rwa [String.ofList_toList]⟩,
      .named rfl⟩
  have parsed : PatchPath.parse {} "urn:acme:2.0:Card:sizes[size  GT 5e-1].value" = .ok path :=
    (PatchPath.parse_of_splitFirst (by decide)
      (Text.splitFirst_eq_some_iff.mpr ⟨split.text_eq, split.first⟩)).mpr ⟨_, _, split⟩
  have isPath := PatchOperation.decodeOptional_parsePath parsed
  have isVerb : decodeParsed PatchVerb.parse (.string (some "Remove")) = .ok .remove := rfl
  have first : PatchOperation.decode .text 125 (.ofJson added) = .ok
      ⟨.add, none, some (.object [("a", .string "x"), ("b", .array [.number (.integer 7), .null])])⟩ :=
    rfl
  have second : PatchOperation.decode .text 125 (.ofJson removed) =
      .ok ⟨.remove, some path, none⟩ := by
    have absent : decodeOptional (decodeValue 124) .null = .ok none := rfl
    refine decodeRecord_object_eq_ok_iff.mpr ⟨by decide, ?_⟩
    simp [Document.ofJson, Document.ofEntries, storeEntries, PatchOperation.fields,
      RecordField.answersTo, bind_eq_ok_iff, isVerb, isPath, absent]
  have operations : decodeList 126 (PatchOperation.decode .text 125)
      (.ofJson (.array [added, removed])) = .ok request.operations :=
    decodeList_eq_ok_iff.mpr ⟨by decide, _, rfl, .cons first (.cons second .nil)⟩
  have schemas : decodeList 126 decodeString
      (.ofJson (.array [.string "URN:ietf:params:scim:api:messages:2.0:patchop"])) =
      .ok request.schemas := rfl
  have decoded : decode .text maxNesting (.ofJson body) = .ok request := by
    refine decodeRecord_object_eq_ok_iff.mpr ⟨by decide, ?_⟩
    simp [Document.ofEntries, storeEntries, fields, RecordField.answersTo, bind_eq_ok_iff,
      maxNesting, operations, schemas]
  have read : ofText body.text = .ok request := by
    have document : Document.read body.text = (.ofJson body, true) := Document.read_text fun n member => by
      obtain rfl : n = .integer 7 := by
        simpa [body, added, removed, numbers, entryNumbers, itemNumbers] using member
      exact Number.readNumber?_text_integer ⟨by decide, by decide⟩
    have fromText : decodeText (decode .text maxNesting) body.text = .ok request :=
      decodeText_eq_ok_iff.mpr (by rw [document]; exact ⟨rfl, decoded⟩)
    exact ofText_eq_ok_iff.mpr ⟨fromText, rfl⟩
  have text : path.text = "urn:acme:2.0:Card:sizes[size gt 0.5].value" := by decide +kernel
  refine ⟨read, text, ofText_text read (fun operation member path' is => ?_) fun x member => ?_⟩
  · have same : path' = path := by
      simp only [request, List.mem_cons, List.not_mem_nil, or_false] at member
      rcases member with rfl | rfl <;> cases is
      rfl
    rw [same, text]
    decide
  · obtain rfl : x = half := by
      simpa [request, path, filter, floats, PatchOperation.floats, PatchPath.floats, Filter.floats,
        Filter.literalFloats, Json.floats, Json.floats.float?, numbers, entryNumbers, itemNumbers]
        using member
    unfold Filter.ReadsBack
    decide +kernel

end PatchRequest

end Scim
