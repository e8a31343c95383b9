import Scim.Reference

/-!
# Faults of filter text

A fault is reported with its place: the byte at which it was noticed, and the text found there.
Paths of patch operations may hold a filter in brackets and report faults in the same way.
-/

namespace Scim

/-- What a filter may have to continue with. -/
inductive Expectation where
  | attributePath
  | operatorAfterPath
  | operator
  | comparisonValue
  | literal
  | openingParenthesis
  | closingParenthesis
  | closingBracket
  deriving DecidableEq

def Expectation.text : Expectation → String
  | .attributePath => "attribute path or '('"
  | .operatorAfterPath => "operator after attribute path"
  | .operator => "operator"
  | .comparisonValue => "comparison value"
  | .literal => "quoted string, number, true, false or null"
  | .openingParenthesis => "'('"
  | .closingParenthesis => "')'"
  | .closingBracket => "']'"

inductive FilterFault where
  | filterTooLong (limit : Nat)
  | emptyFilter
  | unterminatedString
  | invalidString
  | endOfFilter (expected : Expectation)
  | unexpectedToken (expected : Expectation)
  | unknownOperator (path : String)
  | surplusToken
  | tooDeep (limit : Nat)
  | invalidReference (fault : ReferenceFault)
  | pathTooLong (limit : Nat)
  /-- A value filter stands behind a sub-attribute. -/
  | filterAfterSubAttribute
  | missingBracket
  /-- Something other than a dot stands behind a value filter. -/
  | trailingText
  /-- More than a sub-attribute name stands behind the dot after a value filter. -/
  | notSubAttribute
  deriving DecidableEq

def FilterFault.message : FilterFault → String
  | .filterTooLong limit => "filter exceeds maximum length of " ++ toString limit ++ " bytes"
  | .emptyFilter => "filter is empty"
  | .unterminatedString => "unterminated string literal"
  | .invalidString => "invalid string literal"
  | .endOfFilter expected => "unexpected end of filter, expected " ++ expected.text
  | .unexpectedToken expected => "expected " ++ expected.text
  | .unknownOperator path => "unknown operator after '" ++ path ++ "'"
  | .surplusToken => "unexpected token after end of filter"
  | .tooDeep limit => "filter nesting exceeds maximum depth of " ++ toString limit
  | .invalidReference fault => fault.message
  | .pathTooLong limit => "path exceeds maximum length of " ++ toString limit ++ " bytes"
  | .filterAfterSubAttribute => "a value filter must follow a top-level attribute"
  | .missingBracket => "missing ']' after value filter"
  | .trailingText => "expected '.' or end of path after the value filter"
  | .notSubAttribute => "expected a sub-attribute name after the value filter"

structure FilterError where
  fault : FilterFault
  /-- The text at the place of the fault. -/
  near : String
  /-- In bytes. -/
  position : Nat
  deriving DecidableEq

def FilterError.message (error : FilterError) : String :=
  "Invalid filter at position " ++ toString error.position ++ ": " ++ error.fault.message ++
    " (near '" ++ error.near ++ "')"

end Scim
