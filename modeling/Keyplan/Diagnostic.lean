import Keyplan.Report

/-!
What can be wrong with a keyboard description. A fault is one of a fixed list, each with one
wording; a diagnostic is a fault together with its place and what is known about it.
-/

namespace Keyplan

/-- Faults of spelling and form. -/
inductive SyntaxFault where
  | invalidToken
  | invalidNumber
  | charLength
  | noLayout
  | duplicateLayout
  | unexpectedTopLevel
  | noOpenBrace
  | unclosedBlock
  | noSemicolon
  | emptyRow
  | invalidLayoutItem
  | noRemapColumn
  | unclosedBracket
  | noBackend
  | noOptionName
  | noColon
  | noString
  | noKeyName
  | noOut
  | noLayerName
  | invalidKey
  | unclosedChord
  deriving DecidableEq, Repr

/-- Faults of meaning. -/
inductive SemanticFault where
  | emptyLayout
  | zeroCount
  | overlappingKeys
  | inconsistentWidth
  | remapOutOfMatrix
  | coordinateOutOfRange
  | duplicateLayer
  | impossibleKeyLocation
  | badChordPositions
  | unknownNamedKey
  | unknownLayer
  | unknownCharKey
  | unknownBackend
  | duplicateKey
  | optionRequired
  | invalidOptionValue
  deriving DecidableEq, Repr

inductive Cause where
  | form (fault : SyntaxFault)
  | meaning (fault : SemanticFault)
  deriving DecidableEq, Repr

def SyntaxFault.message : SyntaxFault → String
  | invalidToken => "invalid token"
  | invalidNumber => "invalid number"
  | charLength => "a character key must contain exactly one character"
  | noLayout => "a keyboard description needs a layout block"
  | duplicateLayout => "a keyboard description can have only one layout block"
  | unexpectedTopLevel => "expected a layout, options, key or layer block"
  | noOpenBrace => "a block must be opened by \x7b"
  | unclosedBlock => "unclosed block; \x7d is missing"
  | noSemicolon => "a row must be terminated by ;"
  | emptyRow => "a row must contain at least one item"
  | invalidLayoutItem => "a layout row can contain only Nk, Ns and [N]"
  | noRemapColumn => "[ in a layout row must be followed by a matrix column"
  | unclosedBracket => "unclosed bracket; ] is missing"
  | noBackend => "a backend name is missing"
  | noOptionName => "an option name is missing"
  | noColon => "a colon must follow the name"
  | noString => "a value must be a string"
  | noKeyName => "a key declaration needs a name"
  | noOut => "a key declaration can contain only out lines"
  | noLayerName => "a layer name is missing"
  | invalidKey => "invalid key"
  | unclosedChord => "unclosed chord; < is missing"

def SemanticFault.message : SemanticFault → String
  | emptyLayout => "a layout needs at least one row"
  | zeroCount => "a count must be at least 1"
  | overlappingKeys => "overlapping keys"
  | inconsistentWidth => "inconsistent matrix width"
  | remapOutOfMatrix => "remapped column is outside the matrix"
  | coordinateOutOfRange => "coordinate out of range"
  | duplicateLayer => "duplicate layer"
  | impossibleKeyLocation => "impossible key location"
  | badChordPositions => "a chord must sit between two keys"
  | unknownNamedKey => "unknown key"
  | unknownLayer => "unknown layer"
  | unknownCharKey => "unknown character key"
  | unknownBackend => "unknown backend"
  | duplicateKey => "duplicate key declaration"
  | optionRequired => "option required"
  | invalidOptionValue => "invalid option value"

def Cause.message : Cause → String
  | form fault => "syntax error: " ++ fault.message
  | meaning fault => fault.message

structure Diagnostic where
  cause : Cause
  detail : String := ""
  span : Span := {}
  labels : List Label := []
  help : String := ""
  suggestions : List String := []
  deriving DecidableEq, Repr

namespace Diagnostic

def report (d : Diagnostic) : Report where
  cause := d.cause.message
  detail := d.detail
  span := d.span
  labels := d.labels
  help := d.help
  suggestions := d.suggestions

def render (d : Diagnostic) (origin : Origin := {}) : Text :=
  d.report.render origin

end Diagnostic

end Keyplan
