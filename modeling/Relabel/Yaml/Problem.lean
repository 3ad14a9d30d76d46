/-!
# Problems

What can be wrong with a file of the data language, and its wording.
-/

namespace Relabel.Yaml

/-- Why a file could not be read. -/
inductive Problem where
  | control
  | strayCharacter
  | misplacedEntry
  | misplacedKey
  | misplacedValue
  | unfinishedKey
  | unclosedText
  | markInText
  | badEscape
  | tabIndent
  | colonInFlow
  | badHeader
  | badAnchor
  | badTag
  | unknownTagHandle
  | badDirective
  | repeatedDirective
  | wrongVersion
  | missing (what : String)
  | unknownAnchor
  | severalDocuments
  | wrongType (expected : String)
  | wrongValue (value expected : String)
  | missingField (name : String)
  | repeatedField (name : String)
  | unknownField (name : String)
  /-- The reader has given up; see `Scan.tokens`. -/
  | tooLong
  deriving DecidableEq, Repr

namespace Problem

/-- The problem in words. -/
def message : Problem → String
  | control => "control characters are not allowed"
  | strayCharacter => "found character that cannot start any token"
  | misplacedEntry => "block sequence entries are not allowed in this context"
  | misplacedKey => "mapping keys are not allowed in this context"
  | misplacedValue => "mapping values are not allowed in this context"
  | unfinishedKey => "could not find expected ':'"
  | unclosedText => "found unexpected end of stream"
  | markInText => "found unexpected document indicator"
  | badEscape => "found unknown escape character"
  | tabIndent => "found a tab character where an indentation space is expected"
  | colonInFlow => "found unexpected ':'"
  | badHeader => "did not find expected comment or line break"
  | badAnchor => "did not find expected alphabetic or numeric character"
  | badTag => "did not find expected tag URI"
  | unknownTagHandle => "found undefined tag handle"
  | badDirective => "found a malformed directive"
  | repeatedDirective => "found duplicate directive"
  | wrongVersion => "found incompatible YAML document"
  | missing what => s!"did not find expected {what}"
  | unknownAnchor => "unknown anchor"
  | severalDocuments => "deserializing from YAML containing more than one document is not supported"
  | wrongType expected => s!"invalid type, expected {expected}"
  | wrongValue value expected => s!"invalid value: {value}, expected {expected}"
  | missingField name => s!"missing field: {name}"
  | repeatedField name => s!"duplicate field: {name}"
  | unknownField name => s!"unknown field: {name}"
  | tooLong => "recursion limit exceeded"

end Problem
end Relabel.Yaml
