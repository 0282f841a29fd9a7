/-!
# Faults of YAML texts
-/

namespace ConstPromotion.Yaml

/-- Why a text cannot be read as one YAML document. -/
inductive SyntaxError where
  | forbiddenCharacter
  | unexpectedCharacter
  | missingColon
  | entryNotAllowed
  | keyNotAllowed
  | valueNotAllowed
  | badDirective
  | badAnchor
  | badTag
  | badBlockHeader
  | tabInIndentation
  | markerInScalar
  | unclosedQuote
  | badEscape
  | unexpectedColon
  | unexpectedToken
  | undefinedHandle
  | unknownAnchor
  | severalDocuments
deriving DecidableEq

/-- The wording of a fault. -/
def SyntaxError.message : SyntaxError → String
  | .forbiddenCharacter => "control characters are not allowed"
  | .unexpectedCharacter => "found character that cannot start any token"
  | .missingColon => "could not find expected ':'"
  | .entryNotAllowed => "block sequence entries are not allowed in this context"
  | .keyNotAllowed => "mapping keys are not allowed in this context"
  | .valueNotAllowed => "mapping values are not allowed in this context"
  | .badDirective => "found a malformed directive"
  | .badAnchor => "did not find expected alphabetic or numeric character"
  | .badTag => "found a malformed tag"
  | .badBlockHeader => "found a malformed block scalar header"
  | .tabInIndentation => "found a tab character where an indentation space is expected"
  | .markerInScalar => "found unexpected document indicator"
  | .unclosedQuote => "found unexpected end of stream"
  | .badEscape => "found unknown escape character"
  | .unexpectedColon => "found unexpected ':'"
  | .unexpectedToken => "did not find expected node content"
  | .undefinedHandle => "found undefined tag handle"
  | .unknownAnchor => "unknown anchor"
  | .severalDocuments => "found more than one document"

end ConstPromotion.Yaml
