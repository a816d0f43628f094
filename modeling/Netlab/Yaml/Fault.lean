/-!
# What can be wrong with a YAML text
-/

namespace Netlab.Yaml

inductive Fault where
  | forbiddenCharacter
  /-- a character that starts nothing -/
  | strayCharacter
  | missingColon
  | misplacedEntry
  | misplacedKey
  | misplacedValue
  | tabIndentation
  | unexpectedColon
  | unclosedQuote
  | markInQuotes
  | badEscape
  | badBlockHeader
  | badAnchor
  | badTag
  | badDirective
  | unsupportedVersion
  | repeatedDirective
  | missingDocumentStart
  | unknownTagHandle
  | unknownAnchor
  | missingNode
  | unclosedBlock
  | unclosedFlow
  | moreDocuments
deriving DecidableEq

def Fault.message : Fault → String
  | forbiddenCharacter => "control characters are not allowed"
  | strayCharacter => "found a character that cannot start any token"
  | missingColon => "could not find expected ':'"
  | misplacedEntry => "block sequence entries are not allowed here"
  | misplacedKey => "mapping keys are not allowed here"
  | misplacedValue => "mapping values are not allowed here"
  | tabIndentation => "found a tab character where an indentation space is expected"
  | unexpectedColon => "found unexpected ':'"
  | unclosedQuote => "found unexpected end of text in a quoted scalar"
  | markInQuotes => "found unexpected document mark in a quoted scalar"
  | badEscape => "found unknown or invalid escape"
  | badBlockHeader => "the header of a block scalar is malformed"
  | badAnchor => "an anchor or alias is malformed"
  | badTag => "a tag is malformed"
  | badDirective => "a directive is malformed or unknown"
  | unsupportedVersion => "unsupported version"
  | repeatedDirective => "a directive is given twice"
  | missingDocumentStart => "did not find expected document start"
  | unknownTagHandle => "found undefined tag handle"
  | unknownAnchor => "unknown anchor"
  | missingNode => "did not find expected node content"
  | unclosedBlock => "did not find the expected key or entry of a block collection"
  | unclosedFlow => "did not find the expected delimiter of a flow collection"
  | moreDocuments => "more than one document"

end Netlab.Yaml
