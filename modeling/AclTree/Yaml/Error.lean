/-
Why a YAML text could not be read: it is not well formed, or its content does
not have the shape that is asked for.
-/

namespace AclTree.Yaml

inductive Error where
  | forbiddenCharacter (point : Nat)
  | strayCharacter (c : Char)
  | tabIndentation
  | missingColon
  | misplacedEntry
  | misplacedKey
  | misplacedValue
  | badAnchor
  | badTag
  | badDirective
  | badBlockHeader
  | badEscape
  | openQuote
  | markerInQuote
  | colonInPlain
  /-- The tokens do not go together; the one named was wanted. -/
  | expected (what : String)
  | unknownHandle (handle : String)
  | unknownAnchor (name : String)
  | severalDocuments
  | tooManyAliases
  /-- The content is of another kind than the one named. -/
  | notA (kind : String)
  | missingField (name : String)
  | repeatedField (name : String)
  deriving DecidableEq

namespace Error

def message : Error → String
  | forbiddenCharacter _ => "control characters are not allowed"
  | strayCharacter _ => "found a character that cannot start any token"
  | tabIndentation => "found a tab where indentation is expected"
  | missingColon => "could not find the expected ':'"
  | misplacedEntry => "a sequence entry is not allowed in this place"
  | misplacedKey => "a mapping key is not allowed in this place"
  | misplacedValue => "a mapping value is not allowed in this place"
  | badAnchor => "an anchor or alias needs a name"
  | badTag => "a tag is malformed"
  | badDirective => "a directive is malformed"
  | badBlockHeader => "the header of a block scalar is malformed"
  | badEscape => "found an unknown escape"
  | openQuote => "found the end of the text inside quotes"
  | markerInQuote => "found a document marker inside quotes"
  | colonInPlain => "found an unexpected ':'"
  | expected what => "did not find the expected " ++ what
  | unknownHandle handle => "the tag handle " ++ handle ++ " is not defined"
  | unknownAnchor name => "the anchor " ++ name ++ " is not defined"
  | severalDocuments => "more than one document"
  | tooManyAliases => "too many aliases"
  | notA kind => "expected " ++ kind
  | missingField name => "missing field " ++ name
  | repeatedField name => "repeated field " ++ name

end Error
end AclTree.Yaml
