import ModelForms.Json.Reader
import ModelForms.Text.Shown

/-!
# Messages about JSON

The wording of every error of a reader.
-/

namespace ModelForms

/-- What a text holds, as it stands in messages. -/
def JsonFound.text : JsonFound → String
  | .null => "null"
  | .bool b => "boolean `" ++ (if b then "true" else "false") ++ "`"
  | .number (.int i) => "integer `" ++ toString i ++ "`"
  | .number (.float d) => "floating point `" ++ d.jsonText ++ "`"
  | .string s => "string " ++ Shown.quoted s
  | .sequence => "sequence"
  | .map => "map"

namespace JsonError

/-- A list of field names as it stands in messages. -/
def fieldList : List String → String
  | [] => ""
  | [name] => "`" ++ name ++ "`"
  | name :: rest => "`" ++ name ++ "`, " ++ fieldList rest

/-- The text of an error. -/
def message : JsonError → String
  | .endOfValue => "EOF while parsing a value"
  | .endOfList => "EOF while parsing a list"
  | .endOfObject => "EOF while parsing an object"
  | .endOfString => "EOF while parsing a string"
  | .expectedColon => "expected `:`"
  | .expectedListCommaOrEnd => "expected `,` or `]`"
  | .expectedObjectCommaOrEnd => "expected `,` or `\x7d`"
  | .expectedValue => "expected value"
  | .expectedWord => "expected ident"
  | .keyMustBeString => "key must be a string"
  | .trailingComma => "trailing comma"
  | .trailingCharacters => "trailing characters"
  | .invalidNumber => "invalid number"
  | .numberOutOfRange => "number out of range"
  | .invalidEscape => "invalid escape"
  | .unpairedEscape => "unexpected end of hex escape"
  | .loneSurrogate => "lone leading surrogate in hex escape"
  | .controlCharacter => "control character (\\u0000-\\u001F) found while parsing a string"
  | .nestedTooDeeply => "recursion limit exceeded"
  | .wrongKind found expected => "invalid type: " ++ found.text ++ ", expected " ++ expected
  | .unknownField name fields =>
      "unknown field `" ++ name ++ "`, expected one of " ++ fieldList fields
  | .duplicateField name => "duplicate field `" ++ name ++ "`"
  | .noVariant choice => "data did not match any variant of untagged enum " ++ choice
  | .invalidBoolean text =>
      "invalid boolean value: '" ++ text ++ "'. Expected true, false, 'true', or 'false'"

end JsonError

end ModelForms
