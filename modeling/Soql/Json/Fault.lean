import Soql.Decimal.Shortest
import Soql.Text

/-!
# Faults of JSON texts

Why a text is not read: it breaks the grammar, or a value is not what its place asks for.
-/

namespace Soql.Json

inductive Found where
  | null
  | boolean (b : Bool)
  | integer (n : Int)
  | float (negative : Bool) (x : Decimal.Binary64)
  | string (s : String)
  | sequence
  | map
deriving DecidableEq, Repr

inductive Expected where
  | string
  | boolean
  | sequence
  | u32
  | unit
  | record (name : String)
deriving DecidableEq, Repr

inductive Fault where
  | eofValue
  | eofObject
  | eofList
  | eofString
  | expectedIdent
  | expectedValue
  | expectedColon
  | expectedListCommaOrEnd
  | expectedObjectCommaOrEnd
  | keyMustBeString
  | trailingComma
  | trailingCharacters
  | invalidNumber
  | numberOutOfRange
  | invalidEscape
  | controlCharacter
  | loneSurrogate
  | unexpectedEndOfHexEscape
  | invalidType (found : Found) (expected : Expected)
  | invalidValue (n : Int) (expected : Expected)
  | unknownVariant (variant : String) (known : List String)
  | duplicateField (name : String)
  | missingField (name : String)
  | invalidLength (length : Nat) (record : String) (size : Nat)
deriving DecidableEq, Repr

/-- Numbers in messages: in place from 1e-5 up to 1e16, and always with a point. -/
def floatStyle : Decimal.Style := ⟨-5, 15, true, 2⟩

def Found.text : Found → String
  | .null => "null"
  | .boolean b => "boolean `" ++ (if b then "true" else "false") ++ "`"
  | .integer n => "integer `" ++ toString n ++ "`"
  | .float negative x =>
    "floating point `" ++ (if negative then "-" else "") ++ x.text floatStyle ++ "`"
  | .string s => "string " ++ Text.quote s
  | .sequence => "sequence"
  | .map => "map"

def Expected.text : Expected → String
  | .string => "a string"
  | .boolean => "a boolean"
  | .sequence => "a sequence"
  | .u32 => "u32"
  | .unit => "unit"
  | .record name => "struct " ++ name

/-- The known variants of a choice, two by name and more as a list. -/
def variantsText (known : List String) : String :=
  match known.map fun k => "`" ++ k ++ "`" with
  | [] => "there are no variants"
  | [a] => a
  | [a, b] => a ++ " or " ++ b
  | more => "one of " ++ ", ".intercalate more

def Fault.message : Fault → String
  | .eofValue => "EOF while parsing a value"
  | .eofObject => "EOF while parsing an object"
  | .eofList => "EOF while parsing a list"
  | .eofString => "EOF while parsing a string"
  | .expectedIdent => "expected ident"
  | .expectedValue => "expected value"
  | .expectedColon => "expected `:`"
  | .expectedListCommaOrEnd => "expected `,` or `]`"
  | .expectedObjectCommaOrEnd => "expected `,` or `\x7d`"
  | .keyMustBeString => "key must be a string"
  | .trailingComma => "trailing comma"
  | .trailingCharacters => "trailing characters"
  | .invalidNumber => "invalid number"
  | .numberOutOfRange => "number out of range"
  | .invalidEscape => "invalid escape"
  | .controlCharacter => "control character (\\u0000-\\u001F) found while parsing a string"
  | .loneSurrogate => "lone leading surrogate in hex escape"
  | .unexpectedEndOfHexEscape => "unexpected end of hex escape"
  | .invalidType found expected => "invalid type: " ++ found.text ++ ", expected " ++ expected.text
  | .invalidValue n expected =>
    "invalid value: integer `" ++ toString n ++ "`, expected " ++ expected.text
  | .unknownVariant variant known =>
    "unknown variant `" ++ variant ++ "`, expected " ++ variantsText known
  | .duplicateField name => "duplicate field `" ++ name ++ "`"
  | .missingField name => "missing field `" ++ name ++ "`"
  | .invalidLength length record size =>
    "invalid length " ++ toString length ++ ", expected struct " ++ record ++ " with " ++
      toString size ++ (if size = 1 then " element" else " elements")

end Soql.Json
