import PatternGrammar.Json.Value
import PatternGrammar.Text.Ascii

/-!
# Printing JSON

Compact text has no blanks. Indented text has one element per line, four spaces per level. Strings keep
every byte from 0x20 on as it is, quotes and backslashes apart.
-/

namespace PatternGrammar.Json

/-- A hexadecimal digit in lower case. -/
def hexDigit (n : Nat) : UInt8 := UInt8.ofNat (if n < 10 then 48 + n else 87 + n)

/-- One byte of a string. -/
def escapeByte (b : UInt8) : Text :=
  if b = Ascii.doubleQuote then "\\\""
  else if b = Ascii.backslash then "\\\\"
  else if b = 8 then "\\b"
  else if b = 12 then "\\f"
  else if b = 10 then "\\n"
  else if b = 13 then "\\r"
  else if b = 9 then "\\t"
  else if b < 32 then "\\u00" ++ [hexDigit (b.toNat / 16), hexDigit (b.toNat % 16)]
  else [b]

/-- A string between its quotes. -/
def stringText (t : Text) : Text := Ascii.doubleQuote :: t.flatMap escapeByte ++ [Ascii.doubleQuote]

/-- The text of a value that holds no other values. -/
def scalarText : Json → Text
  | .null => "null"
  | .bool true => "true"
  | .bool false => "false"
  | .int n => Text.ofInt n
  | .double x => x.toText
  | .string t => stringText t
  | .array _ => "[]"
  | .object _ => "\x7b\x7d"

mutual
/-- The value without blanks. -/
def compact : Json → Text
  | .array items => Ascii.openBracket :: compactItems items ++ [Ascii.closeBracket]
  | .object members => Ascii.openBrace :: compactMembers members ++ [Ascii.closeBrace]
  | v => scalarText v

def compactItems : List Json → Text
  | [] => []
  | [v] => compact v
  | v :: rest => compact v ++ "," ++ compactItems rest

def compactMembers : List (Text × Json) → Text
  | [] => []
  | [(k, v)] => stringText k ++ ":" ++ compact v
  | (k, v) :: rest => stringText k ++ ":" ++ compact v ++ "," ++ compactMembers rest
end

/-- A new line at a level. -/
def newline (level : Nat) : Text := 10 :: Text.spaces (4 * level)

mutual
/-- The value with one element per line, `level` levels deep. -/
def indented (level : Nat) : Json → Text
  | .array [] => "[]"
  | .array (v :: rest) =>
      Ascii.openBracket :: newline (level + 1) ++ indentedItems (level + 1) (v :: rest) ++
        newline level ++ [Ascii.closeBracket]
  | .object [] => "\x7b\x7d"
  | .object (m :: rest) =>
      Ascii.openBrace :: newline (level + 1) ++ indentedMembers (level + 1) (m :: rest) ++
        newline level ++ [Ascii.closeBrace]
  | v => scalarText v

def indentedItems (level : Nat) : List Json → Text
  | [] => []
  | [v] => indented level v
  | v :: rest => indented level v ++ "," ++ newline level ++ indentedItems level rest

def indentedMembers (level : Nat) : List (Text × Json) → Text
  | [] => []
  | [(k, v)] => stringText k ++ ": " ++ indented level v
  | (k, v) :: rest =>
      stringText k ++ ": " ++ indented level v ++ "," ++ newline level ++ indentedMembers level rest
end

end PatternGrammar.Json
