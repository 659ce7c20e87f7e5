import PatternGrammar.Json.Value
import PatternGrammar.Text.Ascii
import PatternGrammar.Text.Utf8

/-!
# Reading JSON

The strict grammar: no comments, no trailing commas, no leading zeros, no control characters inside
strings and no half of a surrogate pair. Blanks may stand around values and punctuation.
-/

namespace PatternGrammar.Json

def isSpace (b : UInt8) : Bool := b = 32 || b = 9 || b = 10 || b = 13

/-- The text after leading blanks. -/
def skipSpace (t : Text) : Text := t.dropWhile isSpace

/-- The value of a hexadecimal digit. -/
def hexValue? (b : UInt8) : Option Nat :=
  if 48 ≤ b && b ≤ 57 then some (b.toNat - 48)
  else if 97 ≤ b && b ≤ 102 then some (b.toNat - 87)
  else if 65 ≤ b && b ≤ 70 then some (b.toNat - 55)
  else none

/-- Four hexadecimal digits as a number. -/
def hexQuad? (a b c d : UInt8) : Option Nat := do
  let a ← hexValue? a
  let b ← hexValue? b
  let c ← hexValue? c
  let d ← hexValue? d
  return ((a * 16 + b) * 16 + c) * 16 + d

/-- The byte that a one-letter escape stands for. -/
def escapedByte? (b : UInt8) : Option UInt8 :=
  if b = Ascii.doubleQuote || b = Ascii.backslash || b = 47 then some b
  else if b = 98 then some 8
  else if b = 102 then some 12
  else if b = 110 then some 10
  else if b = 114 then some 13
  else if b = 116 then some 9
  else none

/-- Puts bytes in front of a string that has been read. -/
def prepend (bytes : Text) (read : Option (Text × Text)) : Option (Text × Text) :=
  read.map fun (t, rest) => (bytes ++ t, rest)

/-- The bytes of a string up to its closing quote, and what follows the quote. -/
def readString : Text → Option (Text × Text)
  | Ascii.doubleQuote :: rest => some ([], rest)
  | Ascii.backslash :: Ascii.lowerU :: a :: b :: c :: d :: Ascii.backslash :: Ascii.lowerU :: e :: f :: g :: h :: rest =>
      match hexQuad? a b c d with
      | none => none
      | some high =>
          if 0xD800 ≤ high && high < 0xDC00 then
            match hexQuad? e f g h with
            | none => none
            | some low =>
                if 0xDC00 ≤ low && low < 0xE000 then
                  let c := 0x10000 + (high - 0xD800) * 0x400 + (low - 0xDC00)
                  prepend (Text.encode c) (readString rest)
                else none
          else if 0xDC00 ≤ high && high < 0xE000 then none
          else prepend (Text.encode high) (readString (Ascii.backslash :: Ascii.lowerU :: e :: f :: g :: h :: rest))
  | Ascii.backslash :: Ascii.lowerU :: a :: b :: c :: d :: rest =>
      match hexQuad? a b c d with
      | none => none
      | some code =>
          if 0xD800 ≤ code && code < 0xE000 then none
          else prepend (Text.encode code) (readString rest)
  | Ascii.backslash :: b :: rest =>
      match escapedByte? b with
      | none => none
      | some byte => prepend [byte] (readString rest)
  | b :: rest => if b < 32 || b = Ascii.backslash then none else prepend [b] (readString rest)
  | [] => none

/-- The leading digits of a text, and what follows them. -/
def readDigits (t : Text) : Text × Text := (t.takeWhile Text.isDigit, t.dropWhile Text.isDigit)

/-- The natural number that digits spell. -/
def digitsValue (digits : Text) : Nat := digits.foldl (fun n b => n * 10 + (b.toNat - 48)) 0

/-- The digits after a decimal point, if there is one; at least one must follow it. -/
def readFraction? : Text → Option (Option Text × Text)
  | Ascii.dot :: rest =>
      match readDigits rest with
      | ([], _) => none
      | (digits, rest) => some (some digits, rest)
  | t => some (none, t)

/-- The signed digits after an exponent mark, if there is one; at least one must follow it. -/
def readExponent? : Text → Option (Option Int × Text)
  | b :: rest =>
      if b = 101 || b = 69 then
        let (negative, rest) : Bool × Text :=
          match rest with
          | Ascii.minus :: r => (true, r)
          | Ascii.plus :: r => (false, r)
          | r => (false, r)
        match readDigits rest with
        | ([], _) => none
        | (digits, rest) =>
            let n : Int := digitsValue digits
            some (some (if negative then -n else n), rest)
      else some (none, b :: rest)
  | [] => some (none, [])

/-- A number written with digits alone is whole when it fits 64 bits, signed if it has a minus and
unsigned otherwise; every other number is a double. -/
def number? (negative : Bool) (whole : Text) (fraction : Option Text) (exponent : Option Int) :
    Option Json :=
  let n : Int := if negative then -(digitsValue whole : Int) else digitsValue whole
  if fraction.isNone && exponent.isNone && -Int.pow 2 63 ≤ n && n < Int.pow 2 64 then some (.int n)
  else
    let places := fraction.getD []
    let power := exponent.getD 0 - (places.length : Int)
    (Double.ofDecimal? negative (digitsValue (whole ++ places)) power).map .double

/-- A number, and what follows it. -/
def readNumber (t : Text) : Option (Json × Text) := do
  let (negative, t) : Bool × Text :=
    match t with
    | Ascii.minus :: rest => (true, rest)
    | t => (false, t)
  let (whole, t) := readDigits t
  if whole.isEmpty || (1 < whole.length && whole.head? = some Ascii.zero) then none
  let (fraction, t) ← readFraction? t
  let (exponent, t) ← readExponent? t
  let value ← number? negative whole fraction exponent
  return (value, t)

mutual
/-- A value with the blanks before it, and what follows. The fuel bounds the tokens that are read. -/
def readValue : Nat → Text → Option (Json × Text)
  | 0, _ => none
  | fuel + 1, t =>
      match skipSpace t with
      | Ascii.doubleQuote :: rest => (readString rest).map fun (s, rest) => (.string s, rest)
      | Ascii.openBracket :: rest =>
          match skipSpace rest with
          | Ascii.closeBracket :: rest => some (.array [], rest)
          | rest => (readItems fuel rest).map fun (items, rest) => (.array items, rest)
      | Ascii.openBrace :: rest =>
          match skipSpace rest with
          | Ascii.closeBrace :: rest => some (.object [], rest)
          | rest => (readMembers fuel rest).map fun (members, rest) => (ofMembers members, rest)
      | t =>
          match Text.afterStart? "true" t, Text.afterStart? "false" t, Text.afterStart? "null" t with
          | some rest, _, _ => some (.bool true, rest)
          | _, some rest, _ => some (.bool false, rest)
          | _, _, some rest => some (.null, rest)
          | none, none, none => readNumber t

/-- The items of an array after its bracket, through the closing bracket. -/
def readItems : Nat → Text → Option (List Json × Text)
  | 0, _ => none
  | fuel + 1, t => do
      let (item, t) ← readValue fuel t
      match skipSpace t with
      | Ascii.comma :: rest => (readItems fuel rest).map fun (items, rest) => (item :: items, rest)
      | Ascii.closeBracket :: rest => some ([item], rest)
      | _ => none

/-- The members of an object after its brace, through the closing brace. -/
def readMembers : Nat → Text → Option (List (Text × Json) × Text)
  | 0, _ => none
  | fuel + 1, t =>
      match skipSpace t with
      | Ascii.doubleQuote :: rest => do
          let (key, t) ← readString rest
          match skipSpace t with
          | Ascii.colon :: t =>
              let (value, t) ← readValue fuel t
              match skipSpace t with
              | Ascii.comma :: rest =>
                  (readMembers fuel rest).map fun (members, rest) => ((key, value) :: members, rest)
              | Ascii.closeBrace :: rest => some ([(key, value)], rest)
              | _ => none
          | _ => none
      | _ => none
end

/-- The text without the byte order mark that it may start with. -/
def skipMark (t : Text) : Text := (Text.afterStart? "\uFEFF" t).getD t

/-- The value that a whole text spells, if it spells one. -/
def parse? (t : Text) : Option Json :=
  let t := skipMark t
  match readValue (2 * t.length + 2) t with
  | some (value, rest) => if (skipSpace rest).isEmpty then some value else none
  | none => none

end PatternGrammar.Json
