import PatternGrammar.Regex.Reading.State

/-!
# Escapes

What a backslash and the characters behind it stand for.
-/

namespace PatternGrammar.Regex

/-- What an escape stands for. -/
inductive Escape where
  | literal (c : Nat)
  /-- A class of characters. -/
  | member (m : Member)
  /-- Something else that takes one character or more. -/
  | single (s : Single)
  | boundary
  | anchor (anchor : Anchor)
  | keepOut
  | backReference (number : Nat)
  | nameReference
  | subroutine

/-- A class of characters outside of brackets. -/
def Member.toSingle : Member → Single
  | .kind k negated => .kind k negated
  | .property .any false => .any
  | .property p negated => .property p negated
  | .range low _ => .literal low false
  | .named _ _ => .any

/-- The escapes that stand for one control character. -/
def controlCode? : Char → Option Nat
  | 'a' => some 7
  | 'e' => some 27
  | 'f' => some 12
  | 'n' => some 10
  | 'r' => some 13
  | 't' => some 9
  | _ => none

/-- The escapes that stand for a class of characters. -/
def escapedKind? : Char → Option (CharKind × Bool)
  | 'd' => some (.digit, false)
  | 'D' => some (.digit, true)
  | 's' => some (.space, false)
  | 'S' => some (.space, true)
  | 'w' => some (.word, false)
  | 'W' => some (.word, true)
  | 'h' => some (.horizontal, false)
  | 'H' => some (.horizontal, true)
  | 'v' => some (.vertical, false)
  | 'V' => some (.vertical, true)
  | _ => none

/-! ## Code points -/

/-- Up to `count` more octal digits. -/
def readOctal : (count : Nat) → Nat → List Nat → Nat × List Nat
  | count + 1, n, c :: rest =>
      match octalValue? c with
      | some d => readOctal count (n * 8 + d) rest
      | none => (n, c :: rest)
  | _, n, rest => (n, rest)

/-- The number that the digits in front spell, and what follows them. -/
def readDigits (base : Nat) (digit? : Nat → Option Nat) : Nat → List Nat → Nat × List Nat
  | n, c :: rest =>
      match digit? c with
      | some d => readDigits base digit? (n * base + d) rest
      | none => (n, c :: rest)
  | n, [] => (n, [])

/-- Reads the digits of a code point up to a closing brace. -/
def readBracedCode (base : Nat) (digit? : Nat → Option Nat) (malformed : SyntaxFault)
    (digits : List Nat) : Reading Escape := do
  match digits with
  | [] => Reading.failAt .digitsMissing digits
  | c :: _ =>
      if c = Sign.closeBrace then Reading.failAt .digitsMissing digits
      let (n, after) := readDigits base digit? 0 digits
      if lastCodePoint < n then Reading.failAt .codePointTooBig after
      match after with
      | Sign.closeBrace :: rest =>
          if between 0xD800 0xDFFF n then Reading.failAt .surrogate after
          Reading.skipTo rest
          return .literal n
      | _ => Reading.failAt malformed after

/-- A digit behind a backslash: a reference to a group if it is below ten, begins with 8 or 9, or so
many groups have been opened; an octal code otherwise. -/
def readDigitEscape (inClass : Bool) (first : Nat) (rest : List Nat) : Reading Escape := do
  let opened := (← get).opened
  let octal : Reading Escape := do
    if 56 ≤ first then return .literal first
    let (n, rest) := readOctal 2 (first - 48) rest
    Reading.skipTo rest
    return .literal n
  if inClass || first = 48 then octal
  else
    match readBounded 214748363 0 (first :: rest) with
    | .tooBig _ => octal
    | .value n rest =>
        if n < 10 || 56 ≤ first || n ≤ opened then
          Reading.skipTo rest
          return .backReference n
        else octal

/-- `\x` with up to two digits, or with any number of them in braces. -/
def readHexEscape (rest : List Nat) : Reading Escape := do
  match rest with
  | Sign.openBrace :: digits => readBracedCode 16 hexValue? .malformedHex digits
  | c :: rest =>
      match hexValue? c with
      | none => return .literal 0
      | some high =>
          match rest with
          | d :: rest' =>
              match hexValue? d with
              | some low => Reading.skipTo rest'; return .literal (high * 16 + low)
              | none => Reading.skipTo rest; return .literal high
          | [] => Reading.skipTo []; return .literal high
  | [] => return .literal 0

/-- `\o` with digits in braces. -/
def readOctalEscape (rest : List Nat) : Reading Escape := do
  match rest with
  | Sign.openBrace :: digits => readBracedCode 8 octalValue? .malformedOctal digits
  | [] => Reading.failBefore .octalBraceMissing 1
  | _ => Reading.fail .octalBraceMissing

/-- `\N`: any character that does not end a line, unless a code point follows in braces. -/
def readNEscape (rest : List Nat) : Reading Escape := do
  match rest with
  | Sign.openBrace :: inner =>
      match readCounts inner, inner with
      | .counts .., _ => return .single .notNewline
      | .fault fault _, _ => Reading.fail fault
      | .none, Sign.upperU :: Sign.plus :: digits => readBracedCode 16 hexValue? .malformedHex digits
      | .none, _ => Reading.fail .unsupportedEscape
  | _ => return .single .notNewline

/-! ## Properties -/

/-- The name of a property counts so many characters at most. -/
def maxPropertyName : Nat := 49

/-- The character does not count in the name of a property. -/
def isLooseBlank (c : Nat) : Bool :=
  c = Sign.underscore || c = Sign.hyphen || c = Sign.space || between 9 13 c

/-- A property that cannot be read is reported behind the first byte that does not belong. -/
def malformedPropertyAt (c : Nat) (rest : List Nat) : Reading α := do
  let s ← get
  throw ⟨.malformedProperty, s.offsetOf (c :: rest) + 1⟩

/-- Reads the name of a property up to the closing brace; `room` is what may still follow. Gives the name
in lower case, and whether a caret negates it. -/
def readPropertyName : (room : Nat) → (name : List Char) → (negated : Bool) → List Nat →
    Reading (List Char × Bool)
  | _, _, _, [] => Reading.failAt .malformedProperty []
  | room, name, negated, c :: rest =>
      if isLooseBlank c then readPropertyName room name negated rest
      else if name.isEmpty && !negated && c = Sign.caret then readPropertyName room name true rest
      else if c = Sign.closeBrace then do
        Reading.skipTo rest
        return (name.reverse, negated)
      else if !between Sign.ampersand 122 c then malformedPropertyAt c rest
      else
        let letter := (Char.ofNat c).toLower
        match room with
        | room + 2 => readPropertyName (room + 1) (letter :: name) negated rest
        | _ => malformedPropertyAt c rest

/-- Reads the property behind `\p`, or behind `\P` if it is negated. -/
def readProperty (negated : Bool) (rest : List Nat) : Reading Escape := do
  let (name, inverted) ←
    match rest with
    | [] => Reading.fail .malformedProperty
    | Sign.openBrace :: inner => readPropertyName maxPropertyName [] false inner
    | c :: rest =>
        if between 65 90 c || isLower c then do
          Reading.skipTo rest
          pure ([(Char.ofNat c).toLower], false)
        else malformedPropertyAt c rest
  let isSeparator (c : Char) : Bool := c = ':' || c = '='
  let property? :=
    if name.any isSeparator then
      Property.ofValue? (String.ofList (name.takeWhile (!isSeparator ·)))
        (String.ofList ((name.dropWhile (!isSeparator ·)).drop 1))
    else Property.ofName? (String.ofList name)
  match property? with
  | some p => return .member (.property p (negated != inverted))
  | none => Reading.fail .unknownProperty

/-! ## All escapes -/

/-- `\g`: a reference by a plain or braced number, or by a braced name, or a subroutine call. -/
def readGEscape (rest : List Nat) : Reading Escape := do
  let opened := (← get).opened
  let numbered (n : Nat) (rest : List Nat) : Reading Escape := do
    if n = 0 then Reading.failAt .missingGroup rest
    Reading.skipTo rest
    return .backReference n
  match rest with
  | Sign.less :: _ => return .subroutine
  | Sign.apostrophe :: _ => return .subroutine
  | Sign.openBrace :: inner =>
      match readGroupNumber opened inner with
      | .none => return .nameReference
      | .number n (Sign.closeBrace :: rest) => numbered n rest
      | .number _ _ => Reading.fail .malformedSubroutine
      | .fault fault _ => Reading.fail fault
  | rest =>
      match readGroupNumber opened rest with
      | .none => Reading.fail .malformedSubroutine
      | .number n rest => numbered n rest
      | .fault fault rest => Reading.failAt fault rest

/-- `\c`: the control character of a printable one. -/
def readControl (rest : List Nat) : Reading Escape := do
  match rest with
  | [] => Reading.fail .trailingControl
  | d :: rest =>
      if !between 32 126 d then Reading.fail .controlNotPrintable
      let upper := if isLower d then d - 32 else d
      Reading.skipTo rest
      return .literal (upper ^^^ 0x40)

/-- The escapes that belong to other notations. -/
def isUnsupportedEscape (letter : Char) : Bool :=
  letter = 'F' || letter = 'L' || letter = 'l' || letter = 'U' || letter = 'u'

/-- Reads what follows a backslash. -/
def readEscape (inClass : Bool) : Reading Escape := do
  match ← Reading.rest with
  | [] => Reading.fail .trailingBackslash
  | c :: rest =>
      Reading.skipTo rest
      if !CharClass.alnum.holds c then return .literal c
      let letter := Char.ofNat c
      if let some code := controlCode? letter then return .literal code
      if let some (k, negated) := escapedKind? letter then
        return .member (.ofKind (← get).settings.wideClasses k negated)
      if isDigit c then readDigitEscape inClass c rest
      else
        match letter with
        | 'b' => return .boundary
        | 'B' => return .anchor .notWordBoundary
        | 'A' => return .anchor .subjectStart
        | 'G' => return .anchor .searchStart
        | 'Z' => return .anchor .finalLineEnd
        | 'z' => return .anchor .subjectEnd
        | 'N' => readNEscape rest
        | 'R' => return .single .newline
        | 'X' => return .single .cluster
        | 'C' => return .single .byte
        | 'p' => readProperty false rest
        | 'P' => readProperty true rest
        | 'K' => return .keepOut
        | 'k' => return .nameReference
        | 'x' => readHexEscape rest
        | 'o' => readOctalEscape rest
        | 'g' => if inClass then return .literal c else readGEscape rest
        | 'c' => readControl rest
        | _ =>
            if isUnsupportedEscape letter then Reading.fail .unsupportedEscape
            else Reading.failBefore .unknownEscape 1

end PatternGrammar.Regex
