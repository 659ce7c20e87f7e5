import PatternGrammar.Regex.Fault
import PatternGrammar.Regex.Settings
import PatternGrammar.Regex.Sign
import PatternGrammar.Regex.Syntax

/-!
# The state of reading an expression

Reading goes over the code points of the text from left to right. The offset of a fault counts bytes
and follows from what is left to read. This module holds the state and the pieces that occur in many places:
numbers, repetition counts and names.
-/

namespace PatternGrammar.Regex

/-- The settings that `(?...)` changes; they last to the end of the group. -/
structure Flags where
  ignoreCase : Bool := false
  multiline : Bool := false
  dotAll : Bool := false
  extended : Bool := false
  blankInClass : Bool := false
  plainGroups : Bool := false
  ungreedy : Bool := false
  duplicateNames : Bool := false
  deriving DecidableEq, Repr

/-- What the last thing in a sequence lets a sign of repetition do: nothing, repeat it, or set the mode of
a quantifier without one. Comments and blanks in between do not count. -/
inductive Preceding where
  | other
  | repeatable
  | quantifier
  deriving DecidableEq, Repr

/-- A group that has been opened and not yet closed. -/
structure OpenGroup where
  kind : GroupKind
  /-- The pieces in front of the group, the last one first. -/
  before : List Piece
  /-- The settings that hold again behind the group. -/
  flags : Flags
  /-- The number to count groups from in every alternative, and the largest count so far. -/
  restart : Option Nat := none
  largest : Nat := 0
  /-- A look around that serves as a condition cannot be repeated. -/
  repeatable : Bool := true
  /-- The group stands alone in a group of this kind, which closes with it. -/
  within : Option GroupKind := none

/-- What is left to read, and what has been learned so far. -/
structure ReadState where
  size : Nat
  rest : List Nat
  settings : Settings := {}
  quoted : Bool := false
  flags : Flags := {}
  /-- The pieces of the innermost open group, the last one first. -/
  pieces : List Piece := []
  preceding : Preceding := .other
  /-- The groups around, the innermost first. -/
  enclosing : List OpenGroup := []
  depth : Nat := 0
  /-- A condition has begun: how many items may still come up to the look around that it needs. -/
  expects : Nat := 0
  /-- The number of groups opened so far, as the next group sees it, and the largest it has been. -/
  opened : Nat := 0
  highest : Nat := 0
  /-- Some alternatives number their groups alike. -/
  sharesNumbers : Bool := false
  /-- The names of groups, the last one first, and how many there are. -/
  names : List (List Nat × Nat) := []
  nameCount : Nat := 0
  /-- The first places of references to single-digit groups. -/
  firstReferences : List (Nat × Nat) := []
  /-- The text names a carriage return or a line feed. -/
  namesBreak : Bool := false

abbrev Reading (α : Type) := StateT ReadState (Except SyntaxError) α

/-- The offset of the byte at which `rest` begins. -/
def ReadState.offsetOf (s : ReadState) (rest : List Nat) : Nat := s.size - Text.encodedLength rest

namespace Reading

/-- What is left to read. -/
def rest : Reading (List Nat) := return (← get).rest

/-- Goes on with `rest`. -/
def skipTo (rest : List Nat) : Reading Unit := modify fun s => { s with rest }

/-- A fault found where `rest` begins. -/
def failAt (fault : SyntaxFault) (rest : List Nat) : Reading α := do
  throw ⟨fault, (← get).offsetOf rest⟩

/-- A fault found `back` bytes before what is left to read. -/
def failBefore (fault : SyntaxFault) (back : Nat) : Reading α := do
  let s ← get
  throw ⟨fault, s.offsetOf s.rest - back⟩

/-- A fault found here. -/
def fail (fault : SyntaxFault) : Reading α := failBefore fault 0

/-- One more piece of the innermost group. -/
def push (piece : Piece) (preceding : Preceding) : Reading Unit :=
  modify fun s => { s with pieces := piece :: s.pieces, preceding }

/-- One more item. -/
def pushItem (i : Item) (repeatable : Bool) : Reading Unit :=
  push (.item i {}) (if repeatable then .repeatable else .other)

end Reading

/-! ## Numbers -/

def isDigit (c : Nat) : Bool := between 48 57 c

def isLower (c : Nat) : Bool := between 97 122 c

def hexValue? (c : Nat) : Option Nat :=
  if isDigit c then some (c - 48)
  else if between 97 102 c then some (c - 87)
  else if between 65 70 c then some (c - 55)
  else none

def octalValue? (c : Nat) : Option Nat := if between 48 55 c then some (c - 48) else none

/-- The text begins with a digit. -/
def startsWithDigit (t : List Nat) : Bool := t.head?.any isDigit

/-- The outcome of reading a number that must stay within a limit. -/
inductive Bounded where
  | value (n : Nat) (rest : List Nat)
  | tooBig (rest : List Nat)

/-- Extends `n` by the digits that follow; stops behind the digit that passes the limit. -/
def readBounded (limit : Nat) : Nat → List Nat → Bounded
  | n, [] => .value n []
  | n, c :: rest =>
      if isDigit c then
        let n := n * 10 + (c - 48)
        if limit < n then .tooBig rest else readBounded limit n rest
      else .value n (c :: rest)

/-- The largest repetition count. -/
def maxCount : Nat := 65535

/-- What stands behind an opening brace. -/
inductive Counts where
  | none
  | counts (least : Nat) (most : Option Nat) (rest : List Nat)
  | fault (fault : SyntaxFault) (rest : List Nat)

/-- The text begins with `n}`, `n,}` or `n,m}`. -/
def beginsWithCounts (t : List Nat) : Bool :=
  startsWithDigit t &&
    match t.dropWhile isDigit with
    | Sign.closeBrace :: _ => true
    | Sign.comma :: rest => (rest.dropWhile isDigit).head? = some Sign.closeBrace
    | _ => false

/-- Reads `n}`, `n,}` or `n,m}`; anything else is no quantifier. A number can be too big, and the two can
be out of order. -/
def readCounts (t : List Nat) : Counts :=
  if !beginsWithCounts t then .none
  else
    match readBounded maxCount 0 t with
    | .tooBig rest => .fault .countTooBig rest
    | .value least (Sign.closeBrace :: rest) => .counts least (some least) rest
    | .value least (Sign.comma :: Sign.closeBrace :: rest) => .counts least none rest
    | .value least rest =>
        match readBounded maxCount 0 (rest.drop 1) with
        | .tooBig rest => .fault .countTooBig rest
        | .value most rest =>
            if most < least then .fault .reversedCounts rest
            else .counts least (some most) (rest.drop 1)

/-- What stands where the number of a group is looked for. -/
inductive GroupNumber where
  | none
  | number (n : Nat) (rest : List Nat)
  | fault (fault : SyntaxFault) (rest : List Nat)

/-- The largest number of a group. -/
def maxGroup : Nat := 65535

/-- A number that may be relative to the groups opened so far. -/
def readGroupNumber (opened : Nat) (t : List Nat) : GroupNumber :=
  let forward := t.head? = some Sign.plus
  let backward := t.head? = some Sign.hyphen
  let digits := if forward || backward then t.drop 1 else t
  if !startsWithDigit digits then .none
  else
    match readBounded (if forward then maxGroup - opened else maxGroup) 0 digits with
    | .tooBig rest => .fault .groupNumberTooBig rest
    | .value n rest =>
        if !forward && !backward then .number n rest
        else if n = 0 then .fault .zeroRelative rest
        else if forward then .number (opened + n) rest
        else if opened < n then .fault .missingGroup rest
        else .number (opened + 1 - n) rest

/-! ## Names -/

/-- The largest number of bytes in a name. -/
def maxNameSize : Nat := 32

/-- The character may stand in the name of a group. -/
def isNameChar (c : Nat) : Bool :=
  if c < 128 then CharKind.holds .word c else Unicode.isLetter c || Unicode.isDecimalDigit c

/-- Reads a name up to its terminator. Gives the name and the offset of its first letter. -/
def readName (terminator : Nat) : Reading (List Nat × Nat) := do
  let s ← get
  match s.rest with
  | [] => Reading.fail .nameExpected
  | c :: _ =>
      if Unicode.isDecimalDigit c then Reading.fail .nameStartsWithDigit
      let name := s.rest.takeWhile isNameChar
      let rest := s.rest.dropWhile isNameChar
      if maxNameSize < Text.encodedLength name then Reading.failAt .nameTooLong rest
      if name.isEmpty then Reading.fail .nameExpected
      match rest with
      | t :: rest' =>
          if t = terminator then
            Reading.skipTo rest'
            return (name, s.offsetOf s.rest)
          else Reading.failAt .unterminatedName rest
      | [] => Reading.failAt .unterminatedName []

/-- The closing delimiter of a name that follows `\k` or `\g`. -/
def closingDelimiter? : Nat → Option Nat
  | Sign.less => some Sign.greater
  | Sign.apostrophe => some Sign.apostrophe
  | Sign.openBrace => some Sign.closeBrace
  | _ => none

end PatternGrammar.Regex
