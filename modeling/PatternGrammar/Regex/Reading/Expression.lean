import PatternGrammar.Regex.Reading.Class
import PatternGrammar.Regex.Reading.Front
import PatternGrammar.Regex.Reading.Opening

/-!
# Reading an expression

One step reads one item, or opens or closes a group; the open groups are kept on a list. A quantifier binds
the item before it, if that item can be repeated; comments and empty quotations are no items.
-/

namespace PatternGrammar.Regex

/-- So many groups may stand within each other. -/
def maxDepth : Nat := 250

/-! ## Blanks and comments -/

/-- Blanks that the extended setting leaves out. -/
def isPatternSpace (c : Nat) : Bool :=
  between 9 13 c || c = 32 || c = 0x85 || c = 0x200E || c = 0x200F || c = 0x2028 || c = 0x2029

/-- What follows a line break, if the text begins with one. -/
def afterBreak? (lineBreak : LineBreak) (t : List Nat) : Option (List Nat) :=
  match lineBreak, t with
  | .lineFeed, Sign.lineFeed :: rest => some rest
  | .carriageReturn, Sign.carriageReturn :: rest => some rest
  | .pair, Sign.carriageReturn :: Sign.lineFeed :: rest => some rest
  | .zero, 0 :: rest => some rest
  | .pairOrEither, Sign.carriageReturn :: Sign.lineFeed :: rest => some rest
  | .pairOrEither, c :: rest =>
      if c = Sign.carriageReturn || c = Sign.lineFeed then some rest else none
  | .any, Sign.carriageReturn :: Sign.lineFeed :: rest => some rest
  | .any, c :: rest => if isVerticalSpace c then some rest else none
  | _, _ => none

/-- What follows the line. -/
def afterLine (lineBreak : LineBreak) : List Nat → List Nat
  | [] => []
  | c :: rest =>
      match afterBreak? lineBreak (c :: rest) with
      | some after => after
      | none => afterLine lineBreak rest

/-! ## Quantifiers -/

/-- A quantifier: its bounds, and what follows them. -/
def quantifierAt? (c : Nat) (rest : List Nat) : Option (Nat × Option Nat × List Nat) :=
  match c with
  | Sign.star => some (0, none, rest)
  | Sign.plus => some (1, none, rest)
  | Sign.question => some (0, some 1, rest)
  | Sign.openBrace =>
      match readCounts rest with
      | .counts least most rest => some (least, most, rest)
      | _ => none
  | _ => none

/-- The mode of a quantifier without a sign behind it. -/
def plainMode (ungreedy : Bool) : RepeatMode := if ungreedy then .reluctant else .greedy

/-- The mode that a sign behind a quantifier sets. -/
def modeAt? (ungreedy : Bool) (c : Nat) : Option RepeatMode :=
  match c with
  | Sign.plus => some .possessive
  | Sign.question => some (plainMode !ungreedy)
  | _ => none

/-- The piece under a quantifier. What ends the match can be left out, as a group of its own. -/
def Piece.quantified (times : Times) : Piece → Piece
  | .item (.verb (.accept name)) once =>
      .group .plain (.item (.verb (.accept name)) once .stop) times
  | piece => piece.repeated times

/-- The piece with another mode of its quantifier. -/
def Piece.inMode (mode : RepeatMode) : Piece → Piece
  | .bar => .bar
  | .item i times => .item i { times with mode }
  | .group kind body times => .group kind body { times with mode }

/-- Sets the mode of the last quantifier. -/
def setMode (mode : RepeatMode) : Reading Unit :=
  modify fun s =>
    match s.pieces with
    | last :: before => { s with pieces := last.inMode mode :: before, preceding := .other }
    | [] => s

/-- Repeats the last piece. -/
def readQuantifier (least : Nat) (most : Option Nat) (rest : List Nat) : Reading Unit := do
  Reading.skipTo rest
  let s ← get
  match s.preceding, s.pieces with
  | .repeatable, last :: before =>
      let times : Times := { least, most, mode := plainMode s.flags.ungreedy }
      set { s with pieces := last.quantified times :: before, preceding := .quantifier }
  | _, _ => Reading.failBefore .nothingToRepeat 1

/-! ## Items -/

/-- A literal character. -/
def pushLiteral (c : Nat) : Reading Unit := do
  if c = Sign.carriageReturn || c = Sign.lineFeed then modify fun s => { s with namesBreak := true }
  Reading.pushItem (.single (.ofLiteral c (← get).flags.ignoreCase)) true

/-- Reads an escape outside a class. -/
def readEscapeItem : Reading Unit := do
  match ← readEscape false with
  | .literal c => pushLiteral c
  | .member m => Reading.pushItem (.single m.toSingle) true
  | .single s => Reading.pushItem (.single s) true
  | .boundary => Reading.pushItem (.anchor .wordBoundary) false
  | .anchor a => Reading.pushItem (.anchor a) false
  | .keepOut => Reading.pushItem .keepOut false
  | .backReference n => pushBackReference n
  | .nameReference => readNameReference
  | .subroutine => readSubroutine

/-- The boundary of a word with a look at the side where the word is. -/
def pushWordEdge (behind : Bool) (offset : Nat) : Reading Unit := do
  let word := (Member.ofKind (← get).settings.wideClasses .word false).toSingle
  Reading.pushItem (.anchor .wordBoundary) false
  Reading.push (.group (.look { behind, negated := false } offset) (.item (.single word) {} .stop) {})
    .repeatable

/-- Goes on with the next alternative. Alternatives that share their numbers begin at the same one. -/
def readBar : Reading Unit :=
  modify fun s =>
    let s := { s with pieces := .bar :: s.pieces, preceding := .other }
    match s.enclosing with
    | g :: outer =>
        match g.restart with
        | some n =>
            { s with
              opened := n
              enclosing := { g with largest := max g.largest s.opened } :: outer }
        | none => s
    | [] => s

/-- Closes the innermost group. -/
def closeGroup : Reading Unit := do
  let s ← get
  match s.enclosing with
  | [] => Reading.failBefore .unmatchedParenthesis 1
  | g :: outer =>
      let inner : Piece := .group g.kind (ofPieces s.pieces) {}
      let piece : Piece :=
        match g.within with
        | some kind => .group kind (ofPieces [inner]) {}
        | none => inner
      set { s with
        pieces := piece :: g.before
        enclosing := outer
        depth := s.depth - 1
        flags := g.flags
        opened := if g.restart.isSome then max g.largest s.opened else s.opened
        preceding := if g.repeatable then .repeatable else .other }

/-- The text opens a look around that can serve as a condition, or a place for an observer in front of
one. It follows an opening parenthesis, and no item but one for an observer may come before it. -/
def opensCondition (expected : Nat) (t : List Nat) : Bool :=
  match t with
  | a :: b :: c :: _ =>
      if a = Sign.star then isLower b
      else
        a = Sign.question &&
          ((b = Sign.upperC && expected = 2) || b = Sign.equals || b = Sign.exclamation ||
            (b = Sign.less && (c = Sign.equals || c = Sign.exclamation)))
  | _ => false

/-- Reads the item that begins with `c`, or opens or closes a group, if `c` begins no quantifier. It goes on
with `rest`, and `expected` tells whether a condition needs it. -/
def readUnit (expected c : Nat) (rest : List Nat) : Reading Unit := do
  match c with
  | Sign.bar => readBar
  | Sign.closeParen => closeGroup
  | Sign.openParen => readOpening expected rest
  | Sign.backslash => readEscapeItem
  | Sign.openBracket =>
      match rest with
      | Sign.openBracket :: Sign.colon :: edge :: Sign.colon :: Sign.closeBracket ::
          Sign.closeBracket :: after =>
          if edge = Sign.less || edge = Sign.greater then
            let offset := (← get).offsetOf (c :: rest)
            Reading.skipTo after
            pushWordEdge (edge = Sign.greater) offset
          else Reading.pushItem (.single (← readClass)) true
      | _ => Reading.pushItem (.single (← readClass)) true
  | Sign.caret =>
      Reading.pushItem (.anchor (if (← get).flags.multiline then .lineStart else .textStart)) false
  | Sign.dollar =>
      Reading.pushItem (.anchor (if (← get).flags.multiline then .lineEnd else .textEnd)) false
  | Sign.dot => Reading.pushItem (.single (if (← get).flags.dotAll then .any else .notNewline)) true
  | Sign.openBrace =>
      match readCounts rest with
      | .fault fault rest => Reading.failAt fault rest
      | _ => pushLiteral c
  | _ => pushLiteral c

/-- Reads the item that begins with `c`, and that no setting leaves out. -/
def readItem (c : Nat) (rest : List Nat) : Reading Unit := do
  let s ← get
  let expected := s.expects
  if 0 < expected && !(c = Sign.openParen && opensCondition expected rest) then
    throw ⟨.assertionExpected, s.offsetOf rest - 1⟩
  set { s with rest, expects := 0 }
  match if s.preceding = .quantifier then modeAt? s.flags.ungreedy c else none with
  | some mode => setMode mode
  | none =>
      match quantifierAt? c rest with
      | some (least, most, rest) => readQuantifier least most rest
      | none => readUnit expected c rest

/-- Reads one character of a quotation. -/
def readQuoted (c : Nat) (rest : List Nat) : Reading Unit := do
  match c, rest with
  | Sign.backslash, Sign.upperE :: rest => modify fun s => { s with rest, quoted := false }
  | _, _ =>
      let s ← get
      if 0 < s.expects then throw ⟨.assertionExpected, s.offsetOf rest - 1⟩
      Reading.skipTo rest
      pushLiteral c

/-- Reads the next item, or leaves something out. -/
def readNext (c : Nat) (rest : List Nat) : Reading Unit := do
  let s ← get
  if maxDepth < s.depth then Reading.fail .tooDeep
  if s.quoted then readQuoted c rest
  else
    match c, rest with
    | Sign.backslash, Sign.upperQ :: rest => set { s with rest, quoted := true }
    | Sign.backslash, Sign.upperE :: rest => Reading.skipTo rest
    | _, _ =>
        if s.flags.extended && isPatternSpace c then Reading.skipTo rest
        else if s.flags.extended && c = Sign.numberSign then
          Reading.skipTo (afterLine s.settings.lineBreak rest)
        else
          match c, rest with
          | Sign.openParen, Sign.question :: Sign.numberSign :: comment =>
              match comment.dropWhile (· ≠ Sign.closeParen) with
              | [] => Reading.failAt .unclosedComment []
              | _ :: rest => Reading.skipTo rest
          | _, _ => readItem c rest

/-- Reads items up to the end of the text. -/
def readItems : (fuel : Nat) → Reading Unit
  | 0 => return ()
  | fuel + 1 => do
      match ← Reading.rest with
      | [] => return ()
      | c :: rest =>
          readNext c rest
          readItems fuel

/-- What a whole text says. -/
structure Reading.Result where
  regex : Regex
  settings : Settings
  groupCount : Nat
  /-- The names with their numbers, in order. -/
  names : List (List Nat × Nat)
  sharesNumbers : Bool
  namesBreak : Bool

/-- Reads a whole text. -/
def readWhole (t : Text) : Except SyntaxError Reading.Result := do
  let whole : Reading Limits := do
    let limits ← readFront (t.length + 1) {}
    readItems (t.length + 1)
    return limits
  let (limits, s) ← whole.run { size := t.length, rest := Text.codePoints t }
  if !s.enclosing.isEmpty then throw ⟨.unclosedGroup, t.length⟩
  return {
    regex := ofPieces s.pieces
    settings := { s.settings with limits := s.settings.limits.lowered limits }
    groupCount := s.opened
    names := s.names.reverse
    sharesNumbers := s.sharesNumbers
    namesBreak := s.namesBreak }

end PatternGrammar.Regex
