import PatternGrammar.Regex.CharSet

/-!
# Regular expressions

An expression is a chain of items and groups, with bars between its alternatives. Groups are numbered from
one in the order of their opening parentheses; number zero is the whole expression.
-/

namespace PatternGrammar

namespace Regex

/-- A condition on a place between characters. -/
inductive Anchor where
  | subjectStart
  | searchStart
  | textStart
  | lineStart
  | subjectEnd
  | finalLineEnd
  | textEnd
  | lineEnd
  | wordBoundary
  | notWordBoundary
  deriving DecidableEq, Repr

/-- Which number of repetitions is tried first, and whether another may follow. -/
inductive RepeatMode where
  | greedy
  | reluctant
  | possessive
  deriving DecidableEq, Repr

/-- How often an item is repeated. -/
structure Times where
  least : Nat := 1
  most : Option Nat := some 1
  mode : RepeatMode := .greedy
  deriving DecidableEq, Repr

/-- The item stands there once, with nothing left to choose. -/
def Times.isOnce (t : Times) : Bool := t.least = 1 && t.most = some 1 && t.mode ≠ .possessive

/-- The item is left out. -/
def Times.isNever (t : Times) : Bool := t.most = some 0

/-- The number of repetitions is not fixed. -/
def Times.varies (t : Times) : Bool := t.most ≠ some t.least

/-- How a group is referred to. -/
inductive GroupRef where
  | number (n : Nat)
  | name (letters : List Nat)
  deriving DecidableEq, Repr

/-- A reference to a group, with the offset at which its absence is reported. -/
structure Target where
  ref : GroupRef
  offset : Nat
  deriving DecidableEq, Repr

/-- What takes one character, or one unit that is treated like a character. -/
inductive Single where
  | literal (c : Nat) (ignoreCase : Bool)
  | notLiteral (c : Nat) (ignoreCase : Bool)
  /-- One of the characters that differ in case alone, or none of them. -/
  | oneOf (cases : List Nat) (negated : Bool)
  | kind (k : CharKind) (negated : Bool)
  | property (p : Property) (negated : Bool)
  | set (s : CharSet)
  | notNewline
  | any
  | byte
  | newline
  | cluster
  deriving DecidableEq, Repr

/-- What steers the search. A verb may leave a name behind, which a skip can refer to. -/
inductive Verb where
  | accept (name : Option Text)
  | fail (name : Option Text)
  | mark (name : Text)
  | commit (name : Option Text)
  | prune (name : Option Text)
  | skip (name : Option Text)
  | leave (name : Option Text)
  deriving DecidableEq, Repr

/-- An item without parts. -/
inductive Item where
  | single (s : Single)
  | anchor (a : Anchor)
  | keepOut
  | backReference (target : Target) (ignoreCase : Bool)
  | call (target : Target)
  | verb (v : Verb)
  /-- A place for an observer, with the number of bytes that it takes up in a finished expression. -/
  | callout (extent : Nat)
  /-- A change of settings, which has been taken into account already. -/
  | settings
  deriving DecidableEq, Repr

/-- A look around: at what follows or precedes, for a match or for none. An atomic one is not tried in
another way later. -/
structure Look where
  behind : Bool
  negated : Bool
  atomic : Bool := true
  deriving DecidableEq, Repr

/-- What a conditional group asks for. -/
inductive Condition where
  | captured (target : Target)
  /-- The call under way is one of the group with this name. -/
  | inCallOf (target : Target)
  /-- The letter R, with digits or without: the name of a group, or else a call under way of the group
  with this number, of any group without digits. -/
  | inCall (letters : List Nat) (offset : Nat)
  | define (offset : Nat)
  | constant (holds : Bool)
  /-- The look around in front of the first alternative. -/
  | look
  deriving DecidableEq, Repr

inductive GroupKind where
  | plain
  /-- A numbered group, and whether an earlier group has its number already. -/
  | capture (number : Nat) (again : Bool)
  | atomic
  | scriptRun
  /-- A look around, and the offset at which a lookbehind reports its faults. -/
  | look (look : Look) (offset : Nat)
  | conditional (condition : Condition)
  deriving DecidableEq, Repr

end Regex

open Regex in
/-- A regular expression. -/
inductive Regex where
  | stop
  | bar (next : Regex)
  | item (item : Item) (times : Times) (next : Regex)
  | group (kind : GroupKind) (body : Regex) (times : Times) (next : Regex)
  deriving DecidableEq, Repr

namespace Regex

/-- The number of alternatives. -/
def branchCount : Regex → Nat
  | .stop => 1
  | .bar next => next.branchCount + 1
  | .item _ _ next => next.branchCount
  | .group _ _ _ next => next.branchCount

/-- A piece of an expression, not yet followed by anything. -/
inductive Piece where
  | bar
  | item (item : Item) (times : Times)
  | group (kind : GroupKind) (body : Regex) (times : Times)
  deriving DecidableEq, Repr

/-- The piece in front of the rest. -/
def Piece.before (rest : Regex) : Piece → Regex
  | .bar => .bar rest
  | .item i times => .item i times rest
  | .group kind body times => .group kind body times rest

/-- The same piece with another number of repetitions. -/
def Piece.repeated (times : Times) : Piece → Piece
  | .bar => .bar
  | .item i _ => .item i times
  | .group kind body _ => .group kind body times

/-- The expression of some pieces, the last one first. -/
def ofPieces (pieces : List Piece) : Regex := pieces.foldl Piece.before .stop

end Regex

end PatternGrammar
