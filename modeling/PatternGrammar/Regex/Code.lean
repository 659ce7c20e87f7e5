import PatternGrammar.Regex.Syntax

/-!
# The code of an expression

A search does not run over an expression as it was written. Copies of repeated groups are spelled out, names
have become numbers, and what cannot change the outcome is gone. Code is a chain of instructions and groups;
the body of a group is either such a chain, or several of them as alternatives.
-/

namespace PatternGrammar.Regex

/-- What a search does at one place. -/
inductive Instruction where
  | one (s : Single)
  /-- A single item, repeated; the number of times is not one. -/
  | many (s : Single) (times : Times)
  | anchor (a : Anchor)
  | keepOut
  /-- The text of the first of these groups that has one. -/
  | refer (numbers : List Nat) (ignoreCase : Bool) (times : Times)
  | call (number : Nat)
  /-- A lookbehind goes back by so many characters. -/
  | stepBack (width : Nat)
  /-- The match is over, or else the look around; the groups that are open end here. -/
  | accept (inLook : Bool) (closing : List Nat)
  | fail
  | mark (name : Text)
  | commit (named : Bool)
  | prune (named : Bool)
  | skip
  | skipTo (name : Text)
  /-- Gives up the alternative around. The place counts the instructions of this kind in front. -/
  | leave (place : Nat) (named : Bool)
  deriving Repr

/-- What a conditional group asks for, by numbers. -/
inductive Test where
  | captured (numbers : List Nat)
  /-- A call is under way, of one of these groups if there is a list. -/
  | inCall (numbers : Option (List Nat))
  | constant (holds : Bool)
  /-- What stands first in the group decides. -/
  | look
  deriving DecidableEq, Repr

/-- How a group is entered. -/
inductive Entry where
  | once
  /-- The group can be left out; it is tried first. -/
  | maybe
  /-- The group can be left out, which is tried first. -/
  | maybeNot
  | never
  deriving DecidableEq, Repr

/-- What happens at the end of a group. -/
inductive Ending where
  | once
  /-- The group is tried again before what follows. -/
  | again
  /-- What follows is tried before the group again. -/
  | onward
  /-- The group is run again as often as it matches, and never taken back. -/
  | keep
  deriving DecidableEq, Repr

/-- What kind of group it is. A numbered group may repeat the number of one in front of it. -/
inductive Role where
  | plain
  | capture (number : Nat) (again : Bool)
  | atomic
  | scriptRun
  | look (look : Look)
  | conditional (test : Test)
  deriving DecidableEq, Repr

/-- A group without its contents. -/
structure Shape where
  role : Role
  entry : Entry := .once
  ending : Ending := .once
  /-- The group is repeated without a limit, and may match the empty text. -/
  guarded : Bool := false
  /-- The number of instructions to leave an alternative up to the end of the group. -/
  upTo : Nat := 0
  deriving DecidableEq, Repr

inductive Code where
  | stop
  /-- An alternative, with the number of instructions to leave one up to its end, and the others. -/
  | either (upTo : Nat) (branch others : Code)
  | step (i : Instruction) (next : Code)
  | group (shape : Shape) (body next : Code)
  deriving Repr

namespace Code

/-- A piece of code, not yet followed by anything. -/
inductive Piece where
  | either (upTo : Nat) (branch : Code)
  | step (i : Instruction)
  | group (shape : Shape) (body : Code)

/-- The piece in front of the rest. -/
def Piece.before (rest : Code) : Piece → Code
  | .either upTo branch => .either upTo branch rest
  | .step i => .step i rest
  | .group shape body => .group shape body rest

/-- The code of some pieces, the last one first. -/
def ofPieces (pieces : List Piece) : Code := pieces.foldl Piece.before .stop

/-- There are several alternatives. -/
def hasAlternatives : Code → Bool
  | .either _ _ _ => true
  | _ => false

/-- The first alternative, the number of instructions to leave one up to its end, and the other ones;
`last` is that number for the last alternative. -/
def firstBranch (last : Nat) : Code → Code × Nat × Option Code
  | .either upTo branch others => (branch, upTo, some others)
  | code => (code, last, none)

/-- The number of nodes, on top of `n`. -/
def sizeOnto (n : Nat) : Code → Nat
  | .stop => n + 1
  | .either _ branch others => sizeOnto (sizeOnto (n + 1) branch) others
  | .step _ next => sizeOnto (n + 1) next
  | .group _ body next => sizeOnto (sizeOnto (n + 1) body) next

/-- The number of nodes. -/
def size (c : Code) : Nat := c.sizeOnto 0

end Code

/-- A numbered group in code, and the numbers of the groups around, itself included. -/
structure Definition where
  shape : Shape
  body : Code
  around : List Nat

/-- The first groups of each number, on top of those in `found`. -/
def definitionsInto (around : List Nat) (found : Array (Option Definition)) :
    Code → Array (Option Definition)
  | .stop => found
  | .either _ branch others => definitionsInto around (definitionsInto around found branch) others
  | .step _ next => definitionsInto around found next
  | .group shape body next =>
      match shape.role with
      | .capture n false =>
          let inner := n :: around
          let found := found.setIfInBounds n (some { shape, body, around := inner })
          definitionsInto around (definitionsInto inner found body) next
      | _ => definitionsInto around (definitionsInto around found body) next

/-- How many groups have each number, on top of those in `counts`. -/
def occurrencesInto (counts : Array Nat) : Code → Array Nat
  | .stop => counts
  | .either _ branch others => occurrencesInto (occurrencesInto counts branch) others
  | .step _ next => occurrencesInto counts next
  | .group shape body next =>
      let counts :=
        match shape.role with
        | .capture n _ => counts.modify n (· + 1)
        | _ => counts
      occurrencesInto (occurrencesInto counts body) next

/-- An expression in code. -/
structure Program where
  code : Code
  /-- The number of instructions to leave an alternative. -/
  leaves : Nat
  groupCount : Nat
  definitions : Array (Option Definition)

/-- The first group with this number. -/
def Program.definition? (p : Program) (n : Nat) : Option Definition := (p.definitions[n]?).join

end PatternGrammar.Regex
