/-!
# Settings of a whole expression

What an expression may ask for in front of everything else: what ends a line, which characters the
classes know, which short cuts are taken, and how much work a search may do.
-/

namespace PatternGrammar.Regex

/-- What ends a line. -/
inductive LineBreak where
  | lineFeed
  | carriageReturn
  /-- A carriage return followed by a line feed, and nothing else. -/
  | pair
  /-- Any of the three above. -/
  | pairOrEither
  /-- Everything that ends a line in some text. -/
  | any
  | zero
  deriving DecidableEq, Repr

/-- How much a search may do: entries into the matcher, entries that wait at one time, and units of 1024
bytes that the waiting ones fill. -/
structure Limits where
  entries : Nat := 10000000
  depth : Nat := 10000000
  memory : Nat := 20000000
  deriving DecidableEq, Repr

structure Settings where
  lineBreak : LineBreak := .lineFeed
  /-- The escape for a line break knows those beyond carriage return and line feed. -/
  wideBreaks : Bool := true
  /-- The classes of digits, spaces and words go by the properties of characters. -/
  wideClasses : Bool := false
  notEmpty : Bool := false
  notEmptyAtStart : Bool := false
  possessify : Bool := true
  anchorDotStar : Bool := true
  checkStart : Bool := true
  limits : Limits := {}
  deriving DecidableEq, Repr

end PatternGrammar.Regex
