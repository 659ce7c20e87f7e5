import PatternGrammar.Text.Basic

/-!
# Kinds of nodes

A node is a plain one, one of four lookarounds, one of two references to a group, or an alternative to
everything before it in its chain.
-/

namespace PatternGrammar

inductive Kind where
  | plain
  | lookAheadFor
  | lookAheadToAvoid
  | lookBehindFor
  | lookBehindToAvoid
  | backReference
  | subroutine
  | orElse
  deriving DecidableEq, Repr

namespace Kind

/-- The name under which a kind is written and shown. -/
def name : Kind → Text
  | .plain => "Pattern"
  | .lookAheadFor => "lookAheadFor"
  | .lookAheadToAvoid => "lookAheadToAvoid"
  | .lookBehindFor => "lookBehindFor"
  | .lookBehindToAvoid => "lookBehindToAvoid"
  | .backReference => "matchResultOf"
  | .subroutine => "recursivelyMatch"
  | .orElse => "or"

/-- Every kind. -/
def all : List Kind :=
  [.plain, .lookAheadFor, .lookAheadToAvoid, .lookBehindFor, .lookBehindToAvoid, .backReference,
    .subroutine, .orElse]

/-- The kind of a name; the plain kind has a second name. -/
def ofName? (t : Text) : Option Kind :=
  if t = "pattern" then some .plain else all.find? fun kind => kind.name = t

/-- A repetition count may stand behind this kind of node. -/
def isQuantifiable : Kind → Bool
  | .plain | .backReference | .subroutine => true
  | .lookAheadFor | .lookAheadToAvoid | .lookBehindFor | .lookBehindToAvoid | .orElse => false

/-- How the group of a lookaround begins; the other kinds have none. -/
def lookAroundOpening? : Kind → Option Text
  | .lookAheadFor => some "(?="
  | .lookAheadToAvoid => some "(?!"
  | .lookBehindFor => some "(?<="
  | .lookBehindToAvoid => some "(?<!"
  | .plain | .backReference | .subroutine | .orElse => none

/-- The node asserts what stands around it and matches no text of its own. -/
def isLookAround (kind : Kind) : Bool := kind.lookAroundOpening?.isSome

theorem mem_all (kind : Kind) : kind ∈ all := by cases kind <;> decide

theorem ofName?_name (kind : Kind) : ofName? kind.name = some kind := by cases kind <;> decide

end Kind

end PatternGrammar
