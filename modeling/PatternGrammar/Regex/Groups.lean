import PatternGrammar.Regex.Reading.Expression

/-!
# The groups of an expression

Every numbered group is known by the first one with its number. A name may stand for several numbers.
-/

namespace PatternGrammar.Regex

/-- A numbered group: what stands in it, and the numbers of the groups around it, itself included. -/
structure GroupDefinition where
  body : Regex
  around : List Nat

/-- The numbered groups of an expression, the first of each number, the last one in front of `found`. -/
def definitionsOnto (around : List Nat) (found : List (Nat × GroupDefinition)) :
    Regex → List (Nat × GroupDefinition)
  | .stop => found
  | .bar next => definitionsOnto around found next
  | .item _ _ next => definitionsOnto around found next
  | .group (.capture n false) body _ next =>
      let inner := n :: around
      definitionsOnto around (definitionsOnto inner ((n, ⟨body, inner⟩) :: found) body) next
  | .group _ body _ next => definitionsOnto around (definitionsOnto around found body) next

/-- The groups of an expression by their numbers, and the names of some of them. -/
structure Groups where
  definitions : Array (Option GroupDefinition)
  /-- The names with their numbers, in order. -/
  names : List (List Nat × Nat)
  count : Nat
  /-- Several groups may have one number. -/
  sharesNumbers : Bool

/-- The groups of an expression that has been read. -/
def Groups.ofResult (r : Reading.Result) : Groups where
  definitions :=
    (definitionsOnto [] [] r.regex).foldl (fun all (n, d) => all.setIfInBounds n (some d))
      (Array.replicate (r.groupCount + 1) none)
  names := r.names
  count := r.groupCount
  sharesNumbers := r.sharesNumbers

/-- The first group of a number. -/
def Groups.definition? (g : Groups) (n : Nat) : Option GroupDefinition := (g.definitions[n]?).join

/-- The numbers that a name stands for, in order. -/
def Groups.numbersOf (g : Groups) (name : List Nat) : List Nat :=
  (g.names.filter fun (other, _) => other = name).map (·.2)

/-- The number of a group, if the group exists; zero is the whole expression. Of several numbers that have
a name, the first one counts. -/
def Groups.number? (g : Groups) : GroupRef → Option Nat
  | .number n => if n ≤ g.count then some n else none
  | .name letters => g.names.lookup letters

/-- The name stands for several numbers. -/
def Groups.isShared (g : Groups) (name : List Nat) : Bool := 1 < (g.numbersOf name).length

end PatternGrammar.Regex
