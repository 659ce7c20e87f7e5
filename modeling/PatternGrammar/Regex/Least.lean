import PatternGrammar.Regex.Code

/-!
# The least length of a match

The length counts characters. A reference counts as much as the group that it refers to. An alternative that
refers to a group around it cannot be the shortest one, so it does not count unless it is the first. What
has been found for a reference is remembered, and so many groups are measured and no more.
-/

namespace PatternGrammar.Regex

/-- No least length is larger. -/
def maxLeast : Nat := 65535

/-- So many groups are measured. -/
def maxVisitedGroups : Nat := 1001

/-- The least lengths of groups that have been referred to; those beyond the highest one do not count. -/
structure KnownLeast where
  highest : Nat := 0
  lengths : Array (Option Nat)

/-- The length that was found for a group. -/
def KnownLeast.find? (k : KnownLeast) (n : Nat) : Option Nat :=
  if n ≤ k.highest then (k.lengths[n]?).join else none

/-- One more length. Nothing is known of the numbers between the highest one so far and this one. -/
def KnownLeast.insert (k : KnownLeast) (n length : Nat) : KnownLeast :=
  let between := List.range' (k.highest + 1) (n - (k.highest + 1))
  let lengths := between.foldl (fun (l : Array (Option Nat)) i => l.setIfInBounds i none) k.lengths
  { highest := n, lengths := lengths.setIfInBounds n (some length) }

structure LeastState where
  visited : Nat := 0
  known : KnownLeast

/-- Measuring a least length; there is none to be had where a byte counts as a character, or where the
expression is too complicated. -/
abbrev LeastOf (α : Type) := StateT LeastState Option α

/-- What the measures depend on. -/
structure LeastContext where
  program : Program
  sharesNumbers : Bool
  /-- How many groups have each number. -/
  occurrences : Array Nat

/-- Where code stands: in the first groups with these numbers, and measured for references to these. -/
structure LeastPlace where
  around : List Nat := []
  referred : List Nat := []

/-- What is known of an alternative so far, and the last numbered group and the last call that were
measured. -/
structure LeastSoFar where
  length : Nat := 0
  /-- The alternative refers to a group around it. -/
  refersAround : Bool := false
  lastGroup : Option (Nat × Nat) := none
  lastCall : Option (Nat × Nat) := none

/-- The alternative with something more of this length. -/
def LeastSoFar.add (s : LeastSoFar) (n : Nat) : LeastSoFar := { s with length := s.length + n }

/-- How groups are measured. -/
abbrev MeasureGroup := LeastPlace → (guarded : Bool) → Code → LeastOf Nat

/-- The least length of the group with this number, none if the reference stands within it. -/
def LeastContext.target (x : LeastContext) (measure : MeasureGroup) (place : LeastPlace) (n : Nat) :
    LeastOf (Option Nat) := do
  if n = 0 || place.around.contains n || place.referred.contains n then return none
  match x.program.definition? n with
  | none => return some 0
  | some d =>
      let place : LeastPlace := { around := d.around, referred := n :: place.referred }
      return some (← measure place d.shape.guarded d.body)

/-- The least length of the text of a group that is referred to, and whether the reference stands within
it. Of several groups with the number, there is no telling which one it is. -/
def LeastContext.reference (x : LeastContext) (measure : MeasureGroup) (place : LeastPlace) (n : Nat) :
    LeastOf (Nat × Bool) := do
  match (← get).known.find? n with
  | some length => return (length, false)
  | none =>
      let (length, within) ←
        if x.sharesNumbers && 1 < x.occurrences.getD n 0 then pure (0, false)
        else
          match ← x.target measure place n with
          | some length => pure (length, false)
          | none => pure (0, true)
      modify fun s => { s with known := s.known.insert n length }
      return (length, within)

/-- The least length of the texts of several groups, of which the first set one counts. -/
def LeastContext.references (x : LeastContext) (measure : MeasureGroup) (place : LeastPlace) :
    List Nat → (best : Option Nat) → (within : Bool) → LeastOf (Nat × Bool)
  | [], best, within => return (best.getD 0, within)
  | n :: rest, best, within => do
      let (length, inside) ← x.reference measure place n
      let best := min length (best.getD length)
      if best = 0 then return (0, within || inside)
      x.references measure place rest (some best) (within || inside)

/-- One more instruction of an alternative. -/
def LeastContext.instruction (x : LeastContext) (measure : MeasureGroup) (place : LeastPlace)
    (s : LeastSoFar) : Instruction → LeastOf LeastSoFar
  | .one .byte => failure
  | .one _ => return s.add 1
  | .many .byte times =>
      if times.least = 1 && times.most.isSome then failure else return s.add times.least
  | .many _ times => return s.add times.least
  | .refer numbers _ times => do
      let (length, within) ←
        match numbers with
        | [n] => x.reference measure place n
        | numbers =>
            if x.sharesNumbers then pure (0, false)
            else x.references measure place numbers none false
      return { s.add (times.least * length) with refersAround := s.refersAround || within }
  | .call n =>
      match s.lastCall with
      | some (m, length) => if m = n then return s.add length else call n
      | none => call n
  | .accept _ _ => failure
  | _ => return s
where
  /-- A call of a group. -/
  call (n : Nat) : LeastOf LeastSoFar := do
    match ← x.target measure place n with
    | some length => return { s.add length with lastCall := some (n, length) }
    | none => return { s with refersAround := true }

/-- The group holds a call and nothing else. -/
def loneCall? (shape : Shape) (body : Code) : Option Nat :=
  match shape.role, shape.ending, body with
  | .plain, .once, .step (.call n) .stop => if shape.guarded then none else some n
  | _, _, _ => none

/-- One more group of an alternative. -/
def LeastContext.group (x : LeastContext) (measure : MeasureGroup) (place : LeastPlace)
    (s : LeastSoFar) (shape : Shape) (body : Code) : LeastOf LeastSoFar := do
  if shape.entry ≠ .once then return s
  match shape.role with
  | .look _ => return s
  | .capture n again =>
      let place := if again then place else { place with around := n :: place.around }
      match if x.sharesNumbers then none else s.lastGroup with
      | some (m, length) =>
          if m = n then return s.add length else numbered n place
      | none => numbered n place
  | .conditional _ =>
      if body.hasAlternatives then return s.add (← measure place shape.guarded body) else return s
  | .plain | .atomic | .scriptRun =>
      match loneCall? shape body with
      | some n => x.instruction measure place s (.call n)
      | none => return s.add (← measure place shape.guarded body)
where
  /-- A numbered group. -/
  numbered (n : Nat) (place : LeastPlace) : LeastOf LeastSoFar := do
    let length ← measure place shape.guarded body
    return { s.add length with lastGroup := some (n, length) }

/-- The least length of alternatives; `best` is that of those before. -/
def LeastContext.branches (x : LeastContext) (measure : MeasureGroup) (place : LeastPlace) :
    (best : Option Nat) → LeastSoFar → Code → LeastOf (Nat × LeastSoFar)
  | best, s, .stop => return (shortest best s, s)
  | best, s, .either _ branch others => do
      let (length, s) ← x.branches measure place best { s with length := 0, refersAround := false } branch
      if length = 0 then return (0, s)
      x.branches measure place (some length) { s with length := 0, refersAround := false } others
  | best, s, .step i next => do
      if maxLeast ≤ s.length then return (shortest best s, s)
      x.branches measure place best (← x.instruction measure place s i) next
  | best, s, .group shape body next => do
      if maxLeast ≤ s.length then return (shortest best s, s)
      x.branches measure place best (← x.group measure place s shape body) next
where
  /-- The shorter one of the alternatives before and this one. -/
  shortest (best : Option Nat) (s : LeastSoFar) : Nat :=
    let length := min maxLeast s.length
    match best with
    | none => length
    | some best => if !s.refersAround && length < best then length else best

/-- The measure of groups, for so many within each other. -/
def LeastContext.measure (x : LeastContext) : (fuel : Nat) → MeasureGroup
  | 0, _, _, _ => failure
  | fuel + 1, place, guarded, body => do
      if guarded then return 0
      let s ← get
      if maxVisitedGroups ≤ s.visited then failure
      set { s with visited := s.visited + 1 }
      return (← x.branches (x.measure fuel) place none {} body).1

/-- The least length of a match; zero if there is no telling. -/
def Program.leastLength (p : Program) (sharesNumbers : Bool) : Nat :=
  let x : LeastContext :=
    { program := p
      sharesNumbers
      occurrences := occurrencesInto (Array.replicate (p.groupCount + 1) 0) p.code }
  let known : KnownLeast := { lengths := Array.replicate (p.groupCount + 1) none }
  match (x.measure (maxVisitedGroups + 2) {} false p.code).run { known } with
  | some (length, _) => min length maxLeast
  | none => 0

end PatternGrammar.Regex
