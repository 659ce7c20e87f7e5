import PatternGrammar.Regex.Extent
import PatternGrammar.Regex.Traits

/-!
# Needed bytes

Many expressions can match only where a certain byte comes first, or where a certain byte comes later. Both
follow from the items of an expression, from left to right. What can be left out decides nothing, and what
alternatives need they have to need alike.
-/

namespace PatternGrammar.Regex

/-- A byte that is needed, perhaps as the other case of its letter; what stands before it may vary in
length. -/
structure NeededByte where
  byte : Nat
  ignoreCase : Bool := false
  varies : Bool := false
  deriving DecidableEq, Repr

/-- What is known of the byte that comes first. -/
inductive FirstByte where
  | undecided
  /-- There is no single byte that has to come first. -/
  | unknown
  | known (b : NeededByte)
  deriving DecidableEq, Repr

/-- What an expression needs: a byte that comes first, and one that comes later. -/
structure Needs where
  first : FirstByte := .undecided
  later : Option NeededByte := none
  deriving DecidableEq, Repr

/-- The needs of an alternative so far. -/
structure Gleaned where
  needs : Needs := {}
  /-- The needs if the last item is left out. -/
  without : Needs := {}
  /-- The first byte comes from the last item, which is a group. -/
  fromGroup : Bool := false
  /-- Something in the whole expression so far may vary in length. -/
  varies : Bool := false

/-- An undecided first byte is unknown from now on. -/
def FirstByte.settled : FirstByte → FirstByte
  | .undecided => .unknown
  | first => first

/-- An item behind which the first byte is decided; without it, all is as with it. -/
def Gleaned.settle (g : Gleaned) : Gleaned :=
  let needs := { g.needs with first := g.needs.first.settled }
  { g with needs, without := needs }

/-- An item behind which the first byte is decided, with it and without it. -/
def Gleaned.settleBoth (g : Gleaned) : Gleaned :=
  if g.needs.first = .undecided then
    { g with
      needs := { g.needs with first := .unknown }, without := { g.without with first := .unknown } }
  else g

/-- A literal. Its bytes come first or later; of one in several bytes that ignores case, none is sure. -/
def Gleaned.literal (g : Gleaned) (c : Nat) (ignoreCase : Bool) : Gleaned :=
  let bytes := (Text.encode c).map UInt8.toNat
  let isSure := bytes.length = 1 || !ignoreCase
  let last := bytes.getLastD 0
  if g.needs.first = .undecided then
    let without : Needs := { first := .unknown, later := g.needs.later }
    let needs : Needs :=
      if !isSure then { first := .unknown, later := none }
      else
        { first := .known { byte := bytes.headD 0, ignoreCase }
          later := if bytes.length = 1 then g.needs.later else some { byte := last, varies := g.varies } }
    { g with needs, without }
  else
    let later := if isSure then some { byte := last, ignoreCase, varies := g.varies } else g.needs.later
    { g with needs := { g.needs with later }, without := g.needs }

/-- A single item. -/
def Gleaned.single (g : Gleaned) : Single → Gleaned
  | .literal c ignoreCase => g.literal c ignoreCase
  | .oneOf _ false => g.settleBoth
  | .oneOf _ true | .notLiteral _ _ | .kind _ _ | .property _ _ | .set _ | .notNewline | .any | .byte
  | .newline | .cluster => g.settle

/-- An item; `isShared` tells which names stand for several groups. -/
def Gleaned.item (isShared : List Nat → Bool) (g : Gleaned) : Item → Gleaned
  | .single s => g.single s
  | .anchor .textStart | .anchor .textEnd | .anchor .lineEnd => g
  | .anchor .lineStart => g.settleBoth
  | .anchor _ | .keepOut => { g with without := g.needs }
  | .backReference ⟨.name name, _⟩ _ =>
      if isShared name then { g with needs := { g.needs with first := g.needs.first.settled } }
      else g.settleBoth
  | .backReference ⟨.number _, _⟩ _ => g.settleBoth
  | .call _ =>
      let first := g.needs.first.settled
      { g with needs := { g.needs with first }, without := { g.without with first }, fromGroup := false }
  | .verb (.accept _) => { g with needs := { g.needs with first := g.needs.first.settled } }
  | .verb _ | .callout _ | .settings => g

/-- The last item is repeated. A character in one byte that has to stand there several times is needed
later, too. -/
def Gleaned.repeated (g : Gleaned) (i : Item) (times : Times) : Gleaned :=
  let needs := if times.least = 0 then g.without else g.needs
  let needs :=
    match i with
    | .single (.literal c ignoreCase) =>
        if c < 128 && 1 < times.least then
          { needs with later := some { byte := c, ignoreCase, varies := g.varies } }
        else needs
    | _ => needs
  { g with needs, varies := g.varies || times.varies }

/-- The needs of a group that is no look around, behind what has come so far. -/
def Gleaned.group (g : Gleaned) (variedBefore : Bool) (inner : Needs) : Gleaned :=
  let without := g.needs
  match g.needs.first, inner.first with
  | .undecided, .undecided =>
      { g with needs := { g.needs with later := inner.later.or g.needs.later }, without, fromGroup := false }
  | .undecided, first =>
      { g with
        needs := { first, later := inner.later.or g.needs.later }
        without := { without with first := .unknown }
        fromGroup := first ≠ .unknown }
  | _, .known b =>
      let later := inner.later.or (some { b with varies := b.varies || variedBefore })
      { g with needs := { g.needs with later }, without, fromGroup := false }
  | _, _ =>
      { g with needs := { g.needs with later := inner.later.or g.needs.later }, without, fromGroup := false }

/-- The needs of a look around. One ahead tells what has to come later, if it also knows what comes
first. -/
def Gleaned.look (g : Gleaned) (look : Look) (inner : Needs) : Gleaned :=
  let later :=
    match inner.first with
    | .known _ => if look.behind || look.negated then none else inner.later
    | _ => none
  { g with needs := { g.needs with later := later.or g.needs.later }, without := g.needs, fromGroup := false }

/-- The last item, a group, is repeated. What it has to begin with several times is needed later, too. -/
def Gleaned.repeatedGroup (g : Gleaned) (isCopied : Bool) (times : Times) : Gleaned :=
  let needs := if times.least = 0 then g.without else g.needs
  let needs :=
    match needs.first, needs.later with
    | .known b, none =>
        if isCopied && 1 < times.least && g.fromGroup then { needs with later := some b } else needs
    | _, _ => needs
  { g with needs, varies := g.varies || times.varies }

/-- What both of two alternatives need. -/
def Needs.both (a b : Needs) : Needs :=
  let a : Needs :=
    if a.first = b.first then a
    else
      match a.first, a.later with
      | .known byte, none => { first := .unknown, later := some byte }
      | _, later => { first := .unknown, later }
  let bLater :=
    match a.first, b.first, b.later with
    | .known _, _, later => later
    | _, .known byte, none => some byte
    | _, _, later => later
  let later :=
    match a.later, bLater with
    | some x, some y =>
        if x.byte = y.byte && x.ignoreCase = y.ignoreCase then
          some { x with varies := x.varies || y.varies }
        else none
    | _, _ => none
  { a with later }

/-- The needs of alternatives, and whether something may vary in length: `done` are those of the finished
ones, and `g` those of the one that has begun. -/
def gleanFrom (isShared : List Nat → Bool) (done : Option Needs) (g : Gleaned) : Regex → Needs × Bool
  | .stop => (close done g, g.varies)
  | .bar next => gleanFrom isShared (some (close done g)) { varies := g.varies } next
  | .item i times next => gleanFrom isShared done ((g.item isShared i).repeated i times) next
  | .group kind body times next =>
      if isFailure kind body times then gleanFrom isShared done g next
      else
        let (inner, varies) := gleanFrom isShared none { varies := g.varies } body
        let variedBefore := g.varies
        let g := { g with varies }
        let g :=
          match kind with
          | .conditional (.define _) => g
          | .conditional _ =>
              g.group variedBefore (if body.branchCount = 1 then { first := .unknown } else inner)
          | .look look _ => g.look look inner
          | .plain | .capture _ _ | .atomic | .scriptRun => g.group variedBefore inner
        gleanFrom isShared done (g.repeatedGroup (!neverRuns kind body) times) next
where
  /-- What the finished alternatives and this one need. -/
  close (done : Option Needs) (g : Gleaned) : Needs :=
    match done with
    | none => g.needs
    | some needs => needs.both g.needs

/-- What an expression needs. Where it may accept early, nothing is needed later. -/
def needsOf (groups : Groups) (r : Regex) : Needs :=
  let needs := (gleanFrom groups.isShared none {} r).1
  if hasItem Item.accepts r then { needs with later := none } else needs

end PatternGrammar.Regex
