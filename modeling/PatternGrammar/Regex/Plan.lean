import PatternGrammar.Regex.Possession
import PatternGrammar.Regex.Start
import PatternGrammar.Regex.Least

/-!
# Plans for a search

Before a match is tried at a place, a search asks for less: that the place can begin a match, that enough is
left of the subject, and that a byte which is needed later is still to come. A plan holds what to ask for.
-/

namespace PatternGrammar.Regex

/-- Where a match can begin. -/
inductive Start where
  | anywhere
  | byte (b : NeededByte)
  | lineStart
  /-- A byte of this table comes first. -/
  | among (table : Array Bool)
  deriving DecidableEq, Repr

/-- What a search asks for before a match is tried. -/
structure Plan where
  /-- A match can begin at the place where the search begins, and nowhere else. -/
  anchored : Bool
  start : Start := .anywhere
  later : Option NeededByte := none
  /-- The least number of bytes of a match. -/
  least : Nat := 0
  deriving DecidableEq, Repr

/-- An ASCII letter in its other case. -/
def flipCase (b : Nat) : Nat :=
  if between 65 90 b then b + 32 else if between 97 122 b then b - 32 else b

/-- The byte is the needed one. -/
def NeededByte.accepts (n : NeededByte) (b : Nat) : Bool :=
  b = n.byte || (n.ignoreCase && b = flipCase n.byte)

/-- The largest number of a group referred to for which there still is a least length. -/
def maxReference : Nat := 128

/-- The number of characters that the needed bytes stand for. A later byte may belong to the same character
as the first one, unless one of them is ASCII. -/
def neededLength (first later : Option NeededByte) : Nat :=
  match first, later with
  | none, none => 0
  | some _, none | none, some _ => 1
  | some f, some l => if f.byte < 128 || l.byte < 128 then 2 else 1

/-- Where a match can begin if no first byte is known. -/
def Program.startWithout (p : Program) (ties : Ties) (anchored : Bool) : Start :=
  if !anchored && ties.atLineStart (p.code.size + 1) {} p.code then .lineStart
  else
    match p.code.firstByteTable? with
    | none => .anywhere
    | some table =>
        match singleByte? table with
        | some b => .byte b
        | none => .among table

/-- The least number of characters of a match, as far as the code tells. -/
def Program.leastOf (p : Program) (groups : Groups) (regex : Regex) (references : References) : Nat :=
  if mayBeEmpty regex || hasItem Item.accepts regex || maxReference < references.largest then 0
  else p.leastLength groups.sharesNumbers

/-- The plan for a search. A byte that is needed later counts only where something before it may vary, or
the match may begin anywhere; and it does not count if the first byte was found to be the same. -/
def Program.plan (p : Program) (groups : Groups) (settings : Settings) (regex : Regex) : Plan :=
  let references := referencesOnto groups {} regex
  let ties : Ties :=
    { references, dotStar := settings.anchorDotStar && !hasItem Item.givesUpStart regex }
  let fuel := p.code.size + 1
  let anchored := ties.anchored fuel {} p.code
  if !settings.checkStart then { anchored }
  else
    let needs := needsOf groups regex
    let first? :=
      match needs.first with
      | .known b => some b
      | .undecided | .unknown => p.code.assertedByte? fuel false none
    let least :=
      max (p.leastOf groups regex references) (neededLength first? needs.later)
    let later := needs.later.filter fun b => !anchored || b.varies
    match first? with
    | some b => { anchored, start := .byte b, later, least }
    | none =>
        let start := p.startWithout ties anchored
        let later :=
          match start with
          | .byte b => later.filter fun l => !b.accepts l.byte
          | _ => later
        { anchored, start, later, least }

end PatternGrammar.Regex
