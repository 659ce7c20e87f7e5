import PatternGrammar.Regex.Code
import PatternGrammar.Regex.Extent
import PatternGrammar.Regex.Traits

/-!
# From expressions to code

Repetitions of groups are spelled out: as many copies as there have to be, and then either a last copy that
repeats itself, or further copies within each other that can be left out. Repetitions of single items stay
what they are. What is possessive and has no form of its own becomes an atomic group.
-/

namespace PatternGrammar.Regex

/-- What has been assembled so far: the number of instructions to leave an alternative, and the numbered
groups there are. -/
structure Assembled where
  leaves : Nat := 0
  seen : Array Bool

abbrev Assembling (α : Type) := StateM Assembled α

/-- What assembly depends on. -/
structure Assembler where
  groups : Groups
  /-- The widths of the alternatives of every lookbehind, by its offset. -/
  widths : List (Nat × List Nat)

/-- The groups around an item: so many looks, and the numbered groups, the innermost first, each with the
number of looks around it. -/
structure Position where
  looks : Nat := 0
  captures : List (Nat × Nat) := []

/-! ## Repetitions -/

/-- The pieces as a group of their own. -/
def grouped (role : Role) (entry : Entry) (pieces : List Code.Piece) : Assembling Code.Piece := do
  let s ← get
  return .group { role, entry, upTo := s.leaves } (Code.ofPieces pieces)

/-- How a group is entered that can be left out. -/
def RepeatMode.entry : RepeatMode → Entry
  | .reluctant => .maybeNot
  | .greedy | .possessive => .maybe

/-- How a group ends that is repeated without a limit. -/
def RepeatMode.ending : RepeatMode → Ending
  | .greedy => .again
  | .reluctant => .onward
  | .possessive => .keep

/-- Copies that can be left out, each but the last one with the others behind it. -/
def optionalCopies (copy : Shape → Assembling Code.Piece) (role : Role) (entry : Entry) :
    (count : Nat) → Assembling (List Code.Piece)
  | 0 => return []
  | 1 => return [← copy { role, entry }]
  | count + 2 => do
      let first ← copy { role }
      let others ← optionalCopies copy role entry (count + 1)
      return [← grouped .plain entry (others ++ [first])]

/-- Copies that have to be there, on top of `pieces`. -/
def fixedCopies (copy : Assembling Code.Piece) :
    (count : Nat) → (pieces : List Code.Piece) → Assembling (List Code.Piece)
  | 0, pieces => return pieces
  | count + 1, pieces => do fixedCopies copy count ((← copy) :: pieces)

/-- The last copy of a group that is repeated without a limit. A conditional group has no possessive form,
but a group around it has one; an atomic group that is possessive need not be atomic. -/
def unlimitedCopy (copy : Shape → Assembling Code.Piece) (role : Role) (guarded : Bool) (entry : Entry)
    (mode : RepeatMode) : Assembling Code.Piece := do
  match role, mode with
  | .conditional test, .possessive =>
      let inner ← copy { role := .conditional test, guarded }
      let s ← get
      return .group { role := .plain, entry, ending := .keep, guarded, upTo := s.leaves }
        (Code.ofPieces [inner])
  | .atomic, .possessive => copy { role := .plain, entry, ending := .keep, guarded }
  | .atomic, _ => copy { role, entry, ending := mode.ending }
  | .scriptRun, .reluctant => copy { role, entry, ending := .onward }
  | .scriptRun, _ => copy { role, entry, ending := .again }
  | _, _ => copy { role, entry, ending := mode.ending, guarded }

/-- The pieces as an atomic group, if they are to be wrapped. -/
def wrappedIf (wraps : Bool) (pieces : List Code.Piece) : Assembling (List Code.Piece) := do
  if wraps then return [← grouped .atomic .once pieces] else return pieces

/-- A repeated group, the last piece first; `guarded` tells whether it may match the empty text. -/
def repeatedGroup (copy : Shape → Assembling Code.Piece) (role : Role) (guarded : Bool)
    (limit? : Option Nat) (times : Times) : Assembling (List Code.Piece) := do
  let possessive := times.mode = .possessive
  match limit? with
  | some 0 => return [← copy { role, entry := .never }]
  | some most =>
      let fixed ← fixedCopies (copy { role }) times.least []
      let others ← optionalCopies copy role times.mode.entry (most - times.least)
      wrappedIf possessive (others ++ fixed)
  | none =>
      let fixed ← fixedCopies (copy { role }) (times.least - 1) []
      let entry := if times.least = 0 then times.mode.entry else .once
      let last ← unlimitedCopy copy role guarded entry times.mode
      wrappedIf (possessive && (role = .scriptRun || 1 < times.least)) (last :: fixed)

/-! ## Items -/

/-- The item is one type of characters, of which a repetition leaves its first copy in place. -/
def Single.isType : Single → Bool
  | .literal _ _ | .notLiteral _ _ | .set _ => false
  | .oneOf _ _ | .property _ _ | .kind _ _ | .notNewline | .any | .byte | .newline | .cluster => true

/-- A repeated single item. -/
def singlePieces (s : Single) (times : Times) : Assembling (List Code.Piece) := do
  if times.isNever then return []
  else if times.least = 1 && times.most = some 1 then return [.step (.one s)]
  else if s.isType && wrapExtent times ≠ 0 then
    wrappedIf true [.step (.many s { times with mode := .greedy })]
  else return [.step (.many s times)]

/-- A repeated reference to the text of a group. -/
def referencePieces (numbers : List Nat) (ignoreCase : Bool) (times : Times) :
    Assembling (List Code.Piece) := do
  if times.isNever then return []
  else if times.least = 1 && times.most = some 1 then return [.step (.refer numbers ignoreCase {})]
  else if times.mode = .possessive then
    wrappedIf true [.step (.refer numbers ignoreCase { times with mode := .greedy })]
  else return [.step (.refer numbers ignoreCase times)]

/-- A repeated call. Beyond the calls that have to be there, it is a group that is repeated. -/
def callPieces (number : Nat) (times : Times) : Assembling (List Code.Piece) := do
  let call : Code.Piece := .step (.call number)
  let calls (count : Nat) : List Code.Piece := List.replicate count call
  let copy (shape : Shape) : Assembling Code.Piece := do
    let s ← get
    return .group { shape with upTo := s.leaves } (Code.ofPieces [call])
  let inGroup (times : Times) : Assembling (List Code.Piece) :=
    repeatedGroup copy .plain true times.most times
  if times.isOnce then return [call]
  else if times.least = 0 || (times.least = 1 && times.most.isNone) then inGroup times
  else
    match times.most with
    | none => return (← inGroup { times with least := 0 }) ++ calls times.least
    | some most =>
        let others ←
          if most = times.least then pure []
          else
            let mode := if times.mode = .reluctant then RepeatMode.reluctant else .greedy
            inGroup { least := 0, most := some (most - times.least), mode }
        wrappedIf (times.mode = .possessive) (others ++ calls times.least)

/-- The mark that a name leaves. -/
def markPieces (name : Option Text) : List Code.Piece := (name.map fun n => .step (.mark n)).toList

/-- A verb. -/
def verbPieces (place : Position) : Verb → Assembling (List Code.Piece)
  | .accept name =>
      let closing := (place.captures.takeWhile fun (_, looks) => place.looks ≤ looks).map (·.1)
      return .step (.accept (0 < place.looks) closing) :: markPieces name
  | .fail name => return .step .fail :: markPieces name
  | .mark name => return markPieces (some name)
  | .commit name => return [.step (.commit name.isSome)]
  | .prune name => return [.step (.prune name.isSome)]
  | .skip none => return [.step .skip]
  | .skip (some name) => return [.step (.skipTo name)]
  | .leave name => do
      let s ← get
      set { s with leaves := s.leaves + 1 }
      return [.step (.leave s.leaves name.isSome)]

/-- An item with its repetition, the last piece first. -/
def Assembler.item (a : Assembler) (place : Position) (times : Times) :
    Item → Assembling (List Code.Piece)
  | .single s => singlePieces s times
  | .anchor anchor => return [.step (.anchor anchor)]
  | .keepOut => return [.step .keepOut]
  | .backReference ⟨.number n, _⟩ ignoreCase => referencePieces [n] ignoreCase times
  | .backReference ⟨.name name, _⟩ ignoreCase =>
      referencePieces (a.groups.numbersOf name) ignoreCase times
  | .call target => callPieces ((a.groups.number? target.ref).getD 0) times
  | .verb v => verbPieces place v
  | .callout _ | .settings => return []

/-! ## Groups -/

/-- The numbers that a condition asks for. -/
def Assembler.numbers (a : Assembler) : GroupRef → List Nat
  | .number n => [n]
  | .name name => a.groups.numbersOf name

/-- The number that digits spell. -/
def numberOf (digits : List Nat) : Nat := digits.foldl (fun n d => n * 10 + (d - 48)) 0

/-- What a condition tests. -/
def Assembler.test (a : Assembler) : Condition → Test
  | .captured target => .captured (a.numbers target.ref)
  | .inCallOf target => .inCall (some (a.numbers target.ref))
  | .inCall letters _ =>
      match a.groups.numbersOf letters with
      | [] =>
          let n := numberOf (letters.drop 1)
          .inCall (if n = 0 then none else some [n])
      | numbers => .captured numbers
  | .define _ => .constant false
  | .constant holds => .constant holds
  | .look => .look

/-- The role of a group. -/
def Assembler.role (a : Assembler) : GroupKind → Role
  | .plain => .plain
  | .capture n again => .capture n again
  | .atomic => .atomic
  | .scriptRun => .scriptRun
  | .look look _ => .look look
  | .conditional c => .conditional (a.test c)

/-- The widths of the alternatives of a group, if it is a lookbehind. -/
def Assembler.widthsOf (a : Assembler) : GroupKind → List Nat
  | .look look offset => if look.behind then (a.widths.lookup offset).getD [] else []
  | _ => []

/-- Where the items of a group stand. -/
def Position.within (place : Position) : GroupKind → Position
  | .capture n _ => { place with captures := (n, place.looks) :: place.captures }
  | .look _ _ => { place with looks := place.looks + 1 }
  | .plain | .atomic | .scriptRun | .conditional _ => place

/-- One copy of a group of this shape. The first group of each number is known as such. -/
def copyOf (body : Assembling Code) (shape : Shape) : Assembling Code.Piece := do
  let role ←
    match shape.role with
    | .capture n _ =>
        let s ← get
        set { s with seen := s.seen.setIfInBounds n true }
        pure (Role.capture n (s.seen.getD n false))
    | role => pure role
  let body ← body
  let s ← get
  return .group { shape with role, upTo := s.leaves } body

/-- The empty text does not count for what is repeated as a conditional group with one alternative. -/
def isGuarded (kind : GroupKind) (body : Regex) : Bool :=
  match kind with
  | .conditional _ => mayBeEmpty body || body.branchCount = 1
  | _ => mayBeEmpty body

/-- The pieces that a lookbehind begins an alternative with. -/
def stepBackPieces (widths : List Nat) : List Code.Piece :=
  match widths with
  | w :: _ => if 0 < w then [.step (.stepBack w)] else []
  | [] => []

/-- The code of alternatives: those that are finished, the last one first, and the pieces of the one that has
begun, the last one first; `widths` are those of the alternatives to come. -/
def Assembler.alternatives (a : Assembler) (place : Position) :
    (finished : List (Nat × Code)) → (widths : List Nat) → (pieces : List Code.Piece) → Regex →
    Assembling Code
  | finished, _, pieces, .stop =>
      return finished.foldl (fun others (upTo, branch) => .either upTo branch others)
        (Code.ofPieces pieces)
  | finished, widths, pieces, .bar next => do
      let s ← get
      a.alternatives place ((s.leaves, Code.ofPieces pieces) :: finished) (widths.drop 1)
        (stepBackPieces widths) next
  | finished, widths, pieces, .item i times next => do
      let new ← a.item place times i
      a.alternatives place finished widths (new ++ pieces) next
  | finished, widths, pieces, .group kind body times next => do
      if isFailure kind body times then
        a.alternatives place finished widths (.step .fail :: pieces) next
      else
        let inner := a.widthsOf kind
        let copy :=
          copyOf (a.alternatives (place.within kind) [] (inner.drop 1) (stepBackPieces inner) body)
        let role := a.role kind
        let new ←
          if times.isOnce || neverRuns kind body then do pure [← copy { role }]
          else repeatedGroup copy role (isGuarded kind body) (kind.limit? times) times
        a.alternatives place finished widths (new ++ pieces) next

/-- An expression in code, and the number of its instructions to leave an alternative. -/
def Assembler.assemble (a : Assembler) (r : Regex) : Code × Nat :=
  let (code, s) :=
    (a.alternatives {} [] [] [] r).run { seen := Array.replicate (a.groups.count + 1) false }
  (code, s.leaves)

end PatternGrammar.Regex
