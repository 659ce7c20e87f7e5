import PatternGrammar.Regex.Property
import PatternGrammar.Text.Utf8
import PatternGrammar.Unicode.Casing

/-!
# Sets of characters

A class in brackets has members, and may be negated as a whole. For a search it becomes a table of the first
256 characters, with ranges and properties for the others. The named classes know ASCII only. Members that
ignore case bring the other cases of their characters along.
-/

namespace PatternGrammar.Regex

open Unicode

/-- A class of characters with a name between `[:` and `:]`. -/
inductive CharClass where
  | alpha
  | lower
  | upper
  | alnum
  | ascii
  | blank
  | cntrl
  | digit
  | graph
  | print
  | punct
  | space
  | word
  | xdigit
  deriving DecidableEq, Repr

/-- The code point belongs to the class. -/
def CharClass.holds (cls : CharClass) (c : Nat) : Bool :=
  match cls with
  | .alpha => between 65 90 c || between 97 122 c
  | .lower => between 97 122 c
  | .upper => between 65 90 c
  | .alnum => between 48 57 c || between 65 90 c || between 97 122 c
  | .ascii => c < 128
  | .blank => c = 9 || c = 32
  | .cntrl => c < 32 || c = 127
  | .digit => between 48 57 c
  | .graph => between 33 126 c
  | .print => between 32 126 c
  | .punct => between 33 47 c || between 58 64 c || between 91 96 c || between 123 126 c
  | .space => between 9 13 c || c = 32
  | .word => between 48 57 c || between 65 90 c || between 97 122 c || c = 95
  | .xdigit => between 48 57 c || between 65 70 c || between 97 102 c

/-- The class of a name. -/
def CharClass.ofName? (name : Text) : Option CharClass :=
  if name = ("alpha" : Text) then some .alpha
  else if name = ("lower" : Text) then some .lower
  else if name = ("upper" : Text) then some .upper
  else if name = ("alnum" : Text) then some .alnum
  else if name = ("ascii" : Text) then some .ascii
  else if name = ("blank" : Text) then some .blank
  else if name = ("cntrl" : Text) then some .cntrl
  else if name = ("digit" : Text) then some .digit
  else if name = ("graph" : Text) then some .graph
  else if name = ("print" : Text) then some .print
  else if name = ("punct" : Text) then some .punct
  else if name = ("space" : Text) then some .space
  else if name = ("word" : Text) then some .word
  else if name = ("xdigit" : Text) then some .xdigit
  else none

/-- The classes that have an escape of their own. -/
inductive CharKind where
  | digit
  | space
  | word
  | horizontal
  | vertical
  deriving DecidableEq, Repr

/-- The code point belongs to the class. Digits, spaces and words are ASCII. -/
def CharKind.holds (k : CharKind) (c : Nat) : Bool :=
  match k with
  | .digit => CharClass.holds .digit c
  | .space => CharClass.holds .space c
  | .word => CharClass.holds .word c
  | .horizontal => isHorizontalSpace c
  | .vertical => isVerticalSpace c

/-- The property that stands for a class when classes go by the properties of characters. -/
def CharKind.wide? : CharKind → Option Property
  | .digit => some (.category .decimalDigit)
  | .space => some .space
  | .word => some .word
  | .horizontal | .vertical => none

/-- A member of a class in brackets. -/
inductive Member where
  | range (low high : Nat)
  | kind (k : CharKind) (negated : Bool)
  | named (cls : CharClass) (negated : Bool)
  | property (p : Property) (negated : Bool)
  deriving DecidableEq, Repr

/-- A class that has an escape of its own, as it counts in this setting. -/
def Member.ofKind (wideClasses : Bool) (k : CharKind) (negated : Bool) : Member :=
  match if wideClasses then k.wide? else none with
  | some p => .property p negated
  | none => .kind k negated

/-- A named class, as it counts in this setting. -/
def Member.ofClass (wideClasses : Bool) (cls : CharClass) (negated : Bool) : Member :=
  if !wideClasses then .named cls negated
  else
    match cls with
    | .alpha => .property (.group .letter) negated
    | .lower => .property (.category .lowercase) negated
    | .upper => .property (.category .uppercase) negated
    | .alnum => .property .alphanumeric negated
    | .blank => .kind .horizontal negated
    | .cntrl => .property (.category .control) negated
    | .digit => .property (.category .decimalDigit) negated
    | .graph => .property .graphic negated
    | .print => .property .printable negated
    | .punct => .property .punctuation negated
    | .space => .property .space negated
    | .word => .property .word negated
    | .ascii | .xdigit => .named cls negated

/-- How a set treats the characters behind its table. -/
inductive SetForm where
  /-- None of them belongs to it. -/
  | narrow
  /-- All of them belong to it. -/
  | complement
  /-- Ranges and properties decide. -/
  | wide
  deriving DecidableEq, Repr

/-- A set as a search uses it. The table holds the answers for the first 256 characters; in the wide form it
is there only if some member reaches them, and with properties it is not negated yet. -/
structure CharSet where
  form : SetForm
  table : Option (Array Bool)
  ranges : List (Nat × Nat) := []
  properties : List (Property × Bool) := []
  negated : Bool := false
  /-- The number of bytes that the set takes up in a finished expression. -/
  extent : Nat
  deriving DecidableEq, Repr

/-- The table holds the character. -/
def CharSet.inTable (s : CharSet) (c : Nat) : Bool :=
  match s.table with
  | some table => table.getD c false
  | none => false

/-- One of the ranges or properties holds the character. -/
def CharSet.inRest (s : CharSet) (c : Nat) : Bool :=
  s.ranges.any (fun (low, high) => between low high c) ||
    s.properties.any fun (p, negated) => p.holds c != negated

/-- The set holds the character. -/
def CharSet.holds (s : CharSet) (c : Nat) : Bool :=
  match s.form with
  | .narrow => c < 256 && s.inTable c
  | .complement => 256 ≤ c || s.inTable c
  | .wide =>
      if c < 256 && s.properties.isEmpty then
        if s.table.isSome then s.inTable c else s.negated
      else ((c < 256 && s.inTable c) || s.inRest c) != s.negated

/-! ## Making a set -/

/-- The last code point. -/
def lastCodePoint : Nat := 0x10FFFF

def horizontalRanges : List (Nat × Nat) := [
  (9, 9), (32, 32), (0xA0, 0xA0), (0x1680, 0x1680), (0x180E, 0x180E), (0x2000, 0x200A),
  (0x202F, 0x202F), (0x205F, 0x205F), (0x3000, 0x3000)]

def verticalRanges : List (Nat × Nat) := [(10, 13), (0x85, 0x85), (0x2028, 0x2029)]

/-- The gaps between ranges that are in order, from `start` on. -/
def gaps (start : Nat) : List (Nat × Nat) → List (Nat × Nat)
  | [] => [(start, lastCodePoint)]
  | (low, high) :: rest => (start, low - 1) :: gaps (high + 1) rest

/-- What the members read so far amount to. -/
structure Gathered where
  table : Array Bool := Array.replicate 256 false
  reachesTable : Bool := false
  ranges : List (Nat × Nat) := []
  properties : List (Property × Bool) := []
  /-- The bytes that the ranges and properties take up. -/
  bytes : Nat := 0
  /-- The last negated class took in all that the table cannot hold. -/
  flipped : Bool := false
  /-- A negated class that stays with ASCII asks for all other characters. -/
  allOthers : Bool := false

/-- Marks the characters from `low` on, `count` of them. -/
def markFrom (low : Nat) : (count : Nat) → Array Bool → Array Bool
  | 0, table => table
  | count + 1, table => markFrom (low + 1) count (table.setIfInBounds low true)

/-- A range more, without other cases. -/
def Gathered.addRange (g : Gathered) (low high : Nat) : Gathered :=
  let g :=
    if 256 ≤ low then g
    else { g with table := markFrom low (min high 255 + 1 - low) g.table, reachesTable := true }
  let start := max low 256
  if high < start then g
  else
    let bytes :=
      if start = high then 1 + Text.encodedSize start
      else 1 + Text.encodedSize start + Text.encodedSize high
    { g with ranges := (start, high) :: g.ranges, bytes := g.bytes + bytes }

/-- A range more, unless it lies well inside the one that is being added. -/
def Gathered.addWithin (g : Gathered) (low high : Nat) (range : Nat × Nat) : Gathered :=
  if low < range.1 && range.2 < high then g else g.addRange range.1 range.2

/-- The runs of neighbours in a class of cases. The given member begins none. -/
def caseRuns (except : Nat) (run : Option (Nat × Nat)) : List Nat → List (Nat × Nat)
  | [] => run.toList
  | c :: rest =>
      let next := if c = except then none else some (c, c)
      match run with
      | none => caseRuns except next rest
      | some (low, high) =>
          if c = high + 1 then caseRuns except (some (low, c)) rest
          else (low, high) :: caseRuns except next rest

/-- A range more, with the other cases of its characters. Other cases that adjoin the range make it
longer. -/
def Gathered.addAnyCase (g : Gathered) (low high : Nat) : Gathered :=
  let g := (caseSetsOfRange low high).foldl
    (fun g (c, set) => (caseRuns c none set).foldl (fun g range => g.addWithin low high range) g) g
  let (g, start, final) := (casesOfRange low high).foldl
    (fun (g, start, final) (first, last) =>
      if low ≤ first && last ≤ high then (g, start, final)
      else if first < start && start ≤ last + 1 then (g, first, final)
      else if final < last && first ≤ final + 1 then (g, start, last)
      else (g.addWithin low high (first, last), start, final))
    (g, low, high)
  g.addRange start final

/-- The characters of a class in ASCII, or all other characters of the table. -/
def Gathered.addTable (g : Gathered) (holds : Nat → Bool) (negated : Bool) : Gathered :=
  let table := (List.range 256).foldl
    (fun (table : Array Bool) c => if holds c != negated then table.setIfInBounds c true else table)
    g.table
  { g with table, reachesTable := true }

/-- One member more. -/
def Gathered.add (ignoreCase wideClasses : Bool) (g : Gathered) : Member → Gathered
  | .range low high => if ignoreCase then g.addAnyCase low high else g.addRange low high
  | .kind .horizontal negated => listed g horizontalRanges negated
  | .kind .vertical negated => listed g verticalRanges negated
  | .kind k negated =>
      { g.addTable k.holds negated with flipped := negated || g.flipped }
  | .named cls negated =>
      let cls := if ignoreCase && (cls = .lower || cls = .upper) then CharClass.alpha else cls
      { g.addTable cls.holds negated with
        flipped := negated, allOthers := g.allOthers || (wideClasses && negated) }
  | .property p negated =>
      { g with
        properties := (p, negated) :: g.properties, bytes := g.bytes + 3,
        reachesTable := true }
where
  /-- All of the ranges, or all that is between them. -/
  listed (g : Gathered) (ranges : List (Nat × Nat)) (negated : Bool) : Gathered :=
    let ranges := if negated then gaps 0 ranges else ranges
    { ranges.foldl (fun g (low, high) => g.addRange low high) g with reachesTable := true }

/-- The set of the members, or of all other characters. -/
def CharSet.ofMembers (members : List Member) (negated ignoreCase wideClasses : Bool) : CharSet :=
  let g := members.foldl (Gathered.add ignoreCase wideClasses) {}
  let hasProperties := !g.properties.isEmpty
  let turned : Array Bool := if negated then g.table.map (!·) else g.table
  if (hasProperties || !g.ranges.isEmpty) && (wideClasses || hasProperties || !g.flipped) then
    let all := g.allOthers || (g.flipped && !negated && !wideClasses)
    { form := .wide
      table :=
        if !g.reachesTable then none else if hasProperties then some g.table else some turned
      ranges := if all then (256, lastCodePoint) :: g.ranges else g.ranges
      properties := g.properties
      negated
      extent := g.bytes + 5 + (if all then 7 else 0) + if g.reachesTable then 32 else 0 }
  else
    { form := if negated = g.flipped then .narrow else .complement
      table := some turned
      extent := g.bytes + 33 }

end PatternGrammar.Regex
