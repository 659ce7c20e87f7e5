import PatternGrammar.Regex.Code

/-!
# Repetitions that need no way back

A repetition need not be taken back if nothing that it takes can be what follows it. Whether two items have
no character in common is decided from what kind of items they are, and not in every case: many pairs of
types without a common character count as having one. Where a repetition stands last in a group, what follows
the group decides. The comparisons that branch off are bounded for a whole expression.
-/

namespace PatternGrammar.Regex

open Unicode

/-! ## What an item takes -/

/-- The characters that an item takes, or the end that it asks for. -/
inductive Taken where
  | chars (cs : List Nat)
  | notChars (cs : List Nat)
  | kind (k : CharKind) (negated : Bool)
  | property (p : Property) (negated : Bool)
  | set (s : CharSet)
  | notNewline
  | any
  | newline
  | cluster
  | subjectEnd
  | finalLineEnd
  | textEnd
  | lineEnd

/-- A character, perhaps with its other case. -/
def casesOf (c : Nat) (ignoreCase : Bool) : List Nat :=
  let other := otherCase c
  if ignoreCase && other ≠ c then [c, other] else [c]

/-- What a single item takes; nothing is known of one that takes a byte. -/
def Single.taken? : Single → Option Taken
  | .literal c ignoreCase => some (.chars (casesOf c ignoreCase))
  | .notLiteral c ignoreCase => some (.notChars (casesOf c ignoreCase))
  | .oneOf cases negated => some (if negated then .notChars cases else .chars cases)
  | .kind k negated => some (.kind k negated)
  | .property p negated => some (.property p negated)
  | .set s => some (.set s)
  | .notNewline => some .notNewline
  | .any => some .any
  | .byte => none
  | .newline => some .newline
  | .cluster => some .cluster

/-- What an instruction takes, and whether it can also take nothing. -/
def Instruction.taken? : Instruction → Option (Taken × Bool)
  | .one s => s.taken?.map fun taken => (taken, false)
  | .many s times => s.taken?.map fun taken => (taken, times.least = 0)
  | .anchor .subjectEnd => some (.subjectEnd, false)
  | .anchor .finalLineEnd => some (.finalLineEnd, false)
  | .anchor .textEnd => some (.textEnd, false)
  | .anchor .lineEnd => some (.lineEnd, false)
  | _ => none

/-! ## Types that exclude each other -/

/-- Types of characters of which is known what cannot follow them. -/
inductive CharType where
  | digit
  | notDigit
  | space
  | notSpace
  | word
  | notWord
  | horizontal
  | notHorizontal
  | vertical
  | notVertical
  | notNewline
  | any
  | newline
  | cluster
  | subjectEnd
  | lineEnd
  deriving DecidableEq, Repr

/-- The type of what is taken. -/
def Taken.charType? : Taken → Option CharType
  | .kind .digit negated => some (if negated then .notDigit else .digit)
  | .kind .space negated => some (if negated then .notSpace else .space)
  | .kind .word negated => some (if negated then .notWord else .word)
  | .kind .horizontal negated => some (if negated then .notHorizontal else .horizontal)
  | .kind .vertical negated => some (if negated then .notVertical else .vertical)
  | .notNewline => some .notNewline
  | .any => some .any
  | .newline => some .newline
  | .cluster => some .cluster
  | .subjectEnd => some .subjectEnd
  | .finalLineEnd | .textEnd | .lineEnd => some .lineEnd
  | .chars _ | .notChars _ | .property _ _ | .set _ => none

/-- The types that a repetition of this type is known to exclude. -/
def CharType.excludes : CharType → List CharType
  | .notDigit => [.digit, .subjectEnd]
  | .digit =>
      [.notDigit, .space, .notWord, .newline, .horizontal, .vertical, .subjectEnd, .lineEnd]
  | .notSpace => [.space, .newline, .horizontal, .vertical, .subjectEnd, .lineEnd]
  | .space => [.digit, .notSpace, .word, .subjectEnd]
  | .notWord => [.digit, .word, .subjectEnd]
  | .word => [.space, .notWord, .newline, .horizontal, .vertical, .subjectEnd, .lineEnd]
  | .notNewline => [.newline, .subjectEnd]
  | .any | .cluster => [.subjectEnd]
  | .newline => [.digit, .space, .word, .notNewline, .horizontal, .notVertical, .subjectEnd]
  | .notHorizontal => [.horizontal, .subjectEnd]
  | .horizontal =>
      [.digit, .notSpace, .word, .newline, .notHorizontal, .vertical, .subjectEnd]
  | .notVertical => [.newline, .vertical, .subjectEnd, .lineEnd]
  | .vertical => [.digit, .notSpace, .word, .horizontal, .notVertical, .subjectEnd]
  | .subjectEnd | .lineEnd => []

/-! ## Properties that exclude each other -/

/-- A property that is made up of categories: all of two groups, and some of a third group, of which one
category counts. -/
structure Blend where
  first : CategoryGroup
  second : CategoryGroup
  partly : CategoryGroup
  part : Category

/-- The categories of a property that is made up of them. -/
def Property.blend? : Property → Option Blend
  | .alphanumeric => some ⟨.letter, .number, .number, .letterNumber⟩
  | .space => some ⟨.separator, .separator, .other, .control⟩
  | .word => some ⟨.letter, .number, .punctuation, .otherPunctuation⟩
  | _ => none

/-- The group is not made part of the blend; where the blend is not negated, even in part. -/
def Blend.omitsGroup (b : Blend) (negated : Bool) (g : CategoryGroup) : Bool :=
  g ≠ b.first && g ≠ b.second && (g ≠ b.partly || negated)

/-- The category is not made part of the blend; where the blend is not negated, even in part. -/
def Blend.omitsCategory (b : Blend) (negated : Bool) (c : Category) : Bool :=
  c.group ≠ b.first && c.group ≠ b.second && (c ≠ b.part || negated)

/-- A property and one made up of categories exclude each other. -/
def Blend.excludes (b : Blend) (negated : Bool) (other : Property) (otherNegated : Bool) : Bool :=
  match other with
  | .group g => !otherNegated && (!negated) == b.omitsGroup negated g
  | .category c => !otherNegated && (!negated) == b.omitsCategory negated c
  | _ => false

/-- The properties, or what is not in them, exclude each other. -/
def Property.excludes (p : Property) (negated : Bool) (q : Property) (otherNegated : Bool) : Bool :=
  let same := negated = otherNegated
  let bothHold := !negated && !otherNegated
  match p, q with
  | .group a, .group b => (a = b) ≠ same
  | .category a, .category b => (a = b) ≠ same
  | .group a, .category b => !otherNegated && (b.group ≠ a) = same
  | .category a, .group b => !negated && (a.group ≠ b) = same
  | .script a, .script b | .script a, .scriptExtension b | .scriptExtension a, .script b
  | .scriptExtension a, .scriptExtension b => (a = b) ≠ same
  | .casedLetter, .casedLetter | .casedLetter, .alphanumeric | .alphanumeric, .casedLetter
  | .alphanumeric, .alphanumeric | .space, .space | .word, .word | .nameable, .nameable => !same
  | .casedLetter, .space | .space, .casedLetter | .alphanumeric, .space | .space, .alphanumeric
  | .word, .space | .space, .word => bothHold
  | p, q =>
      match p.blend?, q.blend? with
      | some b, none => b.excludes negated q otherNegated
      | none, some b => b.excludes otherNegated p negated
      | _, _ => false

/-! ## Comparing -/

/-- The character is certainly not among what is taken. -/
def Taken.excludesChar (c : Nat) : Taken → Bool
  | .chars cs => !cs.contains c
  | .notChars cs => cs.contains c
  | .kind k negated => k.holds c = negated
  | .newline => !isVerticalSpace c
  | .finalLineEnd | .textEnd => !isVerticalSpace c
  | .subjectEnd => true
  | .property p negated =>
      match p with
      | .any | .nameable | .direction _ | .binary _ | .graphic | .printable | .punctuation => false
      | p => p.holds c = negated
  | .set s => !s.holds c
  | .notNewline | .any | .cluster | .lineEnd => false

/-- No character of the first 256 is in both tables. -/
def apart (a b : Nat → Bool) : Bool := (List.range 256).all fun c => !(a c && b c)

/-- A set without wide characters takes nothing of what is taken; `optional` tells whether what follows may
be left out. -/
def CharSet.excludes (s : CharSet) (optional : Bool) : Taken → Bool
  | .set other =>
      match other.form with
      | .narrow | .complement => apart s.inTable other.inTable
      | .wide =>
          if !other.properties.isEmpty then false
          else if other.table.isNone then optional || !other.negated
          else apart s.inTable other.inTable
  | .kind .digit negated => apart s.inTable fun c => CharKind.digit.holds c != negated
  | .kind .space negated => apart s.inTable fun c => CharKind.space.holds c != negated
  | .kind .word negated => apart s.inTable fun c => CharKind.word.holds c != negated
  | _ => false

/-- The set holds none but characters of its table. -/
def Taken.narrow? : Taken → Option CharSet
  | .set s => if s.form = .narrow then some s else none
  | _ => none

/-- What is repeated takes nothing of what follows, which may be `optional`. -/
def Taken.excludes (base : Taken) (optional : Bool) (next : Taken) : Bool :=
  match base, next with
  | .chars cs, next => cs.all fun c => next.excludesChar c
  | base, .chars cs => cs.all fun c => base.excludesChar c
  | base, next =>
      match base.narrow?, next.narrow? with
      | some s, _ => s.excludes optional next
      | none, some s => s.excludes optional base
      | none, none =>
          match base, next with
          | .property _ _, .subjectEnd => true
          | .property p negated, .property q otherNegated => p.excludes negated q otherNegated
          | base, next =>
              match base.charType?, next.charType? with
              | some a, some b => a.excludes.contains b
              | _, _ => false

/-! ## What follows -/

/-- A group around, and what follows it. -/
structure Enclosure where
  role : Role
  ending : Ending
  next : Code

/-- A repetition, and whether the expression calls groups. -/
structure Repetition where
  taken : Taken
  greedy : Bool
  hasCalls : Bool

/-- What follows a group matters for a repetition that stands last in it: not at all, or by itself; none if
there is no telling. -/
inductive Outlook where
  | settled
  | open
  | none

/-- What there is to see behind the end of a group. -/
def Repetition.outlook (r : Repetition) (g : Enclosure) : Outlook :=
  if !r.greedy then .none
  else
    match g.ending, g.role with
    | .again, _ | .onward, _ => .none
    | _, .capture _ _ => if r.hasCalls then .none else .open
    | _, .scriptRun =>
        match r.taken with
        | .chars _ => .open
        | _ => .none
    | _, .atomic => .settled
    | _, .look look => if look.atomic then .settled else .none
    | _, .plain | _, .conditional _ => .open

/-- The group can be looked into when it follows a repetition. -/
def Shape.isTransparent (shape : Shape) : Bool :=
  !shape.guarded && shape.ending ≠ .keep &&
    match shape.role with
    | .plain | .capture _ _ | .atomic => true
    | .scriptRun | .look _ | .conditional _ => false

/-- Nothing that the repetition takes can follow it. The code that follows stands in the groups `around`,
and `entered` tells whether a group has been entered on the way. Gives also how many comparisons may still
branch off. -/
def Repetition.isFinal (r : Repetition) :
    (fuel : Nat) → (entered : Bool) → (around : List Enclosure) → (left : Nat) → Code → Bool × Nat
  | 0, _, _, left, _ => (false, left)
  | fuel + 1, entered, around, left, code =>
      let branchOff (around : List Enclosure) (left : Nat) (code : Code) : Bool × Nat :=
        if left ≤ 1 then (false, 0) else r.isFinal fuel false around (left - 1) code
      match code with
      | .stop =>
          match around with
          | [] => (r.greedy, left)
          | g :: outer =>
              match r.outlook g with
              | .settled => (!entered, left)
              | .open => r.isFinal fuel entered outer left g.next
              | .none => (false, left)
      | .either _ branch others =>
          match branchOff around left branch with
          | (true, left) => r.isFinal fuel entered around left others
          | (false, left) => (false, left)
      | .group shape body next =>
          let inside : List Enclosure := { role := shape.role, ending := shape.ending, next } :: around
          if !shape.isTransparent then (false, left)
          else
            match shape.entry with
            | .never => (false, left)
            | .once => r.isFinal fuel true inside left body
            | .maybe | .maybeNot =>
                match branchOff around left next with
                | (true, left) => r.isFinal fuel true inside left body
                | (false, left) => (false, left)
      | .step i next =>
          match i.taken? with
          | none => (false, left)
          | some (taken, optional) =>
              if !r.taken.excludes optional taken then (false, left)
              else if optional then r.isFinal fuel entered around left next
              else (true, left)

/-! ## All repetitions -/

/-- So many comparisons may branch off. -/
def maxComparisons : Nat := 1000

/-- The repetition may become possessive. -/
def mayBecomePossessive (s : Single) (times : Times) : Bool :=
  times.mode ≠ .possessive &&
    match s with
    | .set _ => true
    | _ => times.varies

/-- The instruction, possessive if it may be and nothing that it takes can follow it. -/
def Instruction.possessified (hasCalls : Bool) (fuel : Nat) (around : List Enclosure) (left : Nat)
    (next : Code) (i : Instruction) : Instruction × Nat :=
  match i with
  | .many s times =>
      match if mayBecomePossessive s times then s.taken? else none with
      | none => (i, left)
      | some taken =>
          let r : Repetition := { taken, greedy := times.mode = .greedy, hasCalls }
          if left ≤ 1 then (i, 0)
          else
            match r.isFinal fuel false around (left - 1) next with
            | (true, left) => (.many s { times with mode := .possessive }, left)
            | (false, left) => (i, left)
  | i => (i, left)

/-- The code with its repetitions possessive where they need no way back, behind the pieces in front, the
last one first. -/
def Code.possessifiedFrom (hasCalls : Bool) (fuel : Nat) (around : List Enclosure) :
    (pieces : List Code.Piece) → (left : Nat) → Code → Code × Nat
  | pieces, left, .stop => (ofPieces pieces, left)
  | pieces, left, .either upTo branch others =>
      let (branch, left) := possessifiedFrom hasCalls fuel around [] left branch
      possessifiedFrom hasCalls fuel around (.either upTo branch :: pieces) left others
  | pieces, left, .step i next =>
      let (i, left) := i.possessified hasCalls fuel around left next
      possessifiedFrom hasCalls fuel around (.step i :: pieces) left next
  | pieces, left, .group shape body next =>
      let inside : List Enclosure := { role := shape.role, ending := shape.ending, next } :: around
      let (body, left) := possessifiedFrom hasCalls fuel inside [] left body
      possessifiedFrom hasCalls fuel around (.group shape body :: pieces) left next

/-- The code with its repetitions possessive where they need no way back. -/
def Code.possessified (hasCalls : Bool) (code : Code) : Code :=
  (code.possessifiedFrom hasCalls (2 * code.size + 2) [] [] maxComparisons).1

end PatternGrammar.Regex
