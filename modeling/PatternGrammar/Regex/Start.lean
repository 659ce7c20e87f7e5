import PatternGrammar.Regex.Code
import PatternGrammar.Regex.Needs

/-!
# Where a match can begin

An expression may be tied to the start of the text or of a line, or name the bytes that a match can begin
with. All of this is read off the first significant item of every alternative.
-/

namespace PatternGrammar.Regex

/-! ## The first significant item -/

/-- The group is only defined. -/
def isDefinition (shape : Shape) (body : Code) : Bool :=
  shape.role = .conditional (.constant false) && !body.hasAlternatives

/-- The verb leaves a name and decides nothing at the start. -/
def Instruction.isNamedVerb : Instruction → Bool
  | .mark _ | .skipTo _ => true
  | .commit named | .prune named | .leave _ named => named
  | _ => false

def Instruction.isBoundary : Instruction → Bool
  | .anchor .wordBoundary | .anchor .notWordBoundary => true
  | _ => false

/-- The code from its first significant item on. Looks at what precedes or must not follow, and boundaries,
count only if they are asked for. Of a group that is never entered the first alternative is left out. -/
def Code.significant (looks : Bool) : Code → Code
  | .stop => .stop
  | .either upTo branch others => .either upTo branch others
  | .step i next =>
      if i.isNamedVerb || (!looks && i.isBoundary) then next.significant looks else .step i next
  | .group shape body next =>
      match shape.entry with
      | .never =>
          match body with
          | .either _ _ (.either _ branch _) => branch.significant looks
          | .either _ _ others => others.significant looks
          | _ => next.significant looks
      | .once =>
          if isDefinition shape body then next.significant looks
          else
            match shape.role with
            | .look look =>
                if !looks && (look.behind || look.negated) then next.significant looks
                else .group shape body next
            | _ => .group shape body next
      | .maybe | .maybeNot => .group shape body next

/-! ## Tied to a start -/

/-- What decides whether an expression is tied to a start. -/
structure Ties where
  references : References
  /-- A repetition of any character may stand for a start: nothing gives up the place where a match
  begins. -/
  dotStar : Bool

/-- Where an item stands: in these numbered groups, and whether in an atomic group or a look around. -/
structure Within where
  captures : List Nat := []
  closed : Bool := false

/-- Any number of characters from the start on, which nothing refers to. -/
def Ties.freely (t : Ties) (place : Within) (times : Times) : Bool :=
  times.least = 0 && times.most.isNone && t.dotStar && !place.closed &&
    !t.references.mayTouch place.captures

/-- Every alternative begins at the start of the text. -/
def Ties.anchored (t : Ties) : (fuel : Nat) → Within → Code → Bool
  | 0, _, _ => false
  | fuel + 1, place, code =>
      let begins (branch : Code) : Bool :=
        match branch.significant true with
        | .step (.many .any times) _ => t.freely place times
        | .step (.anchor a) _ => a = .subjectStart || a = .searchStart || a = .textStart
        | .group shape body _ =>
            shape.entry = .once &&
              match shape.role with
              | .plain => t.anchored fuel place body
              | .capture n _ => t.anchored fuel { place with captures := n :: place.captures } body
              | .look look =>
                  !look.behind && !look.negated && t.anchored fuel { place with closed := true } body
              | .conditional _ => body.hasAlternatives && t.anchored fuel place body
              | .atomic => t.anchored fuel { place with closed := true } body
              | .scriptRun => false
        | _ => false
      match code with
      | .either _ branch others => begins branch && t.anchored fuel place others
      | code => begins code

/-- Every alternative begins at the start of a line. -/
def Ties.atLineStart (t : Ties) : (fuel : Nat) → Within → Code → Bool
  | 0, _, _ => false
  | fuel + 1, place, code =>
      let inside (shape : Shape) (body : Code) : Bool :=
        shape.entry = .once &&
          match shape.role with
          | .plain => t.atLineStart fuel place body
          | .capture n _ => t.atLineStart fuel { place with captures := n :: place.captures } body
          | .look look =>
              !look.behind && !look.negated && t.atLineStart fuel { place with closed := true } body
          | .atomic => t.atLineStart fuel { place with closed := true } body
          | .scriptRun | .conditional _ => false
      let beginsWith (first : Code) : Bool :=
        match first with
        | .step (.many .notNewline times) _ => t.freely place times
        | .step (.anchor a) _ => a = .lineStart || a = .textStart
        | .group shape body _ => inside shape body
        | _ => false
      let begins (branch : Code) : Bool :=
        let first := branch.significant true
        match first with
        | .group shape body _ =>
            if shape.role = .conditional .look && shape.entry = .once && !shape.guarded then
              match (body.firstBranch 0).1 with
              | .group _ condition next =>
                  t.atLineStart fuel { place with closed := true } condition &&
                    beginsWith (next.significant true)
              | _ => false
            else beginsWith first
        | first => beginsWith first
      match code with
      | .either _ branch others => begins branch && t.atLineStart fuel place others
      | code => begins code

/-! ## A first byte that a look ahead asks for -/

/-- The first byte of a character, unless it can be different in another case. -/
def leadByte? (c : Nat) (ignoreCase : Bool) : Option NeededByte :=
  if ignoreCase && 128 ≤ c then none
  else some { byte := ((Text.encode c).headD 0).toNat, ignoreCase }

/-- The first byte that all alternatives ask for; `found` is that of those before. Items count only within a
look ahead. -/
def Code.assertedByte? :
    (fuel : Nat) → (inLook : Bool) → (found : Option NeededByte) → Code → Option NeededByte
  | 0, _, _, _ => none
  | fuel + 1, inLook, found, code =>
      let ofChar (c : Nat) (ignoreCase : Bool) : Option NeededByte :=
        if !inLook then none
        else
          match leadByte? c ignoreCase, found with
          | some b, some known => if b.byte = known.byte then some known else none
          | some b, none => some b
          | none, _ => none
      let ofGroup (inLook : Bool) (body : Code) : Option NeededByte :=
        match body.assertedByte? fuel inLook none, found with
        | some b, some known => if b = known then some known else none
        | b, none => b
        | none, _ => none
      let ofBranch (branch : Code) : Option NeededByte :=
        match branch.significant false with
        | .step (.one (.literal c ignoreCase)) _ => ofChar c ignoreCase
        | .step (.many (.literal c ignoreCase) times) _ =>
            if 0 < times.least then ofChar c ignoreCase else none
        | .group shape body _ =>
            if shape.entry ≠ .once then none
            else
              match shape.role with
              | .plain => if shape.guarded then none else ofGroup inLook body
              | .capture _ _ | .atomic | .scriptRun => ofGroup inLook body
              | .look look => if look.behind || look.negated then none else ofGroup true body
              | .conditional _ => none
        | _ => none
      match code with
      | .either _ branch others =>
          match ofBranch branch with
          | none => none
          | found => others.assertedByte? fuel inLook found
      | code => ofBranch code

/-! ## The bytes that a match can begin with -/

/-- The outcome of looking for first bytes: all alternatives have some, some alternative may be followed by
what decides, or there is no telling. -/
inductive FirstBytes where
  | settled
  | open
  | unknown
  deriving DecidableEq, Repr

/-- A table of bytes, and the number of groups that have been looked at. -/
structure ByteTable where
  bytes : Array Bool := Array.replicate 256 false
  visits : Nat := 0

/-- So many groups are looked at. -/
def maxVisits : Nat := 1000

namespace ByteTable

/-- One more byte. -/
def mark (t : ByteTable) (byte : Nat) : ByteTable := { t with bytes := t.bytes.setIfInBounds byte true }

/-- All bytes from `low` on up to `high`. -/
def markRange (t : ByteTable) (low high : Nat) : ByteTable :=
  { t with bytes := markFrom low (high + 1 - low) t.bytes }

/-- The first byte of a character. -/
def markLead (t : ByteTable) (c : Nat) : ByteTable := t.mark ((Text.encode c).headD 0).toNat

/-- A literal. -/
def markLiteral (t : ByteTable) (c : Nat) (ignoreCase : Bool) : ByteTable :=
  let t := t.markLead c
  if ignoreCase then t.markLead (Unicode.otherCase c) else t

/-- All ASCII characters with the property, and with `others` every byte that begins a longer one. -/
def markAscii (t : ByteTable) (p : Nat → Bool) (others : Bool) : ByteTable :=
  let t := (List.range 128).foldl (fun t c => if p c then t.mark c else t) t
  if others then t.markRange 0xC0 0xFF else t

/-- A class of characters that has an escape. -/
def markKind? (t : ByteTable) (k : CharKind) (negated : Bool) : Option ByteTable :=
  match k, negated with
  | .horizontal, false => some ([9, 32, 0xC2, 0xE1, 0xE2, 0xE3].foldl mark t)
  | .vertical, false => some ([10, 11, 12, 13, 0xC2, 0xE2].foldl mark t)
  | .horizontal, true | .vertical, true => none
  | k, negated => some (t.markAscii (fun c => k.holds c != negated) negated)

/-- A line break. -/
def markNewline (t : ByteTable) : ByteTable := [10, 11, 12, 13, 0xC2, 0xE2].foldl mark t

/-- The first 256 characters of a set. -/
def markTable (t : ByteTable) (s : CharSet) : ByteTable :=
  let within (low high : Nat) : Bool := (List.range (high - low)).any fun i => s.inTable (low + i)
  let t := t.markAscii s.inTable false
  let t := if within 128 192 then t.mark 0xC2 else t
  if within 192 256 then t.mark 0xC3 else t

/-- A set. -/
def markSet? (t : ByteTable) (s : CharSet) : Option ByteTable :=
  match s.form with
  | .narrow => some (t.markTable s)
  | .complement => some ((t.markRange 0xC4 0xFF).markTable s)
  | .wide =>
      if !s.properties.isEmpty || (s.negated && s.table.isNone) then none
      else if s.negated then some ((t.markRange 0xC4 0xFF).markTable s)
      else
        let lead (c : Nat) : Nat := ((Text.encode c).headD 0).toNat
        some ((s.ranges.foldl (fun t (low, high) => t.markRange (lead low) (lead high)) t).markTable s)

/-- A single item that has to be there. -/
def markSingle? (t : ByteTable) : Single → Option ByteTable
  | .literal c ignoreCase => some (t.markLiteral c ignoreCase)
  | .oneOf cases false => some (cases.foldl markLead t)
  | .kind k negated => t.markKind? k negated
  | .newline => some t.markNewline
  | .set s => t.markSet? s
  | .oneOf _ true | .notLiteral _ _ | .property _ _ | .notNewline | .any | .byte | .cluster => none

/-- A single item that may be left out. -/
def markOptional? (t : ByteTable) (s : Single) : Option ByteTable :=
  match s with
  | .oneOf _ _ => none
  | s => t.markSingle? s

end ByteTable

/-- The code behind further looks around and boundaries. -/
def Code.behindLooks : Code → Code
  | .step i next => if i.isBoundary then next.behindLooks else .step i next
  | .group shape body next =>
      match shape.role, shape.entry with
      | .look _, .once => next.behindLooks
      | _, _ => .group shape body next
  | code => code

/-- The code begins with a character of a type that tells more than a look ahead in front of it. -/
def Code.beginsPlainly : Code → Bool
  | .step (.one s) _ =>
      match s with
      | .literal _ _ | .oneOf _ false | .newline => true
      | .kind .horizontal negated | .kind .vertical negated => !negated
      | .kind _ _ => true
      | _ => false
  | .step (.many (.literal _ _) times) _ => 0 < times.least
  | _ => false

/-- A group of this role begins with a test that is no look around. -/
def Role.testsFirst : Role → Bool
  | .conditional test => test ≠ .look
  | _ => false

/-- Marks the first bytes of the alternatives. -/
def Code.firstBytes : (fuel : Nat) → ByteTable → Code → FirstBytes × ByteTable
  | 0, t, _ => (.unknown, t)
  | fuel + 1, t, code =>
      let visit (t : ByteTable) (body : Code) : FirstBytes × ByteTable :=
        if maxVisits ≤ t.visits then (.unknown, t)
        else body.firstBytes fuel { t with visits := t.visits + 1 }
      match code with
      | .stop => (.open, t)
      | .either _ branch others =>
          match branch.firstBytes fuel t with
          | (.unknown, t) => (.unknown, t)
          | (one, t) =>
              match others.firstBytes fuel t with
              | (.settled, t) => (one, t)
              | other => other
      | .step i next =>
          match i with
          | .one s =>
              match t.markSingle? s with
              | some t => (.settled, t)
              | none => (.unknown, t)
          | .many s times =>
              if 0 < times.least then
                match t.markSingle? s with
                | some t => (.settled, t)
                | none => (.unknown, t)
              else
                match t.markOptional? s with
                | some t => next.firstBytes fuel t
                | none => (.unknown, t)
          | .anchor .textStart | .anchor .wordBoundary | .anchor .notWordBoundary =>
              next.firstBytes fuel t
          | _ => (.unknown, t)
      | .group shape body next =>
          let inside : FirstBytes × ByteTable :=
            match visit t body with
            | (.open, t) => next.firstBytes fuel t
            | outcome => outcome
          match shape.entry with
          | .never => next.firstBytes fuel t
          | .maybe | .maybeNot =>
              match if shape.role.testsFirst then (.unknown, t) else visit t body with
              | (.unknown, t) => (.unknown, t)
              | (_, t) => next.firstBytes fuel t
          | .once =>
              match shape.role with
              | .conditional _ => (.unknown, t)
              | .look look =>
                  if look.behind || look.negated then next.firstBytes fuel t
                  else if next.behindLooks.beginsPlainly then next.behindLooks.firstBytes fuel t
                  else inside
              | .plain | .capture _ _ | .atomic | .scriptRun => inside

/-- The table of first bytes of an expression, if there is one. -/
def Code.firstByteTable? (code : Code) : Option (Array Bool) :=
  match code.firstBytes (2 * code.size + 2) { visits := 1 } with
  | (.settled, t) => some t.bytes
  | _ => none

/-- The bytes of a table, if they are one ASCII character or the two cases of one. -/
def singleByte? (table : Array Bool) : Option NeededByte :=
  match (List.range 256).filter (fun c => table.getD c false) with
  | [a] => if a < 128 then some { byte := a } else none
  | [a, b] =>
      if b < 128 && a / 8 ≠ b / 8 && (Unicode.caseSet? b).isNone && Unicode.otherCase b = a then
        some { byte := a, ignoreCase := true }
      else none
  | _ => none

end PatternGrammar.Regex
