import PatternGrammar.Regex.Machine
import PatternGrammar.Regex.Plan

/-!
# Searching a subject

A match is tried at one place of the subject after the other, as long as the plan allows it. How an attempt
has failed decides where the next one begins, or that there is none.
-/

namespace PatternGrammar.Regex

namespace Subject

/-- The first place from `i` on with such a byte. -/
def findByte? (s : Subject) (p : Nat → Bool) : (fuel : Nat) → Nat → Option Nat
  | 0, _ => none
  | fuel + 1, i =>
      if s.size ≤ i then none else if p (s.byteAt i) then some i else s.findByte? p fuel (i + 1)

/-- The last place in front of `i` with such a byte. -/
def lastByte? (s : Subject) (p : Nat → Bool) : Nat → Option Nat
  | 0 => none
  | i + 1 => if p (s.byteAt i) then some i else s.lastByte? p i

/-- The line feed here belongs to the carriage return in front of it. -/
def splitsPair (s : Subject) (i : Nat) : Bool :=
  0 < i && s.byteAt (i - 1) = 13 && i < s.size && s.byteAt i = 10

/-- The first place from `i` on that begins a line, or the end. -/
def lineFrom (s : Subject) : (fuel : Nat) → Nat → Nat
  | 0, i => i
  | fuel + 1, i =>
      if s.size ≤ i || s.endsBreak i then
        if s.splitsPair i && (s.lineBreak = .any || s.lineBreak = .pairOrEither) then i + 1 else i
      else s.lineFrom fuel (s.next i)

end Subject

/-- A search through a subject. -/
structure Search where
  engine : Engine
  plan : Plan
  /-- The expression names a character that can end a line. -/
  namesBreak : Bool
  /-- The last place with the byte that is needed later. -/
  lastNeeded : Option Nat

namespace Search

/-- The first place from `i` on at which a match can begin. -/
def startFrom? (x : Search) (i : Nat) : Option Nat :=
  let s := x.engine.subject
  let find (p : Nat → Bool) : Option Nat :=
    if !x.plan.anchored then s.findByte? p (s.size - i) i
    else if i < s.size && p (s.byteAt i) then some i
    else none
  match x.plan.start with
  | .anywhere => some i
  | .byte b => find b.accepts
  | .among table => find fun b => table.getD b false
  | .lineStart => some (if i = 0 then 0 else s.lineFrom (s.size - i + 1) i)

/-- Where so many bytes or more are left, a byte that is needed later is not looked for. -/
def farthest (anchored : Bool) : Nat := if anchored then 5000 else 5000000

/-- What is left of the subject has enough bytes, and the one that is needed later. -/
def allows (x : Search) (i : Nat) : Bool :=
  let left := x.engine.subject.size - i
  let needed :=
    match x.plan.later, x.plan.start with
    | none, _ => true
    | some _, .byte _ => x.lastNeeded.any (i + 1 ≤ ·)
    | some _, _ => x.lastNeeded.any (i ≤ ·)
  x.plan.least ≤ left && (farthest x.plan.anchored ≤ left || needed)

/-- A place to go on from. An expression that does not name the characters of a line break does not begin
within one. -/
def settle (x : Search) (i : Nat) : Nat :=
  let s := x.engine.subject
  let isPaired := s.lineBreak = .any || s.lineBreak = .pairOrEither || s.lineBreak = .pair
  if isPaired && !x.namesBreak && s.splitsPair i then i + 1 else i

/-- Where to go on after an attempt at `i` that was refused, and how many skips to a mark to pass over then,
if the search is not at its end. A skip to a mark that was never set is passed over in a new attempt. -/
def onward? (x : Search) (i ignored skips : Nat) (v : Verdict) : Option (Nat × Nat) :=
  let following := (x.engine.subject.next i, 0)
  let goOn? : Option (Nat × Nat) :=
    match v with
    | .committed _ => none
    | .skipped place _ => some (if i < place then (place, ignored) else following)
    | .skippedTo _ _ => some (i, skips)
    | .failed | .accepted _ | .pruned _ | .left _ _ => some following
  match goOn? with
  | none => none
  | some (place, ignored) =>
      if x.plan.anchored || x.engine.subject.size < place then none
      else some (x.settle place, ignored)

/-- Tries a match at the places from `i` on; in the first attempt so many skips to a mark are passed over. -/
def run (x : Search) : (fuel : Nat) → (i ignored : Nat) → Except SearchFault Bool
  | 0, _, _ => .error .entryLimit
  | fuel + 1, i, ignored =>
      match x.startFrom? i with
      | none => .ok false
      | some i =>
          if !x.allows i then .ok false
          else
            match { x.engine with ignoredSkips := ignored }.attempt i with
            | (.matched, _) => .ok true
            | (.stopped fault, _) => .error fault
            | (.refused (.accepted _), _) => .error .strayAccept
            | (.refused v, skips) =>
                match x.onward? i ignored skips v with
                | none => .ok false
                | some (i, ignored) => x.run fuel i ignored

/-- So many attempts are enough: at each place every further one passes over more skips than the one
before, and each skip that is not passed over takes an entry. -/
def fuel (x : Search) : Nat :=
  (x.engine.subject.size + 2) * (x.engine.settings.limits.entries + 2)

end Search

/-- The words for a fault. -/
def SearchFault.message : SearchFault → Text
  | .entryLimit => "match limit exceeded"
  | .depthLimit => "matching depth limit exceeded"
  | .memoryLimit => "heap limit exceeded"
  | .nestedCall => "nested recursion at the same subject position"
  | .strayAccept => "unknown PCRE2 error -999"

end PatternGrammar.Regex
