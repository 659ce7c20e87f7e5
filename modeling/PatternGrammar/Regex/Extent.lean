import PatternGrammar.Regex.Groups
import PatternGrammar.Regex.Width

/-!
# The extent of an expression

A finished expression takes up room, and there is a limit to it. Copies that a repetition asks for count in
full. The same walk finds references to groups that do not exist, and other things out of place, in the
order of their items.
-/

namespace PatternGrammar.Regex

/-- The largest extent of an expression, in bytes. -/
def maxExtent : Nat := 65536

/-- The extent of the head and the foot of a group. -/
def frameExtent : Nat := 6

/-- What the extents depend on. -/
structure Surveyor where
  groups : Groups
  /-- The widths of the alternatives of every lookbehind, by its offset. -/
  widths : List (Nat × List Nat)
  /-- The number of bytes in the text, where an expression that is too large is reported. -/
  size : Nat

/-- Where an item stands: within so many looks around, and in numbered groups, each with the number of
looks around it. -/
structure Standing where
  looks : Nat := 0
  captures : List Nat := []

/-! ## Repetitions -/

/-- The extent of an item with its repetition: one copy takes `bare`, a repeated one a head and `unit`. -/
def repeatedExtent (bare unit : Nat) (times : Times) : Nat :=
  let beyond (rest : Nat) : Nat := if rest = 0 then 0 else if rest = 1 then 1 + unit else 3 + unit
  match times.least, times.most with
  | 0, none => 1 + unit
  | 0, some 0 => bare
  | 0, some 1 => 1 + unit
  | 0, some _ => 3 + unit
  | 1, none => 1 + unit
  | 1, some 1 => bare
  | 1, some _ => bare + 3 + unit
  | _, none => 3 + unit + 1 + unit
  | least, some most => 3 + unit + beyond (most - least)

/-- The extent of a repetition that stands behind its item. -/
def suffixExtent (times : Times) : Nat :=
  match times.least, times.most with
  | 1, some 1 | 0, some 0 => 0
  | 0, none | 1, none | 0, some 1 => 1
  | _, _ => 5

/-- A repetition of a type of characters that leaves its first copy in place is possessive as a whole. -/
def wrapExtent (times : Times) : Nat :=
  if times.mode = .possessive && times.least = 1 && times.most.any (1 < ·) then frameExtent else 0

/-- The extent of a repeated single item. -/
def Single.extent (s : Single) (times : Times) : Nat :=
  match s with
  | .literal c _ | .notLiteral c _ =>
      let bytes := Text.encodedSize c
      repeatedExtent (1 + bytes) bytes times
  | .oneOf _ _ | .property _ _ => repeatedExtent 3 3 times + wrapExtent times
  | .set chars => chars.extent + suffixExtent times
  | .kind _ _ | .notNewline | .any | .byte | .newline | .cluster =>
      repeatedExtent 1 1 times + wrapExtent times

/-- The extent of a repeated group that takes `one`; `limit?` is the most repetitions, if they are
limited, and `wraps` tells whether a possessive repetition needs a group around it. -/
def copiesExtent (one least : Nat) (limit? : Option Nat) (wraps : Bool) : Nat :=
  let wrap := if wraps then frameExtent else 0
  if least = 0 then
    match limit? with
    | none => one + 1 + wrap
    | some 0 => one + 1
    | some 1 => one + 1 + wrap
    | some most => one + 4 + ((most - 1) * (one + 7) - 6) + 3 + wrap
  else
    let rest :=
      match limit? with
      | none => 0
      | some most => if most = least then 0 else (most - least) * (one + 7) - 6
    least * one + rest + wrap

/-- What a possessive repetition without a limit adds to a group of this kind: a look around has a limit
always, a conditional group gets a group around it, and a script run stays as it is. -/
def GroupKind.unlimitedExtent (kind : GroupKind) : Nat :=
  match kind with
  | .conditional _ => frameExtent
  | _ => 0

/-- The group is only defined: it has one alternative, and its condition never holds. -/
def neverRuns (kind : GroupKind) (body : Regex) : Bool :=
  match kind with
  | .conditional (.define _) | .conditional (.constant false) => body.branchCount = 1
  | _ => false

/-- The most repetitions of a group; a look around has a limit always. -/
def GroupKind.limit? (kind : GroupKind) (times : Times) : Option Nat :=
  match kind, times.most with
  | .look _ _, none => some (times.least + 1)
  | _, most => most

/-- The extent of a repeated group. -/
def groupExtent (kind : GroupKind) (body : Regex) (one : Nat) (times : Times) : Nat :=
  if times.isOnce || neverRuns kind body then one
  else
    let possessive := times.mode = .possessive
    match kind.limit? times with
    | some most => copiesExtent one times.least (some most) possessive
    | none =>
        let wraps := possessive && (kind = .scriptRun || 1 < times.least)
        copiesExtent one times.least none wraps + if possessive then kind.unlimitedExtent else 0

/-- The extent of a repeated call. What is not fixed gets a group around it, which is repeated. -/
def callExtent (times : Times) : Nat :=
  let possessive := times.mode = .possessive
  let wrap := if possessive then frameExtent else 0
  let grouped (least : Nat) (most : Option Nat) (wraps : Bool) : Nat := copiesExtent 9 least most wraps
  match times.least, times.most with
  | 1, none => grouped 1 none false
  | 0, none => grouped 0 none false
  | 0, some most => grouped 0 (some most) possessive
  | least, none => 3 * least + grouped 0 none false
  | least, some most =>
      if most = least then 3 * least + wrap else 3 * least + grouped 0 (some (most - least)) possessive

/-! ## Items -/

/-- A reference to a group that does not exist. -/
def missing (offset : Nat) : Except SyntaxError α := .error ⟨.missingGroup, offset⟩

/-- The target exists; gives the extent for one group or for several that share a name. -/
def Surveyor.target (v : Surveyor) (target : Target) (one several : Nat) : Except SyntaxError Nat :=
  match v.groups.number? target.ref with
  | none => missing target.offset
  | some _ =>
      match target.ref with
      | .number _ => return one
      | .name name => return if v.groups.isShared name then several else one

/-- The extent of a verb with its name. -/
def namedExtent (name : Option Text) : Nat :=
  match name with
  | none => 1
  | some name => 3 + name.length

/-- The extent of a verb. One that accepts closes the groups that are open. -/
def Verb.extent (v : Verb) (place : Standing) : Nat :=
  let before (name : Option Text) : Nat := if name.isSome then namedExtent name else 0
  match v with
  | .accept name => before name + 1 + 3 * (place.captures.takeWhile (place.looks ≤ ·)).length
  | .fail name => before name + 1
  | .mark name => namedExtent (some name)
  | .commit name | .prune name | .skip name | .leave name => namedExtent name

/-- The extent of an item. -/
def Surveyor.item (v : Surveyor) (place : Standing) (times : Times) : Item → Except SyntaxError Nat
  | .single s => return s.extent times
  | .anchor _ => return 1
  | .keepOut => if 0 < place.looks then .error ⟨.keepOutInLook, v.size⟩ else return 1
  | .backReference target _ => do
      let wrap := if times.mode = .possessive && suffixExtent times ≠ 0 then frameExtent else 0
      return (← v.target target 3 5) + suffixExtent times + wrap
  | .call target => do
      let _ ← v.target target 3 3
      return callExtent times
  | .verb verb => return verb.extent place
  | .callout extent => return extent
  | .settings => return 0

/-- The number behind the letter R of a condition; where it gets too big, the offset of that digit. -/
def numberAfterR (offset : Nat) : Nat → List Nat → Except SyntaxError Nat
  | n, [] => .ok n
  | n, c :: rest =>
      let n := n * 10 + (c - 48)
      if maxGroup < n then .error ⟨.groupNumberTooBig, offset⟩ else numberAfterR (offset + 1) n rest

/-- The extent of a condition that is no look around. -/
def Surveyor.condition (v : Surveyor) : Condition → Except SyntaxError Nat
  | .captured target | .inCallOf target => v.target target 3 5
  | .inCall letters offset =>
      match v.groups.number? (.name letters) with
      | some _ => return if v.groups.isShared letters then 5 else 3
      | none => do
          let n ← numberAfterR (offset + 1) 0 (letters.drop 1)
          if v.groups.count < n then missing offset else return 3
  | .define _ | .constant _ => return 1
  | .look => return 0

/-! ## Whole expressions -/

/-- An expression has to stay within the limit all the way. -/
def Surveyor.check (v : Surveyor) (total : Nat) : Except SyntaxError Unit :=
  if maxExtent < total then .error ⟨.tooLarge, v.size⟩ else .ok ()

/-- The extent of a step back in front of an alternative. -/
def stepBackExtent (widths : List Nat) : Nat := if 0 < widths.headD 0 then 3 else 0

/-- What a group has in its head. -/
def Surveyor.head (v : Surveyor) : GroupKind → Except SyntaxError Nat
  | .capture _ _ => return 2
  | .conditional c => v.condition c
  | .plain | .atomic | .scriptRun | .look _ _ => return 0

/-- The widths of the alternatives of a group, if it is a lookbehind. -/
def Surveyor.widthsOf (v : Surveyor) : GroupKind → List Nat
  | .look look offset => if look.behind then (v.widths.lookup offset).getD [] else []
  | _ => []

/-- Where the items of a group stand. -/
def Standing.within (place : Standing) : GroupKind → Standing
  | .capture _ _ => { place with captures := place.looks :: place.captures }
  | .look _ _ => { place with looks := place.looks + 1 }
  | .plain | .atomic | .scriptRun | .conditional _ => place

/-- A negative look ahead for nothing, which always fails. -/
def isFailure (kind : GroupKind) (body : Regex) (times : Times) : Bool :=
  match kind, body with
  | .look look _, .stop => !look.behind && look.negated && times = {}
  | _, _ => false

/-- The extent of alternatives on top of `total`; `widths` are those of the alternatives to come. -/
def Surveyor.survey (v : Surveyor) (place : Standing) :
    (widths : List Nat) → (total : Nat) → Regex → Except SyntaxError Nat
  | _, total, .stop => do
      v.check total
      return total
  | widths, total, .bar next => do
      v.check total
      v.survey place (widths.drop 1) (total + 3 + stepBackExtent widths) next
  | widths, total, .item i times next => do
      v.check total
      let n ← v.item place times i
      v.survey place widths (total + n) next
  | widths, total, .group kind body times next => do
      v.check total
      if isFailure kind body times then v.survey place widths (total + 1) next
      else
        let head ← v.head kind
        let inner := v.widthsOf kind
        let one ←
          v.survey (place.within kind) (inner.drop 1) (frameExtent + head + stepBackExtent inner) body
        v.survey place widths (total + groupExtent kind body one times) next

/-- The expression is not too large, and all that it refers to exists. -/
def checkExtent (v : Surveyor) (r : Regex) : Except SyntaxError Unit := do
  let total ← v.survey {} [] frameExtent r
  v.check (total + 1)

end PatternGrammar.Regex
