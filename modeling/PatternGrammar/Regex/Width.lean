import PatternGrammar.Regex.Groups

/-!
# Fixed widths

A lookbehind steps back by the width of each of its alternatives, so every alternative needs a fixed one.
Groups that are referred to are measured where they stand. The work is bounded: so many alternatives may be
measured for a whole expression, and no more.
-/

namespace PatternGrammar.Regex

/-- The largest width of an alternative. -/
def maxWidth : Nat := 65535

/-- The largest number of alternatives that are measured. -/
def maxMeasured : Nat := 2001

/-- Why there is no width: a fault of the lookbehind around, which reports it, or one with a place of its
own. -/
inductive WidthFault where
  | ofLookBehind (fault : SyntaxFault)
  | elsewhere (error : SyntaxError)

/-- What has been measured so far: the number of alternatives, the widths of groups, none for one without a
width, and the widths of the alternatives of lookbehinds by their offsets. -/
structure Measured where
  alternatives : Nat := 0
  groups : Array (Option (Option Nat))
  lookBehinds : List (Nat × List Nat) := []

abbrev Measuring (α : Type) := StateT Measured (Except WidthFault) α

/-- The width varies. -/
def Measuring.varies : Measuring α := throw (.ofLookBehind .variableLookBehind)

/-- Where something stands: the groups around it, and the groups that are being measured for a reference. -/
structure Surroundings where
  around : List Nat := []
  referred : List Nat := []

/-- How the parts of an alternative are measured. -/
structure Measures where
  /-- A group; a numbered one is measured once. -/
  group : Surroundings → Option Nat → Regex → Measuring Nat
  /-- The lookbehinds within a look ahead. -/
  within : Surroundings → Regex → Measuring Unit
  lookBehind : Surroundings → (offset : Nat) → Regex → Measuring Unit

/-- One alternative more is measured. -/
def countAlternative : Measuring Unit := do
  let s ← get
  if maxMeasured ≤ s.alternatives then throw (.ofLookBehind .tooComplicatedLookBehind)
  set { s with alternatives := s.alternatives + 1 }

/-- The sum of two widths. -/
def addWidth (a b : Nat) : Measuring Nat :=
  if maxWidth < a + b then throw (.ofLookBehind .tooLongLookBehind) else return a + b

/-- The width of a single item. -/
def Single.width : Single → Measuring Nat
  | .newline | .cluster => Measuring.varies
  | .byte => throw (.ofLookBehind .byteInLookBehind)
  | _ => return 1

/-- The width of the group with this number, for a reference from these surroundings. -/
def Measures.reference (m : Measures) (g : Groups) (place : Surroundings) (n offset : Nat) :
    Measuring Nat := do
  if g.count < n then throw (.elsewhere ⟨.missingGroup, offset⟩)
  if n = 0 || place.around.contains n || place.referred.contains n then Measuring.varies
  else
    match g.definition? n with
    | none => Measuring.varies
    | some d => m.group { around := d.around, referred := n :: place.referred } (some n) d.body

/-- The width of what a reference by name stands for. -/
def Measures.namedReference (m : Measures) (g : Groups) (place : Surroundings) (captured : Bool)
    (name : List Nat) (offset : Nat) : Measuring Nat := do
  match g.number? (.name name) with
  | none => throw (.elsewhere ⟨.missingGroup, offset⟩)
  | some n =>
      if captured && (g.isShared name || g.sharesNumbers) then Measuring.varies
      else m.reference g place n offset

/-- The width of an item. -/
def Measures.item (m : Measures) (g : Groups) (place : Surroundings) : Item → Measuring Nat
  | .single s => s.width
  | .backReference ⟨.number n, offset⟩ _ =>
      if g.sharesNumbers then Measuring.varies else m.reference g place n offset
  | .backReference ⟨.name name, offset⟩ _ => m.namedReference g place true name offset
  | .call ⟨.number n, offset⟩ => m.reference g place n offset
  | .call ⟨.name name, offset⟩ => m.namedReference g place false name offset
  | .anchor _ | .keepOut | .verb _ | .callout _ | .settings => return 0

/-- The width of a group. What is only defined takes no part, and neither does what a look around sees. -/
def Measures.groupItem (m : Measures) (place : Surroundings) (kind : GroupKind) (body : Regex) :
    Measuring Nat := do
  match kind with
  | .capture n again =>
      let around := if again then place.around else n :: place.around
      m.group { place with around } (some n) body
  | .look look offset =>
      if look.behind then m.lookBehind place offset body else m.within place body
      return 0
  | .conditional (.define _) => return 0
  | .plain | .atomic | .scriptRun | .conditional _ => m.group place none body

/-- The width so far with an item of width `w` that is repeated. -/
def addRepeated (total w : Nat) (times : Times) : Measuring Nat := do
  let once ← addWidth total w
  if times.varies then Measuring.varies
  else if times.least = 0 then return total
  else addWidth once ((times.least - 1) * w)

/-- The verb ends the alternative. -/
def endsAlternative : Item → Bool
  | .verb (.accept _) | .verb (.fail _) => true
  | _ => false

/-- The widths of alternatives, the last one first: those in `done`, the one that has begun with the width
`total`, and the rest. If `alike`, they have to be the same. -/
def Measures.alternatives (m : Measures) (g : Groups) (place : Surroundings) (alike : Bool) :
    (done : List Nat) → (total : Nat) → (ended : Bool) → Regex → Measuring (List Nat)
  | done, total, _, .stop => close done total
  | done, total, _, .bar next => do
      let done ← close done total
      countAlternative
      m.alternatives g place alike done 0 false next
  | done, total, true, .item _ _ next => m.alternatives g place alike done total true next
  | done, total, true, .group _ _ _ next => m.alternatives g place alike done total true next
  | done, total, false, .item i times next => do
      if endsAlternative i then m.alternatives g place alike done total true next
      else
        let total ← addRepeated total (← m.item g place i) times
        m.alternatives g place alike done total false next
  | done, total, false, .group kind body times next => do
      let w ← m.groupItem place kind body
      let total ←
        match kind with
        | .look { behind := false, .. } _ => pure total
        | _ => addRepeated total w times
      m.alternatives g place alike done total false next
where
  /-- The widths with one more at its end. -/
  close (done : List Nat) (total : Nat) : Measuring (List Nat) :=
    match done with
    | other :: _ => if alike && other ≠ total then Measuring.varies else return total :: done
    | [] => return [total]

/-- The widths of all alternatives, in order. -/
def Measures.branches (m : Measures) (g : Groups) (place : Surroundings) (alike : Bool) (body : Regex) :
    Measuring (List Nat) := do
  countAlternative
  return (← m.alternatives g place alike [] 0 false body).reverse

/-- Measures a group, or takes the width that was found for it before. -/
def Measures.measureGroup (m : Measures) (g : Groups) (place : Surroundings) (number? : Option Nat)
    (body : Regex) : Measuring Nat := do
  let known : Option (Option Nat) ←
    match number? with
    | some n => if g.sharesNumbers then pure none else pure ((← get).groups[n]?).join
    | none => pure none
  let keep (w : Option Nat) : Measuring Unit :=
    match number? with
    | some n => modify fun s => { s with groups := s.groups.setIfInBounds n (some w) }
    | none => return ()
  match known with
  | some (some w) => return w
  | some none => Measuring.varies
  | none =>
      let widths ← m.branches g place true body
      let w := widths.headD 0
      keep (some w)
      return w

/-- Measures the alternatives of a lookbehind, and reports what they lack at its offset. -/
def Measures.measureLookBehind (m : Measures) (g : Groups) (place : Surroundings) (offset : Nat)
    (body : Regex) : Measuring Unit := do
  let s ← get
  match (m.branches g place false body).run s with
  | .ok (widths, s) => set { s with lookBehinds := (offset, widths) :: s.lookBehinds }
  | .error (.ofLookBehind fault) => throw (.elsewhere ⟨fault, offset⟩)
  | .error (.elsewhere error) => throw (.elsewhere error)

/-- Measures every lookbehind in an expression, but for those within others. -/
def Measures.measureWithin (m : Measures) (place : Surroundings) : Regex → Measuring Unit
  | .stop => return ()
  | .bar next => m.measureWithin place next
  | .item _ _ next => m.measureWithin place next
  | .group kind body _ next => do
      match kind with
      | .look { behind := true, .. } offset => m.lookBehind place offset body
      | .capture n false => m.measureWithin { place with around := n :: place.around } body
      | _ => m.measureWithin place body
      m.measureWithin place next

/-- The measures, with `fuel` for groups within each other. -/
def measures (g : Groups) : (fuel : Nat) → Measures
  | 0 =>
      { group := fun _ _ _ => throw (.ofLookBehind .tooComplicatedLookBehind)
        within := fun _ _ => throw (.ofLookBehind .tooComplicatedLookBehind)
        lookBehind := fun _ _ _ => throw (.ofLookBehind .tooComplicatedLookBehind) }
  | fuel + 1 =>
      { group := fun place number? body => (measures g fuel).measureGroup g place number? body
        within := fun place body => (measures g fuel).measureWithin place body
        lookBehind := fun place offset body => (measures g fuel).measureLookBehind g place offset body }

/-- The widths of the alternatives of every lookbehind, by its offset. -/
def lookBehindWidths (g : Groups) (r : Regex) : Except SyntaxError (List (Nat × List Nat)) :=
  let start : Measured := { groups := Array.replicate (g.count + 1) none }
  match ((measures g (2 * maxMeasured + 2)).measureWithin {} r).run start with
  | .ok (_, s) => .ok s.lookBehinds
  | .error (.elsewhere error) => .error error
  | .error (.ofLookBehind fault) => .error ⟨fault, 0⟩

end PatternGrammar.Regex
