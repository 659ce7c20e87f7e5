import PatternGrammar.Regex.Groups

/-!
# Traits of an expression

What a search needs to know of an expression as a whole: whether it can match the empty text, which verbs
stand in it, and which groups it refers to.
-/

namespace PatternGrammar.Regex

/-! ## Emptiness -/

/-- What is known of an alternative so far: it takes a character for sure, so does its last item, and
it has accepted. Nothing counts behind an item that accepts. -/
structure Taking where
  takes : Bool := false
  last : Bool := false
  accepted : Bool := false

/-- The alternative after the item that was last. -/
def Taking.settle (k : Taking) : Taking := { k with takes := k.takes || (k.last && !k.accepted), last := false }

/-- The alternative after one more item, which takes a character or does not. -/
def Taking.after (k : Taking) (takes : Bool) (times : Times) : Taking :=
  { k.settle with last := takes && 0 < times.least }

/-- The item takes a character whenever it matches. -/
def Item.takes : Item → Bool
  | .single _ => true
  | _ => false

/-- The item accepts. -/
def Item.accepts : Item → Bool
  | .verb (.accept _) => true
  | _ => false

/-- A group of this kind takes a character if all of its alternatives do. -/
def GroupKind.hands (kind : GroupKind) (branches : Nat) : Bool :=
  match kind with
  | .look _ _ | .conditional (.define _) => false
  | .conditional _ => branches = 2
  | .plain | .capture _ _ | .atomic | .scriptRun => true

/-- Every alternative takes a character, as far as its items by themselves tell; `k` is what is known of
the first one. References and calls do not count. -/
def takesFrom (k : Taking) : Regex → Bool
  | .stop => k.settle.takes
  | .bar next => k.settle.takes && takesFrom {} next
  | .item i times next =>
      let k := k.after i.takes times
      takesFrom { k with accepted := k.accepted || i.accepts } next
  | .group kind body times next =>
      takesFrom (k.after (kind.hands body.branchCount && takesFrom {} body) times) next

/-- The expression may match the empty text, as far as its items by themselves tell. -/
def mayBeEmpty (r : Regex) : Bool := !takesFrom {} r

/-! ## Items anywhere -/

/-- Some item has the property. -/
def hasItem (p : Item → Bool) : Regex → Bool
  | .stop => false
  | .bar next => hasItem p next
  | .item i _ next => p i || hasItem p next
  | .group _ body _ next => hasItem p body || hasItem p next

def Item.isCall : Item → Bool
  | .call _ => true
  | _ => false

/-- The item gives up the alternative that it stands in. -/
def Item.leaves : Item → Bool
  | .verb (.leave _) => true
  | _ => false

/-- The item gives up the place at which a match begins. -/
def Item.givesUpStart : Item → Bool
  | .verb (.prune _) | .verb (.skip _) => true
  | _ => false

/-! ## Groups referred to -/

/-- The groups that an expression refers to by what they have matched: those that can be told apart, as a
list, and the largest number of all. -/
structure References where
  groups : List Nat := []
  largest : Nat := 0

/-- One more group is referred to. -/
def References.add (r : References) (n : Nat) : References :=
  { groups := if r.groups.contains n then r.groups else n :: r.groups, largest := max n r.largest }

/-- One more condition asks for a group. -/
def References.ask (r : References) (n : Nat) : References := { r with largest := max n r.largest }

/-- One more reference to the text of a group. -/
def References.refer (g : Groups) (r : References) : GroupRef → References
  | .number n => r.add n
  | .name name => (g.numbersOf name).foldl References.add r

/-- One more condition that asks for a group. -/
def References.inquire (g : Groups) (r : References) : GroupRef → References
  | .number n => r.ask n
  | .name name =>
      if g.isShared name then r.refer g (.name name) else (g.numbersOf name).foldl References.ask r

/-- All references of an expression, on top of those in `r`. -/
def referencesOnto (g : Groups) (r : References) : Regex → References
  | .stop => r
  | .bar next => referencesOnto g r next
  | .item (.backReference target _) _ next => referencesOnto g (r.refer g target.ref) next
  | .item _ _ next => referencesOnto g r next
  | .group kind body _ next =>
      let r :=
        match kind with
        | .conditional (.captured target) | .conditional (.inCallOf target) => r.inquire g target.ref
        | .conditional (.inCall letters _) => r.inquire g (.name letters)
        | _ => r
      referencesOnto g (referencesOnto g r body) next

/-- The groups with these numbers may be among those referred to. All numbers from 32 on count as one. -/
def References.mayTouch (r : References) (numbers : List Nat) : Bool :=
  let slot (n : Nat) : Nat := if n < 32 then n else 0
  numbers.any fun n => r.groups.any fun m => slot m = slot n

end PatternGrammar.Regex
