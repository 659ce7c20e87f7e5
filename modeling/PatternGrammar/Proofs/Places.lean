import Mathlib.Logic.Function.Basic
import PatternGrammar.Regex.Compiled

/-!
# Expressions at another place

An expression knows where it stands in its text only by offsets: those of its lookbehinds, by which their
widths are found again, and those at which missing groups are reported. With other offsets it is measured,
surveyed and put into code in the same way, as long as different lookbehinds keep different offsets.
-/

namespace PatternGrammar.Regex

/-! ## Expressions -/

def Target.bare (t : Target) : Target := { t with offset := 0 }

def Item.bare : Item → Item
  | .backReference target ignoreCase => .backReference target.bare ignoreCase
  | .call target => .call target.bare
  | i => i

def Condition.bare : Condition → Condition
  | .captured target => .captured target.bare
  | .inCallOf target => .inCallOf target.bare
  | .inCall letters _ => .inCall letters 0
  | .define _ => .define 0
  | .constant holds => .constant holds
  | .look => .look

/-- The kind with another offset if it is a lookbehind, and with none otherwise. -/
def GroupKind.placed (f : Nat → Nat) : GroupKind → GroupKind
  | .look l offset => .look l (if l.behind then f offset else 0)
  | .conditional c => .conditional c.bare
  | kind => kind

/-- The expression with other offsets of its lookbehinds, and with no other offsets. -/
def placed (f : Nat → Nat) : Regex → Regex
  | .stop => .stop
  | .bar next => .bar (next.placed f)
  | .item i times next => .item i.bare times (next.placed f)
  | .group kind body times next => .group (kind.placed f) (body.placed f) times (next.placed f)

def Piece.placed (f : Nat → Nat) : Piece → Piece
  | .bar => .bar
  | .item i times => .item i.bare times
  | .group kind body times => .group (kind.placed f) (body.placed f) times

def GroupDefinition.placed (f : Nat → Nat) (d : GroupDefinition) : GroupDefinition :=
  { d with body := d.body.placed f }

def Groups.placed (f : Nat → Nat) (g : Groups) : Groups :=
  { g with definitions := g.definitions.map (·.map (GroupDefinition.placed f)) }

/-- The widths of lookbehinds by other offsets. -/
def placedWidths (f : Nat → Nat) (widths : List (Nat × List Nat)) : List (Nat × List Nat) :=
  widths.map fun x => (f x.1, x.2)

section
variable {f : Nat → Nat} {kind : GroupKind} {times : Times} {r : Regex} {size : Nat}

theorem ofPieces_map_placed (pieces : List Piece) :
    ofPieces (pieces.map (Piece.placed f)) = (ofPieces pieces).placed f := by
  have hbefore (rest : Regex) (p : Piece) :
      Piece.before (rest.placed f) (p.placed f) = (p.before rest).placed f := by
    cases p <;> rfl
  have hfold (rest : Regex) : (pieces.map (Piece.placed f)).foldl Piece.before (rest.placed f) =
      (pieces.foldl Piece.before rest).placed f := by
    induction pieces generalizing rest with
    | nil => rfl
    | cons p pieces ih => rw [List.map_cons, List.foldl_cons, hbefore, ih, List.foldl_cons]
  exact hfold .stop

@[simp] theorem branchCount_placed : (r.placed f).branchCount = r.branchCount := by
  induction r with
  | stop => rfl
  | bar next ih => rw [placed, branchCount, branchCount, ih]
  | item i times next ih => rw [placed, branchCount, branchCount, ih]
  | group kind body times next _ ih => rw [placed, branchCount, branchCount, ih]

theorem hasItem_placed {p : Item → Bool} (hp : ∀ i, p i.bare = p i) :
    hasItem p (r.placed f) = hasItem p r := by
  induction r with
  | stop => rfl
  | bar next ih => rw [placed, hasItem, hasItem, ih]
  | item i times next ih => rw [placed, hasItem, hasItem, ih, hp]
  | group kind body times next ihb ih => rw [placed, hasItem, hasItem, ihb, ih]

theorem GroupKind.hands_placed (branches : Nat) : (kind.placed f).hands branches = kind.hands branches := by
  cases kind with
  | conditional c => cases c <;> rfl
  | _ => rfl

@[simp] theorem mayBeEmpty_placed : mayBeEmpty (r.placed f) = mayBeEmpty r := by
  have htakes (k : Taking) : takesFrom k (r.placed f) = takesFrom k r := by
    induction r generalizing k with
    | stop => rfl
    | bar next ih => rw [placed, takesFrom, takesFrom, ih]
    | item i times next ih =>
        have hi : i.bare.takes = i.takes ∧ i.bare.accepts = i.accepts := by cases i <;> exact ⟨rfl, rfl⟩
        rw [placed, takesFrom, takesFrom, ih, hi.1, hi.2]
    | group kind body times next ihb ih =>
        rw [placed, takesFrom, takesFrom, ih, ihb, branchCount_placed, GroupKind.hands_placed]
  rw [mayBeEmpty, htakes, mayBeEmpty]

@[simp] theorem neverRuns_placed : neverRuns (kind.placed f) (r.placed f) = neverRuns kind r := by
  cases kind with
  | conditional c =>
      cases c with
      | constant holds => cases holds <;> simp [GroupKind.placed, Condition.bare, neverRuns]
      | _ => simp [GroupKind.placed, Condition.bare, neverRuns]
  | _ => rfl

@[simp] theorem GroupKind.limit?_placed : (kind.placed f).limit? times = kind.limit? times := by
  cases kind with
  | look l offset =>
      cases times with
      | mk least most mode => cases most <;> rfl
  | _ => rfl

@[simp] theorem isGuarded_placed : isGuarded (kind.placed f) (r.placed f) = isGuarded kind r := by
  cases kind <;> simp [GroupKind.placed, isGuarded]

@[simp] theorem isFailure_placed : isFailure (kind.placed f) (r.placed f) times = isFailure kind r times := by
  cases kind with
  | look look offset => cases r <;> rfl
  | _ => cases r <;> rfl

/-! ## Groups -/

theorem definitionsOnto_placed (around : List Nat) (found : List (Nat × GroupDefinition)) :
    definitionsOnto around (found.map fun x => (x.1, x.2.placed f)) (r.placed f) =
      (definitionsOnto around found r).map fun x => (x.1, x.2.placed f) := by
  induction r generalizing around found with
  | stop => rfl
  | bar next ih => exact ih around found
  | item i times next ih => exact ih around found
  | group kind body times next ihb ih =>
      cases kind with
      | capture n again =>
          cases again with
          | true => simp only [placed, GroupKind.placed, definitionsOnto, ihb, ih]
          | false =>
              have hb := ihb (n :: around) ((n, ⟨body, n :: around⟩) :: found)
              simp only [placed, GroupKind.placed, definitionsOnto]
              rw [← ih, ← hb]
              rfl
      | _ => simp only [placed, GroupKind.placed, definitionsOnto, ihb, ih]

theorem Groups.ofResult_placed (result : Reading.Result) :
    Groups.ofResult { result with regex := result.regex.placed f } = (Groups.ofResult result).placed f := by
  have hfold (found : List (Nat × GroupDefinition)) (all : Array (Option GroupDefinition)) :
      (found.map fun x => (x.1, x.2.placed f)).foldl (fun all x => all.setIfInBounds x.1 (some x.2))
          (all.map (·.map (GroupDefinition.placed f))) =
        (found.foldl (fun all x => all.setIfInBounds x.1 (some x.2)) all).map
          (·.map (GroupDefinition.placed f)) := by
    induction found generalizing all with
    | nil => rfl
    | cons x found ih =>
        rw [List.map_cons, List.foldl_cons, List.foldl_cons, ← ih]
        congr 1
        simp [Array.map_setIfInBounds]
  have hnone (n : Nat) : (Array.replicate n (none : Option GroupDefinition)).map
      (·.map (GroupDefinition.placed f)) = Array.replicate n none := by
    simp
  rw [Groups.ofResult, Groups.ofResult, Groups.placed]
  dsimp only
  rw [← hfold, hnone, ← definitionsOnto_placed]
  rfl

theorem Groups.definition?_placed (g : Groups) (n : Nat) :
    (g.placed f).definition? n = (g.definition? n).map (GroupDefinition.placed f) := by
  simp only [definition?, placed, Array.getElem?_map]
  cases g.definitions[n]? <;> rfl

/-! ## Widths -/

def Measured.placed (f : Nat → Nat) (s : Measured) : Measured :=
  { s with lookBehinds := placedWidths f s.lookBehinds }

/-- The second measurement succeeds if the first one does, with the same outcome. -/
def Agree (f : Nat → Nat) {α : Type} (x x' : Measuring α) : Prop :=
  ∀ s, (x' (s.placed f)).toOption = (x s).toOption.map (Prod.map id (Measured.placed f))

namespace Agree

variable {α β : Type} {x x' : Measuring α} {k k' : α → Measuring β}

theorem pure (a : α) : Agree f (Pure.pure a : Measuring α) (Pure.pure a) := fun _ => rfl

theorem throw (e e' : WidthFault) : Agree f (MonadExcept.throw e : Measuring α) (MonadExcept.throw e') :=
  fun _ => rfl

theorem varies : Agree f (Measuring.varies : Measuring α) Measuring.varies := throw _ _

theorem bind (hx : Agree f x x') (hk : ∀ a, Agree f (k a) (k' a)) : Agree f (x >>= k) (x' >>= k') := by
  intro s
  have hbind (x : Measuring α) (k : α → Measuring β) (s : Measured) :
      ((x >>= k) s).toOption = (x s).toOption.bind fun r => (k r.1 r.2).toOption := by
    simp only [Bind.bind, StateT.bind]
    cases x s <;> rfl
  rw [hbind, hbind, hx s]
  cases (x s).toOption with
  | none => rfl
  | some r => exact hk r.1 r.2

theorem ite {p : Prop} [Decidable p] {y y' : Measuring α} (hx : Agree f x x') (hy : Agree f y y') :
    Agree f (if p then x else y) (if p then x' else y') := by
  split
  · exact hx
  · exact hy

theorem read {γ : Type} (look : Measured → γ) {k k' : γ → Measuring β}
    (hl : ∀ s, look (s.placed f) = look s) (hk : ∀ a, Agree f (k a) (k' a)) :
    Agree f (get >>= fun s => k (look s)) (get >>= fun s => k' (look s)) := by
  intro s
  change (k' (look (s.placed f)) (s.placed f)).toOption = (k (look s) s).toOption.map _
  rw [hl]
  exact hk _ s

theorem addWidth (a b : Nat) : Agree f (addWidth a b) (addWidth a b) :=
  ite (throw _ _) (pure _)

theorem addRepeated (total w : Nat) (times : Times) :
    Agree f (addRepeated total w times) (addRepeated total w times) :=
  bind (addWidth total w) fun _ => ite varies (ite (pure _) (addWidth _ _))

theorem width (s : Single) : Agree f s.width s.width := by
  cases s with
  | newline | cluster => exact varies
  | byte => exact throw _ _
  | _ => exact pure _

theorem countAlternative : Agree f countAlternative countAlternative := by
  have hrun (s : Measured) : Regex.countAlternative s =
      if maxMeasured ≤ s.alternatives then .error (.ofLookBehind .tooComplicatedLookBehind)
      else .ok ((), { s with alternatives := s.alternatives + 1 }) := by
    change (do
      if maxMeasured ≤ s.alternatives then MonadExcept.throw (.ofLookBehind .tooComplicatedLookBehind)
      MonadStateOf.set { s with alternatives := s.alternatives + 1 } : Measuring Unit) s = _
    split <;> rfl
  intro s
  rw [hrun, hrun]
  by_cases hs : maxMeasured ≤ s.alternatives
  · have hs' : maxMeasured ≤ (s.placed f).alternatives := hs
    rw [if_pos hs, if_pos hs']
    rfl
  · have hs' : ¬ maxMeasured ≤ (s.placed f).alternatives := hs
    rw [if_neg hs, if_neg hs']
    rfl

end Agree

/-- What the parts of alternatives are measured by, here and with other offsets. -/
structure Measures.Agree (f : Nat → Nat) (m m' : Measures) : Prop where
  group : ∀ place number? body,
    Regex.Agree f (m.group place number? body) (m'.group place number? (body.placed f))
  within : ∀ place body, Regex.Agree f (m.within place body) (m'.within place (body.placed f))
  lookBehind : ∀ place offset body,
    Regex.Agree f (m.lookBehind place offset body) (m'.lookBehind place (f offset) (body.placed f))

namespace Measures.Agree

variable {m m' : Measures} (h : m.Agree f m') (g : Groups) (place : Surroundings)
include h

theorem reference (n offset offset' : Nat) :
    Regex.Agree f (m.reference g place n offset) (m'.reference (g.placed f) place n offset') := by
  unfold Measures.reference
  rw [g.definition?_placed]
  cases g.definition? n with
  | none => exact .ite (.bind (.throw _ _) fun _ => .ite .varies .varies) (.ite .varies .varies)
  | some d =>
      have hbody := h.group { around := d.around, referred := n :: place.referred } (some n) d.body
      exact .ite (.bind (.throw _ _) fun _ => .ite .varies hbody) (.ite .varies hbody)

theorem namedReference (captured : Bool) (name : List Nat) (offset offset' : Nat) :
    Regex.Agree f (m.namedReference g place captured name offset)
      (m'.namedReference (g.placed f) place captured name offset') := by
  have hn : (g.placed f).number? (.name name) = g.number? (.name name) := rfl
  unfold Measures.namedReference
  rw [hn]
  cases g.number? (.name name) with
  | none => exact .throw _ _
  | some n => exact .ite .varies (h.reference g place n offset offset')

theorem item (i : Item) : Regex.Agree f (m.item g place i) (m'.item (g.placed f) place i.bare) := by
  cases i with
  | single s => exact .width s
  | backReference target ignoreCase =>
      obtain ⟨ref, offset⟩ := target
      cases ref with
      | number n => exact .ite .varies (h.reference g place n offset 0)
      | name name => exact h.namedReference g place true name offset 0
  | call target =>
      obtain ⟨ref, offset⟩ := target
      cases ref with
      | number n => exact h.reference g place n offset 0
      | name name => exact h.namedReference g place false name offset 0
  | _ => exact .pure 0

theorem groupItem (kind : GroupKind) (body : Regex) :
    Regex.Agree f (m.groupItem place kind body) (m'.groupItem place (kind.placed f) (body.placed f)) := by
  cases kind with
  | capture n again => exact h.group _ _ _
  | look l offset =>
      obtain ⟨behind, negated, atomic⟩ := l
      cases behind with
      | true => exact .bind (h.lookBehind place offset body) fun _ => .pure 0
      | false => exact .bind (h.within place body) fun _ => .pure 0
  | conditional c =>
      cases c with
      | define => exact .pure 0
      | _ => exact h.group _ _ _
  | _ => exact h.group _ _ _

theorem alternatives (alike : Bool) (done : List Nat) (total : Nat) (ended : Bool) (r : Regex) :
    Regex.Agree f (m.alternatives g place alike done total ended r)
      (m'.alternatives (g.placed f) place alike done total ended (r.placed f)) := by
  have hclose (done : List Nat) (total : Nat) :
      Regex.Agree f (Measures.alternatives.close alike done total)
        (Measures.alternatives.close alike done total) := by
    cases done with
    | nil => exact .pure _
    | cons other done => exact .ite .varies (.pure _)
  induction r generalizing done total ended with
  | stop => exact hclose done total
  | bar next ih => exact .bind (hclose done total) fun _ => .bind .countAlternative fun _ => ih _ _ _
  | item i times next ih =>
      cases ended with
      | true => exact ih _ _ _
      | false =>
          have hi : endsAlternative i.bare = endsAlternative i := by cases i <;> rfl
          simp only [placed, Measures.alternatives, hi]
          exact .ite (ih _ _ _)
            (.bind (h.item g place i) fun _ => .bind (.addRepeated _ _ _) fun _ => ih _ _ _)
  | group kind body times next _ ih =>
      cases ended with
      | true => exact ih _ _ _
      | false =>
          refine .bind (h.groupItem place kind body) fun w => ?_
          have hadd := Agree.bind (.addRepeated total w times) fun total => ih done total false
          cases kind with
          | look l offset =>
              obtain ⟨behind, negated, atomic⟩ := l
              cases behind with
              | true => exact hadd
              | false => exact .bind (.pure total) fun _ => ih _ _ _
          | _ => exact hadd

theorem branches (alike : Bool) (body : Regex) :
    Regex.Agree f (m.branches g place alike body) (m'.branches (g.placed f) place alike (body.placed f)) :=
  .bind .countAlternative fun _ => .bind (h.alternatives g place alike [] 0 false body) fun _ => .pure _

theorem measureGroup (number? : Option Nat) (body : Regex) :
    Regex.Agree f (m.measureGroup g place number? body)
      (m'.measureGroup (g.placed f) place number? (body.placed f)) := by
  have hfresh (keep : Option Nat → Measuring Unit) (hk : ∀ w, Regex.Agree f (keep w) (keep w)) :
      Regex.Agree f
        (do
          let widths ← m.branches g place true body
          let w := widths.headD 0
          keep (some w)
          return w)
        (do
          let widths ← m'.branches (g.placed f) place true (body.placed f)
          let w := widths.headD 0
          keep (some w)
          return w) :=
    .bind (h.branches g place true body) fun _ => .bind (hk _) fun _ => .pure _
  cases number? with
  | none => exact hfresh (fun _ => Pure.pure ()) fun _ => .pure ()
  | some n =>
      have hkeep := hfresh (fun w => modify fun s => { s with groups := s.groups.setIfInBounds n (some w) })
        fun _ _ => rfl
      refine .ite (.bind (.pure none) ?_)
        (.read (fun s => (s.groups[n]?).join) (fun _ => rfl) fun known => .bind (.pure known) ?_)
      all_goals
        intro known
        obtain _ | _ | w := known
        · exact hkeep
        · exact .varies
        · exact .pure w

theorem measureLookBehind (offset : Nat) (body : Regex) :
    Regex.Agree f (m.measureLookBehind g place offset body)
      (m'.measureLookBehind (g.placed f) place (f offset) (body.placed f)) := by
  have hrun (m : Measures) (g : Groups) (offset : Nat) (body : Regex) (s : Measured) :
      (m.measureLookBehind g place offset body s).toOption =
        (m.branches g place false body s).toOption.map fun r =>
          ((), { r.2 with lookBehinds := (offset, r.1) :: r.2.lookBehinds }) := by
    simp only [Measures.measureLookBehind, StateT.run, bind, StateT.bind, get, getThe, MonadStateOf.get,
      StateT.get, Pure.pure, Except.pure, Except.bind]
    cases m.branches g place false body s with
    | ok r => rfl
    | error e => cases e <;> rfl
  intro s
  rw [hrun, hrun, h.branches g place false body s, Option.map_map, Option.map_map]
  rfl

theorem measureWithin (r : Regex) :
    Regex.Agree f (m.measureWithin place r) (m'.measureWithin place (r.placed f)) := by
  induction r generalizing place with
  | stop => exact .pure ()
  | bar next ih => exact ih place
  | item i times next ih => exact ih place
  | group kind body times next ihb ih =>
      cases kind with
      | look l offset =>
          obtain ⟨behind, negated, atomic⟩ := l
          cases behind with
          | true => exact .bind (h.lookBehind place offset body) fun _ => ih place
          | false => exact .bind (ihb place) fun _ => ih place
      | capture n again =>
          cases again with
          | true => exact .bind (ihb place) fun _ => ih place
          | false => exact .bind (ihb _) fun _ => ih place
      | _ => exact .bind (ihb place) fun _ => ih place

end Measures.Agree

theorem measures_agree (g : Groups) (fuel : Nat) : (measures g fuel).Agree f (measures (g.placed f) fuel) := by
  induction fuel with
  | zero => exact ⟨fun _ _ _ => .throw _ _, fun _ _ => .throw _ _, fun _ _ _ => .throw _ _⟩
  | succ fuel ih =>
      exact ⟨fun _ _ _ => ih.measureGroup g _ _ _, fun _ _ => ih.measureWithin _ _,
        fun _ _ _ => ih.measureLookBehind g _ _ _⟩

theorem lookBehindWidths_placed (g : Groups) (r : Regex) :
    (lookBehindWidths (g.placed f) (r.placed f)).toOption =
      (lookBehindWidths g r).toOption.map (placedWidths f) := by
  let start : Measured := { groups := Array.replicate (g.count + 1) none }
  have hrun (g : Groups) (r : Regex) (hg : g.count + 1 = start.groups.size) :
      (lookBehindWidths g r).toOption =
        ((measures g (2 * maxMeasured + 2)).measureWithin {} r start).toOption.map (·.2.lookBehinds) := by
    have hs : Array.replicate (g.count + 1) none = start.groups := by
      rw [hg, Array.size_replicate]
    unfold lookBehindWidths
    simp only [hs, StateT.run]
    cases (measures g (2 * maxMeasured + 2)).measureWithin {} r start with
    | ok r => rfl
    | error e => cases e <;> rfl
  have hm := (measures_agree (f := f) g (2 * maxMeasured + 2)).measureWithin {} r start
  rw [hrun g r (by simp [start]), hrun (g.placed f) (r.placed f) (by simp [start, Groups.placed])]
  change (Measures.measureWithin _ {} _ start).toOption = _ at hm
  rw [hm, Option.map_map, Option.map_map]
  rfl

/-! ## Checks -/

theorem Except.toOption_bind {ε α β : Type} (x : Except ε α) (k : α → Except ε β) :
    (x >>= k).toOption = x.toOption.bind fun a => (k a).toOption := by
  cases x <;> rfl

theorem Except.toOption_eq_some {ε α : Type} {x : Except ε α} {a : α} :
    x.toOption = some a ↔ x = .ok a := by
  cases x with
  | error e => exact ⟨nofun, nofun⟩
  | ok b => exact ⟨fun h => congrArg _ (Option.some.inj h), by rintro ⟨⟩; rfl⟩

/-- The size of the text is the place of an expression that is too large. -/
def Surveyor.placed (f : Nat → Nat) (size : Nat) (v : Surveyor) : Surveyor where
  groups := v.groups.placed f
  widths := placedWidths f v.widths
  size := size

theorem lookup_placedWidths (hf : Function.Injective f) (widths : List (Nat × List Nat)) (offset : Nat) :
    (placedWidths f widths).lookup (f offset) = widths.lookup offset := by
  induction widths with
  | nil => rfl
  | cons x widths ih =>
      have hx : (f offset == f x.1) = (offset == x.1) := by
        rw [Bool.eq_iff_iff, beq_iff_eq, beq_iff_eq]
        exact hf.eq_iff
      rw [placedWidths, List.map_cons, List.lookup_cons, List.lookup_cons, hx, ← placedWidths, ih]

theorem Surveyor.widthsOf_placed (hf : Function.Injective f) (size : Nat) (v : Surveyor) :
    (v.placed f size).widthsOf (kind.placed f) = v.widthsOf kind := by
  cases kind with
  | look l offset =>
      cases hb : l.behind with
      | true => simp [GroupKind.placed, widthsOf, placed, hb, lookup_placedWidths hf]
      | false => simp [GroupKind.placed, widthsOf, hb]
  | _ => rfl

theorem Surveyor.target_placed (v : Surveyor) (target : Target) (one several : Nat) :
    ((v.placed f size).target target.bare one several).toOption = (v.target target one several).toOption := by
  obtain ⟨ref, offset⟩ := target
  have hn : (v.placed f size).groups.number? ref = v.groups.number? ref := rfl
  simp only [target, Target.bare, hn]
  cases v.groups.number? ref with
  | none => rfl
  | some n => cases ref <;> rfl

theorem Surveyor.item_placed (v : Surveyor) (place : Standing) (i : Item) :
    ((v.placed f size).item place times i.bare).toOption = (v.item place times i).toOption := by
  cases i with
  | backReference target ignoreCase =>
      simp only [item, Item.bare, Except.toOption_bind, v.target_placed]
  | keepOut =>
      simp only [item, Item.bare]
      split <;> rfl
  | call target =>
      simp only [item, Item.bare, Except.toOption_bind, v.target_placed]
  | _ => rfl

theorem numberAfterR_toOption (offset offset' n : Nat) (letters : List Nat) :
    (numberAfterR offset n letters).toOption = (numberAfterR offset' n letters).toOption := by
  induction letters generalizing offset offset' n with
  | nil => rfl
  | cons c letters ih =>
      simp only [numberAfterR]
      split
      · rfl
      · exact ih _ _ _

theorem Surveyor.head_placed (v : Surveyor) :
    ((v.placed f size).head (kind.placed f)).toOption = (v.head kind).toOption := by
  cases kind with
  | conditional c =>
      cases c with
      | captured target | inCallOf target => exact v.target_placed target 3 5
      | inCall letters offset =>
          have hn : (v.placed f size).groups.number? (.name letters) = v.groups.number? (.name letters) := rfl
          have hcount : (v.placed f size).groups.count = v.groups.count := rfl
          simp only [head, GroupKind.placed, Condition.bare, condition, hn]
          cases v.groups.number? (.name letters) with
          | some n => rfl
          | none =>
              simp only [Except.toOption_bind, numberAfterR_toOption 1 (offset + 1)]
              congr 1
              funext n
              rw [hcount]
              split <;> rfl
      | _ => rfl
  | _ => rfl

theorem Surveyor.check_placed (v : Surveyor) (total : Nat) :
    ((v.placed f size).check total).toOption = (v.check total).toOption := by
  simp only [check]
  split <;> rfl

theorem Surveyor.survey_placed (hf : Function.Injective f) (v : Surveyor) (place : Standing)
    (widths : List Nat) (total : Nat) (r : Regex) :
    ((v.placed f size).survey place widths total (r.placed f)).toOption =
      (v.survey place widths total r).toOption := by
  induction r generalizing place widths total with
  | stop => simp only [Regex.placed, survey, Except.toOption_bind, v.check_placed]
  | bar next ih => simp only [Regex.placed, survey, Except.toOption_bind, v.check_placed, ih]
  | item i times next ih =>
      simp only [Regex.placed, survey, Except.toOption_bind, v.check_placed, ih, v.item_placed]
  | group kind body times next ihb ih =>
      have hextent (one : Nat) :
          groupExtent (kind.placed f) (body.placed f) one times = groupExtent kind body one times := by
        have hkind : (kind.placed f = .scriptRun ↔ kind = .scriptRun) ∧
            (kind.placed f).unlimitedExtent = kind.unlimitedExtent := by
          cases kind <;> simp [GroupKind.placed, GroupKind.unlimitedExtent]
        simp [groupExtent, hkind.1, hkind.2]
      have hwithin : place.within (kind.placed f) = place.within kind := by cases kind <;> rfl
      simp only [Regex.placed, survey, Except.toOption_bind, v.check_placed, isFailure_placed, v.widthsOf_placed hf size,
        hextent, hwithin]
      congr 1
      funext _
      split
      · exact ih _ _ _
      · simp only [Except.toOption_bind, v.head_placed, ihb, ih]

theorem checkExtent_placed (hf : Function.Injective f) (size : Nat) (v : Surveyor) (r : Regex) :
    (checkExtent (v.placed f size) (r.placed f)).toOption = (checkExtent v r).toOption := by
  simp only [checkExtent, Except.toOption_bind, v.survey_placed hf, v.check_placed]

theorem checkConditions_placed (last last' : Nat) (r : Regex) :
    (checkConditions last' (r.placed f)).toOption = (checkConditions last r).toOption := by
  induction r generalizing last last' with
  | stop => rfl
  | bar next ih => exact ih 0 0
  | item i times next ih => exact ih _ _
  | group kind body times next ihb ih =>
      have hbranches (place place' : Nat) :
          (checkBranches (kind.placed f) (body.placed f) place').toOption =
            (checkBranches kind body place).toOption := by
        cases kind with
        | conditional c =>
            cases c with
            | define =>
                simp only [GroupKind.placed, Condition.bare, checkBranches, branchCount_placed]
                split <;> rfl
            | _ =>
                simp only [GroupKind.placed, Condition.bare, checkBranches, branchCount_placed]
                split <;> rfl
        | _ => rfl
      simp only [placed, checkConditions, Except.toOption_bind, ihb 0 0,
        hbranches (kind.placeAfter last), ih (kind.placeAfter last)]

/-! ## Code -/

def Assembler.placed (f : Nat → Nat) (a : Assembler) : Assembler :=
  { a with groups := a.groups.placed f, widths := placedWidths f a.widths }

theorem Assembler.widthsOf_placed (hf : Function.Injective f) (a : Assembler) :
    (a.placed f).widthsOf (kind.placed f) = a.widthsOf kind :=
  Surveyor.widthsOf_placed hf 0 { groups := a.groups, widths := a.widths, size := 0 }

theorem Assembler.item_placed (a : Assembler) (place : Position) (i : Item) :
    (a.placed f).item place times i.bare = a.item place times i := by
  cases i with
  | backReference target ignoreCase =>
      obtain ⟨ref, offset⟩ := target
      cases ref <;> rfl
  | _ => rfl

theorem Assembler.role_placed (a : Assembler) : (a.placed f).role (kind.placed f) = a.role kind := by
  cases kind with
  | conditional c => cases c <;> rfl
  | _ => rfl

theorem Assembler.alternatives_placed (hf : Function.Injective f) (a : Assembler) (place : Position)
    (finished : List (Nat × Code)) (widths : List Nat) (pieces : List Code.Piece) (r : Regex) :
    (a.placed f).alternatives place finished widths pieces (r.placed f) =
      a.alternatives place finished widths pieces r := by
  induction r generalizing place finished widths pieces with
  | stop => rfl
  | bar next ih => simp only [Regex.placed, alternatives, ih]
  | item i times next ih => simp only [Regex.placed, alternatives, ih, a.item_placed]
  | group kind body times next ihb ih =>
      have hwithin : place.within (kind.placed f) = place.within kind := by cases kind <;> rfl
      simp only [Regex.placed, alternatives, isFailure_placed, a.widthsOf_placed hf, hwithin, a.role_placed,
        neverRuns_placed, isGuarded_placed, GroupKind.limit?_placed, ihb, ih]

theorem programOf_placed (hf : Function.Injective f) (groups : Groups) (widths : List (Nat × List Nat))
    (settings : Settings) :
    programOf (groups.placed f) (placedWidths f widths) settings (r.placed f) =
      programOf groups widths settings r := by
  have hassemble := Assembler.alternatives_placed hf { groups, widths } {} [] [] [] r
  have hcalls : hasItem Item.isCall (r.placed f) = hasItem Item.isCall r :=
    hasItem_placed fun i => by cases i <;> rfl
  unfold programOf Assembler.assemble
  rw [hcalls, ← hassemble]
  rfl

/-- Nothing is wrong with what has been read, and its lookbehinds have these widths. -/
structure Reading.Result.Fits (size : Nat) (result : Reading.Result) (widths : List (Nat × List Nat)) :
    Prop where
  measured : lookBehindWidths (Groups.ofResult result) result.regex = .ok widths
  extent : checkExtent { groups := Groups.ofResult result, widths, size } result.regex = .ok ()
  conditions : checkConditions 0 result.regex = .ok ()

/-- The expressions differ in nothing but their offsets. -/
structure Reading.Result.Alike (f f' : Nat → Nat) (result result' : Reading.Result) : Prop where
  regex : result.regex.placed f = result'.regex.placed f'
  groupCount : result.groupCount = result'.groupCount
  names : result.names = result'.names
  sharesNumbers : result.sharesNumbers = result'.sharesNumbers

theorem Reading.Result.Alike.fits {f f' : Nat → Nat} {result result' : Reading.Result}
    (h : result.Alike f f' result') (hf : Function.Injective f) (hf' : Function.Injective f')
    {size size' : Nat} {widths : List (Nat × List Nat)} (hr : result.Fits size widths) :
    ∃ widths', result'.Fits size' widths' ∧ ∀ settings,
      programOf (Groups.ofResult result') widths' settings result'.regex =
        programOf (Groups.ofResult result) widths settings result.regex := by
  have hgroups : (Groups.ofResult result).placed f = (Groups.ofResult result').placed f' := by
    rw [← Groups.ofResult_placed, ← Groups.ofResult_placed]
    simp only [Groups.ofResult, h.regex, h.groupCount, h.names, h.sharesNumbers]
  obtain ⟨widths', hw, hwidths⟩ : ∃ widths',
      lookBehindWidths (Groups.ofResult result') result'.regex = .ok widths' ∧
        placedWidths f' widths' = placedWidths f widths := by
    have hm := lookBehindWidths_placed (f := f) (Groups.ofResult result) result.regex
    rw [hgroups, h.regex, lookBehindWidths_placed, hr.measured] at hm
    obtain ⟨widths', hw, hwidths⟩ := Option.map_eq_some_iff.mp hm
    exact ⟨widths', Except.toOption_eq_some.mp hw, hwidths⟩
  have hsurveyor : Surveyor.placed f' size' ⟨Groups.ofResult result', widths', size'⟩ =
      Surveyor.placed f size' ⟨Groups.ofResult result, widths, size⟩ := by
    simp only [Surveyor.placed, hgroups, hwidths]
  refine ⟨widths', ⟨hw, ?_, ?_⟩, fun settings => ?_⟩
  · have he := checkExtent_placed hf size' ⟨Groups.ofResult result, widths, size⟩ result.regex
    rw [← hsurveyor, h.regex, checkExtent_placed hf' size', hr.extent] at he
    exact Except.toOption_eq_some.mp he
  · have hc := checkConditions_placed (f := f) 0 0 result.regex
    rw [h.regex, checkConditions_placed 0, hr.conditions] at hc
    exact Except.toOption_eq_some.mp hc
  · rw [← programOf_placed hf (Groups.ofResult result), ← programOf_placed hf', hgroups, hwidths, h.regex]

end

end PatternGrammar.Regex
