import PatternGrammar.Proofs.Concatenation

/-!
# Plans for simple expressions

An expression is simple if it is made of single items, anchors and bare groups. Nothing can be wrong with it but its
extent, and the plan for a match of the whole subject asks for no more than the match itself.
-/

namespace PatternGrammar.Regex

/-- The expression is made of single items, anchors and bare groups, without alternatives. -/
inductive IsSimple : Regex → Prop where
  | stop : IsSimple .stop
  | single {next : Regex} (s : Single) (times : Times) : IsSimple next → IsSimple (.item (.single s) times next)
  | anchor {next : Regex} (a : Anchor) (times : Times) : IsSimple next → IsSimple (.item (.anchor a) times next)
  | group {body next : Regex} (times : Times) : IsSimple body → IsSimple next →
      IsSimple (.group .plain body times next)

namespace IsSimple

variable {r : Regex}

theorem framed (h : IsSimple r) (anchored : Bool) : IsSimple (framed anchored r) := by
  cases anchored with
  | false => exact h
  | true => exact .anchor _ _ (.group _ h (.anchor _ _ .stop))

theorem branchCount (h : IsSimple r) : r.branchCount = 1 := by
  induction h with
  | stop => rfl
  | single _ _ _ ih | anchor _ _ _ ih | group _ _ _ _ ih => exact ih

theorem hasItem {p : Item → Bool} (hs : ∀ s, p (.single s) = false) (ha : ∀ a, p (.anchor a) = false)
    (h : IsSimple r) : hasItem p r = false := by
  induction h with
  | stop => rfl
  | single s _ _ ih => rw [Regex.hasItem, hs, ih, Bool.or_self]
  | anchor a _ _ ih => rw [Regex.hasItem, ha, ih, Bool.or_self]
  | group _ _ _ ihb ihn => rw [Regex.hasItem, ihb, ihn, Bool.or_self]

theorem referencesOnto (h : IsSimple r) (g : Groups) (refs : References) : referencesOnto g refs r = refs := by
  induction h with
  | stop => rfl
  | single _ _ _ ih | anchor _ _ _ ih => exact ih
  | group _ _ _ ihb ihn => simp only [Regex.referencesOnto, ihb, ihn]

theorem checkConditions (h : IsSimple r) (last : Nat) : checkConditions last r = .ok () := by
  induction h generalizing last with
  | stop => rfl
  | single _ _ _ ih | anchor _ _ _ ih => exact ih last
  | group _ _ _ ihb ihn =>
      rw [Regex.checkConditions, ihb]
      exact ihn _

theorem measureWithin (h : IsSimple r) (m : Measures) (place : Surroundings) :
    m.measureWithin place r = pure () := by
  induction h with
  | stop => rfl
  | single _ _ _ ih | anchor _ _ _ ih => exact ih
  | group _ _ _ ihb ihn => simp [Measures.measureWithin, ihb, ihn]

theorem lookBehindWidths (h : IsSimple r) (g : Groups) : lookBehindWidths g r = .ok [] := by
  rw [Regex.lookBehindWidths, h.measureWithin]
  rfl

end IsSimple

/-! ## The least length -/

namespace Code

/-- The least number of characters that the code takes, at most. -/
def weight : Code → Nat
  | .stop => 0
  | .either _ _ _ => 0
  | .step (.one _) next => next.weight + 1
  | .step (.many _ times) next => next.weight + times.least
  | .step _ next => next.weight
  | .group shape body next => if shape.entry = .once then body.weight + next.weight else next.weight

/-- The code is made of single items, anchors and bare or atomic groups, without alternatives. -/
inductive IsSimple : Code → Prop where
  | stop : IsSimple .stop
  | one {next : Code} (s : Single) : IsSimple next → IsSimple (.step (.one s) next)
  | many {next : Code} (s : Single) (times : Times) : IsSimple next → IsSimple (.step (.many s times) next)
  | anchor {next : Code} (a : Anchor) : IsSimple next → IsSimple (.step (.anchor a) next)
  | group {body next : Code} (shape : Shape) : shape.role = .plain ∨ shape.role = .atomic → IsSimple body →
      IsSimple next → IsSimple (.group shape body next)

theorem IsSimple.loneCall?_eq_none {c : Code} (h : c.IsSimple) (shape : Shape) : loneCall? shape c = none := by
  unfold loneCall?
  cases h <;> grind

end Code

/-- The measure of every group is at most its weight. -/
def MeasureGroup.Bounded (measure : MeasureGroup) : Prop :=
  ∀ (place : LeastPlace) (guarded : Bool) (body : Code) (st : LeastState) (n : Nat) (st' : LeastState), body.IsSimple → (measure place guarded body).run st = some (n, st') →
    n ≤ body.weight

theorem LeastOf.bind_eq_some {α β : Type} {x : LeastOf α} {f : α → LeastOf β} {st : LeastState}
    {r : β × LeastState} :
    (x >>= f).run st = some r ↔ ∃ a st', x.run st = some (a, st') ∧ (f a).run st' = some r := by
  simp only [StateT.run_bind, Option.bind_eq_bind, Option.bind_eq_some_iff, Prod.exists]

theorem LeastContext.instruction_le {x : LeastContext} {measure : MeasureGroup} {place : LeastPlace}
    {s s' : LeastSoFar} {st st' : LeastState} {i : Instruction} {c : Code} (hi : (Code.step i c).IsSimple)
    (h : (x.instruction measure place s i).run st = some (s', st')) :
    s'.length + c.weight ≤ s.length + (Code.step i c).weight := by
  cases hi with
  | one single =>
      cases single with
      | byte => cases h
      | _ =>
          cases h
          simp only [LeastSoFar.add, Code.weight]
          omega
  | many single times =>
      cases single with
      | byte =>
          simp only [instruction] at h
          split at h
          · cases h
          · cases h
            simp only [LeastSoFar.add, Code.weight]
            omega
      | _ =>
          cases h
          simp only [LeastSoFar.add, Code.weight]
          omega
  | anchor a =>
      cases h
      exact Nat.le_refl _

theorem LeastContext.group_le {x : LeastContext} {measure : MeasureGroup} (hm : measure.Bounded)
    {place : LeastPlace} {s s' : LeastSoFar} {st st' : LeastState} {shape : Shape} {body : Code}
    (hr : shape.role = .plain ∨ shape.role = .atomic) (hb : body.IsSimple)
    (h : (x.group measure place s shape body).run st = some (s', st')) :
    s'.length ≤ s.length + if shape.entry = .once then body.weight else 0 := by
  unfold group at h
  split at h
  · cases h
    exact Nat.le_add_right _ _
  · next he =>
      have hmeasure : (do return s.add (← measure place shape.guarded body) : LeastOf LeastSoFar).run st =
          some (s', st') := by
        rcases hr with hr | hr <;> simpa only [hr, hb.loneCall?_eq_none] using h
      obtain ⟨n, st₁, hn, hs⟩ := LeastOf.bind_eq_some.mp hmeasure
      cases hs
      rw [if_pos (Decidable.of_not_not he)]
      exact Nat.add_le_add_left (hm _ _ _ _ _ _ hb hn) _

theorem LeastContext.branches_le (x : LeastContext) {measure : MeasureGroup} (hm : measure.Bounded)
    (place : LeastPlace) {c : Code} (h : c.IsSimple) {s s' : LeastSoFar} {st st' : LeastState} {n : Nat}
    (hr : (x.branches measure place none s c).run st = some ((n, s'), st')) : n ≤ s.length + c.weight := by
  have hshort (s : LeastSoFar) (k : Nat) : LeastContext.branches.shortest none s ≤ s.length + k :=
    (min_le_right _ _).trans (Nat.le_add_right _ _)
  have hstep {i : Instruction} {next : Code} (hi : (Code.step i next).IsSimple)
      (ih : ∀ {s : LeastSoFar} {st : LeastState}, (x.branches measure place none s next).run st = some ((n, s'), st') →
        n ≤ s.length + next.weight) {s : LeastSoFar} {st : LeastState}
      (hr : (x.branches measure place none s (.step i next)).run st = some ((n, s'), st')) :
      n ≤ s.length + (Code.step i next).weight := by
    rw [branches] at hr
    split at hr
    · cases hr
      exact hshort _ _
    · obtain ⟨t, st₁, ht, hr⟩ := LeastOf.bind_eq_some.mp hr
      exact (ih hr).trans (instruction_le hi ht)
  induction h generalizing s st with
  | stop =>
      cases hr
      exact hshort _ _
  | one single hn ih => exact hstep (.one single hn) ih hr
  | many single times hn ih => exact hstep (.many single times hn) ih hr
  | anchor a hn ih => exact hstep (.anchor a hn) ih hr
  | @group body next shape hrole hb hn _ ih =>
      rw [branches] at hr
      split at hr
      · cases hr
        exact hshort _ _
      · obtain ⟨t, st₁, ht, hr⟩ := LeastOf.bind_eq_some.mp hr
        have hgroup := group_le hm hrole hb ht
        have hrest := ih hr
        rw [Code.weight]
        split at hgroup <;> simp only [*, if_true, if_false] <;> omega

theorem LeastContext.bounded_measure (x : LeastContext) (fuel : Nat) : (x.measure fuel).Bounded := by
  induction fuel with
  | zero => exact fun _ _ _ _ _ _ _ h => by cases h
  | succ fuel ih =>
      intro place guarded body st n st' hb h
      rw [measure] at h
      split at h
      · cases h
        exact Nat.zero_le _
      · obtain ⟨s, st₁, hs, h⟩ := LeastOf.bind_eq_some.mp h
        cases hs
        split at h
        · cases h
        · obtain ⟨_, st₂, -, h⟩ := LeastOf.bind_eq_some.mp h
          obtain ⟨⟨m, s'⟩, st₃, hbranches, hn⟩ := LeastOf.bind_eq_some.mp h
          cases hn
          have hle := x.branches_le ih place hb hbranches
          rwa [Nat.zero_add] at hle

/-- A match of simple code is as long as its weight at least. -/
theorem Program.leastLength_le (p : Program) (sharesNumbers : Bool) (h : p.code.IsSimple) :
    p.leastLength sharesNumbers ≤ p.code.weight := by
  rw [leastLength]
  split
  · next hn => exact (min_le_left _ _).trans (LeastContext.bounded_measure _ _ _ _ _ _ _ _ h hn)
  · exact Nat.zero_le _

/-! ## Plans -/

/-- The needs of a match of the whole subject are those of the expression. -/
theorem needsOf_framed {r : Regex} (h : IsSimple r) (groups : Groups) :
    needsOf groups (framed true r) = (gleanFrom groups.isShared none {} r).1 := by
  have ha : hasItem Item.accepts (framed true r) = false := (h.framed true).hasItem (fun _ => rfl) fun _ => rfl
  have hf : isFailure .plain r {} = false := by cases r <;> rfl
  have hglean : gleanFrom groups.isShared none {} (framed true r) =
      let inner := gleanFrom groups.isShared none {} r
      gleanFrom groups.isShared none
        ((({ varies := inner.2 } : Gleaned).group false inner.1).repeatedGroup (!neverRuns .plain r) {})
        (.item (.anchor .subjectEnd) {} .stop) := by
    simp only [framed, if_true, gleanFrom, hf]
    rfl
  rw [needsOf, ha, hglean]
  generalize gleanFrom groups.isShared none {} r = inner
  obtain ⟨⟨first, later⟩, varies⟩ := inner
  cases first <;> cases later <;> rfl

/-- Where a match of the whole subject can begin, by the needs of the expression. -/
def Needs.start (needs : Needs) : Start :=
  match needs.first with
  | .known b => .byte b
  | .undecided | .unknown => .anywhere

/-- The number of characters that the needed bytes stand for. -/
def Needs.length (needs : Needs) : Nat :=
  match needs.first with
  | .known b => neededLength (some b) needs.later
  | .undecided | .unknown => neededLength none needs.later

theorem Program.plan_framed {p : Program} {leaves : Nat} {c : Code} (hp : p.code = .framed true leaves c)
    (groups : Groups) (regex : Regex) (hv : ∀ b, (needsOf groups regex).later = some b → b.varies = false) :
    p.plan groups {} regex =
      { anchored := true
        start := (needsOf groups regex).start
        least := max (p.leastOf groups regex (referencesOnto groups {} regex)) (needsOf groups regex).length } := by
  have hanchored (t : Ties) : t.anchored (p.code.size + 1) {} p.code = true := by rw [hp]; rfl
  have hasserted : p.code.assertedByte? (p.code.size + 1) false none = none := by rw [hp]; rfl
  have hlater : ((needsOf groups regex).later.filter fun b => !true || b.varies) = none := by
    rw [Option.filter_eq_none_iff]
    intro b hb
    simp [hv b hb]
  have hstart (t : Ties) : p.startWithout t true = .anywhere := by
    have htable : p.code.firstByteTable? = none := by
      rw [hp]
      rfl
    rw [startWithout, htable]
    rfl
  simp only [plan, hanchored, hasserted, hlater, hstart, Needs.start, Needs.length]
  cases (needsOf groups regex).first <;> rfl

/-! ## Searches from the start of the subject -/

/-- A search that is tied to the start makes one attempt, if its plan allows it. -/
theorem Search.run_anchored {x : Search} (h : x.plan.anchored) {b : Bool}
    (ha : { x.engine with ignoredSkips := 0 }.attempt 0 = (if b then .matched else .refused .failed, 0))
    (hs : b → x.startFrom? 0 = some 0 ∧ x.allows 0) (fuel : Nat) : x.run (fuel + 1) 0 0 = .ok b := by
  have hzero {i : Nat} (hi : x.startFrom? 0 = some i) : i = 0 := by
    simp only [startFrom?, h, Bool.not_true, Bool.false_eq_true, if_false, if_true] at hi
    grind
  rw [run]
  cases hi : x.startFrom? 0 with
  | none =>
      cases b with
      | false => rfl
      | true => exact absurd (hi.symm.trans (hs rfl).1) (Option.some_ne_none 0).symm
  | some i =>
      obtain rfl := hzero hi
      dsimp only
      rw [ha]
      cases b with
      | true => simp only [(hs rfl).2, Bool.not_true, Bool.false_eq_true, if_false, if_true]
      | false =>
          have honward (v : Verdict) : x.onward? 0 0 0 v = none := by
            unfold onward?
            cases v <;> simp [h]
          simp [honward]

end PatternGrammar.Regex
