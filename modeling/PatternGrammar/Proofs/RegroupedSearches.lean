import PatternGrammar.Proofs.RegroupedRuns
import PatternGrammar.Regex.Compiled

/-!
# Searches for an expression in a group of its own

A search finds an expression where it finds the same expression in a capturing group, with all numbers in it one
higher, and fails for the same reasons. This is so for the expression by itself, and for one that stands in a group
between conditions on the place. What is left out is what the numbers cannot express, a call of the whole expression,
and what ends the match from within the group.
-/

namespace PatternGrammar.Regex

/-! ## Programs -/

/-- The first capturing group, without repetition. -/
structure Shape.IsOuter (shape : Shape) : Prop where
  role : ∃ again, shape.role = .capture 1 again
  entry : shape.entry = .once
  ending : shape.ending = .once
  upTo : shape.upTo = 0

/-- The second code is the first one with a capturing group around what is matched in it, and with numbers one higher
inside. -/
inductive Code.InGroup (p : Program) : Code → Code → Prop where
  | whole {c c' cap} : cap.IsOuter → c.Raised p c' → InGroup p c (.group cap c' .stop)
  | framed {a bare tail c c' cap} : bare.IsBare → bare.upTo = 0 → tail.isAnchors → cap.IsOuter → c.Raised p c' →
      InGroup p (.step (.anchor a) (.group bare c tail)) (.step (.anchor a) (.group bare (.group cap c' .stop) tail))

namespace Grouped

variable {p : Program} {e e' : Engine} {s s' : Step}

/-- The runs come to the same end, unless one of them meets a limit. -/
def EndAlike (e e' : Engine) (s s' : Step) : Prop :=
  ∀ r r', e.Ends s r → e'.Ends s' r' → r.1.isLimited ∨ r'.1.isLimited ∨ r' = (r.1.raised, r.2)

theorem EndAlike.next (h : EndAlike e e' (e.next s) s') : EndAlike e e' s s' :=
  fun r r' hr hr' => h r r' hr.next_of hr'

theorem EndAlike.next_right (h : EndAlike e e' s (e'.next s')) : EndAlike e e' s s' :=
  fun r r' hr hr' => h r r' hr hr'.next_of

theorem EndAlike.of_steps (he : Engines p e e') (h : Steps p s s') : EndAlike e e' s s' :=
  fun _ _ hr hr' => he.ends hr (.now h) hr'

theorem isLimited_of_stopped {m : Machine} {fault : SearchFault} {r : Attempt × Nat} (hf : fault.isLimit)
    (hr : e.Ends (.finished m (.stopped fault)) r) : r.1.isLimited := by
  rw [hr.eq_of_finished]
  exact hf

theorem EndAlike.call_left {m : Machine} {t : Thread} {r : Resumption} {go : Machine → Step}
    (h : EndAlike e e'
      (go { m with choices := .more t r m.choices, height := m.height + 1, entries := m.entries + 1 }) s') :
    EndAlike e e' (e.call m t r go) s' := by
  unfold Engine.call
  cases hf : e.refusal? m.entries t.depth with
  | some fault => exact fun _ _ hr _ => .inl (isLimited_of_stopped (isLimit_of_refusal? hf) hr)
  | none => exact h

theorem EndAlike.call_right {m : Machine} {t : Thread} {r : Resumption} {go : Machine → Step}
    (h : EndAlike e e' s
      (go { m with choices := .more t r m.choices, height := m.height + 1, entries := m.entries + 1 })) :
    EndAlike e e' s (e'.call m t r go) := by
  unfold Engine.call
  cases hf : e'.refusal? m.entries t.depth with
  | some fault => exact fun _ _ _ hr => .inr (.inl (isLimited_of_stopped (isLimit_of_refusal? hf) hr))
  | none => exact h

/-- The run comes to its end. -/
theorem Engine.run_ends (fuel : Nat) (s : Step) : (e.run fuel s).1.isLimited ∨ e.Ends s (e.run fuel s) := by
  by_cases h : (e.run fuel s).1 = .stopped .entryLimit
  · rw [h]
    exact .inl rfl
  · exact .inr (Engine.ends_run h)

theorem EndAlike.run (h : EndAlike e e' s s') (fuel fuel' : Nat) :
    (e.run fuel s).1.isLimited ∨ (e'.run fuel' s').1.isLimited ∨
      e'.run fuel' s' = ((e.run fuel s).1.raised, (e.run fuel s).2) := by
  obtain hl | hr := Engine.run_ends (e := e) fuel s
  · exact .inl hl
  · obtain hl' | hr' := Engine.run_ends (e := e') fuel' s'
    · exact .inr (.inl hl')
    · exact h _ _ hr hr'

/-! ## Groups around the expression -/

theorem Engine.walk_outer {m : Machine} {t : Thread} {cap : Shape} (h : cap.IsOuter) (place : Nat) (c : Code) :
    e.walk m t place (.group cap c .stop) =
      e.tryFirst m { t with place } cap (Thread.within { t with place } m .framed cap c .stop) c t.calling
        fun b => .branches b true := by
  obtain ⟨again, hr⟩ := h.role
  simp only [Engine.walk, Engine.reachGroup, Engine.enter, h.entry, hr, h.ending, reduceCtorEq, if_false]

theorem Engine.walk_bare {m : Machine} {t : Thread} {bare : Shape} (h : bare.IsBare) (hk : e.hasLeave = false)
    (place : Nat) {c : Code} (hc : c.hasAlternatives = false) (next : Code) :
    e.walk m t place (.group bare c next) =
      .forward m { t with place, code := c, closings := Thread.within { t with place } m .plain bare c next } := by
  simp only [Engine.walk, Engine.reachGroup, Engine.enter, h.entry, h.role, h.ending, h.guarded, hk, reduceCtorEq,
    if_false, Bool.false_eq_true]
  cases c with
  | either => cases hc
  | _ => rfl

theorem Engine.walk_bareChoice {m : Machine} {t : Thread} {bare : Shape} (h : bare.IsBare) (hk : e.hasLeave = false)
    (place upTo : Nat) (branch others next : Code) :
    e.walk m t place (.group bare (.either upTo branch others) next) =
      e.tryFirst m { t with place } bare
        (Thread.within { t with place } m .plain bare (.either upTo branch others) next) (.either upTo branch others)
        t.calling fun b => .branches b false := by
  simp only [Engine.walk, Engine.reachGroup, Engine.enter, h.entry, h.role, h.ending, h.guarded, hk, reduceCtorEq,
    if_false, Bool.false_eq_true]

/-! ## Attempts -/

/-- The group around the expression, in the second machine. -/
def outerClosing (cap : Shape) (c : Code) (place height : Nat) : Closing :=
  { kind := .framed, shape := cap, body := c, next := .stop, origin := place, height }

/-- The choice of the expression as a whole. -/
def wholeChoice (t : Thread) : Choices :=
  .more t (.branches ⟨[], { role := .plain }, 0, false, none⟩ true) .none

theorem inert_wholeChoice (t : Thread) : Inert (wholeChoice t) := .more ⟨rfl, rfl, rfl⟩ .none

section
variable {t t' : Thread} {c c' : Code} {cap bare : Shape} {a : Anchor} {tail : Code}

theorem EndAlike.whole (he : Engines p e e') (hcap : cap.IsOuter) (hc : c.Raised p c') (ht : Alike t t')
    (hcall : t.calling = none) :
    EndAlike e e' (e.tryFirst {} t { role := .plain } [] c none fun b => .branches b true)
      (e'.tryFirst {} t' { role := .plain } [] (.group cap c' .stop) none fun b => .branches b true) := by
  let R : Region := { lift := 1, around := [], around' := [], outer := outerClosing cap c' t'.place 1 }
  have hsound : R.Sound := ⟨rfl, hcap.role, hcap.ending, rfl, .inl ⟨rfl, rfl⟩⟩
  have hm (entries : Nat) : Machines p R {} ⟨wholeChoice t', 1, entries, 0⟩ :=
    ⟨hsound, .ground .none (inert_wholeChoice t'), Nat.le_refl 0, rfl, rfl⟩
  rw [Engine.tryFirst_eq (e := e') (c := .group cap c' .stop) rfl]
  refine .call_right (.next_right ?_)
  change EndAlike e e' _ (e'.walk ⟨wholeChoice t', 1, 2, 0⟩
    { t' with code := .group cap c' .stop, closings := [], depth := t'.depth + 1, calling := none } t'.place
    (.group cap c' .stop))
  rw [Engine.walk_outer hcap]
  have hin : Alike t { t' with code := .group cap c' .stop, closings := [], depth := t'.depth + 1, calling := none } :=
    ⟨ht.place, ht.start, ht.captures, by rw [hcall]; rfl⟩
  exact .of_steps he
    (Engines.tryFirst (hm 2) hin _ cap hcap.upTo hcap.entry .ground hc rfl fun _ _ _ _ hb => .branches hin hb)

/-- The group around the expression in both machines. -/
def innerClosing (bare : Shape) (body tail : Code) (place height : Nat) : Closing :=
  { kind := .plain, shape := bare, body, next := tail, origin := place, height }

theorem EndAlike.inBare (he : Engines p e e') (m m' : Machine) (hi : Inert m.choices) (hi' : Inert m'.choices)
    (hcount : m.choices.count ≤ m.height) (hheight : m'.height = m.height) (hskips : m'.skips = m.skips)
    (hbare : bare.IsBare) (hu : bare.upTo = 0) (htail : tail.isAnchors) (hcap : cap.IsOuter) (hc : c.Raised p c')
    (ht : Alike t t') (hcs : t.closings = []) (hcs' : t'.closings = []) (place : Nat) :
    EndAlike e e' (e.walk m t place (.group bare c tail))
      (e'.walk m' t' place (.group bare (.group cap c' .stop) tail)) := by
  let R (lift : Nat) : Region :=
    { lift
      around := [innerClosing bare c tail place m.height]
      around' := [innerClosing bare (.group cap c' .stop) tail place m'.height]
      outer := outerClosing cap c' place m'.height }
  have hsound (lift : Nat) : (R lift).Sound :=
    ⟨rfl, hcap.role, hcap.ending, rfl,
      .inr ⟨tail, _, _, rfl, rfl, ⟨rfl, hbare.ending, rfl, htail⟩, ⟨rfl, hbare.ending, rfl, htail⟩⟩⟩
  obtain ⟨code, place₀, start, depth, captures, closings, calling⟩ := t
  obtain ⟨code', place', start', depth', captures', closings', calling'⟩ := t'
  dsimp only at hcs hcs'
  subst hcs hcs'
  -- A group without alternatives is entered without a choice, a capturing one with it: the second machine is ahead
  -- by one choice. With alternatives each machine makes one, for a group of its own.
  have hone (hl : c.hasAlternatives = false) (hl' : c'.hasAlternatives = false) :
      EndAlike e e' (e.walk m ⟨code, place₀, start, depth, captures, [], calling⟩ place (.group bare c tail))
        (e'.walk m' ⟨code', place', start', depth', captures', [], calling'⟩ place
          (.group bare (.group cap c' .stop) tail)) := by
    have hm (t : Thread) (b : Branching) (hb : b.IsSpent) (entries : Nat) : Machines p (R 1) m
        ⟨.more t (.branches b true) m'.choices, m'.height + 1, entries, m'.skips⟩ :=
      ⟨hsound 1, .ground hi (.more hb hi'), hcount, congrArg (· + 1) hheight, hskips⟩
    rw [Engine.walk_bare hbare he.keeps place hl, Engine.walk_bare hbare he.keeps' place rfl]
    refine .next_right ?_
    change EndAlike e e' _ (e'.walk m' _ place (.group cap c' .stop))
    rw [Engine.walk_outer hcap, Engine.tryFirst_eq hl']
    refine .of_steps he (Steps.call_right (.forward (hm _ _ ⟨rfl, hcap.upTo, hcap.upTo⟩ _) ?_))
    exact ⟨⟨⟨rfl, ht.start, ht.captures, ht.calling⟩, .ground⟩, hc⟩
  cases hc with
  | @either upTo b b' o o' hb ho =>
      have hm : Machines p (R 0) m m' := ⟨hsound 0, .ground hi hi', hcount, hheight, hskips⟩
      rw [Engine.walk_bareChoice hbare he.keeps, Engine.walk_bare hbare he.keeps' place rfl]
      refine .next_right ?_
      change EndAlike e e' _ (e'.walk m' _ place (.group cap _ .stop))
      rw [Engine.walk_outer hcap]
      refine .of_steps he (Steps.tryBranch (R := R 0) (hm.calledOutermost hi hi' ?_ ?_ hu rfl rfl) ?_ .ground hb ?_)
      · exact ⟨rfl, ht.start, ht.captures, ht.calling⟩
      · exact ⟨.ground, hcap.upTo.trans hu.symm, hcap.entry.trans hbare.entry.symm, rfl, rfl, .some ho⟩
      · exact ⟨rfl, ht.start, ht.captures, ht.calling⟩
      · exact ht.calling
  | stop => exact hone rfl rfl
  | step => exact hone rfl rfl
  | group => exact hone rfl rfl

theorem EndAlike.framed (he : Engines p e e') (hbare : bare.IsBare) (hu : bare.upTo = 0) (htail : tail.isAnchors)
    (hcap : cap.IsOuter) (hc : c.Raised p c') (ht : Alike t t') (hcall : t.calling = none) :
    EndAlike e e'
      (e.tryFirst {} t { role := .plain } [] (.step (.anchor a) (.group bare c tail)) none fun b => .branches b true)
      (e'.tryFirst {} t' { role := .plain } [] (.step (.anchor a) (.group bare (.group cap c' .stop) tail)) none
        fun b => .branches b true) := by
  have hcalling : t'.calling = none := by
    rw [ht.calling, hcall]
    rfl
  have hplace := ht.place
  rw [Engine.tryFirst_eq (e := e) (c := .step _ _) rfl, Engine.tryFirst_eq (e := e') (c := .step _ _) rfl]
  refine .call_left (.call_right (.next (.next_right ?_)))
  change EndAlike e e' (e.walk ⟨wholeChoice t, 1, 2, 0⟩ _ t.place (.step (.anchor a) _))
    (e'.walk ⟨wholeChoice t', 1, 2, 0⟩ _ t'.place (.step (.anchor a) _))
  rw [Engine.walk, Engine.walk, he.subject, hplace]
  by_cases h : e.subject.holdsAt a t.place
  · rw [if_pos h, if_pos h]
    have hin (depth depth' : Nat) (code code' : Code) :
        Alike { t with code, closings := [], depth, calling := none }
          { t' with code := code', closings := [], depth := depth', calling := none } :=
      ⟨ht.place, ht.start, ht.captures, rfl⟩
    exact .inBare he ⟨wholeChoice t, 1, 2, 0⟩ ⟨wholeChoice t', 1, 2, 0⟩ (inert_wholeChoice t)
      (inert_wholeChoice t') (Nat.le_refl 1) rfl rfl hbare hu htail hcap hc (hin _ _ _ _) rfl rfl t.place
  · rw [if_neg h, if_neg h]
    exact .of_steps he (.refused (v := .failed) (inert_wholeChoice t) (inert_wholeChoice t') rfl)

/-- Unless one of them meets a limit, an attempt for the expression in the group has the same outcome. -/
theorem Engines.attempt_eq (he : Engines p e e') (hc : e.program.code.InGroup p e'.program.code)
    (hl : e.program.leaves = 0) (hl' : e'.program.leaves = 0)
    (hg : e'.program.groupCount = e.program.groupCount + 1) (place : Nat) :
    (e.attempt place).1.isLimited ∨ (e'.attempt place).1.isLimited ∨
      e'.attempt place = ((e.attempt place).1.raised, (e.attempt place).2) := by
  have hends {t t' : Thread} (ht : Alike t t') (hcall : t.calling = none) :
      EndAlike e e' (e.tryFirst {} t { role := .plain } [] e.program.code none fun b => .branches b true)
        (e'.tryFirst {} t' { role := .plain } [] e'.program.code none fun b => .branches b true) := by
    generalize e.program.code = code, e'.program.code = code' at hc
    cases hc with
    | whole hcap hc => exact .whole he hcap hc ht hcall
    | framed hbare hu htail hcap hc => exact .framed he hbare hu htail hcap hc ht hcall
  let start (code : Code) (captures : Captures) : Thread := { code, place, start := place, captures }
  have hcaptures : Array.replicate (e.program.groupCount + 1 + 1) none =
      Captures.raised (Array.replicate (e.program.groupCount + 1) none) := by
    apply Array.ext'
    simp [Captures.raised, List.replicate_succ]
  have hstart : Alike (start .stop (Array.replicate (e.program.groupCount + 1) none))
      (start .stop (Array.replicate (e.program.groupCount + 1 + 1) none)) :=
    ⟨rfl, rfl, hcaptures, rfl⟩
  unfold Engine.attempt
  rw [he.settings, hg, hl, hl']
  by_cases hmemory : e.settings.limits.memory * 1024 < frameSize e.program.groupCount
  · simp only [if_pos hmemory]
    exact .inl rfl
  · by_cases hmemory' : e.settings.limits.memory * 1024 < frameSize (e.program.groupCount + 1)
    · simp only [if_pos hmemory']
      exact .inr (.inl rfl)
    · simp only [if_neg hmemory, if_neg hmemory']
      by_cases hentries : e.settings.limits.entries = 0
      · simp only [if_pos hentries]
        exact .inl rfl
      · simp only [if_neg hentries]
        by_cases hdepth : e.settings.limits.depth = 0
        · simp only [if_pos hdepth]
          exact .inl rfl
        · simp only [if_neg hdepth]
          exact (hends hstart rfl).run _ _

end

/-! ## Searches -/

/-- The search has been given up because of its size. -/
def isGivenUp : Except SearchFault Bool → Bool
  | .error fault => fault.isLimit
  | .ok _ => false

/-- The searches go through the same subject in the same way. -/
structure Searches (p : Program) (x x' : Search) : Prop where
  engines : Engines p x.engine x'.engine
  code : x.engine.program.code.InGroup p x'.engine.program.code
  leaves : x.engine.program.leaves = 0
  leaves' : x'.engine.program.leaves = 0
  groupCount : x'.engine.program.groupCount = x.engine.program.groupCount + 1
  plan : x'.plan = x.plan
  namesBreak : x'.namesBreak = x.namesBreak
  lastNeeded : x'.lastNeeded = x.lastNeeded

section
variable {x x' : Search}

theorem Searches.startFrom?_eq (h : Searches p x x') (i : Nat) : x'.startFrom? i = x.startFrom? i := by
  unfold Search.startFrom?
  rw [h.plan, h.engines.subject]

theorem Searches.allows_eq (h : Searches p x x') (i : Nat) : x'.allows i = x.allows i := by
  unfold Search.allows
  rw [h.plan, h.engines.subject, h.lastNeeded]

theorem Searches.onward?_eq (h : Searches p x x') (i ignored skips : Nat) (v : Verdict) :
    x'.onward? i ignored skips v.raised = x.onward? i ignored skips v := by
  unfold Search.onward? Search.settle
  rw [h.plan, h.engines.subject, h.namesBreak]
  cases v <;> rfl

theorem Searches.attempt_eq (h : Searches p x x') (place ignored : Nat) :
    ({ x.engine with ignoredSkips := ignored }.attempt place).1.isLimited ∨
      ({ x'.engine with ignoredSkips := ignored }.attempt place).1.isLimited ∨
      { x'.engine with ignoredSkips := ignored }.attempt place =
        (({ x.engine with ignoredSkips := ignored }.attempt place).1.raised,
          ({ x.engine with ignoredSkips := ignored }.attempt place).2) := by
  have he : Engines p { x.engine with ignoredSkips := ignored } { x'.engine with ignoredSkips := ignored } :=
    ⟨h.engines.subject, h.engines.settings, rfl, h.engines.keeps, h.engines.keeps', h.engines.definitions⟩
  exact he.attempt_eq h.code h.leaves h.leaves' h.groupCount place

/-- Unless one of them is given up, the searches have the same outcome. The induction is on the attempts. -/
theorem Searches.run_eq (h : Searches p x x') (fuel i ignored : Nat) :
    isGivenUp (x.run fuel i ignored) ∨ isGivenUp (x'.run fuel i ignored) ∨
      x'.run fuel i ignored = x.run fuel i ignored := by
  induction fuel generalizing i ignored with
  | zero => exact .inl rfl
  | succ fuel ih =>
      rw [Search.run, Search.run, h.startFrom?_eq]
      cases x.startFrom? i with
      | none => exact .inr (.inr rfl)
      | some i =>
          dsimp only
          rw [h.allows_eq]
          by_cases ha : x.allows i
          · have hattempt := h.attempt_eq i ignored
            have honward (v : Verdict) (skips : Nat) := h.onward?_eq i ignored skips v
            generalize { x.engine with ignoredSkips := ignored }.attempt i = r,
              { x'.engine with ignoredSkips := ignored }.attempt i = r' at hattempt
            obtain ⟨a, skips⟩ := r
            obtain ⟨a', skips'⟩ := r'
            simp only [ha, Bool.not_true, Bool.false_eq_true, if_false]
            obtain hl | hl | heq := hattempt
            · cases a with
              | stopped fault => exact .inl hl
              | _ => cases hl
            · cases a' with
              | stopped fault => exact .inr (.inl hl)
              | _ => cases hl
            · cases heq
              cases a with
              | matched | stopped => exact .inr (.inr rfl)
              | refused v =>
                  simp only [Attempt.raised]
                  have honward := honward v skips
                  cases v with
                  | accepted => exact .inr (.inr rfl)
                  | _ =>
                      dsimp only [Verdict.raised] at honward ⊢
                      rw [honward]
                      split
                      · exact .inr (.inr rfl)
                      · exact ih _ _
          · right
            right
            simp [ha]

end

end Grouped

end PatternGrammar.Regex
