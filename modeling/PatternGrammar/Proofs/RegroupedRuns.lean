import PatternGrammar.Proofs.Regrouping

/-!
# Runs over an expression in a group of its own

The second machine takes one step more at the end of the expression, where it leaves the group that the first one
misses. So the runs come to the same end, and every search to the same outcome, unless one of them meets a limit.
-/

namespace PatternGrammar.Regex

/-! ## Limits and ends -/

theorem Step.isLimited_next {e : Engine} {s : Step} (h : s.isLimited) : (e.next s).isLimited := by
  cases s with
  | finished => exact h
  | _ => cases h

theorem Step.isLimited_of_ends {e : Engine} {s : Step} {r : Attempt × Nat} (hs : s.isLimited) (h : e.Ends s r) :
    r.1.isLimited := by
  cases s with
  | finished m a =>
      rw [h.eq_of_finished]
      exact hs
  | _ => cases hs

theorem Engine.Ends.next_of {e : Engine} {s : Step} {r : Attempt × Nat} (h : e.Ends s r) : e.Ends (e.next s) r := by
  cases h with
  | finished => exact .finished
  | next h => exact h

theorem Engine.tryOthers_eq {e : Engine} {m : Machine} {t : Thread} {b : Branching} {others : Code} {calling : Option Nat}
    {f : Branching → Resumption} (h : others.hasAlternatives = false) :
    e.tryOthers m t b others calling f = e.tryBranch m t (f b.spent) b.inside others calling := by
  cases others with
  | either => cases h
  | _ => rfl

namespace Grouped

variable {p : Program} {R : Region} {e e' : Engine} {m m' : Machine} {t t' : Thread}

/-- The second machine, in some steps, catches up with the first one. -/
inductive Meets (p : Program) (e' : Engine) (s : Step) : Step → Prop where
  | now {s'} : Steps p s s' → Meets p e' s s'
  | later {s'} : Meets p e' s (e'.next s') → Meets p e' s s'

theorem Meets.ite {q : Prop} [Decidable q] {a a' b b' : Step} (ha : Meets p e' a a') (hb : Meets p e' b b') :
    Meets p e' (if q then a else b) (if q then a' else b') := by
  split
  · exact ha
  · exact hb

/-! ## Forward -/

/-- At the end of the expression the second machine leaves the group that the first one misses. -/
theorem Engines.leave (he : Engines p e e') (hm : Machines p R m m') (ht : Alike t t')
    (hc : t.closings = R.around) (hc' : t'.closings = R.outer :: R.around') :
    Meets p e' (e.close m t) (e'.close m' t') := by
  obtain ⟨again, hrole⟩ := hm.sound.role
  let left : Thread :=
    { t' with
      code := .stop
      captures := t'.captures.setIfInBounds 1 (some (R.outer.origin, t'.place))
      closings := R.around' }
  have hleave : e'.close m' t' = .forward m' left := by
    unfold Engine.close
    rw [hc']
    simp only [hm.sound.kind, Engine.closeGroup, hrole, Engine.endGroup, hm.sound.ending, hm.sound.next]
    rfl
  rw [hleave]
  -- The step more; after it both threads stand at the end of what is around the expression.
  refine .later (.now ?_)
  change Steps p (e.close m t) (e'.close m' left)
  unfold Engine.close
  rw [hc]
  obtain ⟨h, h'⟩ | ⟨tail, c, c', h, h', hl, hl'⟩ := hm.sound.around
  · have hleft : left.closings = [] := h'
    rw [h, hleft]
    exact he.conclude hm ht.place ht.start
  · have hleft : left.closings = [c'] := h'
    rw [h, hleft]
    simp only [hl.kind, hl'.kind, Engine.endGroup, hl.ending, hl'.ending, hl.next, hl'.next]
    exact .behind hm ht.place ht.start hl.tail rfl rfl rfl

theorem Around.ground_or_nested {closings closings' : List Closing} (h : Around p R closings closings') :
    (closings = R.around ∧ closings' = R.outer :: R.around') ∨ Nested p R closings closings' := by
  cases h with
  | ground => exact .inl ⟨rfl, rfl⟩
  | frame hf ho => exact .inr (.frame hf ho)

theorem Engines.closeAt (he : Engines p e e') (hm : Machines p R m m') (ht : Abreast p R t t') (place : Nat) :
    Meets p e' (e.close m { t with place }) (e'.close m' { t' with place }) := by
  have hat : Alike { t with place } { t' with place } := ⟨rfl, ht.start, ht.captures, ht.calling⟩
  obtain ⟨hc, hc'⟩ | hn := ht.closings.ground_or_nested
  · exact he.leave hm hat hc hc'
  · exact .now (he.close hm hat hn)

theorem Abreast.at (ht : Abreast p R t t') (place : Nat) :
    Abreast p R { t with place } { t' with place } :=
  ⟨⟨rfl, ht.start, ht.captures, ht.calling⟩, ht.closings⟩

/-- The walk goes on alike over code with numbers one higher, by induction on the code. -/
theorem Engines.walk (he : Engines p e e') (hm : Machines p R m m') (ht : Abreast p R t t') {code code' : Code}
    (hc : Code.Raised p code code') (place : Nat) :
    Meets p e' (e.walk m t place code) (e'.walk m' t' place code') := by
  have hfail : Meets p e' (.backward m .failed) (.backward m' .failed) := .now (.failed hm)
  induction hc generalizing place with
  | stop => exact he.closeAt hm ht place
  | either hb ho _ _ =>
      refine .now (Engines.call hm (.goOn ((ht.at place).next ho) rfl) fun _ _ hm => .forward hm ?_)
      exact ((ht.at place).deeper _ _).next hb
  | @step i i' n n' hi hn ih =>
      have hexecute : Meets p e' (e.execute m { t with place, code := n } i)
          (e'.execute m' { t' with place, code := n' } i') :=
        .now (he.execute hm ((ht.at place).next hn) hi)
      cases hi with
      | refer | call => exact hexecute
      | same hi =>
          cases i with
          | refer | call | accept => cases hi
          | one s =>
              simp only [Engine.walk, he.subject]
              exact .ite hfail (ih _)
          | anchor a =>
              simp only [Engine.walk, he.subject]
              exact .ite (ih _) hfail
          | many s times =>
              simp only [Engine.walk, he.subject]
              refine .ite (.now (he.repeatSingle hm ((ht.at place).next hn) s times)) ?_
              split
              · exact hfail
              · exact .ite (ih _) (ih _)
          | stepBack width =>
              simp only [Engine.walk, he.subject]
              split
              · exact ih _
              · exact hfail
          | fail => exact hfail
          | _ => exact hexecute
  | group hb hn _ _ => exact .now (he.reachGroup hm (ht.at place) _ hb hn)

/-- Behind the expression the conditions that are left hold in both machines, or in none. -/
theorem Engines.walkAnchors (he : Engines p e e') (hm : Machines p R m m') (hstart : t'.start = t.start)
    (hc : t.closings = []) (hc' : t'.closings = []) {code : Code} (h : code.isAnchors) (place : Nat) :
    Steps p (e.walk m t place code) (e'.walk m' t' place code) := by
  induction code with
  | stop =>
      simp only [Engine.walk, Engine.close, hc, hc']
      exact he.conclude hm rfl hstart
  | step i next ih =>
      cases i with
      | anchor a =>
          simp only [Engine.walk, he.subject]
          exact .ite (ih h) (.failed hm)
      | _ => cases h
  | _ => cases h

theorem Engines.forward (he : Engines p e e') (hm : Machines p R m m') (ht : Together p R t t') :
    Meets p e' (e.next (.forward m t)) (e'.next (.forward m' t')) := by
  change Meets p e' (e.walk m t t.place t.code) (e'.walk m' t' t'.place t'.code)
  rw [ht.place]
  exact he.walk hm ht.toAbreast ht.code _

/-! ## Backward -/

theorem Engines.resumeRepetition (he : Engines p e e') (hm : Machines p R m m') (ht : Together p R t t')
    {r : Resumption} (hr : r.goesOn) : Steps p (e.resumeRepetition m t r) (e'.resumeRepetition m' t' r) := by
  have hfail : Steps p (.backward m .failed) (.backward m' .failed) := .failed hm
  cases r with
  | shorter s low =>
      simp only [Engine.resumeRepetition, he.subject, ht.place]
      exact Engines.tryShorter hm (ht.at _) s low
  | shorterSet s low =>
      simp only [Engine.resumeRepetition, he.subject, ht.place]
      exact .ite hfail (Engines.tryAgain hm (ht.at _) rfl)
  | longer s left =>
      simp only [Engine.resumeRepetition, he.subject, ht.place]
      exact .ite hfail (.ite hfail (Engines.tryAgain hm (ht.at _) rfl))
  | shorterText length low =>
      simp only [Engine.resumeRepetition, ht.place]
      exact .ite hfail (Engines.tryAgain hm (ht.at _) rfl)
  | fewerTexts span ignoreCase count low =>
      simp only [Engine.resumeRepetition, he.subject, ht.place]
      refine .ite hfail ?_
      split
      · exact hfail
      · exact Engines.tryAgain hm (ht.at _) rfl
  | longerText span ignoreCase left =>
      simp only [Engine.resumeRepetition, he.subject, ht.place]
      refine .ite hfail ?_
      split
      · exact hfail
      · exact Engines.tryAgain hm (ht.at _) rfl
  | _ => exact hfail

theorem Branchings.judge_eq {b b' : Branching} (h : Branchings p R b b') (v : Verdict) :
    b'.judge v.raised = (b.judge v).raised := by
  cases v with
  | left place calling =>
      simp only [Branching.judge, Verdict.raised, h.several, h.upTo]
      split <;> rfl
  | _ => rfl

/-- The alternatives that are left are tried, or there are none. -/
theorem Engines.tryLeft (e e' : Engine) (hm : Machines p R m m') (ht : Alike t t') {b b' : Branching} (hb : Branchings p R b b')
    {calling calling' : Option Nat} (hcalling : calling' = raisedCall calling) {f f' : Branching → Resumption}
    (hf : ∀ br br', br.inside = b.inside → br'.inside = b'.inside → Branchings p R br br' →
      Waiting p R t (f br) t' (f' br')) {done done' : Step} (hdone : Steps p done done') :
    Steps p
      (match b.others with
        | some others => e.tryOthers m t b others calling f
        | none => done)
      (match b'.others with
        | some others => e'.tryOthers m' t' b' others calling' f'
        | none => done') := by
  have ho := hb.others
  generalize b.others = others, b'.others = others' at ho
  cases ho with
  | none => exact hdone
  | some ho => exact Engines.tryOthers hm ht hb ho hcalling hf

theorem Engines.resumeBranches (hm : Machines p R m m') (ht : Alike t t') {b b' : Branching}
    (hb : Branchings p R b b') (all : Bool) (v : Verdict) :
    Steps p (e.resumeGroup m t v (.branches b all)) (e'.resumeGroup m' t' v.raised (.branches b' all)) := by
  have ho := hb.others
  unfold Engine.resumeGroup
  dsimp only
  rw [hb.judge_eq]
  cases b.judge v with
  | failed =>
      simp only [Verdict.raised]
      generalize b.others = others, b'.others = others' at ho
      cases ho with
      | none => exact .failed hm
      | some ho =>
          dsimp only
          rw [ho.hasAlternatives]
          refine .ite (.forward hm (ht.inFront hb.inside ho)) ?_
          exact Engines.tryOthers hm ht hb ho ht.calling fun _ _ _ _ hb => .branches ht hb
  | _ => exact .backward hm

theorem Engines.resumeCall (hm : Machines p R m m') (ht : Alike t t') {b b' : Branching}
    (hb : Branchings p R b b') {n : Nat} (hn : n ≠ 0) (v : Verdict) :
    Steps p (e.resumeGroup m t v (.call n b)) (e'.resumeGroup m' t' v.raised (.call (n + 1) b')) := by
  have hfail : Steps p (.backward m .failed) (.backward m' .failed) := .failed hm
  have hcalling : some (n + 1) = raisedCall (some n) := rfl
  have hleft := Engines.tryLeft e e' hm ht hb hcalling (fun _ _ _ _ hb => .call hn ht hb) hfail
  have hverb : (v.raised.verbIn = some (some (n + 1))) = (v.verbIn = some (some n)) := by
    cases v with
    | failed | accepted => simp [Verdict.raised, Verdict.verbIn]
    | _ => simp [Verdict.raised, Verdict.verbIn, raisedCall]
  unfold Engine.resumeGroup
  dsimp only
  simp only [hverb, hb.judge_eq]
  by_cases hv : v.verbIn = some (some n)
  · simp only [hv, if_true]
    cases b.judge v with
    | failed =>
        simp only [Verdict.raised]
        generalize b.others = others, b'.others = others' at hleft
        cases others <;> cases others' <;> exact hleft
    | _ => exact hfail
  · simp only [hv, if_false]
    cases v with
    | failed =>
        simp only [Verdict.raised]
        generalize b.others = others, b'.others = others' at hleft
        cases others <;> cases others' <;> exact hleft
    | _ => exact .backward hm

theorem Engines.resumeKeep (hm : Machines p R m m') (ht : Abreast p R t t') {b b' : Branching}
    (hb : Branchings p R b b') (hi : Nested p R b.inside b'.inside) {body body' n n' : Code}
    (hbody : Code.Raised p body body') (hn : Code.Raised p n n') (matched : Bool) (v : Verdict) :
    Steps p (e.resumeGroup m t v (.keep b body n matched)) (e'.resumeGroup m' t' v.raised (.keep b' body' n' matched)) := by
  have hdone : Steps p
      (if matched || b.shape.entry = .maybe then .forward m { t with code := n } else .backward m .failed)
      (if matched || b'.shape.entry = .maybe then .forward m' { t' with code := n' } else .backward m' .failed) := by
    rw [hb.entry]
    exact .ite (.forward hm (ht.next hn)) (.failed hm)
  have hagain (br br' : Branching) (h : br.inside = b.inside) (h' : br'.inside = b'.inside)
      (hbr : Branchings p R br br') : Waiting p R t (.keep br body n matched) t' (.keep br' body' n' matched) := by
    refine .own ht (.keep hbr ?_ hbody hn)
    rw [h, h']
    exact hi
  have hleft := Engines.tryLeft e e' hm ht.toAlike hb ht.calling hagain hdone
  unfold Engine.resumeGroup
  dsimp only
  rw [hb.judge_eq]
  cases b.judge v with
  | failed => exact hleft
  | _ => exact .backward hm

theorem Engines.resumeLook (hm : Machines p R m m') (ht : Abreast p R t t') {r r' : Resumption}
    (hr : Resumptions p R r r') (v : Verdict) :
    Steps p (e.resumeLook m t v r) (e'.resumeLook m' t' v.raised r') := by
  have hfail : Steps p (.backward m .failed) (.backward m' .failed) := .failed hm
  unfold Engine.resumeLook
  cases hr with
  | @ahead b b' n n' hb hn =>
      have hleft := Engines.tryLeft e e' hm ht.toAlike hb ht.calling
        (fun _ _ _ _ hb => .own ht (.ahead hb hn)) hfail
      cases v with
      | accepted captures => exact .forward hm ⟨⟨⟨ht.place, ht.start, rfl, ht.calling⟩, ht.closings⟩, hn⟩
      | failed | left => exact hleft
      | _ => exact .backward hm
  | @avoid b b' n n' hb hn =>
      have hdone := Steps.forward hm (ht.next hn)
      have hleft := Engines.tryLeft e e' hm ht.toAlike hb ht.calling
        (fun _ _ _ _ hb => .own ht (.avoid hb hn)) hdone
      cases v with
      | accepted => exact hfail
      | failed | left => exact hleft
      | committed | pruned | skipped => exact hdone
      | _ => exact .backward hm
  | @decide b b' negated shape yes yes' no no' body body' n n' hb hyes hno hbody hn =>
      have hchoose {u u' : Thread} (hu : Abreast p R u u') (holds : Bool) :
          Steps p (e.choose m u shape (if holds != negated then yes else no.getD .stop) body n)
            (e'.choose m' u' shape.raised (if holds != negated then yes' else no'.getD .stop) body' n') := by
        refine Engines.choose hm hu shape ?_ hbody hn
        split
        · exact hyes
        · exact Code.Raised.getD hno
      have hleft := Engines.tryLeft e e' hm ht.toAlike hb ht.calling
        (fun _ _ _ _ hb => .own ht (.decide negated shape hb hyes hno hbody hn)) (hchoose ht false)
      cases v with
      | accepted captures =>
          have hfound : Abreast p R { t with captures } { t' with captures := captures.raised } :=
            ⟨⟨ht.place, ht.start, rfl, ht.calling⟩, ht.closings⟩
          exact hchoose hfound true
      | failed | left => exact hleft
      | committed | pruned | skipped => exact hchoose ht false
      | skippedTo => exact .backward hm
  | _ => exact .backward hm

/-- The second machine enters the matcher anew and the first one does not. -/
theorem Steps.call_right {s : Step} {r : Resumption} {go : Machine → Step}
    (hg : Steps p s
      (go { m' with choices := .more t' r m'.choices, height := m'.height + 1, entries := m'.entries + 1 })) :
    Steps p s (e'.call m' t' r go) := by
  unfold Engine.call
  cases hf : e'.refusal? m'.entries t'.depth with
  | some fault => exact .limited (.inr (isLimit_of_refusal? hf))
  | none => exact hg

/-- The machines enter the matcher anew for an alternative of the expression. -/
theorem Machines.calledOutermost (hm : Machines p R m m') (hi : Inert m.choices) (hi' : Inert m'.choices)
    (ht : Alike t t') {b b' : Branching} (hb : Branchings p R b b') (hl : b.shape.upTo = 0)
    (hin : b.inside = R.around) (hin' : b'.inside = R.outer :: R.around') (entries entries' : Nat) :
    Machines p R ⟨.more t (.branches b false) m.choices, m.height + 1, entries, m.skips⟩
      ⟨.more t' (.branches b' true) m'.choices, m'.height + 1, entries', m'.skips⟩ := by
  refine ⟨hm.sound, .outermost ht hb hl hin hin' hi hi', Nat.succ_le_succ hm.count, ?_, hm.skips⟩
  change m'.height + 1 = m.height + 1 + R.lift
  rw [hm.height, Nat.add_right_comm]

/-- The machines go on with the next alternative of the expression. For the last one only the second machine enters
the matcher anew, and has one more choice from then on. -/
theorem Engines.resumeOutermost (hm : Machines p R m m') (hi : Inert m.choices) (hi' : Inert m'.choices)
    (ht : Alike t t') {b b' : Branching} (hb : Branchings p R b b') (hl : b.shape.upTo = 0)
    (hin : b.inside = R.around) (hin' : b'.inside = R.outer :: R.around') (v : Verdict) :
    Steps p (e.resumeGroup m t v (.branches b false)) (e'.resumeGroup m' t' v.raised (.branches b' true)) := by
  have ho := hb.others
  unfold Engine.resumeGroup
  dsimp only
  rw [hb.judge_eq]
  cases b.judge v with
  | failed =>
      simp only [Verdict.raised]
      generalize b.others = others, b'.others = others' at ho
      cases ho with
      | none => exact .failed hm
      | @some others others' ho =>
          have hlast (hc : others'.hasAlternatives = false) :
              Steps p (.forward m { t with code := others, closings := b.inside })
                (e'.tryOthers m' t' b' others' t'.calling fun b => .branches b true) := by
            -- The second machine has one choice more for as long as the last alternative is tried.
            let R' : Region := { R with lift := R.lift + 1 }
            have hsound : R'.Sound :=
              ⟨hm.sound.kind, hm.sound.role, hm.sound.ending, hm.sound.next, hm.sound.around⟩
            have hspent : b'.spent.IsSpent := ⟨rfl, hb.last.trans hl, hb.last.trans hl⟩
            have hmore (entries : Nat) : Machines p R' m
                ⟨.more t' (.branches b'.spent true) m'.choices, m'.height + 1, entries, m'.skips⟩ := by
              refine ⟨hsound, .ground hi (.more hspent hi'), hm.count, ?_, hm.skips⟩
              change m'.height + 1 = m.height + (R.lift + 1)
              rw [hm.height, Nat.add_assoc]
            have hground : Around p R' b.inside b'.inside := by
              rw [hin, hin']
              exact .ground
            rw [Engine.tryOthers_eq hc]
            exact Steps.call_right (.forward (hmore _) (ht.inFront hground ho))
          cases ho with
          | @either upTo c c' o o' hc ho =>
              have hleft : Branchings p R { b with upTo, others := some o } { b' with upTo, others := some o' } :=
                ⟨hb.inside, hb.last, hb.entry, rfl, hb.several, .some ho⟩
              exact Steps.tryBranch (hm.calledOutermost hi hi' ht hleft hl hin hin') ht hb.inside hc ht.calling
          | stop | step | group => exact hlast rfl
  | _ => exact .backward hm

theorem Engines.resume (he : Engines p e e') (hm : Machines p R m m') {r r' : Resumption}
    (hw : Waiting p R t r t' r') (v : Verdict) : Steps p (e.resume m t r v) (e'.resume m' t' r' v.raised) := by
  cases hw with
  | branches ht hb => exact Engines.resumeBranches hm ht hb _ v
  | call hn ht hb => exact Engines.resumeCall hm ht hb hn v
  | own ht hr =>
      have hlook : Steps p (e.resumeLook m t v r) (e'.resumeLook m' t' v.raised r') :=
        Engines.resumeLook hm ht hr v
      cases hr with
      | ahead | avoid | decide => exact hlook
      | keep hb hi hbody hn => exact Engines.resumeKeep hm ht hb hi hbody hn _ v
      | spent => cases v <;> exact .backward hm
      | enter shape hb hn =>
          cases v with
          | failed => exact he.enter hm ht shape hb hn
          | _ => exact .backward hm
  | goOn ht hr =>
      have hrepetition := he.resumeRepetition hm ht hr
      have hverdict {w w' : Verdict} (h : w' = w.raised) : Steps p (.backward m w) (.backward m' w') := by
        rw [h]
        exact .backward hm
      cases r with
      | branches | call | keep | ahead | avoid | decide | enter | spent => cases hr
      | mark name =>
          cases v with
          | skippedTo other calling =>
              refine hverdict ?_
              rw [ht.place]
              by_cases h : other = name
              · rw [if_pos h, if_pos h]
                rfl
              · rw [if_neg h, if_neg h]
          | _ => exact .backward hm
      | goOn =>
          cases v with
          | failed => exact .forward hm ht
          | _ => exact .backward hm
      | commit | prune | skip | skipTo | leave =>
          cases v with
          | failed =>
              refine hverdict ?_
              simp only [Verdict.raised, ht.calling, ht.place]
          | _ => exact .backward hm
      | _ =>
          cases v with
          | failed => exact hrepetition
          | _ => exact .backward hm

theorem Engines.stepBackward (he : Engines p e e') (hm : Machines p R m m') (v : Verdict) :
    (Inert m.choices ∧ Inert m'.choices) ∨ Steps p (e.stepBackward m v) (e'.stepBackward m' v.raised) := by
  obtain ⟨choices, height, entries, skips⟩ := m
  obtain ⟨choices', height', entries', skips'⟩ := m'
  obtain ⟨hsound, hchoices, hcount, hheight, hskips⟩ := hm
  have hpopped {below below' : Choices} (hb : Choosing p R below below') (hle : below.count + 1 ≤ height) :
      Machines p R ⟨below, height - 1, entries, skips⟩ ⟨below', height' - 1, entries', skips'⟩ := by
    refine ⟨hsound, hb, ?_, ?_, hskips⟩
    · exact Nat.le_sub_one_of_lt hle
    · dsimp only at hheight ⊢
      omega
  cases hchoices with
  | ground hi hi' => exact .inl ⟨hi, hi'⟩
  | more hw hb => exact .inr (he.resume (hpopped hb hcount) hw v)
  | outermost ht hb hl hin hin' hi hi' =>
      exact .inr (Engines.resumeOutermost (hpopped (.ground hi hi') hcount) hi hi' ht hb hl hin hin' v)

/-! ## Runs -/

/-- One step of both machines, where there is something left to try. -/
theorem Engines.next (he : Engines p e e') {s s' : Step} (hs : Steps p s s') :
    (∃ m m' v, s = .backward m v ∧ s' = .backward m' v.raised ∧ Inert m.choices ∧ Inert m'.choices ∧
      m'.skips = m.skips) ∨ Meets p e' (e.next s) (e'.next s') := by
  cases hs with
  | forward hm ht => exact .inr (he.forward hm ht)
  | enter hm ht hb hn => exact .inr (.now (he.enter hm ht _ hb hn))
  | @backward R m m' v hm =>
      obtain ⟨hi, hi'⟩ | hs := he.stepBackward hm v
      · exact .inl ⟨m, m', v, rfl, rfl, hi, hi', hm.skips⟩
      · exact .inr (.now hs)
  | @refused m m' v hi hi' hs => exact .inl ⟨m, m', v, rfl, rfl, hi, hi', hs⟩
  | @behind R m m' t t' hm hplace hstart hl hc ho ho' =>
      refine .inr (.now ?_)
      change Steps p (e.walk m t t.place t.code) (e'.walk m' t' t'.place t'.code)
      rw [hplace, hc]
      exact he.walkAnchors hm hstart ho ho' hl _
  | finished hs => exact .inr (.now (.finished hs))
  | limited hl => exact .inr (.now (.limited (hl.imp Step.isLimited_next Step.isLimited_next)))

/-- Where nothing is left to try, a verdict is the last word. -/
theorem Inert.ends {e : Engine} (h : Inert m.choices) (v : Verdict) : e.Ends (.backward m v) (.refused v, m.skips) := by
  obtain ⟨choices, height, entries, skips⟩ := m
  dsimp only at h ⊢
  induction h generalizing height with
  | none => exact .next .finished
  | @more t b all below hs hb ih =>
      have hpass : e.next (.backward ⟨.more t (.branches b all) below, height, entries, skips⟩ v) =
          .backward ⟨below, height - 1, entries, skips⟩ v := by
        change e.resumeGroup _ t v (.branches b all) = _
        unfold Engine.resumeGroup
        dsimp only
        rw [hs.judge, hs.others]
        cases v <;> rfl
      refine .next ?_
      rw [hpass]
      exact ih _

/-- The second machine has caught up, on the way to its end. -/
theorem Meets.steps {s s' : Step} {r : Attempt × Nat} (h : Meets p e' s s') (hr : e'.Ends s' r) :
    ∃ s'', Steps p s s'' ∧ e'.Ends s'' r := by
  induction h with
  | now hs => exact ⟨_, hs, hr⟩
  | later _ ih => exact ih hr.next_of

/-- The machines come to the same end, unless one of them meets a limit. The induction is on the steps of the first
one; the second one catches up with each of them. -/
theorem Engines.ends (he : Engines p e e') {s s' : Step} {r r' : Attempt × Nat} (h : e.Ends s r)
    (hs : Meets p e' s s') (h' : e'.Ends s' r') :
    r.1.isLimited ∨ r'.1.isLimited ∨ r' = (r.1.raised, r.2) := by
  induction h generalizing s' with
  | @finished m a =>
      obtain ⟨s'', hs, h'⟩ := hs.steps h'
      cases hs with
      | finished hskips =>
          rw [h'.eq_of_finished, hskips]
          exact .inr (.inr rfl)
      | limited hl => exact hl.imp id fun hl => .inl (Step.isLimited_of_ends hl h')
  | @next s r hn ih =>
      obtain ⟨s'', hs, h'⟩ := hs.steps h'
      obtain ⟨m, m', v, rfl, rfl, hi, hi', hskips⟩ | hm := he.next hs
      · rw [h'.unique (hi'.ends v.raised), Engine.Ends.unique (.next hn) (hi.ends v), hskips]
        exact .inr (.inr rfl)
      · exact ih hm h'.next_of

end Grouped

end PatternGrammar.Regex
