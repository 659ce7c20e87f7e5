import PatternGrammar.Proofs.Splicing

/-!
# Runs over spliced code

The first machine takes a few steps more, into the groups that the second one misses and out of them again.
Whenever the second machine takes a step, the first one catches up with it, so the runs come to the same end.
-/

namespace PatternGrammar.Regex

/-- One step. A run that has come to its end stays there. -/
def Engine.next (e : Engine) : Step → Step
  | .forward m t => e.walk m t t.place t.code
  | .enter m t shape body next => e.enter m t shape body next
  | .backward m v => e.stepBackward m v
  | .finished m a => .finished m a

/-- The first machine, in some steps, catches up with the second one. -/
inductive Catches (e : Engine) (s' : Step) : Step → Prop where
  | now {s} : Steps s s' → Catches e s' s
  | later {s} : Catches e s' (e.next s) → Catches e s' s

theorem Catches.ite {e : Engine} {p : Prop} [Decidable p] {a a' b b' : Step} (ha : Catches e a' a)
    (hb : Catches e b' b) : Catches e (if p then a' else b') (if p then a else b) := by
  split
  · exact ha
  · exact hb

/-- The threads differ in nothing but their code, their places and the groups around. -/
inductive Alongside (rest : Code) : Thread → Thread → Prop where
  | mk {code code' place place' start depth captures closings closings'} :
      Around closings rest closings' →
      Alongside rest ⟨code, place, start, depth, captures, closings, none⟩
        ⟨code', place', start, depth, captures, closings', none⟩

section
variable {e e' : Engine} {m m' : Machine} {t t' : Thread} {rest : Code}

theorem Alongside.at (h : Alongside rest t t') (place : Nat) :
    Abreast rest { t with place } { t' with place } := by
  cases h with
  | mk ha => exact .mk ha

theorem Alongside.behind (h : Alongside rest t t') (place : Nat) {n n' : Code} (hn : Spliced n n') :
    Together rest { t with place, code := n } { t' with place, code := n'.append rest } := by
  cases h with
  | mk ha => exact .mk_append ha hn

/-! ## Forward -/

theorem Engines.execute (he : Engines e e') (hm : Machines m m') (ht : Together rest t t')
    {i : Instruction} (hi : i.isCall = false) : Steps (e.execute m t i) (e'.execute m' t' i) := by
  cases i with
  | call => cases hi
  | one | anchor | stepBack | fail => exact .backward hm
  | many s times => exact he.repeatSingle hm ht s times
  | keepOut =>
      obtain ⟨⟨ha⟩, hc⟩ := ht
      exact .forward hm ⟨.mk ha, hc⟩
  | refer numbers ignoreCase times => exact he.refer hm ht numbers ignoreCase times
  | accept inLook closing => exact he.accept hm ht inLook closing
  | mark | commit | prune | skip | leave => exact he.tryAgain hm ht rfl
  | skipTo name =>
      cases hm with
      | mk hc =>
          unfold Engine.execute
          rw [he.skips]
          exact .ite (.forward (.mk hc) ht) (he.tryAgain (.mk hc) ht rfl)

/-- The walk goes on over such code if it does so at its end, by induction on the code. A group that is
missing in the second machine is entered and left by steps of its own. -/
theorem Engines.walk (he : Engines e e') (hm : Machines m m') {code code' : Code}
    (hs : Spliced code code') (ht : Alongside rest t t')
    (hend : ∀ code place, Catches e (e'.walk m' t' place rest) (e.close m { t with code, place }))
    (place : Nat) :
    Catches e (e'.walk m' t' place (code'.append rest)) (e.walk m t place code) := by
  induction hs generalizing rest t place with
  | stop => exact hend t.code place
  | either hb ho =>
      refine .now (he.call hm (.goOn (ht.behind place (.refl ho)) rfl) fun _ _ hm => ?_)
      exact .forward hm (ht.behind place (.refl hb)).deeper
  | @step i n n' hi hn ih =>
      have hexecute : Catches e (e'.execute m' { t' with place, code := n'.append rest } i)
          (e.execute m { t with place, code := n } i) :=
        .now (he.execute hm (ht.behind place hn) hi)
      have hgo := ih ht hend
      cases i with
      | one s =>
          simp only [Code.append, Engine.walk, he.subject]
          exact .ite (.now (.backward hm)) (hgo _)
      | anchor a =>
          simp only [Code.append, Engine.walk, he.subject]
          exact .ite (hgo place) (.now (.backward hm))
      | many s times =>
          simp only [Code.append, Engine.walk, he.subject]
          refine .ite (.now (he.repeatSingle hm (ht.behind place hn) s times)) ?_
          split
          · exact .now (.backward hm)
          · exact .ite (hgo _) (hgo _)
      | stepBack width =>
          simp only [Code.append, Engine.walk, he.subject]
          split
          · exact hgo _
          · exact .now (.backward hm)
      | fail => exact .now (.backward hm)
      | call => cases hi
      | _ => exact hexecute
  | group hb hn _ => exact .now (he.reachGroup hm (ht.at place) (.same hb) hn)
  | within hs ha hb hn _ _ => exact .now (he.reachGroup hm (ht.at place) (.spliced hs ha hb) hn)
  | @opened shape b b' n n' hs ha hb hna hn ihb ihn =>
      cases ht with
      | @mk code code' placeBefore place' start depth captures closings closings' ho =>
      rw [Code.append_assoc]
      let frame : Closing := ⟨.plain, shape, b, n, place, m.height⟩
      let inside : Thread := ⟨b, place, start, depth, captures, frame :: closings, none⟩
      have henter : e.walk m ⟨code, placeBefore, start, depth, captures, closings, none⟩ place
          (.group shape b n) = .forward m inside := by
        simp only [Engine.walk, Engine.reachGroup, Engine.enter, hs.role, hs.entry, hs.ending,
          hs.guarded, he.keeps, reduceCtorEq, if_false, Bool.false_eq_true]
        cases b with
        | either => cases ha
        | _ => rfl
      have hin : Alongside (n'.append rest) inside
          ⟨code', place', start, depth, captures, closings', none⟩ :=
        .mk (.missing rfl hs.ending hn ho)
      rw [henter]
      refine .later (ihb hin (fun code place => ?_) place)
      -- at the end of the group the first machine leaves it, and goes on behind it
      have hleave : e.close m { inside with code, place } =
          .forward m ⟨n, place, start, depth, captures, closings, none⟩ := by
        simp only [Engine.close, Engine.endGroup, inside, frame, hs.ending]
      rw [hleave]
      have hbehind : Alongside rest ⟨n, place, start, depth, captures, closings, none⟩
          ⟨code', place', start, depth, captures, closings', none⟩ :=
        .mk ho
      exact .later (ihn hbehind hend place)

/-- At the end of its code the first machine leaves the groups that the second one misses, by induction on
the groups around. -/
theorem Engines.leave (he : Engines e e') (hm : Machines m m') {closings closings' : List Closing}
    (ha : Around closings rest closings') {code code' : Code} {place' start depth : Nat}
    {captures : Captures} (place : Nat) :
    Catches e (e'.walk m' ⟨code', place', start, depth, captures, closings', none⟩ place rest)
      (e.close m ⟨code, place, start, depth, captures, closings, none⟩) := by
  induction ha generalizing code place with
  | nil => exact .now (he.close hm (.mk .nil) .nil)
  | frame hf ho _ => exact .now (he.close hm (.mk (.frame hf ho)) (.frame hf ho))
  | @missing c n' outer rest outer' hk hs hn ho ih =>
      have hleave : e.close m ⟨code, place, start, depth, captures, c :: outer, none⟩ =
          .forward m ⟨c.next, place, start, depth, captures, outer, none⟩ := by
        simp only [Engine.close, Engine.endGroup, hk, hs]
      rw [hleave]
      exact .later (he.walk hm hn (.mk ho) (fun _ place => ih place) place)

theorem Engines.forward (he : Engines e e') (hm : Machines m m') (ht : Together rest t t') :
    Catches e (e'.next (.forward m' t')) (e.next (.forward m t)) := by
  obtain ⟨ha, c', hs, hc⟩ := ht
  cases ha with
  | mk ha =>
      dsimp only at hs hc
      subst hc
      exact he.walk hm hs (.mk ha) (fun _ place => he.leave hm ha place) _

/-! ## Backward -/

theorem Engines.resumeRepetition (he : Engines e e') (hm : Machines m m') (ht : Together rest t t')
    {r : Resumption} (hr : r.goesOn) :
    Steps (e.resumeRepetition m t r) (e'.resumeRepetition m' t' r) := by
  have hplace := ht.place_eq
  cases r with
  | shorter s low =>
      simp only [Engine.resumeRepetition, he.subject, hplace]
      exact he.tryShorter hm (ht.at _) s low
  | shorterSet s low =>
      simp only [Engine.resumeRepetition, he.subject, hplace]
      exact .ite (.backward hm) (he.tryAgain hm (ht.at _) rfl)
  | longer s left =>
      simp only [Engine.resumeRepetition, he.subject, hplace]
      exact .ite (.backward hm) (.ite (.backward hm) (he.tryAgain hm (ht.at _) rfl))
  | shorterText length low =>
      simp only [Engine.resumeRepetition, hplace]
      exact .ite (.backward hm) (he.tryAgain hm (ht.at _) rfl)
  | fewerTexts span ignoreCase count low =>
      simp only [Engine.resumeRepetition, he.subject, hplace]
      refine .ite (.backward hm) ?_
      split
      · exact .backward hm
      · exact he.tryAgain hm (ht.at _) rfl
  | longerText span ignoreCase left =>
      simp only [Engine.resumeRepetition, he.subject, hplace]
      refine .ite (.backward hm) ?_
      split
      · exact .backward hm
      · exact he.tryAgain hm (ht.at _) rfl
  | _ => exact .backward hm

theorem Branchings.judge_eq {b b' : Branching} (h : Branchings b b') (v : Verdict) :
    b'.judge v = b.judge v := by
  cases h
  rfl

theorem Branchings.callsNone {b b' : Branching} (h : Branchings b b') :
    b'.others = b.others ∧ ∀ o ∈ b.others, o.callsNone := by
  cases h with
  | mk _ ho => exact ⟨rfl, ho⟩

theorem Branchings.shape_eq {b b' : Branching} (h : Branchings b b') : b'.shape = b.shape := by
  cases h
  rfl

theorem Abreast.next (ht : Abreast rest t t') {n n' : Code} (hn : Spliced n n') :
    Together rest { t with code := n } { t' with code := n'.append rest } := by
  cases ht with
  | mk ha => exact .mk_append ha hn

/-- The alternatives that are left are tried, or there are none. -/
theorem Engines.tryLeft (he : Engines e e') (hm : Machines m m') (ht : Abreast rest t t')
    {b b' : Branching} (hb : Branchings b b') {r r' : Branching → Resumption}
    (hr : ∀ b b', Branchings b b' → Resumptions rest (r b) (r' b')) {done done' : Step}
    (hdone : Steps done done') :
    Steps (match b.others with
        | some others => e.tryOthers m t b others t.calling r
        | none => done)
      (match b'.others with
        | some others => e'.tryOthers m' t' b' others t'.calling r'
        | none => done') := by
  obtain ⟨hc, hc'⟩ := ht.calling_eq
  obtain ⟨ho, hnone⟩ := hb.callsNone
  rw [ho, hc, hc']
  cases hl : b.others with
  | none => exact hdone
  | some others => exact he.tryOthers hm ht hb (hnone others hl) hr

theorem Engines.resumeGroup (he : Engines e e') (hm : Machines m m') (ht : Abreast rest t t')
    {r r' : Resumption} (hr : Resumptions rest r r') (v : Verdict) :
    Steps (e.resumeGroup m t v r) (e'.resumeGroup m' t' v r') := by
  obtain ⟨hc, hc'⟩ := ht.calling_eq
  cases hr with
  | @branches b b' all hb =>
      obtain ⟨ho, hnone⟩ := hb.callsNone
      unfold Engine.resumeGroup
      dsimp only
      rw [hb.judge_eq, ho]
      split
      · cases hl : b.others with
        | none => exact .backward hm
        | some others =>
            have hothers := hnone others hl
            rw [hc, hc']
            refine .ite ?_ (he.tryOthers hm ht hb hothers fun _ _ hb => .branches hb)
            cases hb with
            | mk hi _ =>
                cases ht
                exact .inside hm hi (.refl hothers)
      · exact .backward hm
  | @keep b b' body n n' matched hb hbody hn =>
      have hdone : Steps
          (if matched || b.shape.entry = .maybe then .forward m { t with code := n }
            else .backward m .failed)
          (if matched || b'.shape.entry = .maybe then .forward m' { t' with code := n'.append rest }
            else .backward m' .failed) := by
        rw [hb.shape_eq]
        exact .ite (.forward hm (ht.next hn)) (.backward hm)
      have hagain (b b' : Branching) (hb : Branchings b b') :
          Resumptions rest (.keep b body n matched) (.keep b' body (n'.append rest) matched) :=
        .keep hb hbody hn
      have hleft := he.tryLeft hm ht hb hagain hdone
      unfold Engine.resumeGroup
      dsimp only
      rw [hb.judge_eq]
      split
      · exact hleft
      · exact .backward hm
  | _ => exact .backward hm

theorem Engines.resumeLook (he : Engines e e') (hm : Machines m m') (ht : Abreast rest t t')
    {r r' : Resumption} (hr : Resumptions rest r r') (v : Verdict) :
    Steps (e.resumeLook m t v r) (e'.resumeLook m' t' v r') := by
  cases hr with
  | ahead hb hn =>
      have hleft := he.tryLeft hm ht hb (fun _ _ hb => .ahead hb hn) (.backward (v := .failed) hm)
      cases v with
      | accepted captures =>
          cases ht with
          | mk ha => exact .forward hm (.mk_append ha hn)
      | failed | left => exact hleft
      | _ => exact .backward hm
  | avoid hb hn =>
      have hleft := he.tryLeft hm ht hb (fun _ _ hb => .avoid hb hn) (.forward hm (ht.next hn))
      cases v with
      | accepted => exact .backward hm
      | failed | left => exact hleft
      | committed | pruned | skipped => exact .forward hm (ht.next hn)
      | _ => exact .backward hm
  | @decide b b' negated shape yes no body n n' hb hy hno hc hn =>
      have hchoose {u u' : Thread} (hu : Abreast rest u u') (holds : Bool) :
          Steps (e.choose m u shape (if holds != negated then yes else no.getD .stop) body n)
            (e'.choose m' u' shape (if holds != negated then yes else no.getD .stop) body
              (n'.append rest)) := by
        refine he.choose hm hu ?_ hc hn
        split
        · exact hy
        · exact Code.callsNone_getD hno
      have hagain (b b' : Branching) (hb : Branchings b b') :
          Resumptions rest (.decide b negated shape yes no body n)
            (.decide b' negated shape yes no body (n'.append rest)) :=
        .decide hb hy hno hc hn
      have hleft := he.tryLeft hm ht hb hagain (hchoose ht false)
      cases v with
      | accepted captures =>
          cases ht with
          | mk ha => exact hchoose (.mk ha) true
      | failed | left => exact hleft
      | committed | pruned | skipped => exact hchoose ht false
      | skippedTo => exact .backward hm
  | _ => exact .backward hm

theorem Engines.resume (he : Engines e e') (hm : Machines m m') {r r' : Resumption}
    (hw : Waiting t r t' r') (v : Verdict) :
    Steps (e.resume m t r v) (e'.resume m' t' r' v) := by
  cases hw with
  | own ht hr =>
      have hgroup := he.resumeGroup hm ht hr v
      have hlook := he.resumeLook hm ht hr v
      cases hr with
      | branches | keep => exact hgroup
      | ahead | avoid | decide => exact hlook
      | spent => cases v <;> exact .backward hm
      | enter hb hn =>
          cases v with
          | failed => exact he.enter hm ht hb hn
          | _ => exact .backward hm
  | goOn ht hr =>
      have hrepetition := he.resumeRepetition hm ht hr
      obtain ⟨hc, hc'⟩ := ht.abreast.calling_eq
      have hplace := ht.place_eq
      cases r with
      | branches | call | keep | ahead | avoid | decide | enter | spent => cases hr
      | mark name =>
          cases v with
          | skippedTo other calling =>
              unfold Engine.resume
              dsimp only
              rw [hplace]
              exact .backward hm
          | _ => exact .backward hm
      | goOn =>
          cases v with
          | failed => exact .forward hm ht
          | _ => exact .backward hm
      | commit | prune | skip | skipTo | leave =>
          cases v with
          | failed =>
              unfold Engine.resume
              dsimp only
              simp only [hc, hc', hplace]
              exact .backward hm
          | _ => exact .backward hm
      | _ =>
          cases v with
          | failed => exact hrepetition
          | _ => exact .backward hm

theorem Engines.stepBackward (he : Engines e e') (hm : Machines m m') (v : Verdict) :
    Steps (e.stepBackward m v) (e'.stepBackward m' v) := by
  unfold Engine.stepBackward
  cases hm with
  | mk hc =>
      cases hc with
      | none => exact .finished (.mk .none)
      | more hw hb => exact he.resume (.mk hb) hw v

/-! ## Runs -/

/-- One step of the second machine. -/
theorem Engines.next (he : Engines e e') {s s' : Step} (hs : Steps s s') :
    Catches e (e'.next s') (e.next s) := by
  cases hs with
  | forward hm ht => exact he.forward hm ht
  | enter hm ht hb hn => exact .now (he.enter hm ht hb hn)
  | backward hm => exact .now (he.stepBackward hm _)
  | finished hm => exact .now (.finished hm)

end

/-- Steps lead to this end, with so many skips to a mark met on the way. -/
inductive Engine.Ends (e : Engine) : Step → Attempt × Nat → Prop where
  | finished {m a} : Ends e (.finished m a) (a, m.skips)
  | next {s r} : Ends e (e.next s) r → Ends e s r

theorem Engine.Ends.eq_of_finished {e : Engine} {m : Machine} {a : Attempt} {r : Attempt × Nat}
    (h : e.Ends (.finished m a) r) : r = (a, m.skips) := by
  generalize hs : Step.finished m a = s at h
  induction h with
  | finished =>
      cases hs
      rfl
  | next _ ih =>
      subst hs
      exact ih rfl

theorem Engine.Ends.unique {e : Engine} {s : Step} {r r' : Attempt × Nat} (h : e.Ends s r)
    (h' : e.Ends s r') : r = r' := by
  induction h with
  | finished => exact h'.eq_of_finished.symm
  | next hn ih =>
      cases h' with
      | finished => exact Engine.Ends.eq_of_finished hn
      | next hn' => exact ih hn'

/-- A run that did not meet the limit has come to its end. -/
theorem Engine.ends_run {e : Engine} {fuel : Nat} {s : Step}
    (h : (e.run fuel s).1 ≠ .stopped .entryLimit) : e.Ends s (e.run fuel s) := by
  induction fuel generalizing s with
  | zero => exact absurd rfl h
  | succ fuel ih =>
      cases s with
      | finished m a => exact .finished
      | forward | enter | backward => exact .next (ih h)

section
variable {e e' : Engine} {s s' : Step}

theorem Engines.ends (he : Engines e e') {r : Attempt × Nat} (h : e'.Ends s' r)
    (hc : Catches e s' s) : e.Ends s r := by
  induction h generalizing s with
  | finished =>
      induction hc with
      | now hs =>
          cases hs with
          | finished hm =>
              cases hm
              exact .finished
      | later _ ih => exact .next ih
  | next _ ih =>
      induction hc with
      | now hs => exact .next (ih (he.next hs))
      | later _ ihc => exact .next ihc

/-- Unless one of them meets the limit, the runs come to the same end. -/
theorem Engines.run_eq (he : Engines e e') (hs : Steps s s') (fuel fuel' : Nat) :
    (e.run fuel s).1 = .stopped .entryLimit ∨ (e'.run fuel' s').1 = .stopped .entryLimit ∨
      e'.run fuel' s' = e.run fuel s := by
  by_cases h : (e.run fuel s).1 = .stopped .entryLimit
  · exact .inl h
  · by_cases h' : (e'.run fuel' s').1 = .stopped .entryLimit
    · exact .inr (.inl h')
    · exact .inr (.inr ((he.ends (Engine.ends_run h') (.now hs)).unique (Engine.ends_run h)))

theorem Engine.tryFirst_eq {e : Engine} {m : Machine} {t : Thread} {shape : Shape}
    {inside : List Closing} {c : Code} {calling : Option Nat} {r : Branching → Resumption}
    (h : c.hasAlternatives = false) :
    e.tryFirst m t shape inside c calling r =
      e.tryBranch m t (r ⟨inside, shape, shape.upTo, false, none⟩) inside c calling := by
  cases c with
  | either => cases h
  | _ => rfl

/-- Unless one of them meets the limit, an attempt over spliced code has the same outcome. -/
theorem Engines.attempt_eq (he : Engines e e') (hc : Spliced e.program.code e'.program.code)
    (ha : e.program.code.hasAlternatives = false) (hl : e'.program.leaves = e.program.leaves)
    (hg : e'.program.groupCount = e.program.groupCount) (place : Nat) :
    (e.attempt place).1 = .stopped .entryLimit ∨ (e'.attempt place).1 = .stopped .entryLimit ∨
      e'.attempt place = e.attempt place := by
  have ha' := hc.hasAlternatives_eq_false ha
  have hfirst (t : Thread) (ht : Abreast .stop t t) (shape : Shape) :
      Steps (e.tryFirst {} t shape [] e.program.code none fun b => .branches b true)
        (e'.tryFirst {} t shape [] e'.program.code none fun b => .branches b true) := by
    rw [Engine.tryFirst_eq ha, Engine.tryFirst_eq ha']
    exact he.tryBranch (.mk .none) ht (.branches (.mk .nil (by simp))) .nil hc
  unfold Engine.attempt
  simp only [he.settings, hg, hl]
  split
  · exact .inr (.inr rfl)
  · split
    · exact .inl rfl
    · split
      · exact .inr (.inr rfl)
      · exact he.run_eq (hfirst _ (.mk .nil) _) _ _

end

end PatternGrammar.Regex
