import PatternGrammar.Regex.Machine

/-!
# Groups that only hold their items together

A group that is entered once, does nothing by itself and has no alternatives can be opened up: its items take
its place. The machine then makes the same choices, with the same number of entries, and comes to the same end.
Here the states of two machines are related, of which the second one runs over such code with some groups
opened up, and it is shown that the walk forward keeps them related.
-/

namespace PatternGrammar.Regex

/-! ## Code -/

namespace Code

/-- Code with more code behind it. -/
def append : Code → Code → Code
  | .stop, rest => rest
  | .either upTo branch others, rest => .either upTo (branch.append rest) (others.append rest)
  | .step i next, rest => .step i (next.append rest)
  | .group shape body next, rest => .group shape body (next.append rest)

@[simp] theorem append_stop (c : Code) : c.append .stop = c := by
  induction c with
  | stop => rfl
  | either upTo branch others hb ho => rw [append, hb, ho]
  | step i next ih => rw [append, ih]
  | group shape body next _ ih => rw [append, ih]

theorem append_assoc (a b c : Code) : (a.append b).append c = a.append (b.append c) := by
  induction a with
  | stop => rfl
  | either upTo branch others hb ho => rw [append, append, append, hb, ho]
  | step i next ih => rw [append, append, append, ih]
  | group shape body next _ ih => rw [append, append, append, ih]

theorem hasAlternatives_append {a b : Code} (ha : a.hasAlternatives = false)
    (hb : b.hasAlternatives = false) : (a.append b).hasAlternatives = false := by
  cases a with
  | stop => exact hb
  | either upTo branch others => cases ha
  | step i next => rfl
  | group shape body next => rfl

/-- No group is called. -/
def callsNone : Code → Bool
  | .stop => true
  | .either _ branch others => branch.callsNone && others.callsNone
  | .step (.call _) _ => false
  | .step _ next => next.callsNone
  | .group _ body next => body.callsNone && next.callsNone

end Code

/-- The group is entered once and does nothing by itself. -/
structure Shape.IsBare (shape : Shape) : Prop where
  role : shape.role = .plain
  entry : shape.entry = .once
  ending : shape.ending = .once
  guarded : shape.guarded = false

def Instruction.isCall : Instruction → Bool
  | .call _ => true
  | _ => false

/-- Some bare groups are opened up in the second code. There are no calls. -/
inductive Spliced : Code → Code → Prop where
  | stop : Spliced .stop .stop
  | either {upTo b o} : b.callsNone → o.callsNone → Spliced (.either upTo b o) (.either upTo b o)
  | step {i n n'} : i.isCall = false → Spliced n n' → Spliced (.step i n) (.step i n')
  | group {shape b n n'} : b.callsNone → Spliced n n' → Spliced (.group shape b n) (.group shape b n')
  | within {shape b b' n n'} : shape.IsBare → b.hasAlternatives = false → Spliced b b' → Spliced n n' →
      Spliced (.group shape b n) (.group shape b' n')
  | opened {shape b b' n n'} : shape.IsBare → b.hasAlternatives = false → Spliced b b' →
      n.hasAlternatives = false → Spliced n n' → Spliced (.group shape b n) (b'.append n')

/-- The bodies of a group that both codes have. -/
inductive Bodies (shape : Shape) : Code → Code → Prop where
  | same {b} : b.callsNone → Bodies shape b b
  | spliced {b b'} : shape.IsBare → b.hasAlternatives = false → Spliced b b' → Bodies shape b b'

namespace Spliced

variable {c c' n n' b b' : Code} {shape : Shape}

theorem refl (h : c.callsNone) : Spliced c c := by
  induction c with
  | stop => exact .stop
  | either upTo branch others =>
      rw [Code.callsNone, Bool.and_eq_true] at h
      exact .either h.1 h.2
  | step i next ih =>
      cases i with
      | call n => cases h
      | _ => exact .step rfl (ih h)
  | group shape body next _ ih =>
      rw [Code.callsNone, Bool.and_eq_true] at h
      exact .group h.1 (ih h.2)

theorem hasAlternatives_eq_false (h : Spliced c c') (hc : c.hasAlternatives = false) :
    c'.hasAlternatives = false := by
  induction h with
  | opened _ hb _ hn _ ihb ihn => exact Code.hasAlternatives_append (ihb hb) (ihn hn)
  | either _ _ => cases hc
  | _ => rfl

end Spliced

theorem Code.callsNone_split {c : Code} (h : c.callsNone) :
    c.split.1.callsNone ∧ ∀ o ∈ c.split.2, o.callsNone := by
  cases c with
  | either upTo branch others =>
      rw [callsNone, Bool.and_eq_true] at h
      exact ⟨h.1, by rintro _ ⟨⟩; exact h.2⟩
  | _ => exact ⟨h, nofun⟩

/-! ## States -/

/-- What follows is entered at the end of the group. -/
def ClosingKind.isOrdinary : ClosingKind → Bool
  | .plain | .framed => true
  | .condition | .call _ _ _ => false

/-- A group that is open in both machines; in the second one `rest` comes behind what follows it. -/
inductive Frames (rest : Code) : Closing → Closing → Prop where
  | ordinary {kind shape body body' next next' origin height} : kind.isOrdinary →
      Bodies shape body body' → Spliced next next' →
      Frames rest ⟨kind, shape, body, next, origin, height⟩
        ⟨kind, shape, body', next'.append rest, origin, height⟩
  | condition {shape body next origin height} :
      Frames rest ⟨.condition, shape, body, next, origin, height⟩
        ⟨.condition, shape, body, next, origin, height⟩

/-- The open groups of the two machines. In the second one some are missing; `rest` is what comes behind the
innermost of these, up to the end of a group that both have. -/
inductive Around : List Closing → Code → List Closing → Prop where
  | nil : Around [] .stop []
  | missing {c n' outer rest outer'} : c.kind = .plain → c.shape.ending = .once → Spliced c.next n' →
      Around outer rest outer' → Around (c :: outer) (n'.append rest) outer'
  | frame {c c' outer rest outer'} : Frames rest c c' → Around outer rest outer' →
      Around (c :: outer) .stop (c' :: outer')

/-- The threads differ in nothing but their code and the groups around. -/
inductive Abreast (rest : Code) : Thread → Thread → Prop where
  | mk {code code' place start depth captures closings closings'} : Around closings rest closings' →
      Abreast rest ⟨code, place, start, depth, captures, closings, none⟩
        ⟨code', place, start, depth, captures, closings', none⟩

/-- The threads stand at the same place of such code. -/
structure Together (rest : Code) (t t' : Thread) : Prop where
  abreast : Abreast rest t t'
  code : ∃ c', Spliced t.code c' ∧ t'.code = c'.append rest

/-- The groups around an alternative, from the group of the alternative on. -/
inductive Inside : List Closing → List Closing → Prop where
  | nil : Inside [] []
  | frame {c c' outer rest outer'} : Frames rest c c' → Around outer rest outer' →
      Inside (c :: outer) (c' :: outer')

inductive Branchings : Branching → Branching → Prop where
  | mk {inside inside' shape upTo several others} : Inside inside inside' →
      (∀ o ∈ others, o.callsNone) →
      Branchings ⟨inside, shape, upTo, several, others⟩ ⟨inside', shape, upTo, several, others⟩

/-- The thread that waits may go on with its own code. -/
def Resumption.goesOn : Resumption → Bool
  | .enter _ _ _ | .spent | .branches _ _ | .ahead _ _ | .avoid _ _ | .decide _ _ _ _ _ _ _
  | .call _ _ | .keep _ _ _ _ => false
  | _ => true

/-- The same is left to do, with code of its own; `rest` is what follows in the second machine behind the
groups that it misses. -/
inductive Resumptions (rest : Code) : Resumption → Resumption → Prop where
  | spent : Resumptions rest .spent .spent
  | enter {shape b b' n n'} : Bodies shape b b' → Spliced n n' →
      Resumptions rest (.enter shape b n) (.enter shape b' (n'.append rest))
  | branches {b b' all} : Branchings b b' → Resumptions rest (.branches b all) (.branches b' all)
  | ahead {b b' n n'} : Branchings b b' → Spliced n n' →
      Resumptions rest (.ahead b n) (.ahead b' (n'.append rest))
  | avoid {b b' n n'} : Branchings b b' → Spliced n n' →
      Resumptions rest (.avoid b n) (.avoid b' (n'.append rest))
  | decide {b b' negated shape yes no body n n'} : Branchings b b' → yes.callsNone →
      (∀ o ∈ no, o.callsNone) → body.callsNone → Spliced n n' →
      Resumptions rest (.decide b negated shape yes no body n)
        (.decide b' negated shape yes no body (n'.append rest))
  | keep {b b' body n n' matched} : Branchings b b' → body.callsNone → Spliced n n' →
      Resumptions rest (.keep b body n matched) (.keep b' body (n'.append rest) matched)

/-- The threads wait for the same. -/
inductive Waiting : Thread → Resumption → Thread → Resumption → Prop where
  | goOn {t t' r rest} : Together rest t t' → r.goesOn → Waiting t r t' r
  | own {t t' r r' rest} : Abreast rest t t' → Resumptions rest r r' → Waiting t r t' r'

inductive Choosing : Choices → Choices → Prop where
  | none : Choosing .none .none
  | more {t t' r r' below below'} : Waiting t r t' r' → Choosing below below' →
      Choosing (.more t r below) (.more t' r' below')

inductive Machines : Machine → Machine → Prop where
  | mk {choices choices' height entries skips} : Choosing choices choices' →
      Machines ⟨choices, height, entries, skips⟩ ⟨choices', height, entries, skips⟩

inductive Steps : Step → Step → Prop where
  | forward {m m' t t' rest} : Machines m m' → Together rest t t' →
      Steps (.forward m t) (.forward m' t')
  | enter {m m' t t' shape b b' n n' rest} : Machines m m' → Abreast rest t t' →
      Bodies shape b b' → Spliced n n' →
      Steps (.enter m t shape b n) (.enter m' t' shape b' (n'.append rest))
  | backward {m m' v} : Machines m m' → Steps (.backward m v) (.backward m' v)
  | finished {m m' a} : Machines m m' → Steps (.finished m a) (.finished m' a)

/-- Both machines choose alike. -/
theorem Steps.ite {p : Prop} [Decidable p] {a a' b b' : Step} (ha : Steps a a') (hb : Steps b b') :
    Steps (if p then a else b) (if p then a' else b') := by
  split
  · exact ha
  · exact hb

/-- The machines run over the same subject under the same limits; neither gives up alternatives. -/
structure Engines (e e' : Engine) : Prop where
  subject : e'.subject = e.subject
  settings : e'.settings = e.settings
  skips : e'.ignoredSkips = e.ignoredSkips
  crowd : e'.crowd = e.crowd
  keeps : e.hasLeave = false
  keeps' : e'.hasLeave = false

/-! ## Threads -/

section
variable {rest code code' next next' branch : Code} {t t' : Thread} {closings closings' : List Closing}
  {place start depth : Nat} {captures : Captures}

theorem Inside.around (h : Inside closings closings') : Around closings .stop closings' := by
  cases h with
  | nil => exact .nil
  | frame hf ha => exact .frame hf ha

theorem Abreast.calling_eq (h : Abreast rest t t') : t.calling = none ∧ t'.calling = none := by
  cases h
  exact ⟨rfl, rfl⟩

theorem Together.mk_append (ha : Around closings rest closings') (hc : Spliced code code') :
    Together rest ⟨code, place, start, depth, captures, closings, none⟩
      ⟨code'.append rest, place, start, depth, captures, closings', none⟩ :=
  ⟨.mk ha, code', hc, rfl⟩

/-- A thread at the beginning of an alternative. -/
theorem Together.inside (ha : Inside closings closings') (hc : Spliced code code') :
    Together .stop ⟨code, place, start, depth, captures, closings, none⟩
      ⟨code', place, start, depth, captures, closings', none⟩ :=
  ⟨.mk ha.around, code', hc, code'.append_stop.symm⟩

/-- An alternative is entered. -/
theorem Steps.inside {m m' : Machine} (hm : Machines m m') (ha : Inside closings closings')
    (hc : Spliced code code') :
    Steps (.forward m ⟨code, place, start, depth, captures, closings, none⟩)
      (.forward m' ⟨code', place, start, depth, captures, closings', none⟩) :=
  .forward hm (.inside ha hc)

end

/-! ## Entries and cuts -/

section
variable {e e' : Engine} {m m' : Machine} {t t' : Thread} {rest : Code}

theorem Waiting.depth_eq {r r' : Resumption} (h : Waiting t r t' r') : t'.depth = t.depth := by
  cases h with
  | goOn ht _ => cases ht.abreast; rfl
  | own ht _ => cases ht; rfl

theorem Choosing.drop {cs cs' : Choices} (h : Choosing cs cs') (n : Nat) :
    Choosing (cs.drop n) (cs'.drop n) := by
  induction n generalizing cs cs' with
  | zero => exact h
  | succ n ih =>
      cases h with
      | none => exact .none
      | more _ hb => exact ih hb

theorem Machines.cutTo (h : Machines m m') (n : Nat) : Machines (m.cutTo n) (m'.cutTo n) := by
  cases h with
  | mk hc => exact .mk (hc.drop _)

theorem Engines.call (he : Engines e e') (hm : Machines m m') {r r' : Resumption}
    (hw : Waiting t r t' r') {go go' : Machine → Step}
    (hg : ∀ n n', Machines n n' → Steps (go n) (go' n')) :
    Steps (e.call m t r go) (e'.call m' t' r' go') := by
  have hf : e'.refusal? m'.entries t'.depth = e.refusal? m.entries t.depth := by
    cases hm
    simp only [Engine.refusal?, hw.depth_eq, he.crowd, he.settings]
  unfold Engine.call
  rw [hf]
  cases e.refusal? m.entries t.depth with
  | some fault => exact .finished hm
  | none =>
      cases hm with
      | mk hc => exact hg _ _ (.mk (.more hw hc))

theorem Together.deeper (ht : Together rest t t') :
    Together rest { t with depth := t.depth + 1 } { t' with depth := t'.depth + 1 } := by
  obtain ⟨⟨ha⟩, hc⟩ := ht
  exact ⟨.mk ha, hc⟩

theorem Engines.tryNext (he : Engines e e') (hm : Machines m m') (ht : Together rest t t')
    {r r' : Resumption} (hw : Waiting t r t' r') :
    Steps (e.tryNext m t r) (e'.tryNext m' t' r') :=
  he.call hm hw fun _ _ hm => .forward hm ht.deeper

theorem Engines.tryBranch (he : Engines e e') (hm : Machines m m') (ht : Abreast rest t t')
    {r r' : Resumption} (hr : Resumptions rest r r') {inside inside' : List Closing}
    (hi : Inside inside inside') {branch branch' : Code} (hb : Spliced branch branch') :
    Steps (e.tryBranch m t r inside branch none) (e'.tryBranch m' t' r' inside' branch' none) := by
  refine he.call hm (.own ht hr) fun _ _ hm => ?_
  cases ht
  exact .inside hm hi hb

/-! ## Groups -/

theorem Abreast.within (ht : Abreast rest t t') (hm : Machines m m') (kind : ClosingKind)
    (hk : kind.isOrdinary) {shape : Shape} {b b' n n' : Code} (hb : Bodies shape b b')
    (hn : Spliced n n') :
    Inside (t.within m kind shape b n) (t'.within m' kind shape b' (n'.append rest)) := by
  cases ht with
  | mk ha =>
      cases hm
      exact .frame (.ordinary hk hb hn) ha

theorem Engines.tryFirst (he : Engines e e') (hm : Machines m m') (ht : Abreast rest t t')
    {shape : Shape} {inside inside' : List Closing} (hi : Inside inside inside') {body : Code}
    (hb : body.callsNone) {r r' : Branching → Resumption}
    (hr : ∀ b b', Branchings b b' → Resumptions rest (r b) (r' b')) :
    Steps (e.tryFirst m t shape inside body none r) (e'.tryFirst m' t' shape inside' body none r') := by
  cases body with
  | either upTo branch others =>
      rw [Code.callsNone, Bool.and_eq_true] at hb
      refine he.tryBranch hm ht (hr _ _ (.mk hi ?_)) hi (.refl hb.1)
      rintro _ ⟨⟩
      exact hb.2
  | _ => exact he.tryBranch hm ht (hr _ _ (.mk hi (by simp))) hi (.refl hb)

theorem Engines.tryOthers (he : Engines e e') (hm : Machines m m') (ht : Abreast rest t t')
    {b b' : Branching} (hbr : Branchings b b') {others : Code} (ho : others.callsNone)
    {r r' : Branching → Resumption}
    (hr : ∀ b b', Branchings b b' → Resumptions rest (r b) (r' b')) :
    Steps (e.tryOthers m t b others none r) (e'.tryOthers m' t' b' others none r') := by
  cases hbr with
  | mk hi _ =>
      cases others with
      | either upTo branch others =>
          rw [Code.callsNone, Bool.and_eq_true] at ho
          refine he.tryBranch hm ht (hr _ _ (.mk hi ?_)) hi (.refl ho.1)
          rintro _ ⟨⟩
          exact ho.2
      | _ => exact he.tryBranch hm ht (hr _ _ (.mk hi (by simp))) hi (.refl ho)

theorem Engines.choose (he : Engines e e') (hm : Machines m m') (ht : Abreast rest t t')
    {shape : Shape} {branch body n n' : Code} (hbr : branch.callsNone) (hb : body.callsNone)
    (hn : Spliced n n') :
    Steps (e.choose m t shape branch body n) (e'.choose m' t' shape branch body (n'.append rest)) := by
  have hi (kind : ClosingKind) (hk : kind.isOrdinary) :
      Inside (t.within m kind shape body n) (t'.within m' kind shape body (n'.append rest)) :=
    ht.within hm kind hk (.same hb) hn
  cases hg : shape.guarded with
  | true =>
      simp only [Engine.choose, hg, if_true]
      refine he.call hm (.own ht .spent) fun _ _ hm => ?_
      cases ht
      exact .inside hm (hi .framed rfl) (.refl hbr)
  | false =>
      simp only [Engine.choose, hg, Bool.false_eq_true, if_false]
      cases ht
      exact .inside hm (hi .plain rfl) (.refl hbr)

theorem Code.callsNone_getD {no : Option Code} (h : ∀ o ∈ no, o.callsNone) :
    (no.getD .stop).callsNone := by
  cases no with
  | none => rfl
  | some o => exact h o rfl

theorem Engines.enterConditional (he : Engines e e') (hm : Machines m m') (ht : Abreast rest t t')
    {shape : Shape} {test : Test} {body n n' : Code} (hb : body.callsNone) (hn : Spliced n n') :
    Steps (e.enterConditional m t shape test body n)
      (e'.enterConditional m' t' shape test body (n'.append rest)) := by
  obtain ⟨hyes, hno⟩ := Code.callsNone_split hb
  obtain ⟨hc, hc'⟩ := ht.calling_eq
  have hgo (holds : Bool) : Steps
      (e.choose m t shape (if holds then body.split.1 else body.split.2.getD .stop) body n)
      (e'.choose m' t' shape (if holds then body.split.1 else body.split.2.getD .stop) body
        (n'.append rest)) := by
    refine he.choose hm ht ?_ hb hn
    split
    · exact hyes
    · exact Code.callsNone_getD hno
  have hcaptures : t'.captures = t.captures := by
    cases ht
    rfl
  cases test with
  | captured numbers =>
      simp only [Engine.enterConditional, hcaptures]
      exact hgo _
  | inCall numbers =>
      simp only [Engine.enterConditional, hc, hc']
      exact hgo false
  | constant holds => exact hgo holds
  | look =>
      simp only [Engine.enterConditional, hc, hc']
      -- what stands first in the group decides, if it is a group
      split
      · next look condition yes heq =>
          rw [heq, Code.callsNone, Bool.and_eq_true] at hyes
          refine he.tryFirst hm ht ?_ hyes.1 fun b b' hbr => .decide hbr hyes.2 hno hb hn
          cases ht with
          | mk ha =>
              cases hm
              exact .frame .condition ha
      · exact hgo false

/-- A group is entered that both codes have; the threads stand in front of it. -/
theorem Engines.enter (he : Engines e e') (hm : Machines m m') (ht : Abreast rest t t')
    {shape : Shape} {b b' n n' : Code} (hb : Bodies shape b b') (hn : Spliced n n') :
    Steps (e.enter m t shape b n) (e'.enter m' t' shape b' (n'.append rest)) := by
  obtain ⟨hc, hc'⟩ := ht.calling_eq
  have hi (kind : ClosingKind) (hk : kind.isOrdinary) :
      Inside (t.within m kind shape b n) (t'.within m' kind shape b' (n'.append rest)) :=
    ht.within hm kind hk hb hn
  have hforward (h : Spliced b b') :
      Steps (.forward m { t with code := b, closings := t.within m .plain shape b n })
        (.forward m' { t' with code := b', closings := t'.within m' .plain shape b' (n'.append rest) }) := by
    cases ht
    exact .inside hm (hi .plain rfl) h
  cases hb with
  | spliced hs ha h =>
      have ha' := h.hasAlternatives_eq_false ha
      unfold Engine.enter
      simp only [hs.role, hs.ending, hs.guarded, he.keeps, he.keeps', reduceCtorEq, if_false,
        Bool.false_eq_true]
      cases b with
      | either => cases ha
      | _ =>
          cases b' with
          | either => cases ha'
          | _ => exact hforward h
  | same h =>
      have hfirst (kind : ClosingKind) (hk : kind.isOrdinary) {r r' : Branching → Resumption}
          (hr : ∀ b b', Branchings b b' → Resumptions rest (r b) (r' b')) :
          Steps (e.tryFirst m t shape (t.within m kind shape b n) b t.calling r)
            (e'.tryFirst m' t' shape (t'.within m' kind shape b (n'.append rest)) b t'.calling r') := by
        rw [hc, hc']
        exact he.tryFirst hm ht (hi kind hk) h hr
      unfold Engine.enter
      rw [he.keeps, he.keeps']
      cases shape.role with
      | conditional test => exact he.enterConditional hm ht h hn
      | look look =>
          dsimp only
          split
          · exact hfirst .framed rfl fun _ _ hb => .avoid hb hn
          · exact hfirst .framed rfl fun _ _ hb => .ahead hb hn
      | plain =>
          dsimp only
          split
          · exact hfirst .framed rfl fun _ _ hb => .keep hb h hn
          · split
            · exact hfirst .framed rfl fun _ _ hb => .branches hb
            · rw [if_neg Bool.false_ne_true, if_neg Bool.false_ne_true]
              cases b with
              | either => exact hfirst .plain rfl fun _ _ hb => .branches hb
              | _ => exact hforward (.refl h)
      | capture number again =>
          dsimp only
          split
          · exact hfirst .framed rfl fun _ _ hb => .keep hb h hn
          · exact hfirst .framed rfl fun _ _ hb => .branches hb
      | atomic | scriptRun => exact hfirst .framed rfl fun _ _ hb => .branches hb

theorem Engines.reachGroup (he : Engines e e') (hm : Machines m m') (ht : Abreast rest t t')
    {shape : Shape} {b b' n n' : Code} (hb : Bodies shape b b') (hn : Spliced n n') :
    Steps (e.reachGroup m t shape b n) (e'.reachGroup m' t' shape b' (n'.append rest)) := by
  have hbehind : Together rest { t with code := n } { t' with code := n'.append rest } := by
    cases ht with
    | mk ha => exact .mk_append ha hn
  have henter := he.enter hm ht hb hn
  unfold Engine.reachGroup
  cases shape.entry with
  | once => exact henter
  | never => exact .forward hm hbehind
  | maybe =>
      dsimp only
      split
      · exact henter
      · refine he.call hm (.goOn hbehind rfl) fun _ _ hm => .enter hm ?_ hb hn
        cases ht with
        | mk ha => exact .mk ha
  | maybeNot => exact he.tryNext hm hbehind (.own hbehind.abreast (.enter hb hn))

/-! ## Ends -/

theorem Frames.height_eq {c c' : Closing} (h : Frames rest c c') : c'.height = c.height := by
  cases h <;> rfl

theorem Branchings.spent {b b' : Branching} (h : Branchings b b') : Branchings b.spent b'.spent := by
  cases h with
  | mk hi _ => exact .mk hi (by simp)

theorem Waiting.exhausted {r r' : Resumption} (h : Waiting t r t' r') :
    Waiting t r.exhausted t' r'.exhausted := by
  cases h with
  | goOn ht hr =>
      cases r with
      | branches | ahead => cases hr
      | _ => exact .goOn ht hr
  | own ht hr =>
      cases hr with
      | branches hb => exact .own ht (.branches hb.spent)
      | ahead hb hn => exact .own ht (.ahead hb.spent hn)
      | spent => exact .own ht .spent
      | enter hb hn => exact .own ht (.enter hb hn)
      | avoid hb hn => exact .own ht (.avoid hb hn)
      | decide hb hy hno hc hn => exact .own ht (.decide hb hy hno hc hn)
      | keep hb hc hn => exact .own ht (.keep hb hc hn)

theorem Machines.settle (hm : Machines m m') {c c' : Closing} (hf : Frames rest c c') :
    Machines (m.settle c) (m'.settle c') := by
  have hcut := hm.cutTo (c.height + 1)
  unfold Machine.settle
  rw [hf.height_eq]
  generalize m.cutTo (c.height + 1) = n, m'.cutTo (c.height + 1) = n' at hcut
  cases hcut with
  | mk hc =>
      cases hc with
      | none => exact .mk .none
      | more hw hb => exact .mk (.more hw.exhausted hb)

theorem Machines.unwind (hm : Machines m m') {c c' : Closing} (hf : Frames rest c c')
    {go go' : Machine → Thread → Resumption → Step}
    (hg : ∀ n n' t t' r r', Machines n n' → Waiting t r t' r' → Steps (go n t r) (go' n' t' r')) :
    Steps (m.unwind c go) (m'.unwind c' go') := by
  have hcut := hm.cutTo (c.height + 1)
  unfold Machine.unwind
  rw [hf.height_eq]
  generalize m.cutTo (c.height + 1) = n, m'.cutTo (c.height + 1) = n' at hcut
  cases hcut with
  | mk hc =>
      cases hc with
      | none => exact .backward (.mk .none)
      | more hw hb => exact hg _ _ _ _ _ _ (.mk hb) hw

theorem Engines.conclude (he : Engines e e') (hm : Machines m m') (ht : Abreast rest t t') :
    Steps (e.conclude m t) (e'.conclude m' t') := by
  cases ht
  unfold Engine.conclude
  rw [he.settings]
  dsimp only
  split
  · exact .backward hm
  · exact .finished hm

theorem Inside.moved {c c' : Closing} {outer outer' : List Closing} (h : Inside (c :: outer) (c' :: outer'))
    (place : Nat) : Inside ({ c with origin := place } :: outer) ({ c' with origin := place } :: outer') := by
  cases h with
  | frame hf ha =>
      cases hf with
      | ordinary hk hb hn => exact .frame (.ordinary hk hb hn) ha
      | condition => exact .frame .condition ha

/-- The end of a group that both machines have; the threads are those that come to it. -/
theorem Engines.endGroup (he : Engines e e') (hm : Machines m m') {behind : Code}
    (ht : Abreast behind t t') {c c' : Closing} {outer outer' : List Closing} (hf : Frames rest c c')
    (hk : c.kind.isOrdinary) (ho : Around outer rest outer') :
    Steps (e.endGroup m t c outer) (e'.endGroup m' t' c' outer') := by
  cases ht
  cases hf with
  | condition => cases hk
  | ordinary hk hb hn =>
      unfold Engine.endGroup
      dsimp only
      split
      · exact .forward hm (.mk_append ho hn)
      · exact .ite (he.call hm (.goOn (.mk_append ho hn) rfl) fun _ _ hm => .enter hm (.mk ho) hb hn)
          (.forward hm (.mk_append ho hn))
      · exact .ite (he.tryNext hm (.mk_append ho hn) (.own (.mk ho) (.enter hb hn)))
          (.forward hm (.mk_append ho hn))
      · refine hm.unwind (.ordinary hk hb hn) fun n n' t t' r r' hm hw => ?_
        cases hw with
        | goOn ht hr =>
            cases r with
            | keep => cases hr
            | _ => exact .backward hm
        | own ht hr =>
            cases hr with
            | keep hbr hb hn =>
                cases ht with
                | mk ha =>
                    refine .ite (.forward hm (.mk_append ha hn)) ?_
                    cases hbr with
                    | mk hi _ =>
                        refine he.tryFirst hm (.mk ha) ?_ hb fun _ _ hbr => .keep hbr hb hn
                        cases hi with
                        | nil => exact .nil
                        | frame hf ho => exact Inside.moved (.frame hf ho) _
            | _ => exact .backward hm

/-- The end of a group that keeps where it began. -/
theorem Engines.closeGroup (he : Engines e e') (hm : Machines m m') {behind : Code}
    (ht : Abreast behind t t') {c c' : Closing} {outer outer' : List Closing} (hf : Frames rest c c')
    (hk : c.kind.isOrdinary) (ho : Around outer rest outer') :
    Steps (e.closeGroup m t c outer) (e'.closeGroup m' t' c' outer') := by
  have hend {n n' : Machine} {u u' : Thread} (hm : Machines n n') (ht : Abreast behind u u') :
      Steps (e.endGroup n u c outer) (e'.endGroup n' u' c' outer') :=
    he.endGroup hm ht hf hk ho
  have hsettle := hm.settle hf
  have hunwind : Steps (m.unwind c fun m _ _ => .backward m .failed)
      (m'.unwind c' fun m _ _ => .backward m .failed) :=
    hm.unwind hf fun _ _ _ _ _ _ hm _ => .backward hm
  cases ht with
  | mk ha =>
      cases hf with
      | condition => cases hk
      | ordinary _ _ _ =>
          unfold Engine.closeGroup
          dsimp only at hend hsettle hunwind ⊢
          split
          · exact hend hm (.mk ha)
          · exact hend hm (.mk ha)
          · exact hend hm (.mk ha)
          · exact hend hsettle (.mk ha)
          · rw [he.subject]
            exact .ite (hend hm (.mk ha)) (.backward hm)
          · refine .ite hunwind (hend ?_ (.mk ha))
            split
            · exact hsettle
            · exact hm

/-- The code of an alternative has ended. -/
theorem Engines.close (he : Engines e e') (hm : Machines m m') {behind : Code}
    (ht : Abreast behind t t') (hi : Inside t.closings t'.closings) :
    Steps (e.close m t) (e'.close m' t') := by
  have hconclude := he.conclude hm ht
  cases ht with
  | mk ha =>
  cases hi with
  | nil => exact hconclude
  | frame hf ho =>
      cases hf with
      | @ordinary kind _ _ _ _ _ _ _ hk hb hn =>
          cases kind with
          | plain => exact he.endGroup hm (.mk ha) (.ordinary hk hb hn) hk ho
          | framed => exact he.closeGroup hm (.mk ha) (.ordinary hk hb hn) hk ho
          | condition | call => cases hk
      | condition =>
          unfold Engine.close
          dsimp only
          refine hm.unwind (.condition : Frames .stop _ _) fun n n' t t' r r' hm hw => ?_
          cases hw with
          | goOn ht hr =>
              cases r with
              | decide => cases hr
              | _ => exact .backward hm
          | own ht hr =>
              cases hr with
              | decide hbr hyes hno hb hn =>
                  refine he.choose hm ?_ ?_ hb hn
                  · cases ht with
                    | mk ha => exact .mk ha
                  · split
                    · exact Code.callsNone_getD hno
                    · exact hyes
              | _ => exact .backward hm

/-! ## Instructions -/

/-- The group is closed as one of this number. -/
def Closing.isOf (n : Nat) (c : Closing) : Bool :=
  match c.kind, c.shape.role with
  | .framed, .capture m _ => m = n
  | _, _ => false

theorem Around.origin_eq {closings closings' : List Closing} (h : Around closings rest closings')
    (n : Nat) :
    (closings'.find? (Closing.isOf n)).map (·.origin) = (closings.find? (Closing.isOf n)).map (·.origin) := by
  induction h with
  | nil => rfl
  | missing hk _ _ _ ih =>
      rw [ih, List.find?_cons_of_neg]
      simp [Closing.isOf, hk]
  | frame hf _ ih =>
      cases hf with
      | ordinary _ _ _ =>
          rw [List.find?_cons, List.find?_cons, Closing.isOf, Closing.isOf]
          dsimp only
          split
          · rfl
          · exact ih
      | condition => exact ih

theorem closeEarly_eq_map (t : Thread) (captures : Captures) (n : Nat) :
    closeEarly t captures n =
      match (t.closings.find? (Closing.isOf n)).map (·.origin) with
      | some origin => captures.setIfInBounds n (some (origin, t.place))
      | none => captures := by
  cases h : t.closings.find? (Closing.isOf n) with
  | none | some _ =>
      unfold closeEarly
      erw [h]
      rfl

theorem closeEarly_eq (ht : Abreast rest t t') (captures : Captures) (n : Nat) :
    closeEarly t' captures n = closeEarly t captures n := by
  rw [closeEarly_eq_map, closeEarly_eq_map]
  cases ht with
  | mk ha => rw [ha.origin_eq]

theorem Engines.accept (he : Engines e e') (hm : Machines m m') (ht : Together rest t t')
    (inLook : Bool) (closing : List Nat) :
    Steps (e.accept m t inLook closing) (e'.accept m' t' inLook closing) := by
  obtain ⟨hc, hc'⟩ := ht.abreast.calling_eq
  have hclosed : closing.foldl (closeEarly t') t'.captures = closing.foldl (closeEarly t) t.captures := by
    have hf : closeEarly t' = closeEarly t := funext fun cs => funext (closeEarly_eq ht.abreast cs)
    rw [hf]
    cases ht.abreast
    rfl
  unfold Engine.accept
  simp only [hc, hc', Option.isSome_none, Bool.false_eq_true, if_false, hclosed]
  refine .ite (.backward hm) (he.conclude hm (?_ : Abreast rest _ _))
  cases ht.abreast with
  | mk ha => exact .mk ha

/-- The thread with another place or start, or with other captures. -/
theorem Together.at (ht : Together rest t t') (place : Nat) :
    Together rest { t with place } { t' with place } := by
  obtain ⟨⟨ha⟩, hc⟩ := ht
  exact ⟨.mk ha, hc⟩

theorem Together.place_eq (ht : Together rest t t') : t'.place = t.place := by
  cases ht.abreast
  rfl

theorem Engines.tryAgain (he : Engines e e') (hm : Machines m m') (ht : Together rest t t')
    {r : Resumption} (hr : r.goesOn) : Steps (e.tryNext m t r) (e'.tryNext m' t' r) :=
  he.tryNext hm ht (.goOn ht hr)

theorem Engines.tryShorter (he : Engines e e') (hm : Machines m m') (ht : Together rest t t')
    (s : Single) (low : Nat) : Steps (e.tryShorter m t s low) (e'.tryShorter m' t' s low) := by
  unfold Engine.tryShorter
  rw [ht.place_eq]
  exact .ite (.forward hm ht) (he.tryAgain hm ht rfl)

theorem Engines.repeatSingle (he : Engines e e') (hm : Machines m m') (ht : Together rest t t')
    (s : Single) (times : Times) :
    Steps (e.repeatSingle m t s times) (e'.repeatSingle m' t' s times) := by
  unfold Engine.repeatSingle
  rw [ht.place_eq, he.subject]
  split
  · exact .backward hm
  · next low _ =>
      split
      · exact he.tryAgain hm (ht.at low) rfl
      all_goals
        dsimp only
        split
        · exact he.tryAgain hm (ht.at _) rfl
        · exact he.tryShorter hm (ht.at _) s low

theorem Engines.refer (he : Engines e e') (hm : Machines m m') (ht : Together rest t t')
    (numbers : List Nat) (ignoreCase : Bool) (times : Times) :
    Steps (e.refer m t numbers ignoreCase times) (e'.refer m' t' numbers ignoreCase times) := by
  have hcaptures : t'.captures = t.captures := by
    cases ht.abreast
    rfl
  have hspan : (numbers.findSome? fun n => t'.captures.getD n none) =
      numbers.findSome? fun n => t.captures.getD n none := by
    rw [hcaptures]
  unfold Engine.refer
  rw [hspan, ht.place_eq, he.subject]
  split
  · exact .ite (.forward hm ht) (.backward hm)
  · next span _ =>
      refine .ite (.forward hm ht) ?_
      split
      · exact .backward hm
      · next low _ =>
          refine .ite (.forward hm (ht.at low)) (.ite (he.tryAgain hm (ht.at low) rfl) ?_)
          exact .ite (he.tryAgain hm (ht.at _) rfl) (he.tryAgain hm (ht.at _) rfl)

end

end PatternGrammar.Regex
