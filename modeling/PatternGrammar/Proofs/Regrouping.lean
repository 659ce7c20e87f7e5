import PatternGrammar.Proofs.SplicedRuns

/-!
# An expression in a group of its own

An expression can be put into a capturing group that takes in all of it, if the groups inside are then referred to
by numbers one higher. Here the states of two machines are related, of which the second one runs over such an
expression, and it is shown that the machines go on alike inside the group. The second one has entered the matcher
once more than the first. Nothing is said of the number of entries: a machine that meets a limit is not compared.
-/

namespace PatternGrammar.Regex

/-! ## Numbers one higher -/

def Test.raised : Test → Test
  | .captured numbers => .captured (numbers.map (· + 1))
  | .inCall numbers => .inCall (numbers.map (·.map (· + 1)))
  | test => test

def Role.raised : Role → Role
  | .capture number again => .capture (number + 1) again
  | .conditional test => .conditional test.raised
  | role => role

def Shape.raised (shape : Shape) : Shape := { shape with role := shape.role.raised }

/-- The captures with one more in front. -/
def Captures.raised (captures : Captures) : Captures := #[none] ++ captures

/-- The number of the group that is called. -/
def raisedCall (calling : Option Nat) : Option Nat := calling.map (· + 1)

def Verdict.raised : Verdict → Verdict
  | .failed => .failed
  | .accepted captures => .accepted captures.raised
  | .committed calling => .committed (raisedCall calling)
  | .pruned calling => .pruned (raisedCall calling)
  | .skipped place calling => .skipped place (raisedCall calling)
  | .skippedTo name calling => .skippedTo name (raisedCall calling)
  | .left place calling => .left place (raisedCall calling)

def Attempt.raised : Attempt → Attempt
  | .refused v => .refused v.raised
  | a => a

theorem Captures.getD_raised (captures : Captures) (n : Nat) :
    captures.raised.getD (n + 1) none = captures.getD n none := by
  rw [Array.getD_eq_getD_getElem?, Array.getD_eq_getD_getElem?, raised, Array.getElem?_append_right (by simp)]
  simp

theorem Captures.setIfInBounds_raised (captures : Captures) (n : Nat) (x : Option (Nat × Nat)) :
    captures.raised.setIfInBounds (n + 1) x = Captures.raised (captures.setIfInBounds n x) := by
  apply Array.ext'
  simp [Captures.raised]

/-! ## Code -/

/-- The instruction names groups, or ends the match within them. -/
def Instruction.isNumbered : Instruction → Bool
  | .refer _ _ _ | .call _ | .accept _ _ => true
  | _ => false

/-- The instruction with numbers one higher. The groups that it calls are groups of the program, and not the
program as a whole; it does not end the match. -/
inductive Instruction.Raised (p : Program) : Instruction → Instruction → Prop where
  | refer {numbers ignoreCase times} :
      Raised p (.refer numbers ignoreCase times) (.refer (numbers.map (· + 1)) ignoreCase times)
  | call {n} : n ≠ 0 → (p.definition? n).isSome → Raised p (.call n) (.call (n + 1))
  | same {i} : i.isNumbered = false → Raised p i i

/-- The code with numbers one higher. -/
inductive Code.Raised (p : Program) : Code → Code → Prop where
  | stop : Raised p .stop .stop
  | either {upTo b b' o o'} : Raised p b b' → Raised p o o' → Raised p (.either upTo b o) (.either upTo b' o')
  | step {i i' n n'} : i.Raised p i' → Raised p n n' → Raised p (.step i n) (.step i' n')
  | group {shape b b' n n'} : Raised p b b' → Raised p n n' →
      Raised p (.group shape b n) (.group shape.raised b' n')

theorem Code.Raised.hasAlternatives {p : Program} {c c' : Code} (h : c.Raised p c') :
    c'.hasAlternatives = c.hasAlternatives := by
  cases h <;> rfl

theorem Code.Raised.split {p : Program} {c c' : Code} (h : c.Raised p c') :
    Code.Raised p c.split.1 c'.split.1 ∧ Option.Rel (Code.Raised p) c.split.2 c'.split.2 := by
  cases h with
  | either hb ho => exact ⟨hb, .some ho⟩
  | stop => exact ⟨.stop, .none⟩
  | step hi hn => exact ⟨.step hi hn, .none⟩
  | group hb hn => exact ⟨.group hb hn, .none⟩

theorem Code.Raised.getD {p : Program} {c c' : Option Code} (h : Option.Rel (Code.Raised p) c c') :
    Code.Raised p (c.getD .stop) (c'.getD .stop) := by
  cases h with
  | none => exact .stop
  | some h => exact h

/-- Nothing but conditions on the place. -/
def Code.isAnchors : Code → Bool
  | .stop => true
  | .step (.anchor _) next => next.isAnchors
  | _ => false

/-- No alternative is left, and none can be given up. -/
structure Branching.IsSpent (b : Branching) : Prop where
  others : b.others = none
  last : b.shape.upTo = 0
  upTo : b.upTo = 0

theorem Branching.IsSpent.judge {b : Branching} (h : b.IsSpent) (v : Verdict) : b.judge v = v := by
  unfold Branching.judge
  rw [h.upTo]
  cases v with
  | left => simp
  | _ => rfl

namespace Choices

def count : Choices → Nat
  | .none => 0
  | .more _ _ below => below.count + 1

theorem count_drop (cs : Choices) (n : Nat) : (cs.drop n).count = cs.count - n := by
  induction n generalizing cs with
  | zero => rfl
  | succ n ih =>
      cases cs with
      | none => simp [drop, count]
      | more t r below => rw [drop, ih, count, Nat.add_sub_add_right]

/-- There is nothing else to do with the choice on top. -/
def exhausted : Choices → Choices
  | .more t r below => .more t r.exhausted below
  | .none => .none

theorem count_exhausted (cs : Choices) : cs.exhausted.count = cs.count := by
  cases cs <;> rfl

end Choices

theorem Machine.settle_eq (m : Machine) (c : Closing) :
    m.settle c = { m.cutTo (c.height + 1) with choices := (m.cutTo (c.height + 1)).choices.exhausted } := by
  unfold Machine.settle
  dsimp only
  cases h : (m.cutTo (c.height + 1)).choices with
  | none =>
      simp only [Choices.exhausted]
      rw [← h]
  | more t r below => simp only [Choices.exhausted]

namespace Grouped

/-! ## States -/

/-- How the groups around the expression differ in the two machines. The second one stands in a group more, and
has so many choices more. -/
structure Region where
  lift : Nat
  around : List Closing
  around' : List Closing
  outer : Closing

/-- The group ends once, and then these conditions on the place are left. -/
structure IsLast (tail : Code) (c : Closing) : Prop where
  kind : c.kind = .plain
  ending : c.shape.ending = .once
  next : c.next = tail
  tail : tail.isAnchors

/-- The expression is the whole, or what is around it is a group with nothing but anchors behind. -/
structure Region.Sound (R : Region) : Prop where
  kind : R.outer.kind = .framed
  role : ∃ again, R.outer.shape.role = .capture 1 again
  ending : R.outer.shape.ending = .once
  next : R.outer.next = .stop
  around : R.around = [] ∧ R.around' = [] ∨
    ∃ tail c c', R.around = [c] ∧ R.around' = [c'] ∧ IsLast tail c ∧ IsLast tail c'

variable (p : Program) (R : Region)

inductive Kinds : ClosingKind → ClosingKind → Prop where
  | plain : Kinds .plain .plain
  | framed : Kinds .framed .framed
  | condition : Kinds .condition .condition
  | call {n captures calling} : n ≠ 0 →
      Kinds (.call n captures calling) (.call (n + 1) captures.raised (raisedCall calling))

/-- A group that is open in both machines. -/
structure Frames (c c' : Closing) : Prop where
  kind : Kinds c.kind c'.kind
  shape : c'.shape = c.shape.raised
  body : Code.Raised p c.body c'.body
  next : Code.Raised p c.next c'.next
  origin : c'.origin = c.origin
  height : c'.height = c.height + R.lift

/-- The open groups of the two machines. -/
inductive Around : List Closing → List Closing → Prop where
  | ground : Around R.around (R.outer :: R.around')
  | frame {c c' outer outer'} : Frames p R c c' → Around outer outer' → Around (c :: outer) (c' :: outer')

/-- The threads have found the same so far. -/
structure Alike (t t' : Thread) : Prop where
  place : t'.place = t.place
  start : t'.start = t.start
  captures : t'.captures = t.captures.raised
  calling : t'.calling = raisedCall t.calling

/-- The threads stand in the same groups. -/
structure Abreast (t t' : Thread) : Prop extends Alike t t' where
  closings : Around p R t.closings t'.closings

/-- The threads stand in front of the same code. -/
structure Together (t t' : Thread) : Prop extends Abreast p R t t' where
  code : Code.Raised p t.code t'.code

/-- The innermost one of the open groups is open in both machines. -/
inductive Nested : List Closing → List Closing → Prop where
  | frame {c c' outer outer'} : Frames p R c c' → Around p R outer outer' → Nested (c :: outer) (c' :: outer')

structure Branchings (b b' : Branching) : Prop where
  inside : Around p R b.inside b'.inside
  last : b'.shape.upTo = b.shape.upTo
  entry : b'.shape.entry = b.shape.entry
  upTo : b'.upTo = b.upTo
  several : b'.several = b.several
  others : Option.Rel (Code.Raised p) b.others b'.others

/-- The same is left to do for threads that stand in the same groups. -/
inductive Resumptions : Resumption → Resumption → Prop where
  | spent : Resumptions .spent .spent
  | enter (shape : Shape) {b b' n n'} : Code.Raised p b b' → Code.Raised p n n' →
      Resumptions (.enter shape b n) (.enter shape.raised b' n')
  | ahead {b b' n n'} : Branchings p R b b' → Code.Raised p n n' → Resumptions (.ahead b n) (.ahead b' n')
  | avoid {b b' n n'} : Branchings p R b b' → Code.Raised p n n' → Resumptions (.avoid b n) (.avoid b' n')
  | decide {b b'} (negated : Bool) (shape : Shape) {yes yes' no no' body body' n n'} : Branchings p R b b' →
      Code.Raised p yes yes' → Option.Rel (Code.Raised p) no no' → Code.Raised p body body' →
      Code.Raised p n n' →
      Resumptions (.decide b negated shape yes no body n) (.decide b' negated shape.raised yes' no' body' n')
  | keep {b b' body body' n n' matched} : Branchings p R b b' → Nested p R b.inside b'.inside →
      Code.Raised p body body' → Code.Raised p n n' →
      Resumptions (.keep b body n matched) (.keep b' body' n' matched)

/-- The threads wait for the same. -/
inductive Waiting : Thread → Resumption → Thread → Resumption → Prop where
  | goOn {t t' r} : Together p R t t' → r.goesOn → Waiting t r t' r
  | own {t t' r r'} : Abreast p R t t' → Resumptions p R r r' → Waiting t r t' r'
  | branches {t t' b b' all} : Alike t t' → Branchings p R b b' → Waiting t (.branches b all) t' (.branches b' all)
  | call {t t' b b' n} : n ≠ 0 → Alike t t' → Branchings p R b b' → Waiting t (.call n b) t' (.call (n + 1) b')

/-- Nothing is left to try. -/
inductive Inert : Choices → Prop where
  | none : Inert .none
  | more {t b all below} : b.IsSpent → Inert below → Inert (.more t (.branches b all) below)

/-- The choices of the two machines. Below those made in the expression nothing is left to try, but the first
machine may give an entry of its own to all alternatives of the expression except for the last one. -/
inductive Choosing : Choices → Choices → Prop where
  | ground {cs cs'} : Inert cs → Inert cs' → Choosing cs cs'
  | more {t t' r r' below below'} : Waiting p R t r t' r' → Choosing below below' →
      Choosing (.more t r below) (.more t' r' below')
  | outermost {t t' b b' below below'} : Alike t t' → Branchings p R b b' → b.shape.upTo = 0 →
      b.inside = R.around → b'.inside = R.outer :: R.around' → Inert below → Inert below' →
      Choosing (.more t (.branches b false) below) (.more t' (.branches b' true) below')

structure Machines (m m' : Machine) : Prop where
  sound : R.Sound
  choices : Choosing p R m.choices m'.choices
  count : m.choices.count ≤ m.height
  height : m'.height = m.height + R.lift
  skips : m'.skips = m.skips

end Grouped

/-- The search is given up because of its size. -/
def SearchFault.isLimit : SearchFault → Bool
  | .entryLimit | .depthLimit | .memoryLimit => true
  | .nestedCall | .strayAccept => false

/-- A limit has been met. -/
def Attempt.isLimited : Attempt → Bool
  | .stopped fault => fault.isLimit
  | _ => false

def Step.isLimited : Step → Bool
  | .finished _ a => a.isLimited
  | _ => false

namespace Grouped

variable (p : Program)

/-- The machines take the same steps, unless one of them has met a limit. -/
inductive Steps : Step → Step → Prop where
  | forward {R m m' t t'} : Machines p R m m' → Together p R t t' → Steps (.forward m t) (.forward m' t')
  | enter {R m m' t t' shape b b' n n'} : Machines p R m m' → Abreast p R t t' → Code.Raised p b b' →
      Code.Raised p n n' → Steps (.enter m t shape b n) (.enter m' t' shape.raised b' n')
  | backward {R m m' v} : Machines p R m m' → Steps (.backward m v) (.backward m' v.raised)
  | refused {m m' v} : Inert m.choices → Inert m'.choices → m'.skips = m.skips →
      Steps (.backward m v) (.backward m' v.raised)
  /-- The expression has matched, and the conditions on the place behind it are left. -/
  | behind {R m m' t t'} : Machines p R m m' → t'.place = t.place → t'.start = t.start →
      t.code.isAnchors → t'.code = t.code → t.closings = [] → t'.closings = [] →
      Steps (.forward m t) (.forward m' t')
  | finished {m m' a} : m'.skips = m.skips → Steps (.finished m a) (.finished m' a.raised)
  | limited {s s'} : s.isLimited ∨ s'.isLimited → Steps s s'

/-- The machines run over the same subject, and neither gives up alternatives. The groups that the first one can
call are groups that the second one can call. -/
structure Engines (e e' : Engine) : Prop where
  subject : e'.subject = e.subject
  settings : e'.settings = e.settings
  skips : e'.ignoredSkips = e.ignoredSkips
  keeps : e.hasLeave = false
  keeps' : e'.hasLeave = false
  definitions : ∀ n ≠ 0, (p.definition? n).isSome →
    ∃ d d', e.program.definition? n = some d ∧ e'.program.definition? (n + 1) = some d' ∧
      d'.shape = d.shape.raised ∧ Code.Raised p d.body d'.body

variable {p}

theorem Steps.ite {q : Prop} [Decidable q] {a a' b b' : Step} (ha : Steps p a a') (hb : Steps p b b') :
    Steps p (if q then a else b) (if q then a' else b') := by
  split
  · exact ha
  · exact hb

/-- A failure speaks of no group, and is the same for both machines. -/
theorem Steps.failed {R : Region} {m m' : Machine} (hm : Machines p R m m') :
    Steps p (.backward m .failed) (.backward m' .failed) :=
  .backward (v := .failed) hm

/-! ## Entries and cuts -/

section
variable {R : Region} {e e' : Engine} {m m' : Machine} {t t' : Thread} {r r' : Resumption}

theorem Inert.drop {cs : Choices} (h : Inert cs) (n : Nat) : Inert (cs.drop n) := by
  induction n generalizing cs with
  | zero => exact h
  | succ n ih =>
      cases h with
      | none => exact .none
      | more _ hb => exact ih hb

theorem Choosing.drop {cs cs' : Choices} (h : Choosing p R cs cs') (n : Nat) :
    Choosing p R (cs.drop n) (cs'.drop n) := by
  induction n generalizing cs cs' with
  | zero => exact h
  | succ n ih =>
      cases h with
      | ground hi hi' => exact .ground (hi.drop _) (hi'.drop _)
      | more _ hb => exact ih hb
      | outermost _ _ _ _ _ hi hi' => exact ih (.ground hi hi')

theorem Machines.cutTo (h : Machines p R m m') (n : Nat) :
    Machines p R (m.cutTo n) (m'.cutTo (n + R.lift)) := by
  have hcount : m'.height - (n + R.lift) = m.height - n := by
    rw [h.height]
    omega
  refine ⟨h.sound, ?_, ?_, ?_, h.skips⟩
  · rw [Machine.cutTo, Machine.cutTo, hcount]
    exact h.choices.drop _
  · have hle := h.count
    rw [Machine.cutTo, Choices.count_drop]
    dsimp only
    omega
  · change min (n + R.lift) m'.height = min n m.height + R.lift
    rw [h.height]
    omega

theorem Machines.called (h : Machines p R m m') (hw : Waiting p R t r t' r') (entries entries' : Nat) :
    Machines p R { m with choices := .more t r m.choices, height := m.height + 1, entries }
      { m' with choices := .more t' r' m'.choices, height := m'.height + 1, entries := entries' } := by
  refine ⟨h.sound, .more hw h.choices, Nat.succ_le_succ h.count, ?_, h.skips⟩
  change m'.height + 1 = m.height + 1 + R.lift
  rw [h.height]
  omega

theorem isLimit_of_refusal? {entries depth : Nat} {fault : SearchFault}
    (h : e.refusal? entries depth = some fault) : fault.isLimit := by
  unfold Engine.refusal? at h
  split at h
  · cases h
    rfl
  · split at h
    · cases h
      rfl
    · split at h
      · cases h
        rfl
      · cases h

/-- Two machines enter the matcher anew and go on alike, unless one of them meets a limit. -/
theorem Steps.call (m m' : Machine) (t t' : Thread) (r r' : Resumption) {go go' : Machine → Step}
    (hg : Steps p (go { m with choices := .more t r m.choices, height := m.height + 1, entries := m.entries + 1 })
      (go' { m' with choices := .more t' r' m'.choices, height := m'.height + 1, entries := m'.entries + 1 })) :
    Steps p (e.call m t r go) (e'.call m' t' r' go') := by
  unfold Engine.call
  cases hf : e.refusal? m.entries t.depth with
  | some fault => exact .limited (.inl (isLimit_of_refusal? hf))
  | none =>
      cases hf' : e'.refusal? m'.entries t'.depth with
      | some fault => exact .limited (.inr (isLimit_of_refusal? hf'))
      | none => exact hg

theorem Engines.call (hm : Machines p R m m') (hw : Waiting p R t r t' r') {go go' : Machine → Step}
    (hg : ∀ n n', Machines p R n n' → Steps p (go n) (go' n')) :
    Steps p (e.call m t r go) (e'.call m' t' r' go') :=
  .call m m' t t' r r' (hg _ _ (hm.called hw _ _))

/-- The threads go on in front of other code, in groups that are open in both machines. -/
theorem Alike.inFront (ht : Alike t t') {closings closings' : List Closing} (hi : Around p R closings closings')
    {code code' : Code} (hc : Code.Raised p code code') {depth depth' : Nat} :
    Together p R { t with code, closings, depth } { t' with code := code', closings := closings', depth := depth' } :=
  ⟨⟨⟨ht.place, ht.start, ht.captures, ht.calling⟩, hi⟩, hc⟩

theorem Engines.tryNext (hm : Machines p R m m') (ht : Together p R t t') (hw : Waiting p R t r t' r') :
    Steps p (e.tryNext m t r) (e'.tryNext m' t' r') :=
  Engines.call hm hw fun _ _ hm => .forward hm (ht.inFront ht.closings ht.code)

/-- An alternative is tried, with whatever choice on top. -/
theorem Steps.tryBranch
    (hm : ∀ entries entries', Machines p R ⟨.more t r m.choices, m.height + 1, entries, m.skips⟩
      ⟨.more t' r' m'.choices, m'.height + 1, entries', m'.skips⟩)
    (ht : Alike t t') {inside inside' : List Closing} (hi : Around p R inside inside') {branch branch' : Code}
    (hb : Code.Raised p branch branch') {calling calling' : Option Nat} (hcalling : calling' = raisedCall calling) :
    Steps p (e.tryBranch m t r inside branch calling) (e'.tryBranch m' t' r' inside' branch' calling') :=
  .call m m' t t' r r' (.forward (hm _ _) ⟨⟨⟨ht.place, ht.start, ht.captures, hcalling⟩, hi⟩, hb⟩)

/-! ## Groups -/

theorem Nested.around {closings closings' : List Closing} (h : Nested p R closings closings') :
    Around p R closings closings' := by
  cases h with
  | frame hf ho => exact .frame hf ho

theorem Abreast.within (ht : Abreast p R t t') (hm : Machines p R m m') {kind kind' : ClosingKind}
    (hk : Kinds kind kind') (shape : Shape) {b b' n n' : Code} (hb : Code.Raised p b b')
    (hn : Code.Raised p n n') :
    Nested p R (t.within m kind shape b n) (t'.within m' kind' shape.raised b' n') :=
  .frame ⟨hk, rfl, hb, hn, ht.place, hm.height⟩ ht.closings

theorem Abreast.next (ht : Abreast p R t t') {n n' : Code} (hn : Code.Raised p n n') :
    Together p R { t with code := n } { t' with code := n' } :=
  ht.inFront ht.closings hn

theorem Abreast.deeper (ht : Abreast p R t t') (depth depth' : Nat) :
    Abreast p R { t with depth } { t' with depth := depth' } :=
  ⟨⟨ht.place, ht.start, ht.captures, ht.calling⟩, ht.closings⟩

/-- The threads enter a group. -/
theorem Abreast.inside (ht : Abreast p R t t') (hm : Machines p R m m') {kind kind' : ClosingKind}
    (hk : Kinds kind kind') (shape : Shape) {b b' n n' branch branch' : Code} (hbr : Code.Raised p branch branch')
    (hb : Code.Raised p b b') (hn : Code.Raised p n n') :
    Together p R { t with code := branch, closings := t.within m kind shape b n }
      { t' with code := branch', closings := t'.within m' kind' shape.raised b' n' } :=
  ht.inFront (ht.within hm hk shape hb hn).around hbr

theorem Engines.tryFirst (hm : Machines p R m m') (ht : Alike t t') (shape shape' : Shape)
    (hlast : shape'.upTo = shape.upTo) (hentry : shape'.entry = shape.entry)
    {inside inside' : List Closing} (hi : Around p R inside inside') {body body' : Code}
    (hb : Code.Raised p body body') {calling calling' : Option Nat} (hcalling : calling' = raisedCall calling)
    {f f' : Branching → Resumption}
    (hf : ∀ b b', b.inside = inside → b'.inside = inside' → Branchings p R b b' → Waiting p R t (f b) t' (f' b')) :
    Steps p (e.tryFirst m t shape inside body calling f)
      (e'.tryFirst m' t' shape' inside' body' calling' f') := by
  subst hcalling
  have hone {c c' : Code} (hc : Code.Raised p c c') :
      Steps p (e.tryBranch m t (f ⟨inside, shape, shape.upTo, false, none⟩) inside c calling)
        (e'.tryBranch m' t' (f' ⟨inside', shape', shape'.upTo, false, none⟩) inside' c' (raisedCall calling)) :=
    Steps.tryBranch
      (hm.called (hf ⟨inside, shape, shape.upTo, false, none⟩ ⟨inside', shape', shape'.upTo, false, none⟩ rfl rfl
        ⟨hi, hlast, hentry, hlast, rfl, .none⟩))
      ht hi hc rfl
  cases hb with
  | @either upTo b b' o o' hb ho =>
      exact Steps.tryBranch
        (hm.called (hf ⟨inside, shape, upTo, true, some o⟩ ⟨inside', shape', upTo, true, some o'⟩ rfl rfl
          ⟨hi, hlast, hentry, rfl, rfl, .some ho⟩))
        ht hi hb rfl
  | stop => exact hone .stop
  | step hs hn => exact hone (.step hs hn)
  | group hb hn => exact hone (.group hb hn)

theorem Branchings.spent {b b' : Branching} (h : Branchings p R b b') : Branchings p R b.spent b'.spent :=
  ⟨h.inside, h.last, h.entry, h.last, h.several, .none⟩

theorem Engines.tryOthers (hm : Machines p R m m') (ht : Alike t t') {b b' : Branching}
    (hb : Branchings p R b b') {others others' : Code} (ho : Code.Raised p others others')
    {calling calling' : Option Nat} (hcalling : calling' = raisedCall calling) {f f' : Branching → Resumption}
    (hf : ∀ br br', br.inside = b.inside → br'.inside = b'.inside → Branchings p R br br' →
      Waiting p R t (f br) t' (f' br')) :
    Steps p (e.tryOthers m t b others calling f) (e'.tryOthers m' t' b' others' calling' f') := by
  subst hcalling
  have hone {c c' : Code} (hc : Code.Raised p c c') :
      Steps p (e.tryBranch m t (f { b with upTo := b.shape.upTo, others := none }) b.inside c calling)
        (e'.tryBranch m' t' (f' { b' with upTo := b'.shape.upTo, others := none }) b'.inside c'
          (raisedCall calling)) :=
    Steps.tryBranch (hm.called (hf b.spent b'.spent rfl rfl hb.spent)) ht hb.inside hc rfl
  cases ho with
  | @either upTo c c' o o' hbr ho =>
      exact Steps.tryBranch
        (hm.called (hf { b with upTo, others := some o } { b' with upTo, others := some o' } rfl rfl
          ⟨hb.inside, hb.last, hb.entry, rfl, hb.several, .some ho⟩))
        ht hb.inside hbr rfl
  | stop => exact hone .stop
  | step hs hn => exact hone (.step hs hn)
  | group hbr hn => exact hone (.group hbr hn)

theorem Engines.choose (hm : Machines p R m m') (ht : Abreast p R t t') (shape : Shape)
    {branch branch' body body' n n' : Code} (hbr : Code.Raised p branch branch') (hb : Code.Raised p body body')
    (hn : Code.Raised p n n') :
    Steps p (e.choose m t shape branch body n) (e'.choose m' t' shape.raised branch' body' n') := by
  have hg' : shape.raised.guarded = shape.guarded := rfl
  unfold Engine.choose
  rw [hg']
  cases shape.guarded with
  | true =>
      refine Engines.call hm (.own ht .spent) fun _ _ hm' => .forward hm' ?_
      exact ht.inFront (ht.within hm .framed shape hb hn).around hbr
  | false => exact .forward hm (ht.inside hm .plain shape hbr hb hn)

/-- A condition on captures is the same with numbers one higher. -/
theorem Alike.any_captured (ht : Alike t t') (numbers : List Nat) :
    ((numbers.map (· + 1)).any fun n => (t'.captures.getD n none).isSome) =
      numbers.any fun n => (t.captures.getD n none).isSome := by
  rw [List.any_map, ht.captures]
  congr 1
  funext n
  exact congrArg Option.isSome (t.captures.getD_raised n)

theorem Engines.enterConditional (hm : Machines p R m m') (ht : Abreast p R t t') (shape : Shape)
    (test : Test) {body body' n n' : Code} (hb : Code.Raised p body body') (hn : Code.Raised p n n') :
    Steps p (e.enterConditional m t shape test body n)
      (e'.enterConditional m' t' shape.raised test.raised body' n') := by
  obtain ⟨hyes, hno⟩ := hb.split
  have hgo (holds : Bool) : Steps p
      (e.choose m t shape (if holds then body.split.1 else body.split.2.getD .stop) body n)
      (e'.choose m' t' shape.raised (if holds then body'.split.1 else body'.split.2.getD .stop) body' n') := by
    cases holds with
    | true => exact Engines.choose hm ht shape hyes hb hn
    | false => exact Engines.choose hm ht shape (Code.Raised.getD hno) hb hn
  unfold Engine.enterConditional
  dsimp only
  cases test with
  | captured numbers =>
      simp only [Test.raised, ht.any_captured]
      exact hgo _
  | inCall numbers =>
      simp only [Test.raised, ht.calling]
      cases t.calling with
      | none => exact hgo false
      | some n =>
          cases numbers with
          | none => exact hgo true
          | some numbers =>
              have hcontains : (numbers.map (· + 1)).contains (n + 1) = numbers.contains n := by simp
              simp only [raisedCall, Option.map_some, hcontains]
              exact hgo _
  | constant holds => exact hgo holds
  | look =>
      simp only [Test.raised]
      generalize body.split.1 = yes, body'.split.1 = yes' at hyes
      cases hyes with
      | @group look condition condition' yes yes' hc hy =>
          have hfirst (negated : Bool) :
              Steps p
                (e.tryFirst m t look (t.within m .condition look condition yes) condition t.calling fun b =>
                  .decide b negated shape yes body.split.2 body n)
                (e'.tryFirst m' t' look.raised (t'.within m' .condition look.raised condition' yes') condition'
                  t'.calling fun b => .decide b negated shape.raised yes' body'.split.2 body' n') := by
            exact Engines.tryFirst hm ht.toAlike look look.raised rfl rfl (ht.within hm .condition look hc hy).around hc
              ht.calling fun _ _ _ _ hbr => .own ht (.decide negated shape hbr hy hno hb hn)
          obtain ⟨role, entry, ending, guarded, upTo⟩ := look
          cases role <;> exact hfirst _
      | stop | either | step => exact Engines.choose hm ht shape (Code.Raised.getD hno) hb hn

theorem Engines.enter (he : Engines p e e') (hm : Machines p R m m') (ht : Abreast p R t t') (shape : Shape)
    {b b' n n' : Code} (hb : Code.Raised p b b') (hn : Code.Raised p n n') :
    Steps p (e.enter m t shape b n) (e'.enter m' t' shape.raised b' n') := by
  have hfirst {kind : ClosingKind} (hk : Kinds kind kind) {f f' : Branching → Resumption}
      (hf : ∀ br br', Nested p R br.inside br'.inside → Branchings p R br br' →
        Waiting p R t (f br) t' (f' br')) :
      Steps p (e.tryFirst m t shape (t.within m kind shape b n) b t.calling f)
        (e'.tryFirst m' t' shape.raised (t'.within m' kind shape.raised b' n') b' t'.calling f') := by
    refine Engines.tryFirst hm ht.toAlike shape shape.raised rfl rfl (ht.within hm hk shape hb hn).around hb
      ht.calling fun br br' hi hi' h => hf br br' ?_ h
    rw [hi, hi']
    exact ht.within hm hk shape hb hn
  have hbranches {kind : ClosingKind} (hk : Kinds kind kind) (all : Bool) :
      Steps p (e.tryFirst m t shape (t.within m kind shape b n) b t.calling fun b => .branches b all)
        (e'.tryFirst m' t' shape.raised (t'.within m' kind shape.raised b' n') b' t'.calling
          fun b => .branches b all) :=
    hfirst hk fun _ _ _ h => .branches ht.toAlike h
  have hkeep :
      Steps p (e.tryFirst m t shape (t.within m .framed shape b n) b t.calling fun br => .keep br b n false)
        (e'.tryFirst m' t' shape.raised (t'.within m' .framed shape.raised b' n') b' t'.calling
          fun br => .keep br b' n' false) :=
    hfirst .framed fun _ _ hi h => .own ht (.keep h hi hb hn)
  have hconditional (test : Test) :
      Steps p (e.enterConditional m t shape test b n)
        (e'.enterConditional m' t' shape.raised test.raised b' n') :=
    Engines.enterConditional hm ht shape test hb hn
  have hlook (look : Look) :
      Steps p
        (if look.negated then
          e.tryFirst m t shape (t.within m .framed shape b n) b t.calling fun br => .avoid br n
        else e.tryFirst m t shape (t.within m .framed shape b n) b t.calling fun br => .ahead br n)
        (if look.negated then
          e'.tryFirst m' t' shape.raised (t'.within m' .framed shape.raised b' n') b' t'.calling
            fun br => .avoid br n'
        else
          e'.tryFirst m' t' shape.raised (t'.within m' .framed shape.raised b' n') b' t'.calling
            fun br => .ahead br n') :=
    .ite (hfirst .framed fun _ _ _ h => .own ht (.avoid h hn))
      (hfirst .framed fun _ _ _ h => .own ht (.ahead h hn))
  obtain ⟨role, entry, ending, guarded, upTo⟩ := shape
  cases role with
  | conditional test => exact hconditional test
  | look look => exact hlook look
  | atomic | scriptRun => exact hbranches .framed true
  | capture number again => exact .ite hkeep (hbranches .framed true)
  | plain =>
      refine .ite hkeep (.ite (hbranches .framed true) ?_)
      -- No alternatives are given up in either program, so that a choice is made only where there are several.
      rw [he.keeps, he.keeps', if_neg Bool.false_ne_true, if_neg Bool.false_ne_true]
      have hplain := hbranches .plain false
      have hforward := Steps.forward hm (ht.inside hm .plain ⟨.plain, entry, ending, guarded, upTo⟩ hb hb hn)
      cases hb with
      | either => exact hplain
      | stop | step | group => exact hforward

theorem Engines.reachGroup (he : Engines p e e') (hm : Machines p R m m') (ht : Abreast p R t t') (shape : Shape)
    {b b' n n' : Code} (hb : Code.Raised p b b') (hn : Code.Raised p n n') :
    Steps p (e.reachGroup m t shape b n) (e'.reachGroup m' t' shape.raised b' n') := by
  have hbehind := ht.next hn
  have henter := he.enter hm ht shape hb hn
  have hagain : Steps p
      (e.call m { t with code := n } .goOn fun m => .enter m { t with depth := t.depth + 1 } shape b n)
      (e'.call m' { t' with code := n' } .goOn
        fun m => .enter m { t' with depth := t'.depth + 1 } shape.raised b' n') :=
    Engines.call hm (.goOn hbehind rfl) fun _ _ hm => .enter hm (ht.deeper _ _) hb hn
  have hlast : Steps p (e.tryNext m { t with code := n } (.enter shape b n))
      (e'.tryNext m' { t' with code := n' } (.enter shape.raised b' n')) :=
    Engines.tryNext hm hbehind (.own hbehind.toAbreast (.enter shape hb hn))
  obtain ⟨role, entry, ending, guarded, upTo⟩ := shape
  cases entry with
  | once => exact henter
  | never => exact .forward hm hbehind
  | maybe => exact .ite henter hagain
  | maybeNot => exact hlast

/-! ## Calls -/

/-- No group that is open in both machines is less under way in one of them than in the other. -/
theorem Around.callsAgain_eq (hR : R.Sound) {closings closings' : List Closing} (h : Around p R closings closings')
    (number place : Nat) : callsAgain (number + 1) place closings' = callsAgain number place closings := by
  induction h with
  | ground =>
      -- The group that only the second machine has open is not a call.
      have hground {cs : List Closing} (hcs : cs = [] ∨ ∃ c tail, cs = [c] ∧ IsLast tail c) (number : Nat) :
          callsAgain number place cs = false := by
        obtain rfl | ⟨c, tail, rfl, hc⟩ := hcs
        · rfl
        · rw [callsAgain, hc.kind]
          rfl
      rw [callsAgain, hR.kind]
      dsimp only
      obtain ⟨h, h'⟩ | ⟨tail, c, c', h, h', hc, hc'⟩ := hR.around
      · rw [hground (.inl h), hground (.inl h')]
      · rw [hground (.inr ⟨c, tail, h, hc⟩), hground (.inr ⟨c', tail, h', hc'⟩)]
  | @frame c c' outer outer' hf _ ih =>
      obtain ⟨kind, shape, body, next, origin, height⟩ := c
      obtain ⟨kind', shape', body', next', origin', height'⟩ := c'
      obtain ⟨hk, -, -, -, ho, -⟩ := hf
      dsimp only at hk ho
      subst ho
      rw [callsAgain, callsAgain]
      dsimp only
      cases hk with
      | plain | framed | condition => exact ih
      | call hn => simp [ih]

theorem Engines.callGroup (he : Engines p e e') (hm : Machines p R m m') (ht : Together p R t t') {n : Nat}
    (hn : n ≠ 0) (hd : (p.definition? n).isSome) :
    Steps p (e.callGroup m t n) (e'.callGroup m' t' (n + 1)) := by
  obtain ⟨d, d', hd, hd', hs, hb⟩ := he.definitions n hn hd
  have hagain := ht.closings.callsAgain_eq hm.sound n t.place
  have hcalling : (raisedCall t.calling).isSome = t.calling.isSome := Option.isSome_map
  unfold Engine.callGroup
  simp only [hd, hd', hs, ht.calling, ht.place, ht.captures, hagain, hcalling]
  exact .ite (.finished hm.skips)
    (Engines.tryFirst hm ht.toAlike d.shape d.shape.raised rfl rfl
      (ht.toAbreast.within hm (.call hn) d.shape hb ht.code).around hb rfl
      fun _ _ _ _ h => .call hn ht.toAlike h)

/-! ## Ends -/

theorem Waiting.exhausted (h : Waiting p R t r t' r') : Waiting p R t r.exhausted t' r'.exhausted := by
  cases h with
  | goOn ht hr =>
      cases r with
      | branches | ahead => cases hr
      | _ => exact .goOn ht hr
  | own ht hr =>
      cases hr with
      | ahead hb hn => exact .own ht (.ahead hb.spent hn)
      | spent => exact .own ht .spent
      | enter shape hb hn => exact .own ht (.enter shape hb hn)
      | avoid hb hn => exact .own ht (.avoid hb hn)
      | decide negated shape hb hy hno hc hn => exact .own ht (.decide negated shape hb hy hno hc hn)
      | keep hb hi hc hn => exact .own ht (.keep hb hi hc hn)
  | branches ht hb => exact .branches ht hb.spent
  | call hn ht hb => exact .call hn ht hb

theorem Inert.exhausted {cs : Choices} (h : Inert cs) : Inert cs.exhausted := by
  cases h with
  | none => exact .none
  | more hs hb => exact .more ⟨rfl, hs.last, hs.last⟩ hb

theorem Choosing.exhausted {cs cs' : Choices} (h : Choosing p R cs cs') :
    Choosing p R cs.exhausted cs'.exhausted := by
  cases h with
  | ground hi hi' => exact .ground hi.exhausted hi'.exhausted
  | more hw hb => exact .more hw.exhausted hb
  | outermost ht hb hl hi hi' hbelow hbelow' => exact .outermost ht hb.spent hl hi hi' hbelow hbelow'

theorem Machines.settle (hm : Machines p R m m') {c c' : Closing} (hf : Frames p R c c') :
    Machines p R (m.settle c) (m'.settle c') := by
  have hcut := hm.cutTo (c.height + 1)
  rw [Nat.add_right_comm, ← hf.height] at hcut
  rw [m.settle_eq, m'.settle_eq]
  refine ⟨hcut.sound, hcut.choices.exhausted, ?_, hcut.height, hcut.skips⟩
  rw [Choices.count_exhausted]
  exact hcut.count

/-- Where nothing is left to try, no group can be ended. -/
theorem Inert.unwind {c : Closing} (hi : Inert (m.cutTo (c.height + 1)).choices)
    {go : Machine → Thread → Resumption → Step}
    (hidle : ∀ n t b all, go n t (.branches b all) = .backward n .failed) :
    ∃ n, m.unwind c go = .backward n .failed ∧ Inert n.choices ∧ n.skips = m.skips := by
  have hskips : (m.cutTo (c.height + 1)).skips = m.skips := rfl
  unfold Machine.unwind
  generalize m.cutTo (c.height + 1) = n at hi hskips
  obtain ⟨choices, height, entries, skips⟩ := n
  cases hi with
  | none => exact ⟨_, rfl, .none, hskips⟩
  | more _ hb => exact ⟨_, hidle _ _ _ _, hb, hskips⟩

/-- What waits for the end of a group is handed over, to steps that do nothing with alternatives. -/
theorem Machines.unwind (hm : Machines p R m m') {c c' : Closing} (hf : Frames p R c c')
    {go go' : Machine → Thread → Resumption → Step}
    (hg : ∀ n n' t t' r r', Machines p R n n' → Waiting p R t r t' r' → Steps p (go n t r) (go' n' t' r'))
    (hidle : ∀ n t b all, go n t (.branches b all) = .backward n .failed)
    (hidle' : ∀ n t b all, go' n t (.branches b all) = .backward n .failed) :
    Steps p (m.unwind c go) (m'.unwind c' go') := by
  have hcut := hm.cutTo (c.height + 1)
  rw [Nat.add_right_comm, ← hf.height] at hcut
  -- Below the choices made in the expression nothing waits for the group, and both machines go back.
  have hinert (hi : Inert (m.cutTo (c.height + 1)).choices) (hi' : Inert (m'.cutTo (c'.height + 1)).choices) :
      Steps p (m.unwind c go) (m'.unwind c' go') := by
    obtain ⟨n, hn, hi, hs⟩ := hi.unwind hidle
    obtain ⟨n', hn', hi', hs'⟩ := hi'.unwind hidle'
    rw [hn, hn']
    exact .refused (v := .failed) hi hi' (by rw [hs, hs', hm.skips])
  unfold Machine.unwind at hinert ⊢
  have hle : (m.cutTo (c.height + 1)).height ≤ c.height + 1 := Nat.min_le_left _ _
  generalize m.cutTo (c.height + 1) = n, m'.cutTo (c'.height + 1) = n' at hcut hinert hle
  obtain ⟨choices, height, entries, skips⟩ := n
  obtain ⟨choices', height', entries', skips'⟩ := n'
  obtain ⟨hsound, hchoices, hcount, -, hskips⟩ := hcut
  cases hchoices with
  | ground hi hi' => exact hinert hi hi'
  | more hw hb => exact hg _ _ _ _ _ _ ⟨hsound, hb, Nat.le_of_succ_le_succ (Nat.le_trans hcount hle), hf.height, hskips⟩ hw
  | outermost _ _ _ _ _ hi hi' =>
      dsimp only
      rw [hidle, hidle']
      exact .refused (v := .failed) hi hi' hskips

theorem Engines.conclude (he : Engines p e e') (hm : Machines p R m m') (hplace : t'.place = t.place)
    (hstart : t'.start = t.start) : Steps p (e.conclude m t) (e'.conclude m' t') := by
  unfold Engine.conclude
  rw [he.settings, hplace, hstart]
  exact .ite (.backward hm) (.finished hm.skips)

/-- The kind of a group at whose end the code behind it follows. -/
theorem Kinds.eq_of_isOrdinary {k k' : ClosingKind} (h : Kinds k k') (hk : k.isOrdinary) : k' = k := by
  cases h with
  | plain | framed => rfl
  | condition | call => cases hk

/-- The end of a group that is open in both machines. -/
theorem Engines.endGroup (hm : Machines p R m m') (ht : Alike t t') {c c' : Closing}
    {outer outer' : List Closing} (hf : Frames p R c c') (hk : c.kind.isOrdinary) (ho : Around p R outer outer') :
    Steps p (e.endGroup m t c outer) (e'.endGroup m' t' c' outer') := by
  obtain ⟨code', place', start', depth', captures', closings', calling'⟩ := t'
  obtain ⟨hplace, hstart, hcaptures, hcalling⟩ := ht
  dsimp only at hplace hstart hcaptures hcalling
  subst hplace hstart hcaptures hcalling
  have hafter : Together p R { t with code := c.next, closings := outer }
      ⟨c'.next, t.place, t.start, depth', t.captures.raised, outer', raisedCall t.calling⟩ :=
    ⟨⟨⟨rfl, rfl, rfl, rfl⟩, ho⟩, hf.next⟩
  have hkind := hf.kind.eq_of_isOrdinary hk
  have hending : c'.shape.ending = c.shape.ending := by
    rw [hf.shape]
    rfl
  unfold Engine.endGroup
  rw [hending, hkind, hf.origin, hf.shape]
  cases c.shape.ending with
  | once => exact .forward hm hafter
  | again =>
      have hagain := hafter.toAbreast.deeper (t.depth + 1) (depth' + 1)
      exact .ite (Engines.call hm (.goOn hafter rfl) fun _ _ hm => .enter hm hagain hf.body hf.next)
        (.forward hm hafter)
  | onward =>
      exact .ite (Engines.tryNext hm hafter (.own hafter.toAbreast (.enter c.shape hf.body hf.next)))
        (.forward hm hafter)
  | keep =>
      refine hm.unwind hf (fun n n' u u' r r' hm hw => ?_) (fun _ _ _ _ => rfl) (fun _ _ _ _ => rfl)
      cases hw with
      | goOn hu hr =>
          cases r with
          | keep => cases hr
          | _ => exact .failed hm
      | own hu hr =>
          cases hr with
          | @keep b b' body body' next next' matched hb hi hbody hn =>
              obtain ⟨inside, shape, upTo, several, others⟩ := b
              obtain ⟨inside', shape', upTo', several', others'⟩ := b'
              have hfound : Abreast p R { u with place := t.place, start := t.start, captures := t.captures }
                  { u' with place := t.place, start := t.start, captures := t.captures.raised } :=
                ⟨⟨rfl, rfl, rfl, hu.calling⟩, hu.closings⟩
              cases hi with
              | @frame c c' outer outer' hf ho =>
                  have hagain : Nested p R ({ c with origin := t.place } :: outer)
                      ({ c' with origin := t.place } :: outer') :=
                    .frame ⟨hf.kind, hf.shape, hf.body, hf.next, rfl, hf.height⟩ ho
                  dsimp only
                  rw [hu.place]
                  refine .ite (.forward hm (hfound.next hn)) ?_
                  refine Engines.tryFirst hm hfound.toAlike shape shape' hb.last hb.entry hagain.around hbody
                    hu.calling fun br br' hi hi' h => .own hfound (.keep h ?_ hbody hn)
                  rw [hi, hi']
                  exact hagain
          | _ => exact .failed hm
      | branches | call => exact .failed hm

/-- The end of a group that keeps where it began. -/
theorem Engines.closeGroup (he : Engines p e e') (hm : Machines p R m m') (ht : Alike t t') {c c' : Closing}
    {outer outer' : List Closing} (hf : Frames p R c c') (hk : c.kind.isOrdinary) (ho : Around p R outer outer') :
    Steps p (e.closeGroup m t c outer) (e'.closeGroup m' t' c' outer') := by
  have hend {n n' : Machine} (hm : Machines p R n n') {u u' : Thread} (hu : Alike u u') :
      Steps p (e.endGroup n u c outer) (e'.endGroup n' u' c' outer') :=
    Engines.endGroup hm hu hf hk ho
  have hsettle := hm.settle hf
  have hrole : c'.shape.role = c.shape.role.raised := by
    rw [hf.shape]
    rfl
  unfold Engine.closeGroup
  rw [hrole]
  cases c.shape.role with
  | plain | conditional => exact hend hm ht
  | capture n again =>
      refine hend hm ⟨ht.place, ht.start, ?_, ht.calling⟩
      rw [ht.captures, ht.place, hf.origin]
      exact t.captures.setIfInBounds_raised n _
  | atomic => exact hend hsettle ht
  | scriptRun =>
      simp only [Role.raised]
      rw [he.subject, hf.origin, ht.place]
      exact .ite (hend hm ht) (.failed hm)
  | look look =>
      have hback {n n' : Machine} (hm : Machines p R n n') :
          Steps p (e.endGroup n { t with place := c.origin } c outer)
            (e'.endGroup n' { t' with place := c'.origin } c' outer') :=
        hend hm ⟨hf.origin, ht.start, ht.captures, ht.calling⟩
      refine .ite ?_ ?_
      · exact hm.unwind hf (fun _ _ _ _ _ _ hm _ => .failed hm) (fun _ _ _ _ => rfl)
          (fun _ _ _ _ => rfl)
      · cases look.atomic with
        | true => exact hback hsettle
        | false => exact hback hm

/-- The code of an alternative within the expression has ended. -/
theorem Engines.close (he : Engines p e e') (hm : Machines p R m m') (ht : Alike t t')
    (hi : Nested p R t.closings t'.closings) : Steps p (e.close m t) (e'.close m' t') := by
  unfold Engine.close
  generalize t.closings = closings, t'.closings = closings' at hi
  cases hi with
  | @frame c c' outer outer' hf ho =>
      obtain ⟨kind, shape, body, next, origin, height⟩ := c
      obtain ⟨kind', shape', body', next', origin', height'⟩ := c'
      have hk : Kinds kind kind' := hf.kind
      cases hk with
      | plain => exact Engines.endGroup hm ht hf rfl ho
      | framed => exact he.closeGroup hm ht hf rfl ho
      | condition =>
          refine hm.unwind hf (fun n n' u u' r r' hm hw => ?_) (fun _ _ _ _ => rfl) (fun _ _ _ _ => rfl)
          cases hw with
          | goOn hu hr =>
              cases r with
              | decide => cases hr
              | _ => exact .failed hm
          | own hu hr =>
              cases hr with
              | decide negated shape hb hyes hno hbody hn =>
                  have hfound : Abreast p R { u with captures := t.captures } { u' with captures := t'.captures } :=
                    ⟨⟨hu.place, hu.start, ht.captures, hu.calling⟩, hu.closings⟩
                  refine Engines.choose hm hfound _ ?_ hbody hn
                  split
                  · exact Code.Raised.getD hno
                  · exact hyes
              | _ => exact .failed hm
          | branches | call => exact .failed hm
      | call hn =>
          dsimp only
          rw [if_neg hn, if_neg (Nat.succ_ne_zero _)]
          exact .forward hm ⟨⟨⟨ht.place, ht.start, rfl, rfl⟩, ho⟩, hf.next⟩

/-! ## Instructions -/

theorem Together.at (ht : Together p R t t') (place : Nat) :
    Together p R { t with place } { t' with place } :=
  ⟨⟨⟨rfl, ht.start, ht.captures, ht.calling⟩, ht.closings⟩, ht.code⟩

theorem Engines.tryAgain (hm : Machines p R m m') (ht : Together p R t t') (hr : r.goesOn) :
    Steps p (e.tryNext m t r) (e'.tryNext m' t' r) :=
  Engines.tryNext hm ht (.goOn ht hr)

theorem Engines.tryShorter (hm : Machines p R m m') (ht : Together p R t t') (s : Single) (low : Nat) :
    Steps p (e.tryShorter m t s low) (e'.tryShorter m' t' s low) := by
  unfold Engine.tryShorter
  rw [ht.place]
  exact .ite (.forward hm ht) (Engines.tryAgain hm ht rfl)

theorem Engines.repeatSingle (he : Engines p e e') (hm : Machines p R m m') (ht : Together p R t t') (s : Single)
    (times : Times) : Steps p (e.repeatSingle m t s times) (e'.repeatSingle m' t' s times) := by
  unfold Engine.repeatSingle
  rw [ht.place, he.subject]
  split
  · exact .failed hm
  · next low _ =>
      split
      · exact Engines.tryAgain hm (ht.at low) rfl
      all_goals
        dsimp only
        split
        · exact Engines.tryAgain hm (ht.at _) rfl
        · exact Engines.tryShorter hm (ht.at _) s low

theorem Engines.refer (he : Engines p e e') (hm : Machines p R m m') (ht : Together p R t t') (numbers : List Nat)
    (ignoreCase : Bool) (times : Times) :
    Steps p (e.refer m t numbers ignoreCase times) (e'.refer m' t' (numbers.map (· + 1)) ignoreCase times) := by
  have hspan : ((numbers.map (· + 1)).findSome? fun n => t'.captures.getD n none) =
      numbers.findSome? fun n => t.captures.getD n none := by
    rw [List.findSome?_map, ht.captures]
    congr 1
    funext n
    exact t.captures.getD_raised n
  unfold Engine.refer
  rw [hspan, ht.place, he.subject]
  split
  · exact .ite (.forward hm ht) (.failed hm)
  · next span _ =>
      refine .ite (.forward hm ht) ?_
      split
      · exact .failed hm
      · next low _ =>
          refine .ite (.forward hm (ht.at low)) (.ite (Engines.tryAgain hm (ht.at low) rfl) ?_)
          exact .ite (Engines.tryAgain hm (ht.at _) rfl) (Engines.tryAgain hm (ht.at _) rfl)

theorem Engines.execute (he : Engines p e e') (hm : Machines p R m m') (ht : Together p R t t') {i i' : Instruction}
    (hi : i.Raised p i') : Steps p (e.execute m t i) (e'.execute m' t' i') := by
  cases hi with
  | refer => exact he.refer hm ht _ _ _
  | call hn hd => exact he.callGroup hm ht hn hd
  | same hi =>
      cases i with
      | refer | call | accept => cases hi
      | one | anchor | stepBack | fail =>
          -- The walk takes these; nothing is left to do with them here.
          exact .failed hm
      | many s times => exact he.repeatSingle hm ht s times
      | keepOut => exact .forward hm ⟨⟨⟨ht.place, ht.place, ht.captures, ht.calling⟩, ht.closings⟩, ht.code⟩
      | mark | commit | prune | skip | leave => exact Engines.tryAgain hm ht rfl
      | skipTo name =>
          have hskipped : Machines p R { m with skips := m.skips + 1 } { m' with skips := m'.skips + 1 } :=
            ⟨hm.sound, hm.choices, hm.count, hm.height, congrArg (· + 1) hm.skips⟩
          have hcount : (m'.skips + 1 ≤ e'.ignoredSkips) = (m.skips + 1 ≤ e.ignoredSkips) := by
            rw [hm.skips, he.skips]
          unfold Engine.execute
          simp only [hcount]
          exact .ite (.forward hskipped ht) (Engines.tryAgain hskipped ht rfl)

end

end Grouped

end PatternGrammar.Regex
