import PatternGrammar.Proofs.Ends

/-!
# How attempts end

An attempt to match regular code ends as the places tell that the code leads to. What a thread finds decides from
place to place: at each of them the groups around close, and what follows is tried; a failure goes back to the
choice on top, which tries the next place. So a run comes to the end that a fold over the places gives, unless it
meets a limit. Nothing is said about how long it takes, so a limit is all that an induction has to account for.
-/

namespace PatternGrammar.Regex

/-- The run comes to this end, unless a limit stops it before. -/
def Engine.ComesTo (e : Engine) (s : Step) (a : Attempt) : Prop :=
  ∀ fuel, (e.run fuel s).1 = a ∨ ∃ fault, (e.run fuel s).1 = .stopped fault

/-- The machine when a thread waits on top of its choices. -/
def Machine.pushed (m : Machine) (t : Thread) (r : Resumption) : Machine :=
  { m with choices := .more t r m.choices, height := m.height + 1, entries := m.entries + 1 }

/-- A failure that is handed back to these choices leads to this end. -/
def Engine.FallsTo (e : Engine) (choices : Choices) (height : Nat) (a : Attempt) : Prop :=
  ∀ m : Machine, m.choices = choices → m.height = height → e.ComesTo (.backward m .failed) a

/-- The machine has these choices, or others on top of them. -/
structure Machine.Above (m : Machine) (choices : Choices) (height : Nat) : Prop where
  le : height ≤ m.height
  drop : m.choices.drop (m.height - height) = choices

section
variable {e : Engine} {m m' : Machine} {t : Thread} {r : Resumption} {a : Attempt} {choices : Choices}
  {height : Nat}

/-! ## Runs -/

namespace Engine.ComesTo

theorem forward (h : e.ComesTo (e.walk m t t.place t.code) a) : e.ComesTo (.forward m t) a := by
  intro fuel
  cases fuel with
  | zero => exact .inr ⟨_, rfl⟩
  | succ fuel => exact h fuel

theorem enter {shape : Shape} {body next : Code} (h : e.ComesTo (e.enter m t shape body next) a) :
    e.ComesTo (.enter m t shape body next) a := by
  intro fuel
  cases fuel with
  | zero => exact .inr ⟨_, rfl⟩
  | succ fuel => exact h fuel

theorem backward {v : Verdict} (h : e.ComesTo (e.stepBackward m v) a) : e.ComesTo (.backward m v) a := by
  intro fuel
  cases fuel with
  | zero => exact .inr ⟨_, rfl⟩
  | succ fuel => exact h fuel

theorem finished : e.ComesTo (.finished m a) a := by
  intro fuel
  cases fuel with
  | zero => exact .inr ⟨_, rfl⟩
  | succ fuel => exact .inl rfl

/-- An entry that is refused ends the run. -/
theorem call {go : Machine → Step} (h : e.ComesTo (go (m.pushed t r)) a) : e.ComesTo (e.call m t r go) a := by
  unfold Engine.call
  split
  · next fault _ =>
      intro fuel
      cases fuel with
      | zero => exact .inr ⟨_, rfl⟩
      | succ fuel => exact .inr ⟨fault, rfl⟩
  · exact h

theorem tryNext (h : e.ComesTo (e.walk (m.pushed t r) { t with depth := t.depth + 1 } t.place t.code) a) :
    e.ComesTo (e.tryNext m t r) a :=
  call (forward h)

theorem tryBranch {inside : List Closing} {branch : Code} {calling : Option Nat}
    (h : e.ComesTo (e.walk (m.pushed t r)
      { t with code := branch, closings := inside, depth := t.depth + 1, calling } t.place branch) a) :
    e.ComesTo (e.tryBranch m t r inside branch calling) a :=
  call (forward h)

end Engine.ComesTo

theorem Engine.FallsTo.comesTo (h : e.FallsTo m.choices m.height a) : e.ComesTo (.backward m .failed) a :=
  h m rfl rfl

/-- The thread on top decides where a failure leads. -/
theorem Engine.FallsTo.more (h : ∀ m : Machine, m.choices = choices → m.height = height →
    e.ComesTo (e.resume m t r .failed) a) : e.FallsTo (.more t r choices) (height + 1) a := by
  intro m hchoices hheight
  apply ComesTo.backward
  rw [stepBackward, hchoices]
  exact h _ rfl (by simp [hheight])

/-! ## Choices -/

theorem Choices.drop_add (i j : Nat) (c : Choices) : c.drop (i + j) = (c.drop i).drop j := by
  have hnone (j : Nat) : Choices.none.drop j = .none := by cases j <;> rfl
  induction i generalizing c with
  | zero => rw [Nat.zero_add, drop]
  | succ i ih =>
      cases c with
      | none => rw [hnone, hnone, hnone]
      | more t r below =>
          rw [Nat.succ_add, drop, drop]
          exact ih below

namespace Machine.Above

theorem self (m : Machine) : m.Above m.choices m.height :=
  ⟨Nat.le_refl _, by rw [Nat.sub_self, Choices.drop]⟩

theorem trans (h : m'.Above m.choices m.height) (h' : m.Above choices height) : m'.Above choices height := by
  have hle := h.le
  have hle' := h'.le
  have hsum : m'.height - height = (m'.height - m.height) + (m.height - height) := by omega
  exact ⟨hle'.trans hle, by rw [hsum, Choices.drop_add, h.drop, h'.drop]⟩

theorem pushed (h : m.Above choices height) (t : Thread) (r : Resumption) : (m.pushed t r).Above choices height := by
  have hle := h.le
  refine ⟨hle.trans (Nat.le_succ _), ?_⟩
  have hsub : (m.pushed t r).height - height = (m.height - height) + 1 := by
    change m.height + 1 - height = _
    omega
  rw [hsub]
  exact h.drop

theorem below (h : m.Above (.more t r choices) (height + 1)) : m.Above choices height := by
  have hle := h.le
  have hsub : m.height - height = (m.height - (height + 1)) + 1 := by omega
  refine ⟨by omega, ?_⟩
  rw [hsub, Choices.drop_add, h.drop]
  rfl

theorem cutTo (h : m.Above choices height) :
    (m.cutTo height).choices = choices ∧ (m.cutTo height).height = height :=
  ⟨h.drop, Nat.min_eq_left h.le⟩

end Machine.Above

end

/-! ## What follows -/

/-- Wherever a thread comes to in these places with such choices on its stack, it goes on to the end that `K` gives
for the place and for the failure of what is left of its choices. -/
def Engine.Leads (e : Engine) (choices : Choices) (height start : Nat) (go : Machine → Thread → Step)
    (P : Nat → Prop) (K : Nat → Attempt → Attempt) : Prop :=
  ∀ m t a, m.Above choices height → t.start = start → P t.place → e.FallsTo m.choices m.height a →
    e.ComesTo (go m t) (K t.place a)

/-- A thread that stands in these groups comes to the end of its code. -/
def Engine.closeIn (e : Engine) (closings : List Closing) (m : Machine) (t : Thread) : Step :=
  e.close m { t with closings }

/-- A thread goes on with this code in these groups. -/
def goOnIn (closings : List Closing) (code : Code) (m : Machine) (t : Thread) : Step :=
  .forward m { t with code, closings }

/-- A walk over the code leads from place to place, in the order in which the code ends. -/
def Engine.Walks (e : Engine) (behind : Bool) (c : Code) : Prop :=
  ∀ (m : Machine) (t : Thread) (place : Nat) (K : Nat → Attempt → Attempt) (a : Attempt),
    e.subject.Begins place →
    e.Leads m.choices m.height t.start (e.closeIn t.closings) (c.Reaches e.subject behind place) K →
    e.FallsTo m.choices m.height a → e.ComesTo (e.walk m t place c) ((c.ends e.subject place).foldr K a)

section
variable {e : Engine} {m : Machine} {t : Thread} {a : Attempt} {choices : Choices} {height start : Nat}
  {go : Machine → Thread → Step} {P Q : Nat → Prop} {K : Nat → Attempt → Attempt} {behind : Bool}
  {next : Code} {x : Single}

theorem Engine.Leads.mono (h : e.Leads choices height start go P K) (hle : ∀ j, Q j → P j) :
    e.Leads choices height start go Q K :=
  fun m t a hm ht hp ha => h m t a hm ht (hle _ hp) ha

theorem Engine.Leads.above (h : e.Leads choices height start go P K) (hm : m.Above choices height) :
    e.Leads m.choices m.height start go P K :=
  fun m' t a hm' ht hp ha => h m' t a (hm'.trans hm) ht hp ha

/-- Behind the code that a thread goes on with, the groups around close. -/
theorem Engine.Walks.goOn (hw : e.Walks behind next) {closings : List Closing}
    (hk : e.Leads choices height start (e.closeIn closings) P K)
    (hle : ∀ j k, Q j → next.Reaches e.subject behind j k → P k) (hb : ∀ j, Q j → e.subject.Begins j) :
    e.Leads choices height start (goOnIn closings next) Q fun j a => (next.ends e.subject j).foldr K a := by
  intro m t a hm ht hp ha
  apply Engine.ComesTo.forward
  refine hw m { t with code := next, closings } t.place K a (hb _ hp) ?_ ha
  rw [show ({ t with code := next, closings } : Thread).start = start from ht]
  exact (hk.above hm).mono fun k hk => hle _ k hp hk

/-! ## Repeated single items -/

/-- The places at which a repetition ends, if what follows leads on from each of them. -/
theorem Engine.tryNext_comesTo {r : Resumption} {b : Attempt}
    (hk : e.Leads m.choices m.height t.start (goOnIn t.closings t.code) P K) (hp : P t.place)
    (hr : ∀ m' : Machine, m'.choices = m.choices → m'.height = m.height → e.ComesTo (e.resume m' t r .failed) b) :
    e.ComesTo (e.tryNext m t r) (K t.place b) :=
  .call (hk _ { t with depth := t.depth + 1 } b ((Machine.Above.self m).pushed t r) rfl hp (.more hr))

/-- A reluctant repetition goes on forwards, by induction on the number of items that may still be taken. -/
theorem Engine.longer_comesTo (hs : e.subject.IsText) (hx : x ≠ .byte) {count : Nat} {left : Option Nat}
    (hleft : left = some count ∨ left = none ∧ e.subject.size + 1 ≤ t.place + count)
    (hb : e.subject.Begins t.place)
    (hk : e.Leads m.choices m.height t.start (goOnIn t.closings t.code) (e.subject.Reaches t.place) K)
    (ha : e.FallsTo m.choices m.height a) :
    e.ComesTo (e.tryNext m t (.longer x left)) ((e.subject.onFrom x count t.place).foldr K a) := by
  induction count generalizing left m t with
  | zero =>
      refine tryNext_comesTo hk (.refl hb) fun m' hc hh => ?_
      change e.ComesTo (e.resumeRepetition m' t (.longer x left)) a
      have hstop : e.resumeRepetition m' t (.longer x left) = .backward m' .failed := by
        unfold resumeRepetition
        dsimp only
        rcases hleft with rfl | ⟨rfl, hsize⟩
        · rfl
        · have htake := @Subject.take_ahead e.subject x t.place
          simp only [Subject.Ahead] at htake
          rw [if_neg (Option.some_ne_none 0).symm, if_pos (by omega)]
      rw [hstop]
      exact ha m' hc hh
  | succ count ih =>
      have htake := @Subject.take_ahead e.subject x t.place
      have hresume (m' : Machine) : e.resume m' t (.longer x left) .failed =
          if e.subject.take x t.place = t.place then .backward m' .failed
          else e.tryNext m' { t with place := e.subject.take x t.place } (.longer x (left.map (· - 1))) := by
        change e.resumeRepetition m' t (.longer x left) = _
        unfold resumeRepetition
        dsimp only
        rw [if_neg (by rintro rfl; simp at hleft)]
      rw [Subject.onFrom]
      split
      · next hsame =>
          refine tryNext_comesTo hk (.refl hb) fun m' hc hh => ?_
          rw [hresume, if_pos hsame]
          exact ha m' hc hh
      · next hne =>
          refine tryNext_comesTo hk (.refl hb) fun m' hc hh => ?_
          rw [hresume, if_neg hne]
          have hreach : e.subject.Reaches t.place (e.subject.take x t.place) := ⟨hs.begins_take hx hb, htake⟩
          refine ih ?_ hreach.1 ?_ (by rw [hc, hh]; exact ha)
          · rcases hleft with rfl | ⟨rfl, hsize⟩
            · exact .inl rfl
            · refine .inr ⟨rfl, ?_⟩
              simp only [Subject.Ahead] at htake
              dsimp only
              omega
          · rw [hc, hh]
            exact hk.mono fun k hk => hreach.trans hk

/-- A greedy repetition gives back what it has taken, by induction on the place that it has come to. -/
theorem Engine.shorter_comesTo {low fuel : Nat} (hlow : e.subject.Begins low) (hle : low ≤ t.place)
    (hfuel : t.place ≤ fuel) (hb : e.subject.Begins t.place)
    (hk : e.Leads m.choices m.height t.start (goOnIn t.closings t.code)
      (fun j => e.subject.Begins j ∧ low ≤ j ∧ j ≤ t.place) K)
    (ha : e.FallsTo m.choices m.height a) :
    e.ComesTo (e.tryShorter m t x low) ((e.subject.backFrom x low fuel t.place).foldr K a) := by
  have hhere (m' : Machine) (hm : m'.Above m.choices m.height) {b : Attempt} (hb' : e.FallsTo m'.choices m'.height b) :
      e.ComesTo (.forward m' t) (K t.place b) :=
    hk m' t b hm rfl ⟨hb, hle, Nat.le_refl _⟩ hb'
  induction fuel generalizing m t with
  | zero =>
      rw [tryShorter, if_pos (by omega)]
      exact hhere m (.self m) ha
  | succ fuel ih =>
      rw [Subject.backFrom, tryShorter]
      split
      · exact hhere m (.self m) ha
      · next hlt =>
          refine tryNext_comesTo hk ⟨hb, hle, Nat.le_refl _⟩ fun m' hc hh => ?_
          obtain ⟨hback, hle'⟩ := hlow.giveBack (x := x) hb (by omega)
          have hless := @Subject.giveBack_lt e.subject x t.place low (by omega)
          let t' : Thread := { t with place := e.subject.giveBack x low t.place }
          change e.ComesTo (e.tryShorter m' t' x low) _
          have hk' : e.Leads m'.choices m'.height t'.start (goOnIn t'.closings t'.code)
              (fun j => e.subject.Begins j ∧ low ≤ j ∧ j ≤ t'.place) K := by
            rw [hc, hh]
            refine hk.mono fun j hj => ⟨hj.1, hj.2.1, ?_⟩
            have hto := hj.2.2
            dsimp only [t'] at hto
            omega
          refine ih hle' (by dsimp only [t']; omega) hback hk' (by rw [hc, hh]; exact ha) ?_
          exact fun m' hm _ hb' => hk' m' t' _ hm rfl ⟨hback, hle', Nat.le_refl _⟩ hb'

/-- A greedy repetition of a set makes an entry at its last place, too. -/
theorem Engine.shorterSet_comesTo {set : CharSet} {low fuel : Nat} (hlow : e.subject.Begins low) (hle : low ≤ t.place)
    (hfuel : t.place ≤ fuel) (hb : e.subject.Begins t.place)
    (hk : e.Leads m.choices m.height t.start (goOnIn t.closings t.code)
      (fun j => e.subject.Begins j ∧ low ≤ j ∧ j ≤ t.place) K)
    (ha : e.FallsTo m.choices m.height a) :
    e.ComesTo (e.tryNext m t (.shorterSet (.set set) low))
      ((e.subject.backFrom (.set set) low fuel t.place).foldr K a) := by
  have hresume (m' : Machine) : e.resume m' t (.shorterSet (.set set) low) .failed =
      if t.place ≤ low then .backward m' .failed
      else e.tryNext m' { t with place := e.subject.previous t.place } (.shorterSet (.set set) low) := rfl
  have hlast (hstop : t.place ≤ low) :
      e.ComesTo (e.tryNext m t (.shorterSet (.set set) low)) (K t.place a) := by
    refine tryNext_comesTo hk ⟨hb, hle, Nat.le_refl _⟩ fun m' hc hh => ?_
    rw [hresume, if_pos hstop]
    exact ha m' hc hh
  induction fuel generalizing m t with
  | zero => exact hlast (by omega)
  | succ fuel ih =>
      rw [Subject.backFrom]
      split
      · next hstop => exact hlast hstop
      · next hlt =>
          refine tryNext_comesTo hk ⟨hb, hle, Nat.le_refl _⟩ fun m' hc hh => ?_
          rw [hresume, if_neg hlt]
          obtain ⟨hback, hle'⟩ := hlow.giveBack (x := .set set) hb (by omega)
          have hless := @Subject.giveBack_lt e.subject (.set set) t.place low (by omega)
          let t' : Thread := { t with place := e.subject.giveBack (.set set) low t.place }
          change e.ComesTo (e.tryNext m' t' (.shorterSet (.set set) low)) _
          have hk' : e.Leads m'.choices m'.height t'.start (goOnIn t'.closings t'.code)
              (fun j => e.subject.Begins j ∧ low ≤ j ∧ j ≤ t'.place) K := by
            rw [hc, hh]
            refine hk.mono fun j hj => ⟨hj.1, hj.2.1, ?_⟩
            have hto := hj.2.2
            dsimp only [t'] at hto
            omega
          have ha' : e.FallsTo m'.choices m'.height a := by
            rw [hc, hh]
            exact ha
          refine ih hle' (by dsimp only [t']; omega) hback hk' ha' (fun _ => rfl) fun hstop => ?_
          refine tryNext_comesTo hk' ⟨hback, hle', Nat.le_refl _⟩ fun m'' hc' hh' => ?_
          have hstopped : e.resume m'' t' (.shorterSet (.set set) low) .failed = .backward m'' .failed :=
            if_pos hstop
          rw [hstopped]
          exact ha' m'' hc' hh'

/-- A repetition of a single item leads to its ends. -/
theorem Engine.repeatSingle_comesTo (hs : e.subject.IsText) (hx : x ≠ .byte) {times : Times} (hv : times.varies)
    (hm : times.mode ≠ .possessive) (hb : e.subject.Begins t.place)
    (hk : e.Leads m.choices m.height t.start (goOnIn t.closings t.code)
      ((Instruction.many x times).Reaches e.subject behind t.place) K)
    (ha : e.FallsTo m.choices m.height a) :
    e.ComesTo (e.repeatSingle m t x times) ((e.subject.endsOfMany x times t.place).foldr K a) := by
  rw [repeatSingle, Subject.endsOfMany]
  cases hlow : e.subject.takeTimes? x times.least t.place with
  | none => exact ha.comesTo
  | some low =>
      obtain ⟨hahead, hpos⟩ := Subject.takeTimes?_ahead hlow
      have hbegins := hs.begins_takeTimes? hx hb hlow
      have hreaches (j : Nat) (hj : e.subject.Reaches low j) :
          (Instruction.many x times).Reaches e.subject behind t.place j := by
        refine ⟨hj.1, fun _ => ⟨hahead.trans hj.2, fun ht => (hpos ?_).trans_le hj.2.le⟩⟩
        simpa [Instruction.takes] using ht
      dsimp only
      rw [if_pos hv]
      let last := e.subject.takeMost x (e.subject.mostFrom times low) low
      have hlast : e.subject.Reaches low last := ⟨hs.begins_takeMost hx hbegins, Subject.takeMost_ahead⟩
      have hkback : e.Leads m.choices m.height t.start (goOnIn t.closings t.code)
          (fun j => e.subject.Begins j ∧ low ≤ j ∧ j ≤ last) K := by
        refine hk.mono fun j hj => hreaches j ⟨hj.1, ?_⟩
        obtain ⟨-, hfrom, hto⟩ := hj
        have hend := hlast.2
        simp only [Subject.Ahead] at hend ⊢
        omega
      cases hmode : times.mode with
      | possessive => exact (hm hmode).elim
      | reluctant =>
          refine longer_comesTo hs hx (t := { t with place := low }) ?_ hbegins (hk.mono hreaches) ha
          cases hmost : times.most with
          | none =>
              refine .inr ⟨by rw [Times.beyond?, hmost]; rfl, ?_⟩
              rw [Subject.mostFrom, hmost]
              dsimp only
              omega
          | some most =>
              left
              rw [Subject.mostFrom, Times.beyond?, hmost]
              rfl
      | greedy =>
          cases x with
          | set set =>
              exact shorterSet_comesTo (t := { t with place := last }) hbegins hlast.2.le (Nat.le_refl _) hlast.1
                hkback ha
          | _ =>
              exact shorter_comesTo (t := { t with place := last }) hbegins hlast.2.le (Nat.le_refl _) hlast.1
                hkback ha

end

/-! ## Alternatives -/

/-- A walk over each of the alternatives leads from place to place. -/
def Engine.WalksAll (e : Engine) (behind : Bool) : Code → Prop
  | .either _ branch others => e.Walks behind branch ∧ e.WalksAll behind others
  | c => e.Walks behind c

theorem Engine.walksAll_of_not_hasAlternatives {e : Engine} {behind : Bool} {c : Code}
    (h : c.hasAlternatives = false) : e.WalksAll behind c = e.Walks behind c := by
  cases c with
  | either => cases h
  | _ => rfl

theorem Engine.tryOthers_last {e : Engine} {m : Machine} {t : Thread} {b : Branching} {c : Code}
    {calling : Option Nat} {ρ : Branching → Resumption} (h : c.hasAlternatives = false) :
    e.tryOthers m t b c calling ρ =
      e.tryBranch m t (ρ { b with upTo := b.shape.upTo, others := none }) b.inside c calling := by
  cases c with
  | either => cases h
  | _ => rfl

/-- The first alternative is tried like the others. -/
theorem Engine.tryFirst_eq_tryOthers (e : Engine) (m : Machine) (t : Thread) (shape : Shape) (inside : List Closing)
    (body : Code) (calling : Option Nat) (ρ : Branching → Resumption) :
    e.tryFirst m t shape inside body calling ρ =
      e.tryOthers m t { inside, shape, upTo := 0, several := body.hasAlternatives, others := none } body calling ρ := by
  cases body <;> rfl

/-- Such a resumption tries the alternatives that are left, and comes to this end if there are none. -/
structure Engine.Retries (e : Engine) (ρ : Branching → Resumption) (t : Thread) (shape : Shape)
    (choices : Choices) (height : Nat) (a : Attempt) : Prop where
  others : ∀ (b : Branching) (others : Code) (m : Machine), b.others = some others →
    e.resume m t (ρ b) .failed = e.tryOthers m t b others t.calling ρ
  last : ∀ (b : Branching) (m : Machine), b.shape = shape → b.others = none → m.choices = choices →
    m.height = height → e.ComesTo (e.resume m t (ρ b) .failed) a

section
variable {e : Engine} {m : Machine} {t : Thread} {a : Attempt} {choices : Choices} {height : Nat}
  {K L : Nat → Attempt → Attempt} {behind : Bool} {shape : Shape} {body next c : Code} {inside : List Closing}
  {ρ : Branching → Resumption}

/-- One alternative, and what its group does when that has failed. -/
theorem Engine.Walks.tryBranch_comesTo {r : Resumption} (hw : e.Walks behind c) (hb : e.subject.Begins t.place)
    (hk : e.Leads (.more t r m.choices) (m.height + 1) t.start (e.closeIn inside) (c.Reaches e.subject behind t.place)
      K)
    (ha : ∀ m' : Machine, m'.choices = m.choices → m'.height = m.height → e.ComesTo (e.resume m' t r .failed) a)
    (calling : Option Nat) :
    e.ComesTo (e.tryBranch m t r inside c calling) ((c.ends e.subject t.place).foldr K a) := by
  apply ComesTo.tryBranch
  exact hw (m.pushed t r) { t with code := c, closings := inside, depth := t.depth + 1, calling } t.place K a hb hk
    (.more ha)

/-- The alternatives are tried one after the other, by induction on their number. While one is tried, the thread
that entered the group waits below. -/
theorem Engine.Retries.tryOthers_comesTo {b : Branching} (hr : e.Retries ρ t shape choices height a)
    (hw : e.WalksAll behind c) (hb : e.subject.Begins t.place)
    (hk : ∀ b', b'.inside = b.inside → b'.shape = shape →
      e.Leads (.more t (ρ b') choices) (height + 1) t.start (e.closeIn b.inside) (c.Reaches e.subject behind t.place) K)
    (hc : m.choices = choices) (hh : m.height = height) (hs : b.shape = shape) (calling : Option Nat) :
    e.ComesTo (e.tryOthers m t b c calling ρ) ((c.ends e.subject t.place).foldr K a) := by
  induction c generalizing m b calling with
  | either upTo branch others _ ih =>
      rw [Code.ends, List.foldr_append]
      let b' : Branching := { b with upTo, others := some others }
      change e.ComesTo (e.tryBranch m t (ρ b') b.inside branch calling) _
      refine hw.1.tryBranch_comesTo hb ?_ (fun m' hc' hh' => ?_) calling
      · rw [hc, hh]
        exact (hk b' rfl hs).mono fun j hj => .branch hj
      · rw [hr.others b' others m' rfl]
        exact ih hw.2 (fun b hi hs => (hk b hi hs).mono fun j hj => .others hj) (hc'.trans hc) (hh'.trans hh) hs _
  | _ =>
      rw [tryOthers_last rfl]
      let b' : Branching := { b with upTo := b.shape.upTo, others := none }
      refine Walks.tryBranch_comesTo (r := ρ b') hw hb ?_ (fun m' hc' hh' => ?_) calling
      · rw [hc, hh]
        exact hk b' rfl hs
      · exact hr.last b' m' hs rfl (hc'.trans hc) (hh'.trans hh)

theorem Engine.Retries.tryFirst_comesTo (hr : e.Retries ρ t shape m.choices m.height a) (hw : e.WalksAll behind c)
    (hb : e.subject.Begins t.place)
    (hk : ∀ b, b.inside = inside → b.shape = shape →
      e.Leads (.more t (ρ b) m.choices) (m.height + 1) t.start (e.closeIn inside)
        (c.Reaches e.subject behind t.place) K) (calling : Option Nat) :
    e.ComesTo (e.tryFirst m t shape inside c calling ρ) ((c.ends e.subject t.place).foldr K a) := by
  rw [tryFirst_eq_tryOthers]
  exact hr.tryOthers_comesTo hw hb hk rfl rfl rfl calling

/-- Without anything to give up, the last alternative needs no entry. -/
theorem Engine.branches_comesTo {b : Branching} (hw : e.WalksAll behind c) (hb : e.subject.Begins t.place)
    (hk : e.Leads m.choices m.height t.start (e.closeIn b.inside) (c.Reaches e.subject behind t.place) K)
    (ha : e.FallsTo m.choices m.height a) (calling : Option Nat) :
    e.ComesTo (e.tryOthers m t b c calling fun b => .branches b false) ((c.ends e.subject t.place).foldr K a) := by
  induction c generalizing m b calling with
  | either upTo branch others _ ih =>
      rw [Code.ends, List.foldr_append]
      let b' : Branching := { b with upTo, others := some others }
      change e.ComesTo (e.tryBranch m t (.branches b' false) b.inside branch calling) _
      have habove := (Machine.Above.self m).pushed t (.branches b' false)
      refine hw.1.tryBranch_comesTo hb ((hk.above habove).mono fun j hj => .branch hj) (fun m' hc hh => ?_) calling
      have hresume : e.resume m' t (.branches b' false) .failed =
          if !others.hasAlternatives then .forward m' { t with code := others, closings := b.inside }
          else e.tryOthers m' t b' others t.calling fun b => .branches b false := rfl
      have hk' : e.Leads m'.choices m'.height t.start (e.closeIn b.inside) (others.Reaches e.subject behind t.place)
          K := by
        rw [hc, hh]
        exact hk.mono fun j hj => .others hj
      have ha' : e.FallsTo m'.choices m'.height a := by
        rw [hc, hh]
        exact ha
      rw [hresume]
      split
      · next hlast =>
          have hwalk := hw.2
          rw [walksAll_of_not_hasAlternatives (by simpa using hlast)] at hwalk
          exact .forward (hwalk m' { t with code := others, closings := b.inside } t.place K a hb hk' ha')
      · exact ih hw.2 hk' ha' _
  | _ =>
      rw [tryOthers_last rfl]
      let b' : Branching := { b with upTo := b.shape.upTo, others := none }
      have habove := (Machine.Above.self m).pushed t (.branches b' false)
      refine Walks.tryBranch_comesTo (r := .branches b' false) hw hb (hk.above habove) (fun m' hc hh => ?_) calling
      exact ha m' hc hh

end

/-! ## Groups that are entered -/

/-- What closes at the end of a group of this shape: nothing has been kept for a plain group that needs no
precaution. -/
def Shape.closingKind (shape : Shape) : ClosingKind :=
  if shape.role = .plain && !shape.guarded then .plain else .framed

/-- The frame of a group that a thread enters. -/
def frameOf (m : Machine) (t : Thread) (kind : ClosingKind) (shape : Shape) (body next : Code) : Closing :=
  { kind, shape, body, next, origin := t.place, height := m.height }

/-- The group is a look around. -/
def Role.IsLook (role : Role) : Prop := ∃ l, role = .look l

section
variable {e : Engine} {m m' : Machine} {t t' : Thread} {a b : Attempt} {choices : Choices} {height : Nat}
  {K L : Nat → Attempt → Attempt} {behind : Bool} {shape : Shape} {body next c : Code} {closings outer : List Closing}
  {frame : Closing} {P Q : Nat → Prop} {go go' : Machine → Thread → Step}

/-- When what has been tried within a group is settled, a failure goes back behind the group. -/
theorem Machine.Above.settle {r : Resumption}
    (hm : m'.Above (.more t r m.choices) (m.height + 1)) (hheight : frame.height = m.height)
    (hr : ∀ m : Machine, e.resume m t r.exhausted .failed = .backward m .failed)
    (ha : e.FallsTo m.choices m.height a) :
    (m'.settle frame).Above m.choices m.height ∧ e.FallsTo (m'.settle frame).choices (m'.settle frame).height a := by
  obtain ⟨hc, hh⟩ := hm.cutTo
  have hsettle : m'.settle frame = { m'.cutTo (m.height + 1) with choices := .more t r.exhausted m.choices } := by
    rw [Machine.settle, hheight]
    simp only [hc]
  have hheight' : (m'.settle frame).height = m.height + 1 := by rw [hsettle]; exact hh
  have hchoices : (m'.settle frame).choices = .more t r.exhausted m.choices := by rw [hsettle]
  rw [hheight', hchoices]
  refine ⟨⟨by omega, ?_⟩, .more fun m'' hc' hh' => ?_⟩
  · rw [hheight', hchoices, Nat.add_sub_cancel_left]
    rfl
  · rw [hr]
    exact ha m'' hc' hh'

/-- When the choices of a group are given up, its thread and what that waited for are handed over. -/
theorem Machine.Above.unwind {r : Resumption}
    (hm : m'.Above (.more t r m.choices) (m.height + 1)) (hheight : frame.height = m.height)
    (go : Machine → Thread → Resumption → Step) :
    ∃ m'' : Machine, m''.choices = m.choices ∧ m''.height = m.height ∧ m'.unwind frame go = go m'' t r := by
  obtain ⟨hc, hh⟩ := hm.cutTo
  refine ⟨{ m'.cutTo (m.height + 1) with choices := m.choices, height := m.height }, rfl, rfl, ?_⟩
  rw [Machine.unwind, hheight]
  simp only [hc]

theorem Engine.retries_branches (ha : e.FallsTo choices height a) :
    e.Retries (fun b => .branches b true) t shape choices height a where
  others b others m h := by
    change e.resumeGroup m t .failed (.branches b true) = _
    simp only [resumeGroup, Branching.judge, h]
    rfl
  last b m _ h hc hh := by
    have hresume : e.resume m t (.branches b true) .failed = .backward m .failed := by
      change e.resumeGroup m t .failed (.branches b true) = _
      simp only [resumeGroup, Branching.judge, h]
    rw [hresume]
    exact ha m hc hh

theorem Engine.Leads.below {r : Resumption} (hl : e.Leads choices height t.start go P L)
    (hgo : ∀ m t, go' m t = go m t) : e.Leads (.more t r choices) (height + 1) t.start go' P L := by
  intro m' t' b hm hs hp hb
  rw [hgo]
  exact hl m' t' b hm.below hs hp hb

theorem Engine.endGroup_closings : e.endGroup m { t with closings } frame outer = e.endGroup m t frame outer := rfl

/-- At the end of a plain group there is nothing to do but what the group asks for. -/
theorem Engine.closeIn_plain (hkind : frame.kind = .plain ∨ frame.kind = .framed) (hrole : frame.shape.role = .plain) :
    e.closeIn (frame :: outer) m t = e.endGroup m t frame outer := by
  rcases hkind with hkind | hkind
  · simp only [closeIn, close, hkind]
    exact endGroup_closings
  · simp only [closeIn, close, hkind, closeGroup, hrole]
    exact endGroup_closings

theorem Shape.closingKind_plain_or_framed (shape : Shape) :
    shape.closingKind = .plain ∨ shape.closingKind = .framed := by
  unfold closingKind
  split
  · exact .inl rfl
  · exact .inr rfl

/-- Plain, numbered and atomic groups run through their alternatives; at the end of one, what the group asks for is
taken care of. -/
theorem Engine.enter_runs
    (hrole : shape.role = .plain ∨ (∃ n again, shape.role = .capture n again) ∨ shape.role = .atomic)
    (hkeep : shape.ending ≠ .keep) (hw : e.WalksAll false body) (hb : e.subject.Begins t.place)
    (hend : e.Leads m.choices m.height t.start
      (fun m' t' => e.endGroup m' t' (frameOf m t shape.closingKind shape body next) t.closings)
      (body.Reaches e.subject false t.place) L)
    (ha : e.FallsTo m.choices m.height a) :
    e.ComesTo (e.enter m t shape body next) ((shape.role.ends (fun j => body.ends e.subject j) t.place).foldr L a) := by
  let frame := frameOf m t shape.closingKind shape body next
  have hretries : e.Retries (fun b => .branches b true) t shape m.choices m.height a := retries_branches ha
  rcases hrole with hrole | ⟨n, again, hrole⟩ | hrole
  · have hclose (m' : Machine) (t' : Thread) :
        e.closeIn (frame :: t.closings) m' t' = e.endGroup m' t' frame t.closings :=
      closeIn_plain shape.closingKind_plain_or_framed hrole
    have hall (b : Branching) (_ : b.inside = frame :: t.closings) (_ : b.shape = shape) :
        e.Leads (.more t (.branches b true) m.choices) (m.height + 1) t.start (e.closeIn (frame :: t.closings))
          (body.Reaches e.subject false t.place) L := hend.below hclose
    have hhere : e.Leads m.choices m.height t.start (e.closeIn (frame :: t.closings))
        (body.Reaches e.subject false t.place) L := by
      intro m' t' b hm hs hp hb
      rw [hclose]
      exact hend m' t' b hm hs hp hb
    simp only [hrole, Role.ends]
    unfold enter
    simp only [hrole, hkeep, if_false]
    cases hguarded : shape.guarded with
    | true =>
        have hkind : frame.kind = .framed := by simp [frame, frameOf, Shape.closingKind, hguarded]
        have hinside : t.within m .framed shape body next = frame :: t.closings := by
          rw [← hkind]
          rfl
        rw [if_pos rfl, hinside]
        exact hretries.tryFirst_comesTo hw hb hall _
    | false =>
        have hkind : frame.kind = .plain := by simp [frame, frameOf, Shape.closingKind, hguarded, hrole]
        have hinside : t.within m .plain shape body next = frame :: t.closings := by
          rw [← hkind]
          rfl
        rw [if_neg Bool.false_ne_true, hinside]
        split
        · exact hretries.tryFirst_comesTo hw hb hall _
        · split
          · rw [tryFirst_eq_tryOthers]
            exact branches_comesTo hw hb hhere ha _
          · next hlast =>
              have hwalk : e.Walks false body := by
                rw [← walksAll_of_not_hasAlternatives]
                · exact hw
                · cases body with
                  | either upTo branch others => exact (hlast _ _ _ rfl).elim
                  | _ => rfl
              rw [hinside]
              exact .forward (hwalk m { t with code := body, closings := frame :: t.closings } t.place L a hb hhere ha)
  · have hkind : shape.closingKind = .framed := by simp [Shape.closingKind, hrole]
    have hclose (m' : Machine) (t' : Thread) : e.closeIn (frame :: t.closings) m' t' =
        e.endGroup m' { t' with captures := t'.captures.setIfInBounds n (some (t.place, t'.place)) } frame
          t.closings := by
      have hframe : frame.kind = .framed ∧ frame.shape.role = .capture n again := ⟨hkind, hrole⟩
      simp only [closeIn, close, hframe.1, closeGroup, hframe.2]
      rfl
    have hinside : t.within m .framed shape body next = frame :: t.closings := by
      rw [← hkind]
      rfl
    simp only [hrole, Role.ends]
    unfold enter
    simp only [hrole, hkeep, if_false, hinside]
    refine hretries.tryFirst_comesTo hw hb (fun b _ _ => ?_) _
    intro m' t' b hm hs hp hb
    rw [hclose]
    exact hend m' { t' with captures := _ } b hm.below hs hp hb
  · have hkind : shape.closingKind = .framed := by simp [Shape.closingKind, hrole]
    have hclose (m' : Machine) (t' : Thread) : e.closeIn (frame :: t.closings) m' t' =
        e.endGroup (m'.settle frame) t' frame t.closings := by
      have hframe : frame.kind = .framed ∧ frame.shape.role = .atomic := ⟨hkind, hrole⟩
      simp only [closeIn, close, hframe.1, closeGroup, hframe.2]
      exact endGroup_closings
    have hinside : t.within m .framed shape body next = frame :: t.closings := by
      rw [← hkind]
      rfl
    have hfirst (l : List Nat) : l.foldr (fun j _ => L j a) a = (l.take 1).foldr L a := by
      cases l <;> rfl
    simp only [hrole, Role.ends, ← hfirst]
    unfold enter
    simp only [hrole, hinside]
    refine hretries.tryFirst_comesTo hw hb (fun b _ _ => ?_) _
    intro m' t' _ hm hs hp _
    rw [hclose]
    obtain ⟨habove, hfalls⟩ := hm.settle (show frame.height = m.height from rfl) (fun _ => rfl) ha
    exact hend _ t' a habove hs hp hfalls

/-- What has taken nothing is not repeated. -/
theorem Engine.endGroup_same (hending : frame.shape.ending = .again ∨ frame.shape.ending = .onward)
    (hkind : frame.kind = .framed) (hplace : frame.origin = t.place) :
    e.endGroup m t frame outer = goOnIn outer frame.next m t := by
  rcases hending with h | h <;> simp [endGroup, h, hkind, hplace, goOnIn]

theorem Engine.endGroup_again (hending : frame.shape.ending = .again) (hplace : frame.origin ≠ t.place) :
    e.endGroup m t frame outer =
      e.call m { t with code := frame.next, closings := outer } .goOn fun m =>
        .enter m { t with code := frame.next, closings := outer, depth := t.depth + 1 } frame.shape frame.body
          frame.next := by
  simp [endGroup, hending, hplace]

theorem Engine.endGroup_onward (hending : frame.shape.ending = .onward) (hplace : frame.origin ≠ t.place) :
    e.endGroup m t frame outer =
      e.tryNext m { t with code := frame.next, closings := outer }
        (.enter frame.shape frame.body frame.next) := by
  simp [endGroup, hending, hplace]

/-- What follows a group leads on from every place that the group can be left at when it is entered again ahead. -/
theorem Shape.Reaches.again {s : Subject} {i j k : Nat} (h : s.Reaches i j) (hne : j ≠ i)
    (h' : shape.Reaches s body j k) : shape.Reaches s body i k := by
  have hij := h.2
  have hjk := h'.1.2.le
  simp only [Subject.Ahead] at hij
  exact ⟨h.trans h'.1, fun _ _ => by omega⟩

/-- A group that is repeated without a limit, by induction on what is left of the subject. -/
theorem Engine.enter_loop {fuel : Nat}
    (hrole : shape.role = .plain ∨ (∃ n again, shape.role = .capture n again) ∨ shape.role = .atomic)
    (hrun : shape.runsOn → body.takes) (hw : e.WalksAll false body) (hb : e.subject.Begins t.place)
    (hending : shape.ending = .again ∨ shape.ending = .onward) (hfuel : e.subject.size - t.place < fuel)
    (hk : e.Leads m.choices m.height t.start (goOnIn t.closings next) (shape.Reaches e.subject body t.place) K)
    (ha : e.FallsTo m.choices m.height a) :
    e.ComesTo (e.enter m t shape body next)
      ((endsOfLoop (shape.ending = .again) (shape.role.ends fun j => body.ends e.subject j) fuel t.place).foldr K
        a) := by
  induction fuel generalizing m t a with
  | zero => omega
  | succ fuel ih =>
      rw [endsOfLoop, List.foldr_flatMap]
      have hkeep : shape.ending ≠ .keep := by rcases hending with h | h <;> rw [h] <;> decide
      refine enter_runs hrole hkeep hw hb ?_ ha
      intro m' t' b hm hstart hreach hfalls
      dsimp only
      obtain ⟨hahead, htakes⟩ := hreach.2 rfl
      have hij : e.subject.Reaches t.place t'.place := ⟨hreach.1, hahead⟩
      have hhere {m'' : Machine} {b : Attempt} (hm'' : m''.Above m.choices m.height) (t'' : Thread)
          (hs : t''.start = t.start) (hp : t''.place = t'.place) (hb : e.FallsTo m''.choices m''.height b) :
          e.ComesTo (goOnIn t.closings next m'' t'') (K t'.place b) := by
        rw [← hp]
        exact hk m'' t'' b hm'' hs (hp ▸ ⟨hij, fun _ ht => htakes ht⟩) hb
      by_cases hsame : t'.place = t.place
      · -- nothing is kept of where a plain group began that takes a character each time
        have hkind : shape.closingKind = .framed := by
          refine shape.closingKind_plain_or_framed.resolve_left fun hkind => ?_
          have hbare : shape.role = .plain ∧ shape.guarded = false := by simpa [Shape.closingKind] using hkind
          have hruns : shape.runsOn := by rcases hending with h | h <;> simp [Shape.runsOn, hbare, h]
          have hlt := htakes (hrun hruns)
          omega
        rw [if_pos hsame, endGroup_same hending hkind hsame.symm]
        exact hhere hm t' hstart rfl hfalls
      · have hagain {m'' : Machine} {b : Attempt} (hm'' : m''.Above m.choices m.height) (t'' : Thread)
            (hs : t''.start = t.start) (hp : t''.place = t'.place) (hc : t''.closings = t.closings)
            (hb : e.FallsTo m''.choices m''.height b) :
            e.ComesTo (e.enter m'' t'' shape body next)
              ((endsOfLoop (shape.ending = .again) (shape.role.ends fun j => body.ends e.subject j) fuel
                t'.place).foldr K b) := by
          rw [← hp]
          refine ih (hp ▸ hreach.1) ?_ ?_ hb
          · simp only [Subject.Ahead] at hahead
            omega
          · rw [hs, hc, hp]
            exact (hk.above hm'').mono fun j hj => Shape.Reaches.again hij hsame hj
        have hrest {m'' : Machine} (hc : m''.choices = m'.choices) (hh : m''.height = m'.height) :
            m''.Above m.choices m.height ∧ e.FallsTo m''.choices m''.height b := by
          rw [hc, hh]
          exact ⟨⟨hh ▸ hm.le, by rw [hc, hh]; exact hm.drop⟩, hfalls⟩
        rw [if_neg hsame]
        rcases hending with hending | hending
        · rw [endGroup_again hending (Ne.symm hsame), if_pos (by simpa using hending), List.foldr_append]
          refine .call (.enter (hagain (hm.pushed _ _) _ hstart rfl rfl (.more fun m'' hc hh => ?_)))
          obtain ⟨habove, hfalls'⟩ := hrest hc hh
          exact hhere habove t' hstart rfl hfalls'
        · rw [endGroup_onward hending (Ne.symm hsame), if_neg (by simp [hending]), List.foldr_cons]
          refine .call (hhere (hm.pushed _ _) { t' with depth := t'.depth + 1 } hstart rfl (.more fun m'' hc hh => ?_))
          obtain ⟨habove, hfalls'⟩ := hrest hc hh
          exact hagain habove { t' with code := next, closings := t.closings } hstart rfl rfl hfalls'

/-- The place that a repetition comes to that is never taken back, unless nothing has matched and something has
to. -/
def keptOutcome (shape : Shape) (ends : Nat → List Nat) (fuel : Nat) (matched : Bool) (K : Nat → Attempt → Attempt)
    (i : Nat) (a : Attempt) : Attempt :=
  if (ends i).isEmpty && !(matched || shape.entry = .maybe) then a else K (endOfKept ends fuel i) a

/-- Where a group that is run again has matched, its choices are given up, and its thread goes on from there. -/
def Engine.runAgain (e : Engine) (t : Thread) (m : Machine) (first : Thread) : Resumption → Step
  | .keep b body next _ =>
      let t := { first with place := t.place, start := t.start, captures := t.captures }
      if t.place = first.place then .forward m { t with code := next }
      else
        let inside :=
          match b.inside with
          | frame :: around => { frame with origin := t.place } :: around
          | [] => []
        e.tryFirst m t b.shape inside body t.calling fun b => .keep b body next true
  | _ => .backward m .failed

theorem Engine.endGroup_keep (hending : frame.shape.ending = .keep) :
    e.endGroup m t frame outer = m.unwind frame (e.runAgain t) := by
  simp only [endGroup, hending]
  rfl

/-- What follows a group that is run again and again leads on from every place that it can stop at. -/
def Shape.KeptReaches (s : Subject) (shape : Shape) (body : Code) (matched : Bool) (i j : Nat) : Prop :=
  s.Reaches i j ∧ (shape.hands → body.takes → matched ∨ i < j)

theorem Engine.retries_keep {matched : Bool} (hb : e.subject.Begins t.place)
    (hk : e.Leads m.choices m.height t.start (goOnIn t.closings next)
      (shape.KeptReaches e.subject body matched t.place) K)
    (ha : e.FallsTo m.choices m.height a) :
    e.Retries (fun b => .keep b body next matched) t shape m.choices m.height
      (if matched || shape.entry = .maybe then K t.place a else a) where
  others b others m' h := by
    change e.resumeGroup m' t .failed (.keep b body next matched) = _
    simp only [resumeGroup, Branching.judge, h]
  last b m' hshape h hc hh := by
    have hresume : e.resume m' t (.keep b body next matched) .failed =
        if matched || shape.entry = .maybe then goOnIn t.closings next m' t else .backward m' .failed := by
      change e.resumeGroup m' t .failed (.keep b body next matched) = _
      simp only [resumeGroup, Branching.judge, h, hshape]
      rfl
    rw [hresume]
    split
    · next hpass =>
        refine hk m' t a ?_ rfl ⟨.refl hb, fun hh _ => .inl ?_⟩ ?_
        · rw [← hc, ← hh]
          exact .self m'
        · rw [Shape.hands, Bool.and_eq_true, decide_eq_true_eq] at hh
          simpa [hh.1] using hpass
        · rw [hc, hh]
          exact ha
    · exact ha m' hc hh

/-- A group that is run again as often as it matches, by induction on what is left of the subject. -/
theorem Engine.tryFirst_keep {fuel : Nat} {matched : Bool}
    (hrole : shape.role = .plain ∨ ∃ n again, shape.role = .capture n again) (hending : shape.ending = .keep)
    (hw : e.WalksAll false body) (hb : e.subject.Begins t.place) (hfuel : e.subject.size - t.place < fuel)
    (hk : e.Leads m.choices m.height t.start (goOnIn t.closings next)
      (shape.KeptReaches e.subject body matched t.place) K)
    (ha : e.FallsTo m.choices m.height a) (calling : Option Nat) :
    e.ComesTo
      (e.tryFirst m t shape (frameOf m t .framed shape body next :: t.closings) body calling
        fun b => .keep b body next matched)
      (keptOutcome shape (fun j => body.ends e.subject j) fuel matched K t.place a) := by
  induction fuel generalizing m t a matched calling with
  | zero => omega
  | succ fuel ih =>
      let frame := frameOf m t .framed shape body next
      let again (j : Nat) (_ : Attempt) : Attempt :=
        K (if j = t.place then t.place else endOfKept (fun j => body.ends e.subject j) fuel j) a
      have houtcome : keptOutcome shape (fun j => body.ends e.subject j) (fuel + 1) matched K t.place a =
          (body.ends e.subject t.place).foldr again (if matched || shape.entry = .maybe then K t.place a else a) := by
        rw [keptOutcome, endOfKept]
        cases body.ends e.subject t.place with
        | nil => cases hpass : matched || decide (shape.entry = .maybe) <;> simp
        | cons j rest => rfl
      rw [houtcome]
      refine (retries_keep hb hk ha).tryFirst_comesTo hw hb (fun b hinside hshape => ?_) _
      intro m' t' _ hm hstart hreach _
      obtain ⟨hahead, htakes⟩ := hreach.2 rfl
      obtain ⟨captures, hclose⟩ : ∃ captures, e.closeIn (frame :: t.closings) m' t' =
          m'.unwind frame (e.runAgain { t' with captures }) := by
        have hframe : frame.kind = .framed ∧ frame.shape.ending = .keep := ⟨rfl, hending⟩
        rcases hrole with hrole | ⟨n, numbered, hrole⟩
        · have hplain : frame.shape.role = .plain := hrole
          refine ⟨t'.captures, ?_⟩
          simp only [closeIn, close, hframe.1, closeGroup, hplain]
          exact endGroup_keep hending
        · have hcapture : frame.shape.role = .capture n numbered := hrole
          refine ⟨t'.captures.setIfInBounds n (some (frame.origin, t'.place)), ?_⟩
          simp only [closeIn, close, hframe.1, closeGroup, hcapture]
          exact endGroup_keep hending
      obtain ⟨m'', hc, hh, hunwind⟩ := hm.unwind (show frame.height = m.height from rfl) _
      have habove : m''.Above m.choices m.height := by
        rw [← hc, ← hh]
        exact .self m''
      have hfalls : e.FallsTo m''.choices m''.height a := by
        rw [hc, hh]
        exact ha
      rw [hclose, hunwind, runAgain]
      let t'' : Thread := { t with place := t'.place, start := t'.start, captures }
      dsimp only [again]
      by_cases hsame : t'.place = t.place
      · rw [if_pos hsame, if_pos hsame, ← hsame]
        refine hk m'' t'' a habove hstart ⟨⟨hreach.1, hahead⟩, fun _ ht => .inr ?_⟩ hfalls
        exact htakes ht
      · rw [if_neg hsame, if_neg hsame, hinside, hshape]
        have hinside' : { frame with origin := t'.place } :: t.closings =
            frameOf m'' t'' .framed shape body next :: t''.closings := by
          rw [frameOf, hh]
          rfl
        have hkept : keptOutcome shape (fun j => body.ends e.subject j) fuel true K t''.place a =
            K (endOfKept (fun j => body.ends e.subject j) fuel t'.place) a := by
          simp [keptOutcome, t'']
        dsimp only
        rw [hinside', ← hkept]
        refine ih (t := t'') hreach.1 ?_ ?_ hfalls _
        · simp only [Subject.Ahead] at hahead
          dsimp only [t'']
          omega
        · rw [show t''.start = t.start from hstart]
          refine (hk.above habove).mono fun j hj => ⟨.trans ⟨hreach.1, hahead⟩ hj.1, fun _ _ => .inr ?_⟩
          have hle := hj.1.2.le
          simp only [Subject.Ahead] at hahead
          dsimp only [t''] at hle
          omega

/-- A look around for no match is passed once if nothing matches. -/
theorem Role.foldr_ends_avoid {l : Look} (h : l.negated) (f : Nat → List Nat) (i : Nat) :
    ((Role.look l).ends f i).foldr K a = (f i).foldr (fun _ _ => a) (K i a) := by
  simp only [ends, h, if_true]
  cases f i <;> rfl

/-- A look around for a match is passed as often as something matches, or once. -/
theorem Role.foldr_ends_ahead {l : Look} (h : l.negated = false) (f : Nat → List Nat) (i : Nat) :
    ((Role.look l).ends f i).foldr K a = (f i).foldr (fun _ b => K i (if l.atomic then a else b)) a := by
  simp only [ends, h, Bool.false_eq_true, if_false]
  cases l.atomic with
  | true => cases f i <;> rfl
  | false =>
      rw [if_neg Bool.false_ne_true, List.foldr_map]
      rfl

theorem Engine.retries_avoid (hk : e.Leads m.choices m.height t.start (goOnIn t.closings next) (· = t.place) K)
    (ha : e.FallsTo m.choices m.height a) :
    e.Retries (fun b => .avoid b next) t shape m.choices m.height (K t.place a) where
  others b others m' h := by
    change e.resumeLook m' t .failed (.avoid b next) = _
    simp only [resumeLook, h]
  last b m' _ h hc hh := by
    have hresume : e.resume m' t (.avoid b next) .failed = goOnIn t.closings next m' t := by
      change e.resumeLook m' t .failed (.avoid b next) = _
      simp only [resumeLook, h]
      rfl
    rw [hresume]
    refine hk m' t a ?_ rfl rfl ?_
    · rw [← hc, ← hh]
      exact .self m'
    · rw [hc, hh]
      exact ha

theorem Engine.retries_ahead (ha : e.FallsTo choices height a) :
    e.Retries (fun b => .ahead b next) t shape choices height a where
  others b others m' h := by
    change e.resumeLook m' t .failed (.ahead b next) = _
    simp only [resumeLook, h]
  last b m' _ h hc hh := by
    have hresume : e.resume m' t (.ahead b next) .failed = .backward m' .failed := by
      change e.resumeLook m' t .failed (.ahead b next) = _
      simp only [resumeLook, h]
    rw [hresume]
    exact ha m' hc hh

/-- A look around leads nowhere. -/
theorem Engine.enter_look {l : Look} (hrole : shape.role = .look l) (hending : shape.ending = .once)
    (hw : e.WalksAll l.behind body) (hb : e.subject.Begins t.place)
    (hk : e.Leads m.choices m.height t.start (goOnIn t.closings next) (· = t.place) K)
    (ha : e.FallsTo m.choices m.height a) :
    e.ComesTo (e.enter m t shape body next) ((shape.role.ends (fun j => body.ends e.subject j) t.place).foldr K a) := by
  let frame := frameOf m t .framed shape body next
  have hframe : frame.kind = .framed ∧ frame.shape.role = .look l ∧ frame.shape.ending = .once := ⟨rfl, hrole, hending⟩
  have hheight : frame.height = m.height := rfl
  rw [hrole]
  cases hnegated : l.negated with
  | true =>
      have henter : e.enter m t shape body next =
          e.tryFirst m t shape (frame :: t.closings) body t.calling fun b => .avoid b next := by
        simp only [enter, hrole, hnegated, if_true]
        rfl
      rw [Role.foldr_ends_avoid hnegated, henter]
      refine (retries_avoid hk ha).tryFirst_comesTo hw hb (fun b _ _ => ?_) _
      intro m' t' _ hm _ _ _
      have hclose : e.closeIn (frame :: t.closings) m' t' = m'.unwind frame fun m _ _ => .backward m .failed := by
        simp only [closeIn, close, hframe.1, closeGroup, hframe.2.1, hnegated, if_true]
      obtain ⟨m'', hc, hh, hunwind⟩ := hm.unwind hheight fun m _ _ => .backward m .failed
      rw [hclose, hunwind]
      exact ha m'' hc hh
  | false =>
      have henter : e.enter m t shape body next =
          e.tryFirst m t shape (frame :: t.closings) body t.calling fun b => .ahead b next := by
        simp only [enter, hrole, hnegated, Bool.false_eq_true, if_false]
        rfl
      rw [Role.foldr_ends_ahead hnegated, henter]
      refine (retries_ahead ha).tryFirst_comesTo hw hb (fun b _ _ => ?_) _
      intro m' t' a' hm hs _ hfalls
      have hclose : e.closeIn (frame :: t.closings) m' t' =
          goOnIn t.closings next (if l.atomic then m'.settle frame else m') { t' with place := t.place } := by
        simp only [closeIn, close, hframe.1, closeGroup, hframe.2.1, hnegated, Bool.false_eq_true, if_false, endGroup,
          hframe.2.2]
        rfl
      rw [hclose]
      cases l.atomic with
      | true =>
          obtain ⟨habove, hsettled⟩ := hm.settle hheight (fun _ => rfl) ha
          exact hk _ { t' with place := t.place } a habove hs rfl hsettled
      | false => exact hk m' { t' with place := t.place } a' hm.below hs rfl hfalls

/-- A group that is entered leads to its ends. -/
theorem Engine.enter_comesTo (hr : shape.isRegular) (hrun : shape.runsOn → body.takes)
    (hw : e.WalksAll shape.looksBehind body) (hb : e.subject.Begins t.place)
    (hk : e.Leads m.choices m.height t.start (goOnIn t.closings next) (shape.Reaches e.subject body t.place) K)
    (ha : e.FallsTo m.choices m.height a) :
    e.ComesTo (e.enter m t shape body next)
      ((shape.endsInside e.subject (fun j => body.ends e.subject j) t.place).foldr K a) := by
  by_cases hlook : shape.role.IsLook
  · obtain ⟨l, hrole⟩ := hlook
    have hending : shape.ending = .once := by simpa [Shape.isRegular, hrole] using hr
    have hbehind : shape.looksBehind = l.behind := by rw [Shape.looksBehind, hrole]
    rw [hbehind] at hw
    rw [Shape.endsInside, hending]
    refine enter_look hrole hending hw hb (hk.mono ?_) ha
    rintro _ rfl
    exact ⟨.refl hb, fun hh => (Shape.role_ne_look hh l hrole).elim⟩
  · have hne (l : Look) : shape.role ≠ .look l := fun h => hlook ⟨l, h⟩
    rw [Shape.looksBehind_eq_false hne] at hw
    have hrole : (shape.role = .plain ∨ ∃ n again, shape.role = .capture n again) ∨
        shape.role = .atomic ∧ shape.ending ≠ .keep := by
      unfold Shape.isRegular at hr
      cases hrole : shape.role with
      | plain => exact .inl (.inl rfl)
      | capture n again => exact .inl (.inr ⟨n, again, rfl⟩)
      | atomic => exact .inr ⟨rfl, by simpa [hrole] using hr⟩
      | look l => exact (hne l hrole).elim
      | scriptRun | conditional => simp [hrole] at hr
    have hrole' : shape.role = .plain ∨ (∃ n again, shape.role = .capture n again) ∨ shape.role = .atomic := by
      rcases hrole with (h | h) | ⟨h, -⟩
      · exact .inl h
      · exact .inr (.inl h)
      · exact .inr (.inr h)
    have hfuel : e.subject.size - t.place < e.subject.size - t.place + 1 := Nat.lt_succ_self _
    rw [Shape.endsInside]
    cases hending : shape.ending with
    | once =>
        refine enter_runs hrole' (by simp [hending]) hw hb ?_ ha
        intro m' t' b hm hs hreach hb'
        have hgroup : e.endGroup m' t' (frameOf m t shape.closingKind shape body next) t.closings =
            goOnIn t.closings next m' t' := by
          simp only [endGroup, frameOf, hending]
          rfl
        dsimp only
        rw [hgroup]
        exact hk m' t' b hm hs ⟨⟨hreach.1, (hreach.2 rfl).1⟩, fun _ => (hreach.2 rfl).2⟩ hb'
    | again =>
        have hloop := enter_loop hrole' hrun hw hb (.inl hending) hfuel hk ha
        simpa [hending] using hloop
    | onward =>
        have hloop := enter_loop hrole' hrun hw hb (.inr hending) hfuel hk ha
        simpa [hending] using hloop
    | keep =>
        have hbare := hrole.resolve_right fun h => h.2 hending
        have hkept := tryFirst_keep hbare hending hw hb hfuel
          (hk.mono fun j (hj : shape.KeptReaches e.subject body false t.place j) =>
            ⟨hj.1, fun hh ht => (hj.2 hh ht).resolve_left Bool.false_ne_true⟩) ha t.calling
        have henter : e.enter m t shape body next =
            e.tryFirst m t shape (frameOf m t .framed shape body next :: t.closings) body t.calling
              fun b => .keep b body next false := by
          rcases hbare with hrole | ⟨n, again, hrole⟩ <;>
            · simp only [enter, hrole, hending, if_true]
              rfl
        have houtcome : keptOutcome shape (fun j => body.ends e.subject j) (e.subject.size - t.place + 1) false K
            t.place a =
            (if (body.ends e.subject t.place).isEmpty then (if shape.entry = .maybe then [t.place] else [])
              else [endOfKept (fun j => body.ends e.subject j) (e.subject.size - t.place + 1) t.place]).foldr K a := by
          rw [keptOutcome, endOfKept]
          cases body.ends e.subject t.place with
          | nil => by_cases hmaybe : shape.entry = .maybe <;> simp [hmaybe]
          | cons j rest => rfl
        rw [henter]
        dsimp only
        rw [← houtcome]
        exact hkept

/-! ## Walks -/

/-- A group that a thread comes to leads to its ends. -/
theorem Engine.reachGroup_comesTo (hr : shape.isRegular) (hrun : shape.runsOn → body.takes)
    (hw : e.WalksAll shape.looksBehind body) (hb : e.subject.Begins t.place)
    (hk : e.Leads m.choices m.height t.start (goOnIn t.closings next) (shape.Reaches e.subject body t.place) K)
    (ha : e.FallsTo m.choices m.height a) :
    e.ComesTo (e.reachGroup m t shape body next)
      ((shape.ends e.subject (fun j => body.ends e.subject j) t.place).foldr K a) := by
  let ends := shape.endsInside e.subject (fun j => body.ends e.subject j) t.place
  have henter {m' : Machine} {b : Attempt} (hm : m'.Above m.choices m.height) (t' : Thread) (hs : t'.start = t.start)
      (hp : t'.place = t.place) (hc : t'.closings = t.closings) (hfalls : e.FallsTo m'.choices m'.height b) :
      e.ComesTo (e.enter m' t' shape body next) (ends.foldr K b) := by
    have hb' : e.subject.Begins t'.place := hp ▸ hb
    have hk' := hk.above hm
    rw [← hs, ← hp, ← hc] at hk'
    have hcomes := enter_comesTo hr hrun hw hb' hk' hfalls
    rwa [hp] at hcomes
  have hskip {m' : Machine} {b : Attempt} (hm : m'.Above m.choices m.height) (hentry : shape.entry ≠ .once)
      (t' : Thread) (hs : t'.start = t.start) (hp : t'.place = t.place) (hfalls : e.FallsTo m'.choices m'.height b) :
      e.ComesTo (goOnIn t.closings next m' t') (K t.place b) := by
    rw [← hp]
    refine hk m' t' b hm hs ?_ hfalls
    rw [hp]
    exact ⟨.refl hb, fun hh => by simp [Shape.hands, hentry] at hh⟩
  have hsame {m' : Machine} (hc : m'.choices = m.choices) (hh : m'.height = m.height) :
      m'.Above m.choices m.height ∧ e.FallsTo m'.choices m'.height a := by
    rw [← hc, ← hh] at ha ⊢
    exact ⟨.self m', ha⟩
  rw [reachGroup, Shape.ends]
  cases hentry : shape.entry with
  | once => exact henter (.self m) t rfl rfl rfl ha
  | never => exact hskip (.self m) (by simp [hentry]) t rfl rfl ha
  | maybe =>
      dsimp only
      split
      · exact henter (.self m) t rfl rfl rfl ha
      · rw [List.foldr_append]
        refine .call (.enter (henter ((Machine.Above.self m).pushed _ _) { t with depth := t.depth + 1 } rfl rfl rfl
          (.more fun m' hc hh => ?_)))
        obtain ⟨habove, hfalls⟩ := hsame hc hh
        exact hskip habove (by simp [hentry]) t rfl rfl hfalls
  | maybeNot =>
      rw [List.foldr_cons]
      refine .call (hskip ((Machine.Above.self m).pushed _ _) (by simp [hentry]) { t with depth := t.depth + 1 } rfl rfl
        (.more fun m' hc hh => ?_))
      obtain ⟨habove, hfalls⟩ := hsame hc hh
      exact henter habove { t with code := next } rfl rfl rfl hfalls

/-- A thread walks over regular code, and over each of its alternatives, by induction on the code. -/
theorem Engine.walks (hs : e.subject.IsText) (hc : c.isRegular behind) : e.Walks behind c ∧ e.WalksAll behind c := by
  induction c generalizing behind with
  | stop =>
      have hwalk : e.Walks behind .stop := by
        intro m t place K a hb hk ha
        exact hk m { t with place } a (.self m) rfl (.stop hb) ha
      exact ⟨hwalk, hwalk⟩
  | either upTo branch others ihb iho =>
      simp only [Code.isRegular, Bool.and_eq_true] at hc
      obtain ⟨hbranch, -⟩ := ihb hc.1
      obtain ⟨hothers, hall⟩ := iho hc.2
      refine ⟨fun m t place K a hb hk ha => ?_, hbranch, hall⟩
      rw [Code.ends, List.foldr_append]
      let after : Thread := { t with place, code := others }
      refine .call (.forward (hbranch (m.pushed after .goOn) { t with place, code := branch, depth := t.depth + 1 }
        place K _ hb ?_ (.more fun m' hc hh => .forward ?_)))
      · exact (hk.above ((Machine.Above.self m).pushed after .goOn)).mono fun j hj => .branch hj
      · refine hothers m' after place K a hb ?_ ?_
        · rw [hc, hh]
          exact hk.mono fun j hj => .others hj
        · rw [hc, hh]
          exact ha
  | step i next ih =>
      simp only [Code.isRegular, Bool.and_eq_true] at hc
      obtain ⟨hnext, -⟩ := ih hc.2
      have hwalk : e.Walks behind (.step i next) := by
        intro m t place K a hb hk ha
        rw [Code.ends, List.foldr_flatMap]
        have hone {j : Nat} (hj : i.Reaches e.subject behind place j) :
            e.ComesTo (e.walk m t j next) ((next.ends e.subject j).foldr K a) :=
          hnext m t j K a hj.1 (hk.mono fun k hk => .step hj hk) ha
        have hends {j : Nat} (hj : j ∈ i.ends e.subject place) : i.Reaches e.subject behind place j :=
          Instruction.reaches_of_mem_ends hs hc.1 hb hj
        cases i with
        | one x =>
            rw [walk, Instruction.ends]
            split
            · exact ha.comesTo
            · next hne => exact hone (hends (by simp [Instruction.ends, hne]))
        | anchor anchor =>
            rw [walk, Instruction.ends]
            split
            · next holds => exact hone (hends (by simp [Instruction.ends, holds]))
            · exact ha.comesTo
        | stepBack width =>
            rw [walk, Instruction.ends]
            cases hback : e.subject.back? width place with
            | none => exact ha.comesTo
            | some j => exact hone (hends (by simp [Instruction.ends, hback]))
        | fail => exact ha.comesTo
        | many x times =>
            have hx : x ≠ .byte := by simpa [Instruction.isRegular] using hc.1
            rw [walk, Instruction.ends]
            split
            · next hvaries =>
                simp only [Bool.and_eq_true, decide_eq_true_eq] at hvaries
                let after : Thread := { t with place, code := next }
                have hafter : e.Leads m.choices m.height after.start (goOnIn after.closings after.code)
                    ((Instruction.many x times).Reaches e.subject behind place)
                    fun j a => (next.ends e.subject j).foldr K a :=
                  hnext.goOn hk (fun j k hj hk => .step hj hk) fun j hj => hj.1
                exact repeatSingle_comesTo (t := after) hs hx hvaries.1 hvaries.2 hb hafter ha
            · next hfixed =>
                have hpossessive : times.varies → times.mode = .possessive := by
                  intro hv
                  simpa [hv] using hfixed
                cases hlow : e.subject.takeTimes? x times.least place with
                | none => simpa [Subject.endsOfMany, hlow] using ha.comesTo
                | some low =>
                    by_cases hv : times.varies
                    · have hlist : e.subject.endsOfMany x times place =
                          [e.subject.takeMost x (e.subject.mostFrom times low) low] := by
                        simp [Subject.endsOfMany, hlow, hv, hpossessive hv]
                      simp only [hlist, hv, if_true]
                      exact hone (hends (by rw [Instruction.ends, hlist]; exact List.mem_singleton_self _))
                    · have hlist : e.subject.endsOfMany x times place = [low] := by
                        simp [Subject.endsOfMany, hlow, hv]
                      simp only [hlist, hv, Bool.false_eq_true, if_false]
                      exact hone (hends (by rw [Instruction.ends, hlist]; exact List.mem_singleton_self _))
        | _ => simp [Instruction.isRegular] at hc
      exact ⟨hwalk, hwalk⟩
  | group shape body next ihb ihn =>
      simp only [Code.isRegular, Bool.and_eq_true, Bool.or_eq_true, Bool.not_eq_true'] at hc
      obtain ⟨⟨⟨hshape, hrun⟩, hbody⟩, hcnext⟩ := hc
      obtain ⟨-, hall⟩ := ihb hbody
      obtain ⟨hnext, -⟩ := ihn hcnext
      have hwalk : e.Walks behind (.group shape body next) := by
        intro m t place K a hb hk ha
        rw [Code.ends, List.foldr_flatMap]
        refine reachGroup_comesTo (t := { t with place }) hshape (fun hr => hrun.resolve_left (by simp [hr])) hall hb
          ?_ ha
        exact hnext.goOn hk (fun j k hj hk => .group hj hk) fun j hj => hj.1.1
      exact ⟨hwalk, hwalk⟩

end

/-! ## Attempts -/

/-- A match from `start` to here is not refused for being empty. -/
def Engine.wants (e : Engine) (start j : Nat) : Bool :=
  !(j = start && (e.settings.notEmpty || (e.settings.notEmptyAtStart && start = 0)))

/-- How an attempt ends, by the places that the code leads to. -/
def Engine.outcomeAt (e : Engine) (place : Nat) : Attempt :=
  if (e.program.code.ends e.subject place).any (e.wants place) then .matched else .refused .failed

section
variable {e : Engine} {place : Nat}

/-- Where all code has ended, a match has been found, unless it is unwanted. -/
theorem Engine.leads_conclude (choices : Choices) (height : Nat) (P : Nat → Prop) :
    e.Leads choices height place (e.closeIn []) P fun j a => if e.wants place j then .matched else a := by
  intro m t a _ hs _ ha
  subst hs
  have hclose : e.closeIn [] m t = e.conclude m { t with closings := [] } := rfl
  have hwants : e.wants t.start t.place =
      !(decide (t.place = t.start) && (e.settings.notEmpty || (e.settings.notEmptyAtStart && t.start = 0))) := rfl
  dsimp only
  rw [hclose, conclude, hwants]
  dsimp only
  cases decide (t.place = t.start) && (e.settings.notEmpty || (e.settings.notEmptyAtStart && t.start = 0)) with
  | true => exact ha.comesTo
  | false => exact .finished

theorem Engine.foldr_wants (l : List Nat) (a : Attempt) :
    l.foldr (fun j a => if e.wants place j then .matched else a) a = if l.any (e.wants place) then .matched else a := by
  induction l with
  | nil => rfl
  | cons j l ih =>
      rw [List.foldr_cons, ih, List.any_cons]
      cases e.wants place j <;> rfl

/-- From a character on, an attempt to match regular code ends as the places tell that the code leads to, unless it
meets a limit. -/
theorem Engine.attempt_eq_outcomeAt (hs : e.subject.IsText) (hc : e.program.code.isRegular false)
    (hb : e.subject.Begins place) :
    (e.attempt place).1 = e.outcomeAt place ∨ ∃ fault, (e.attempt place).1 = .stopped fault := by
  have hnone : e.FallsTo .none 0 (.refused .failed) := by
    intro m hm _
    apply ComesTo.backward
    rw [stepBackward, hm]
    exact .finished
  let shape : Shape := { role := .plain, upTo := e.program.leaves }
  let t : Thread :=
    { code := .stop, place, start := place, captures := Array.replicate (e.program.groupCount + 1) none }
  have hretries : e.Retries (fun b => .branches b true) t shape .none 0 (.refused .failed) := retries_branches hnone
  have hrun := hretries.tryFirst_comesTo (m := {}) (walks hs hc).2 hb
    (fun b _ _ => leads_conclude (.more t (.branches b true) .none) 1 _) none
  rw [foldr_wants] at hrun
  rw [attempt]
  dsimp only
  split
  · exact .inr ⟨_, rfl⟩
  · split
    · exact .inr ⟨_, rfl⟩
    · split
      · exact .inr ⟨_, rfl⟩
      · exact hrun _

end

end PatternGrammar.Regex
