import PatternGrammar.Proofs.Boundaries

/-!
# Where code ends

Plain code, which has no captures to look up, no calls and no verbs, leads from a place to a list of places, in
the order in which they are tried. What comes next starts from each of these places in turn. An atomic group, a
look around and a repetition that is never taken back keep the first place only. Every place in the list is the
one that the code began at, or lies ahead of it.
-/

namespace PatternGrammar.Regex

/-! ## Repeated single items -/

namespace Subject

/-- The places that a greedy repetition from `low` on can end at, from `i` on backwards. -/
def backFrom (s : Subject) (x : Single) (low : Nat) : (fuel : Nat) → Nat → List Nat
  | 0, i => [i]
  | fuel + 1, i => if i ≤ low then [i] else i :: s.backFrom x low fuel (s.giveBack x low i)

/-- The places that up to `count` further items lead to, from `i` on forwards. -/
def onFrom (s : Subject) (x : Single) : (count : Nat) → Nat → List Nat
  | 0, i => [i]
  | count + 1, i =>
      let behind := s.take x i
      if behind = i then [i] else i :: s.onFrom x count behind

/-- The places at which a repeated item ends. -/
def endsOfMany (s : Subject) (x : Single) (times : Times) (i : Nat) : List Nat :=
  match s.takeTimes? x times.least i with
  | none => []
  | some low =>
      if times.varies then
        let count := s.mostFrom times low
        match times.mode with
        | .greedy => s.backFrom x low (s.takeMost x count low) (s.takeMost x count low)
        | .reluctant => s.onFrom x count low
        | .possessive => [s.takeMost x count low]
      else [low]

end Subject

/-- The places at which an instruction ends. -/
def Instruction.ends (s : Subject) (i : Nat) : Instruction → List Nat
  | .one x => if s.take x i = i then [] else [s.take x i]
  | .many x times => s.endsOfMany x times i
  | .anchor a => if s.holdsAt a i then [i] else []
  | .stepBack width => (s.back? width i).toList
  | _ => []

/-! ## Groups -/

/-- The places that a repetition without a limit leads to. What has taken nothing is not repeated. -/
def endsOfLoop (greedy : Bool) (body : Nat → List Nat) : (fuel : Nat) → Nat → List Nat
  | 0, _ => []
  | fuel + 1, i =>
      (body i).flatMap fun j =>
        if j = i then [j]
        else if greedy then endsOfLoop greedy body fuel j ++ [j]
        else j :: endsOfLoop greedy body fuel j

/-- The last place that a repetition comes to that is never taken back. -/
def endOfKept (body : Nat → List Nat) : (fuel : Nat) → Nat → Nat
  | 0, i => i
  | fuel + 1, i =>
      match body i with
      | [] => i
      | j :: _ => if j = i then i else endOfKept body fuel j

/-- The places at which the alternatives of a group end, as far as its role tells. -/
def Role.ends (role : Role) (body : Nat → List Nat) (i : Nat) : List Nat :=
  match role with
  | .atomic => (body i).take 1
  | .look l =>
      if l.negated then (if (body i).isEmpty then [i] else [])
      else if l.atomic then ((body i).take 1).map fun _ => i
      else (body i).map fun _ => i
  | _ => body i

/-- The places at which a group ends that is entered. -/
def Shape.endsInside (s : Subject) (shape : Shape) (body : Nat → List Nat) (i : Nat) : List Nat :=
  match shape.ending with
  | .once => shape.role.ends body i
  | .again => endsOfLoop true (shape.role.ends body) (s.size - i + 1) i
  | .onward => endsOfLoop false (shape.role.ends body) (s.size - i + 1) i
  | .keep =>
      if (body i).isEmpty then (if shape.entry = .maybe then [i] else [])
      else [endOfKept body (s.size - i + 1) i]

/-- The places at which a group ends. -/
def Shape.ends (s : Subject) (shape : Shape) (body : Nat → List Nat) (i : Nat) : List Nat :=
  match shape.entry with
  | .once => shape.endsInside s body i
  | .never => [i]
  | .maybe =>
      if shape.ending = .keep then shape.endsInside s body i else shape.endsInside s body i ++ [i]
  | .maybeNot => i :: shape.endsInside s body i

/-- The places at which code ends, in the order in which they are tried. -/
def Code.ends (s : Subject) : Code → Nat → List Nat
  | .stop, i => [i]
  | .either _ branch others, i => branch.ends s i ++ others.ends s i
  | .step instruction next, i => (instruction.ends s i).flatMap fun j => next.ends s j
  | .group shape body next, i => (shape.ends s (fun j => body.ends s j) i).flatMap fun j => next.ends s j

/-! ## Plain code -/

/-- The instruction takes a character whenever it does not fail. -/
def Instruction.takes : Instruction → Bool
  | .one _ => true
  | .many _ times => 0 < times.least
  | _ => false

/-- What goes through a group of this shape goes through its alternatives. -/
def Shape.hands (shape : Shape) : Bool :=
  shape.entry = .once &&
    match shape.role with
    | .plain | .capture _ _ | .atomic => true
    | .scriptRun | .look _ | .conditional _ => false

/-- The code takes a character whenever it does not fail, as far as its instructions tell. -/
def Code.takes : Code → Bool
  | .stop => false
  | .either _ branch others => branch.takes && others.takes
  | .step i next => i.takes || next.takes
  | .group shape body next => (shape.hands && body.takes) || next.takes

/-- The instruction looks at nothing but whole characters. A step back may begin what looks behind. -/
def Instruction.isRegular (behind : Bool) : Instruction → Bool
  | .one x | .many x _ => x ≠ .byte
  | .anchor _ | .fail => true
  | .stepBack _ => behind
  | _ => false

/-- The group has a role that depends on the subject only, and an ending that goes with it. -/
def Shape.isRegular (shape : Shape) : Bool :=
  match shape.role with
  | .plain | .capture _ _ => true
  | .atomic => shape.ending ≠ .keep
  | .look _ => shape.ending = .once
  | .scriptRun | .conditional _ => false

/-- The group is repeated without a limit, and nothing is kept of where it began. -/
def Shape.runsOn (shape : Shape) : Bool :=
  shape.role = .plain && !shape.guarded && (shape.ending = .again || shape.ending = .onward)

/-- The group looks at what precedes. -/
def Shape.looksBehind (shape : Shape) : Bool :=
  match shape.role with
  | .look l => l.behind
  | _ => false

/-- The code takes whole characters, holds neither references, calls and verbs nor conditional groups and script
runs, and what runs on takes a character each time. -/
def Code.isRegular (behind : Bool) : Code → Bool
  | .stop => true
  | .either _ branch others => branch.isRegular behind && others.isRegular behind
  | .step i next => i.isRegular behind && next.isRegular behind
  | .group shape body next =>
      shape.isRegular && (!shape.runsOn || body.takes) && body.isRegular shape.looksBehind && next.isRegular behind

/-! ## Where code leads -/

section
variable {s : Subject} {x : Single} {i j n low : Nat}

theorem Subject.backFrom_between (hlow : s.Begins low) (hi : s.Begins i) (hle : low ≤ i)
    (hj : j ∈ s.backFrom x low n i) : s.Begins j ∧ low ≤ j ∧ j ≤ i := by
  induction n generalizing i with
  | zero =>
      obtain rfl := List.mem_singleton.mp hj
      exact ⟨hi, hle, Nat.le_refl _⟩
  | succ n ih =>
      rw [backFrom] at hj
      split at hj
      · obtain rfl := List.mem_singleton.mp hj
        exact ⟨hi, hle, Nat.le_refl _⟩
      · next hlt =>
          rcases List.mem_cons.mp hj with rfl | hj
          · exact ⟨hi, hle, Nat.le_refl _⟩
          · obtain ⟨hb, hback⟩ := hlow.giveBack (x := x) hi (by omega)
            have hless := @giveBack_lt s x i low (by omega)
            obtain ⟨hbegins, hfrom, hto⟩ := ih hb hback hj
            exact ⟨hbegins, hfrom, by omega⟩

theorem Subject.onFrom_reaches (hs : s.IsText) (hx : x ≠ .byte) (hi : s.Begins i) (hj : j ∈ s.onFrom x n i) :
    s.Reaches i j := by
  induction n generalizing i with
  | zero =>
      obtain rfl := List.mem_singleton.mp hj
      exact .refl hi
  | succ n ih =>
      rw [onFrom] at hj
      split at hj
      · obtain rfl := List.mem_singleton.mp hj
        exact .refl hi
      · rcases List.mem_cons.mp hj with rfl | hj
        · exact .refl hi
        · have htake : s.Reaches i (s.take x i) := ⟨hs.begins_take hx hi, take_ahead⟩
          exact htake.trans (ih htake.1 hj)

theorem Subject.endsOfMany_reaches {times : Times} (hs : s.IsText) (hx : x ≠ .byte) (hi : s.Begins i)
    (hj : j ∈ s.endsOfMany x times i) : s.Reaches i j ∧ (0 < times.least → i < j) := by
  unfold endsOfMany at hj
  split at hj
  · cases hj
  · next low hlow =>
      obtain ⟨hahead, hpos⟩ := takeTimes?_ahead hlow
      have hbegins := hs.begins_takeTimes? hx hi hlow
      have hmost (count : Nat) : s.Reaches low (s.takeMost x count low) :=
        ⟨hs.begins_takeMost hx hbegins, takeMost_ahead⟩
      have hbehind (h : s.Reaches low j) : s.Reaches i j ∧ (0 < times.least → i < j) :=
        ⟨⟨h.1, hahead.trans h.2⟩, fun hleast => (hpos hleast).trans_le h.2.le⟩
      apply hbehind
      split at hj
      · dsimp only at hj
        split at hj
        · have hlast := hmost (s.mostFrom times low)
          obtain ⟨hb, hfrom, hto⟩ := backFrom_between hbegins hlast.1 hlast.2.le hj
          refine ⟨hb, ?_⟩
          have hend := hlast.2
          simp only [Ahead] at hend ⊢
          omega
        · exact onFrom_reaches hs hx hbegins hj
        · obtain rfl := List.mem_singleton.mp hj
          exact hmost _
      · obtain rfl := List.mem_singleton.mp hj
        exact .refl hbegins

variable {body : Nat → List Nat}

/-- Everything that the alternatives of a group lead to. -/
def LeadsOn (s : Subject) (body : Nat → List Nat) : Prop := ∀ i, s.Begins i → ∀ j ∈ body i, s.Reaches i j

/-- The alternatives of a group take a character. -/
def TakesOn (s : Subject) (body : Nat → List Nat) : Prop := ∀ i, s.Begins i → ∀ j ∈ body i, i < j

theorem endsOfLoop_leads {greedy : Bool} (hb : LeadsOn s body) (hi : s.Begins i)
    (hj : j ∈ endsOfLoop greedy body n i) : s.Reaches i j ∧ (TakesOn s body → i < j) := by
  induction n generalizing i with
  | zero => cases hj
  | succ n ih =>
      obtain ⟨k, hk, hj⟩ := List.mem_flatMap.mp hj
      have hik := hb i hi k hk
      have hfirst : s.Reaches i k ∧ (TakesOn s body → i < k) := ⟨hik, fun ht => ht i hi k hk⟩
      have hmore (hj : j ∈ endsOfLoop greedy body n k) : s.Reaches i j ∧ (TakesOn s body → i < j) := by
        obtain ⟨hkj, -⟩ := ih hik.1 hj
        exact ⟨hik.trans hkj, fun ht => (ht i hi k hk).trans_le hkj.2.le⟩
      split at hj
      · obtain rfl := List.mem_singleton.mp hj
        exact hfirst
      · split at hj
        · rcases List.mem_append.mp hj with hj | hj
          · exact hmore hj
          · obtain rfl := List.mem_singleton.mp hj
            exact hfirst
        · rcases List.mem_cons.mp hj with rfl | hj
          · exact hfirst
          · exact hmore hj

theorem endOfKept_reaches (hb : LeadsOn s body) (hi : s.Begins i) : s.Reaches i (endOfKept body n i) := by
  induction n generalizing i with
  | zero => exact .refl hi
  | succ n ih =>
      rw [endOfKept]
      split
      · exact .refl hi
      · next k rest hk =>
          split
          · exact .refl hi
          · have hik := hb i hi k (hk ▸ List.mem_cons_self)
            exact hik.trans (ih hik.1)

theorem Role.ends_leads {role : Role} (hb : (∃ l, role = .look l) ∨ LeadsOn s body) :
    LeadsOn s (role.ends body) := by
  intro i hi j hj
  unfold ends at hj
  split at hj
  · exact (hb.resolve_left nofun) i hi j (List.mem_of_mem_take hj)
  · have hself : j = i := by
      split_ifs at hj
      · exact List.mem_singleton.mp hj
      · cases hj
      · obtain ⟨_, -, rfl⟩ := List.mem_map.mp hj
        rfl
      · obtain ⟨_, -, rfl⟩ := List.mem_map.mp hj
        rfl
    rw [hself]
    exact .refl hi
  · next hl => exact (hb.resolve_left fun ⟨l, h⟩ => hl l h) i hi j hj

/-- A group leads where its alternatives do; a look around leads nowhere else. -/
theorem Shape.endsInside_leads {shape : Shape} (hr : shape.isRegular)
    (hb : (∃ l, shape.role = .look l) ∨ LeadsOn s body) : LeadsOn s (shape.endsInside s body) := by
  have hends : LeadsOn s (shape.role.ends body) := Role.ends_leads hb
  intro i hi j hj
  unfold endsInside at hj
  split at hj
  · exact hends i hi j hj
  · exact (endsOfLoop_leads hends hi hj).1
  · exact (endsOfLoop_leads hends hi hj).1
  · next hkeep =>
      have hbody : LeadsOn s body := by
        refine hb.resolve_left fun ⟨l, hl⟩ => ?_
        rw [isRegular, hl] at hr
        simp [hkeep] at hr
      split_ifs at hj
      · obtain rfl := List.mem_singleton.mp hj
        exact .refl hi
      · cases hj
      · obtain rfl := List.mem_singleton.mp hj
        exact endOfKept_reaches hbody hi

theorem Shape.ends_leads {shape : Shape} (hr : shape.isRegular)
    (hb : (∃ l, shape.role = .look l) ∨ LeadsOn s body) : LeadsOn s (shape.ends s body) := by
  have hinside := endsInside_leads hr hb
  intro i hi j hj
  have hself (h : j ∈ [i]) : s.Reaches i j := by
    rw [List.mem_singleton.mp h]
    exact .refl hi
  unfold ends at hj
  split at hj
  · exact hinside i hi j hj
  · exact hself hj
  · split at hj
    · exact hinside i hi j hj
    · exact (List.mem_append.mp hj).elim (hinside i hi j) hself
  · exact (List.mem_cons.mp hj).elim (fun h => hself (List.mem_singleton.mpr h)) (hinside i hi j)

theorem Shape.ends_takes {shape : Shape} (hh : shape.hands) (hb : LeadsOn s body) (ht : TakesOn s body) :
    TakesOn s (shape.ends s body) := by
  obtain ⟨hentry, hrole⟩ : shape.entry = .once ∧ (∀ i, ∀ j ∈ shape.role.ends body i, j ∈ body i) := by
    rw [hands, Bool.and_eq_true, decide_eq_true_eq] at hh
    refine ⟨hh.1, fun i j hj => ?_⟩
    unfold Role.ends at hj
    cases hr : shape.role <;> rw [hr] at hh hj
    case plain | capture => exact hj
    case atomic => exact List.mem_of_mem_take hj
    all_goals cases hh.2
  have hrb : LeadsOn s (shape.role.ends body) := fun i hi j hj => hb i hi j (hrole i j hj)
  have hrt : TakesOn s (shape.role.ends body) := fun i hi j hj => ht i hi j (hrole i j hj)
  intro i hi j hj
  simp only [ends, hentry] at hj
  unfold endsInside at hj
  split at hj
  · exact hrt i hi j hj
  · exact (endsOfLoop_leads hrb hi hj).2 hrt
  · exact (endsOfLoop_leads hrb hi hj).2 hrt
  · simp only [hentry, reduceCtorEq, if_false] at hj
    split_ifs at hj with hempty
    · cases hj
    · obtain rfl := List.mem_singleton.mp hj
      rw [endOfKept]
      split
      · next hnil => simp [hnil] at hempty
      · next k rest hk =>
          have hik := ht i hi k (hk ▸ List.mem_cons_self)
          rw [if_neg (by omega)]
          exact hik.trans_le (endOfKept_reaches hb (hb i hi k (hk ▸ List.mem_cons_self)).1).2.le

/-- What regular code can lead to: from a character to characters. Unless it may look at what precedes, they are
not in front of the first one, and behind it if the code takes a character for sure. -/
def Code.Reaches (s : Subject) (behind : Bool) (c : Code) (i j : Nat) : Prop :=
  s.Begins j ∧ (behind = false → s.Ahead i j ∧ (c.takes → i < j))

/-- What an instruction can lead to. -/
def Instruction.Reaches (s : Subject) (behind : Bool) (instruction : Instruction) (i j : Nat) : Prop :=
  s.Begins j ∧ (behind = false → s.Ahead i j ∧ (instruction.takes → i < j))

/-- What a group of this shape can lead to. -/
def Shape.Reaches (s : Subject) (shape : Shape) (body : Code) (i j : Nat) : Prop :=
  s.Reaches i j ∧ (shape.hands → body.takes → i < j)

theorem Instruction.reaches_of_mem_ends {instruction : Instruction} {behind : Bool} (hs : s.IsText)
    (hr : instruction.isRegular behind) (hi : s.Begins i) (hj : j ∈ instruction.ends s i) :
    instruction.Reaches s behind i j := by
  cases instruction with
  | one x =>
      rw [ends] at hj
      split at hj
      · cases hj
      · next hne =>
          obtain rfl := List.mem_singleton.mp hj
          have hahead := @Subject.take_ahead s x i
          refine ⟨hs.begins_take (by simpa [isRegular] using hr) hi, fun _ => ⟨hahead, fun _ => ?_⟩⟩
          simp only [Subject.Ahead] at hahead
          omega
  | many x times =>
      obtain ⟨hreaches, htakes⟩ := Subject.endsOfMany_reaches hs (by simpa [isRegular] using hr) hi hj
      exact ⟨hreaches.1, fun _ => ⟨hreaches.2, by simpa [takes] using htakes⟩⟩
  | anchor a =>
      rw [ends] at hj
      split at hj
      · obtain rfl := List.mem_singleton.mp hj
        exact ⟨hi, fun _ => ⟨.refl, fun ht => absurd ht Bool.false_ne_true⟩⟩
      · cases hj
  | stepBack width =>
      refine ⟨hi.back? (by simpa [ends] using hj), fun hb => ?_⟩
      rw [isRegular, hb] at hr
      cases hr
  | _ => cases hj

namespace Code.Reaches

variable {behind : Bool} {next : Code} {k : Nat}

theorem stop (hi : s.Begins i) : Code.stop.Reaches s behind i i := ⟨hi, fun _ => ⟨.refl, nofun⟩⟩

theorem branch {upTo : Nat} {branch others : Code} (h : branch.Reaches s behind i j) :
    (Code.either upTo branch others).Reaches s behind i j := by
  refine ⟨h.1, fun hb => ⟨(h.2 hb).1, fun ht => (h.2 hb).2 ?_⟩⟩
  rw [takes, Bool.and_eq_true] at ht
  exact ht.1

theorem others {upTo : Nat} {branch others : Code} (h : others.Reaches s behind i j) :
    (Code.either upTo branch others).Reaches s behind i j := by
  refine ⟨h.1, fun hb => ⟨(h.2 hb).1, fun ht => (h.2 hb).2 ?_⟩⟩
  rw [takes, Bool.and_eq_true] at ht
  exact ht.2

theorem step {instruction : Instruction} (h : instruction.Reaches s behind i j) (h' : next.Reaches s behind j k) :
    (Code.step instruction next).Reaches s behind i k := by
  refine ⟨h'.1, fun hb => ⟨(h.2 hb).1.trans (h'.2 hb).1, fun ht => ?_⟩⟩
  rw [takes, Bool.or_eq_true] at ht
  rcases ht with ht | ht
  · exact ((h.2 hb).2 ht).trans_le (h'.2 hb).1.le
  · exact (h.2 hb).1.le.trans_lt ((h'.2 hb).2 ht)

theorem group {shape : Shape} {body : Code} (h : shape.Reaches s body i j) (h' : next.Reaches s behind j k) :
    (Code.group shape body next).Reaches s behind i k := by
  refine ⟨h'.1, fun hb => ⟨h.1.2.trans (h'.2 hb).1, fun ht => ?_⟩⟩
  rw [takes, Bool.or_eq_true, Bool.and_eq_true] at ht
  rcases ht with ⟨hh, ht⟩ | ht
  · exact (h.2 hh ht).trans_le (h'.2 hb).1.le
  · exact h.1.2.le.trans_lt ((h'.2 hb).2 ht)

end Code.Reaches

theorem Shape.looksBehind_eq_false {shape : Shape} (h : ∀ l, shape.role ≠ .look l) : shape.looksBehind = false := by
  unfold looksBehind
  split
  · next l hl => exact (h l hl).elim
  · rfl

/-- A group that hands on what its alternatives take is no look around. -/
theorem Shape.role_ne_look {shape : Shape} (h : shape.hands) (l : Look) : shape.role ≠ .look l := by
  intro hl
  simp [hands, hl] at h

/-- Regular code leads to nothing else. -/
theorem Code.reaches_of_mem_ends {c : Code} {behind : Bool} (hs : s.IsText) (hr : c.isRegular behind)
    (hi : s.Begins i) (hj : j ∈ c.ends s i) : c.Reaches s behind i j := by
  induction c generalizing behind i j with
  | stop =>
      obtain rfl := List.mem_singleton.mp hj
      exact .stop hi
  | either upTo branch others hb ho =>
      simp only [isRegular, Bool.and_eq_true] at hr
      rcases List.mem_append.mp hj with hj | hj
      · exact .branch (hb hr.1 hi hj)
      · exact .others (ho hr.2 hi hj)
  | step instruction next ih =>
      simp only [isRegular, Bool.and_eq_true] at hr
      obtain ⟨k, hk, hj⟩ := List.mem_flatMap.mp hj
      have hik := Instruction.reaches_of_mem_ends hs hr.1 hi hk
      exact .step hik (ih hr.2 hik.1 hj)
  | group shape body next hb hn =>
      simp only [isRegular, Bool.and_eq_true] at hr
      obtain ⟨⟨⟨hshape, -⟩, hbody⟩, hnext⟩ := hr
      obtain ⟨k, hk, hj⟩ := List.mem_flatMap.mp hj
      have hbodies (h : ∀ l, shape.role ≠ .look l) (i : Nat) (hi : s.Begins i) (j : Nat) (hj : j ∈ body.ends s i) :
          s.Reaches i j ∧ (body.takes → i < j) := by
        rw [Shape.looksBehind_eq_false h] at hbody
        have hreach := hb hbody hi hj
        exact ⟨⟨hreach.1, (hreach.2 rfl).1⟩, (hreach.2 rfl).2⟩
      have hleads : (∃ l, shape.role = .look l) ∨ LeadsOn s fun j => body.ends s j := by
        by_cases hl : ∃ l, shape.role = .look l
        · exact .inl hl
        · exact .inr fun i hi j hj => (hbodies (fun l h => hl ⟨l, h⟩) i hi j hj).1
      have hik : shape.Reaches s body i k := by
        refine ⟨Shape.ends_leads hshape hleads i hi k hk, fun hh ht => ?_⟩
        have hrole := Shape.role_ne_look hh
        exact Shape.ends_takes hh (fun i hi j hj => (hbodies hrole i hi j hj).1)
          (fun i hi j hj => (hbodies hrole i hi j hj).2 ht) i hi k hk
      exact .group hik (hn hnext hik.1.1 hj)

end

end PatternGrammar.Regex
