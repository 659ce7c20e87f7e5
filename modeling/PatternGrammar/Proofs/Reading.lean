import PatternGrammar.Regex.Reading.Expression

/-!
# What one step of reading keeps

The reader of expressions goes on from state to state. This module says which parts of the state a step
leaves alone: between the parentheses of groups the open groups, the number of groups and the settings stay,
and an opening and its closing parenthesis together change only the number of groups.
-/

namespace PatternGrammar.Regex

/-! ## Successful steps -/

namespace Reading

variable {α β : Type} {s s' : ReadState}

@[simp] theorem bind_eq_ok {x : Reading α} {f : α → Reading β} {b : β} :
    (x >>= f) s = .ok (b, s') ↔ ∃ a s₁, x s = .ok (a, s₁) ∧ f a s₁ = .ok (b, s') := by
  simp only [bind, StateT.bind]
  cases x s with
  | error e => simp [Except.bind]
  | ok r =>
      obtain ⟨a, s₁⟩ := r
      simp only [Except.bind, Except.ok.injEq, Prod.mk.injEq]
      constructor
      · intro h
        exact ⟨a, s₁, ⟨rfl, rfl⟩, h⟩
      · rintro ⟨_, _, ⟨rfl, rfl⟩, h⟩
        exact h

@[simp] theorem pure_eq_ok {a b : α} : (pure a : Reading α) s = .ok (b, s') ↔ b = a ∧ s' = s := by
  change Except.ok (a, s) = Except.ok (b, s') ↔ _
  rw [Except.ok.injEq, Prod.mk.injEq, eq_comm, @eq_comm _ s]

@[simp] theorem get_bind {f : ReadState → Reading β} : (get >>= f) s = f s s := rfl

@[simp] theorem rest_bind {f : List Nat → Reading β} : (rest >>= f) s = f s.rest s := rfl

@[simp] theorem set_bind {t : ReadState} {f : PUnit → Reading β} : (set t >>= f) s = f ⟨⟩ t := rfl

@[simp] theorem modify_bind {g : ReadState → ReadState} {f : PUnit → Reading β} :
    (modify g >>= f) s = f ⟨⟩ (g s) := rfl

@[simp] theorem set_eq_ok {t : ReadState} {u : PUnit} :
    (set t : Reading PUnit) s = .ok (u, s') ↔ s' = t := by
  change Except.ok (PUnit.unit, t) = Except.ok (u, s') ↔ _
  simp only [Except.ok.injEq, Prod.mk.injEq, true_and, eq_comm]

@[simp] theorem modify_eq_ok {f : ReadState → ReadState} {u : PUnit} :
    (modify f : Reading PUnit) s = .ok (u, s') ↔ s' = f s :=
  @set_eq_ok s s' (f s) u

@[simp] theorem throw_ne_ok {e : SyntaxError} {r : α × ReadState} :
    (throw e : Reading α) s ≠ .ok r := nofun

@[simp] theorem failAt_ne_ok {fault : SyntaxFault} {rest : List Nat} {r : α × ReadState} :
    (failAt fault rest : Reading α) s ≠ .ok r := nofun

@[simp] theorem failBefore_ne_ok {fault : SyntaxFault} {back : Nat} {r : α × ReadState} :
    (failBefore fault back : Reading α) s ≠ .ok r := nofun

@[simp] theorem fail_ne_ok {fault : SyntaxFault} {r : α × ReadState} :
    (fail fault : Reading α) s ≠ .ok r := nofun

end Reading

/-! ## Steps between parentheses -/

/-- Reading is among items: no quotation, no condition waiting for its look around, no settings that leave
out blanks or keep groups from capturing, and no alternatives that share their numbers. -/
structure ReadState.Steady (s : ReadState) : Prop where
  quoted : s.quoted = false
  expects : s.expects = 0
  extended : s.flags.extended = false
  plainGroups : s.flags.plainGroups = false
  numbers : s.enclosing.head?.bind (·.restart) = none
  highest : s.highest = s.opened

theorem ReadState.Steady.skip {s : ReadState} (hs : s.Steady) (rest : List Nat) :
    ({ s with rest } : ReadState).Steady :=
  ⟨hs.quoted, hs.expects, hs.extended, hs.plainGroups, hs.numbers, hs.highest⟩

/-- Nothing changed that matters to what is read next, or to the number of groups. -/
structure Unmoved (s s' : ReadState) : Prop where
  rest : s'.rest = s.rest
  quoted : s'.quoted = s.quoted
  expects : s'.expects = s.expects
  flags : s'.flags = s.flags
  enclosing : s'.enclosing = s.enclosing
  opened : s'.opened = s.opened
  highest : s'.highest = s.highest

theorem unmoved_pushItem {i : Item} {repeatable : Bool} {s s' : ReadState} {u : PUnit}
    (h : Reading.pushItem i repeatable s = .ok (u, s')) : Unmoved s s' := by
  cases h
  exact ⟨rfl, rfl, rfl, rfl, rfl, rfl, rfl⟩

theorem unmoved_pushLiteral {c : Nat} {s s' : ReadState} {u : PUnit}
    (h : pushLiteral c s = .ok (u, s')) : Unmoved s s' := by
  unfold pushLiteral at h
  split at h
  · cases h
    exact ⟨rfl, rfl, rfl, rfl, rfl, rfl, rfl⟩
  · cases h
    exact ⟨rfl, rfl, rfl, rfl, rfl, rfl, rfl⟩

theorem unmoved_pushBackReference {n : Nat} {s s' : ReadState} {u : PUnit}
    (h : pushBackReference n s = .ok (u, s')) : Unmoved s s' := by
  simp only [pushBackReference, Reading.get_bind] at h
  split at h
  · cases h
    exact ⟨rfl, rfl, rfl, rfl, rfl, rfl, rfl⟩
  · cases h
    exact ⟨rfl, rfl, rfl, rfl, rfl, rfl, rfl⟩

theorem unmoved_setMode {mode : RepeatMode} {s s' : ReadState} {u : PUnit}
    (h : setMode mode s = .ok (u, s')) : Unmoved s s' := by
  rw [setMode, Reading.modify_eq_ok] at h
  cases hp : s.pieces with
  | nil =>
      rw [hp] at h
      subst h
      exact ⟨rfl, rfl, rfl, rfl, rfl, rfl, rfl⟩
  | cons last before =>
      rw [hp] at h
      subst h
      exact ⟨rfl, rfl, rfl, rfl, rfl, rfl, rfl⟩

theorem unmoved_readQuantifier {least : Nat} {most : Option Nat} {rest : List Nat}
    {s s' : ReadState} {u : PUnit} (h : readQuantifier least most rest s = .ok (u, s')) :
    Unmoved { s with rest } s' := by
  simp only [readQuantifier, Reading.skipTo, Reading.modify_bind, Reading.get_bind] at h
  cases hp : s.preceding <;> cases hl : s.pieces <;> simp only [hp, hl] at h
  case repeatable.cons last before =>
    rw [Reading.set_eq_ok] at h
    subst h
    exact ⟨rfl, rfl, rfl, rfl, rfl, rfl, rfl⟩
  all_goals exact absurd h Reading.failBefore_ne_ok

theorem unmoved_readBar {s s' : ReadState} {u : PUnit}
    (hn : s.enclosing.head?.bind (·.restart) = none) (h : readBar s = .ok (u, s')) :
    Unmoved s s' := by
  rw [readBar, Reading.modify_eq_ok] at h
  cases he : s.enclosing with
  | nil =>
      simp only [he] at h
      subst h
      exact ⟨rfl, rfl, rfl, rfl, he.symm ▸ rfl, rfl, rfl⟩
  | cons g outer =>
      have hg : g.restart = none := by simpa [he] using hn
      simp only [he, hg] at h
      subst h
      exact ⟨rfl, rfl, rfl, rfl, he.symm ▸ rfl, rfl, rfl⟩

theorem Unmoved.steady {s s' : ReadState} (h : Unmoved s s') (hs : s.Steady) : s'.Steady where
  quoted := h.quoted.trans hs.quoted
  expects := h.expects.trans hs.expects
  extended := h.flags ▸ hs.extended
  plainGroups := h.flags ▸ hs.plainGroups
  numbers := h.enclosing ▸ hs.numbers
  highest := by rw [h.highest, h.opened, hs.highest]

/-! ## Opening and closing groups -/

/-- A group has been opened, which does not share numbers among its alternatives. -/
structure Entered (s : ReadState) (rest : List Nat) (k : Nat) (s' : ReadState) : Prop where
  rest : s'.rest = rest
  steady : s'.Steady
  opened : s'.opened = s.opened + k
  enclosing : ∃ g, s'.enclosing = g :: s.enclosing ∧ g.flags = s.flags ∧ g.restart = none

theorem FlagChange.apply_none (f : Flags) : FlagChange.apply {} f = f := by
  simp [FlagChange.apply]

section
variable {rest : List Nat} {s s' : ReadState} {u : PUnit}

theorem entered_enterGroup {kind : GroupKind} {change : OpenGroup → OpenGroup} (hs : s.Steady)
    (h : enterGroup kind change s = .ok (u, s'))
    (hc : ∀ g, (change g).flags = g.flags ∧ (change g).restart = g.restart) :
    Entered s s.rest 0 s' := by
  rw [enterGroup, Reading.modify_eq_ok] at h
  subst h
  refine ⟨rfl, ⟨hs.quoted, hs.expects, hs.extended, hs.plainGroups, ?_, hs.highest⟩, rfl, _, rfl, ?_⟩
  · simp [hc]
  · simp [hc]

theorem entered_plain (hs : s.Steady)
    (h : readOpening 0 (Sign.question :: Sign.colon :: rest) s = .ok (u, s')) :
    Entered s rest 0 s' := by
  have hr : readSettings (Sign.colon :: rest) s = .ok (u, s') := h
  simp [readSettings, readFlagChange, FlagChange.apply_none, Reading.skipTo] at hr
  have he := entered_enterGroup (hs.skip rest) hr fun _ => ⟨rfl, rfl⟩
  exact ⟨he.rest, he.steady, he.opened, he.enclosing⟩

theorem entered_atomic (hs : s.Steady)
    (h : readOpening 0 (Sign.question :: Sign.greater :: rest) s = .ok (u, s')) :
    Entered s rest 0 s' := by
  have hr : enterGroup .atomic id { s with rest } = .ok (u, s') := h
  have he := entered_enterGroup (hs.skip rest) hr fun _ => ⟨rfl, rfl⟩
  exact ⟨he.rest, he.steady, he.opened, he.enclosing⟩

/-- What a look around has between its question mark and its content. -/
def lookSigns : List (List Nat) :=
  [[Sign.equals], [Sign.exclamation], [Sign.less, Sign.equals], [Sign.less, Sign.exclamation]]

theorem entered_look {signs : List Nat} (hl : signs ∈ lookSigns) (hs : s.Steady)
    (h : readOpening 0 (Sign.question :: (signs ++ rest)) s = .ok (u, s')) :
    Entered s rest 0 s' := by
  have hr : ∃ look offset, enterLook look offset 0 { s with rest } = .ok (u, s') := by
    simp only [lookSigns, List.mem_cons, List.not_mem_nil, or_false] at hl
    rcases hl with rfl | rfl | rfl | rfl <;> exact ⟨_, _, h⟩
  obtain ⟨look, offset, hr⟩ := hr
  have he := entered_enterGroup (hs.skip rest) hr fun _ => ⟨rfl, rfl⟩
  exact ⟨he.rest, he.steady, he.opened, he.enclosing⟩

theorem nextGroupNumber_eq_ok {n : Nat} (h : nextGroupNumber s = .ok (n, s')) :
    n = s.opened + 1 ∧ s' = { s with opened := s.opened + 1 } := by
  simp only [nextGroupNumber, Reading.get_bind] at h
  split at h
  · simp at h
  · simp only [Reading.set_bind, Reading.pure_eq_ok] at h
    exact h

theorem entered_capture (hq : rest.head? ≠ some Sign.question) (hv : rest.head? ≠ some Sign.star)
    (hs : s.Steady) (h : readOpening 0 rest s = .ok (u, s')) : Entered s rest 1 s' := by
  unfold readOpening at h
  split at h
  · exact absurd h Reading.failAt_ne_ok
  · exact absurd rfl hq
  · exact absurd rfl hv
  · exact absurd rfl hv
  · exact absurd rfl hv
  · simp only [Reading.skipTo, Reading.modify_bind, Reading.get_bind, hs.plainGroups,
      Bool.false_eq_true, if_false, Reading.bind_eq_ok] at h
    obtain ⟨n, s₁, hn, hc⟩ := h
    obtain ⟨rfl, rfl⟩ := nextGroupNumber_eq_ok hn
    simp only [enterCapture, enterGroup, Reading.get_bind, Reading.modify_bind,
      Reading.modify_eq_ok] at hc
    subst hc
    refine ⟨rfl, ⟨hs.quoted, hs.expects, hs.extended, hs.plainGroups, rfl, ?_⟩, rfl, _, rfl, rfl, rfl⟩
    simp only [hs.highest]
    omega

theorem closeGroup_eq_ok {g : OpenGroup} {outer : List OpenGroup} (he : s.enclosing = g :: outer)
    (hg : g.restart = none) (h : closeGroup s = .ok (u, s')) :
    s'.rest = s.rest ∧ s'.quoted = s.quoted ∧ s'.expects = s.expects ∧ s'.flags = g.flags ∧
      s'.enclosing = outer ∧ s'.opened = s.opened ∧ s'.highest = s.highest := by
  simp only [closeGroup, Reading.get_bind, he, Reading.set_eq_ok] at h
  subst h
  simp [hg]

end

/-! ## One step -/

/-- Reading has gone on to `rest` between the same parentheses, `k` groups later. -/
structure After (s : ReadState) (rest : List Nat) (k : Nat) (s' : ReadState) : Prop where
  rest : s'.rest = rest
  steady : s'.Steady
  enclosing : s'.enclosing = s.enclosing
  opened : s'.opened = s.opened + k

section
variable {c : Nat} {rest : List Nat} {s s' : ReadState} {u : PUnit}

theorem Unmoved.after (hs : s.Steady) (h : Unmoved { s with rest } s') : After s rest 0 s' :=
  ⟨h.rest, h.steady (hs.skip rest), h.enclosing, h.opened⟩

/-- Unless a quotation or a comment begins, the next thing is an item. -/
theorem readItem_of_readNext (hs : s.Steady) (h : readNext c rest s = .ok (u, s'))
    (hb : c = Sign.backslash → rest.head? ≠ some Sign.upperQ ∧ rest.head? ≠ some Sign.upperE)
    (hp : c = Sign.openParen → ¬ [Sign.question, Sign.numberSign] <+: rest) :
    readItem c rest s = .ok (u, s') := by
  simp only [readNext, Reading.get_bind, hs.quoted, hs.extended, Bool.false_and,
    Bool.false_eq_true, if_false] at h
  split at h
  · simp at h
  · split at h
    · exact absurd rfl (hb rfl).1
    · exact absurd rfl (hb rfl).2
    · split at h
      · next comment _ _ => exact absurd ⟨comment, rfl⟩ (hp rfl)
      · exact h

theorem readItem_eq (hs : s.Steady) :
    readItem c rest s =
      (match if s.preceding = Preceding.quantifier then modeAt? s.flags.ungreedy c else none with
        | some mode => setMode mode
        | none =>
            match quantifierAt? c rest with
            | some (least, most, rest) => readQuantifier least most rest
            | none => readUnit 0 c rest) { s with rest } := by
  cases s
  cases hs.expects
  rfl

theorem readItem_eq_readUnit (hs : s.Steady)
    (hc : c ∉ [Sign.star, Sign.plus, Sign.question, Sign.openBrace]) :
    readItem c rest s = readUnit 0 c rest { s with rest } := by
  simp only [List.mem_cons, List.not_mem_nil, or_false, not_or] at hc
  obtain ⟨hs', hp, hq, hb⟩ := hc
  have hm : modeAt? s.flags.ungreedy c = none := by
    unfold modeAt?
    split <;> simp_all
  have hn : quantifierAt? c rest = none := by
    unfold quantifierAt?
    split <;> simp_all
  rw [readItem_eq hs, hm, ite_self, hn]

/-- Quantifiers and their modes keep to the item before them. -/
theorem readItem_repeating (hs : s.Steady) (hc : c ∈ [Sign.star, Sign.plus, Sign.question])
    (h : readItem c rest s = .ok (u, s')) : After s rest 0 s' := by
  rw [readItem_eq hs] at h
  have hq : ∃ least most, quantifierAt? c rest = some (least, most, rest) := by
    simp only [List.mem_cons, List.not_mem_nil, or_false] at hc
    rcases hc with rfl | rfl | rfl <;> exact ⟨_, _, rfl⟩
  obtain ⟨least, most, hq⟩ := hq
  rw [hq] at h
  cases hm : (if s.preceding = .quantifier then modeAt? s.flags.ungreedy c else none) with
  | some mode =>
      rw [hm] at h
      exact (unmoved_setMode h).after hs
  | none =>
      rw [hm] at h
      exact (unmoved_readQuantifier h).after hs

theorem unmoved_readUnit (hn : s.enclosing.head?.bind (·.restart) = none)
    (hc : c ∉ [Sign.openParen, Sign.closeParen, Sign.openBracket, Sign.backslash, Sign.openBrace])
    (h : readUnit 0 c rest s = .ok (u, s')) : Unmoved s s' := by
  simp only [List.mem_cons, List.not_mem_nil, or_false, not_or] at hc
  obtain ⟨ho, hcl, hbr, hbs, hbc⟩ := hc
  unfold readUnit at h
  split at h
  · exact unmoved_readBar hn h
  · exact absurd rfl hcl
  · exact absurd rfl ho
  · exact absurd rfl hbs
  · exact absurd rfl hbr
  · exact unmoved_pushItem h
  · exact unmoved_pushItem h
  · exact unmoved_pushItem h
  · exact absurd rfl hbc
  · exact unmoved_pushLiteral h

/-- Every character but a bracket, a brace, a parenthesis and a backslash is read on its own. -/
theorem after_single (hs : s.Steady)
    (hc : c ∉ [Sign.openParen, Sign.closeParen, Sign.openBracket, Sign.backslash, Sign.openBrace])
    (h : readItem c rest s = .ok (u, s')) : After s rest 0 s' := by
  by_cases hr : c ∈ [Sign.star, Sign.plus, Sign.question]
  · exact readItem_repeating hs hr h
  · rw [readItem_eq_readUnit hs] at h
    · exact (unmoved_readUnit (hs.skip rest).numbers hc h).after hs
    · simp_all

theorem after_openBrace (hs : s.Steady) (h : readItem Sign.openBrace rest s = .ok (u, s')) :
    After s rest 0 s' ∨
      ∃ least most after, readCounts rest = .counts least most after ∧ After s after 0 s' := by
  rw [readItem_eq hs] at h
  have hm : modeAt? s.flags.ungreedy Sign.openBrace = none := rfl
  rw [hm, ite_self] at h
  cases hq : readCounts rest with
  | counts least most after =>
    have hq' : quantifierAt? Sign.openBrace rest = some (least, most, after) := by
      simp only [quantifierAt?, hq]
    rw [hq'] at h
    exact .inr ⟨least, most, after, rfl, (unmoved_readQuantifier h).after hs⟩
  | none =>
    have hq' : quantifierAt? Sign.openBrace rest = none := by
      simp only [quantifierAt?, hq]
    rw [hq'] at h
    simp only [readUnit, hq] at h
    exact .inl ((unmoved_pushLiteral h).after hs)
  | fault fault after =>
    have hq' : quantifierAt? Sign.openBrace rest = none := by
      simp only [quantifierAt?, hq]
    rw [hq'] at h
    simp only [readUnit, hq] at h
    exact absurd h Reading.failAt_ne_ok
end

end PatternGrammar.Regex
