import PatternGrammar.Proofs.Assembled
import PatternGrammar.Proofs.Ends

/-!
# The code of regular expressions

An expression without references, calls and verbs has regular code. What is asked of a group that is repeated without
a limit is that its code takes a character each time, unless the group is guarded; and an expression that is not taken
to match the empty text has such code. Repetitions that become possessive change nothing of this.
-/

namespace PatternGrammar.Regex

/-! ## Regular expressions -/

/-- The item looks at nothing but whole characters and the places between them. -/
def Item.isRegular : Item → Bool
  | .single x => x ≠ .byte
  | .anchor _ | .callout _ | .settings => true
  | .keepOut | .backReference _ _ | .call _ | .verb _ => false

/-- The counts are in order. -/
def Times.isOrdered (times : Times) : Bool := times.most.all (times.least ≤ ·)

/-- What such a group matches depends on the subject only. -/
def GroupKind.isRegular : GroupKind → Bool
  | .plain | .capture _ _ | .atomic | .look _ _ => true
  | .scriptRun | .conditional _ => false

/-- Neither single bytes, references, calls, verbs and resets of the start nor conditional groups and script runs
stand in the expression. -/
def isRegular : Regex → Bool
  | .stop => true
  | .bar next => next.isRegular
  | .item i times next => i.isRegular && times.isOrdered && next.isRegular
  | .group kind body times next => kind.isRegular && times.isOrdered && body.isRegular && next.isRegular

/-! ## Regular pieces -/

namespace Code.Piece

/-- The piece is no alternative, and with it in front regular code stays regular. -/
def isRegular (behind : Bool) : Piece → Bool
  | .either _ _ => false
  | .step i => i.isRegular behind
  | .group shape body => shape.isRegular && (!shape.runsOn || body.takes) && body.isRegular shape.looksBehind

/-- The piece takes a character whenever it does not fail, as far as its instructions tell. -/
def takes : Piece → Bool
  | .either _ _ => false
  | .step i => i.takes
  | .group shape body => shape.hands && body.takes

end Code.Piece

/-- All pieces are regular, and if they `must`, some of them takes a character. -/
structure AreRegular (behind must : Bool) (pieces : List Code.Piece) : Prop where
  regular : ∀ p ∈ pieces, p.isRegular behind
  takes : must → ∃ p ∈ pieces, p.takes

namespace AreRegular

variable {behind must must' : Bool} {pieces more : List Code.Piece} {p : Code.Piece}

theorem nil : AreRegular behind false [] := ⟨List.forall_mem_nil _, nofun⟩

theorem singleton (h : p.isRegular behind) (ht : must → p.takes) : AreRegular behind must [p] :=
  ⟨List.forall_mem_singleton.mpr h, fun hm => ⟨p, List.mem_singleton_self p, ht hm⟩⟩

theorem append (h : AreRegular behind must pieces) (hm : AreRegular behind must' more) :
    AreRegular behind (must || must') (more ++ pieces) where
  regular := List.forall_mem_append.mpr ⟨hm.regular, h.regular⟩
  takes := by
    intro ht
    rcases Bool.or_eq_true _ _ ▸ ht with ht | ht
    · obtain ⟨p, hp, ht⟩ := h.takes ht
      exact ⟨p, List.mem_append_right _ hp, ht⟩
    · obtain ⟨p, hp, ht⟩ := hm.takes ht
      exact ⟨p, List.mem_append_left _ hp, ht⟩

theorem mono (h : AreRegular behind must pieces) (hm : must' → must) : AreRegular behind must' pieces :=
  ⟨h.regular, fun ht => h.takes (hm ht)⟩

/-- Outside of lookbehinds less is regular. -/
theorem anywhere (h : AreRegular false must pieces) : AreRegular behind must pieces where
  regular p hp := by
    have hregular := h.regular p hp
    cases p with
    | either => cases hregular
    | step i =>
        cases i with
        | stepBack => cases hregular
        | _ => exact hregular
    | group => exact hregular
  takes := h.takes

theorem ofPieces (h : AreRegular behind must pieces) :
    (Code.ofPieces pieces).isRegular behind ∧ (must → (Code.ofPieces pieces).takes) := by
  have hfold (rest : Code) (hr : rest.isRegular behind) : (pieces.foldl Code.Piece.before rest).isRegular behind ∧
      (rest.takes ∨ (∃ p ∈ pieces, p.takes) → (pieces.foldl Code.Piece.before rest).takes) := by
    have hregular := h.regular
    clear h
    induction pieces generalizing rest with
    | nil => exact ⟨hr, fun ht => ht.resolve_right fun ⟨_, hp, _⟩ => by cases hp⟩
    | cons p pieces ih =>
        obtain ⟨hp, hps⟩ := List.forall_mem_cons.mp hregular
        have hbefore : (p.before rest).isRegular behind ∧ (p.takes ∨ rest.takes → (p.before rest).takes) := by
          cases p with
          | either => cases hp
          | step i => exact ⟨by simp_all [Code.Piece.before, Code.isRegular, Code.Piece.isRegular],
              by simp [Code.Piece.before, Code.takes, Code.Piece.takes]⟩
          | group shape body => exact ⟨by simp_all [Code.Piece.before, Code.isRegular, Code.Piece.isRegular],
              by simp [Code.Piece.before, Code.takes, Code.Piece.takes]⟩
        obtain ⟨hregular, htakes⟩ := ih _ hbefore.1 hps
        refine ⟨hregular, fun ht => htakes ?_⟩
        rcases ht with ht | ⟨q, hq, ht⟩
        · exact .inl (hbefore.2 (.inr ht))
        · rcases List.mem_cons.mp hq with rfl | hq
          · exact .inl (hbefore.2 (.inl ht))
          · exact .inr ⟨q, hq, ht⟩
  obtain ⟨hregular, htakes⟩ := hfold .stop rfl
  exact ⟨hregular, fun hm => htakes (.inr (h.takes hm))⟩

end AreRegular

/-! ## Assembly -/

/-- The shape is another one but for the number of its group and the instructions to leave an alternative. -/
structure Shape.Resembles (shape' shape : Shape) : Prop where
  isRegular : shape'.isRegular = shape.isRegular
  runsOn : shape'.runsOn = shape.runsOn
  looksBehind : shape'.looksBehind = shape.looksBehind
  hands : shape'.hands = shape.hands

/-- The piece is a copy of a group of this shape. Its alternatives are regular where they look `behind`, or do not, and
take a character if they `must`. -/
def IsRegularCopy (behind must : Bool) (shape : Shape) (p : Code.Piece) : Prop :=
  ∃ shape' body, p = .group shape' body ∧ shape'.Resembles shape ∧ body.isRegular behind ∧ (must → body.takes)

theorem IsRegularCopy.areRegular {behind must : Bool} {shape : Shape} {p : Code.Piece}
    (h : IsRegularCopy behind must shape p) (hl : shape.looksBehind = behind) (hs : shape.isRegular)
    (hr : shape.runsOn → must) : AreRegular false (shape.hands && must) [p] := by
  obtain ⟨shape', body, rfl, hlike, hbody, ht⟩ := h
  refine .singleton ?_ fun hm => ?_
  · simp only [Code.Piece.isRegular, hlike.isRegular, hlike.runsOn, hlike.looksBehind, hl, hs, hbody, Bool.true_and,
      Bool.and_true, Bool.or_eq_true, Bool.not_eq_true']
    cases hruns : shape.runsOn with
    | false => exact .inl rfl
    | true => exact .inr (ht (hr hruns))
  · rw [Bool.and_eq_true] at hm
    rw [Code.Piece.takes, hlike.hands, hm.1, ht hm.2]
    rfl

section
variable {behind must guarded : Bool} {pieces : List Code.Piece} {copy : Shape → Assembling Code.Piece} {role : Role}
  {shape : Shape} {times : Times}

/-- A group around pieces that are not repeated. -/
theorem yields_areRegular_grouped (entry : Entry) (hr : role = .plain ∨ role = .atomic)
    (h : AreRegular false must pieces) :
    Yields (fun p => AreRegular false (entry = .once && must) [p]) (grouped role entry pieces) := by
  refine .get_bind fun s => .pure (.singleton ?_ fun hm => ?_)
  · rcases hr with rfl | rfl <;>
      simp [Code.Piece.isRegular, Shape.isRegular, Shape.runsOn, Shape.looksBehind, h.ofPieces.1]
  · rw [Bool.and_eq_true, decide_eq_true_eq] at hm
    rcases hr with rfl | rfl <;> simp [Code.Piece.takes, Shape.hands, hm.1, h.ofPieces.2 hm.2]

theorem yields_areRegular_wrappedIf (wraps : Bool) (h : AreRegular false must pieces) :
    Yields (AreRegular false must) (wrappedIf wraps pieces) :=
  .ite (fun _ => .bind (yields_areRegular_grouped .once (.inr rfl) h) fun _ hp => .pure hp) fun _ => .pure h

variable (hc : ∀ shape, Yields (IsRegularCopy behind must shape) (copy shape))
include hc

theorem yields_areRegular_copy (hl : shape.looksBehind = behind) (hs : shape.isRegular) (hr : shape.runsOn → must) :
    Yields (fun p => AreRegular false (shape.hands && must) [p]) (copy shape) :=
  fun s => (hc shape s).areRegular hl hs hr

theorem yields_areRegular_fixedCopies (hl : ({ role } : Shape).looksBehind = behind)
    (hs : ({ role } : Shape).isRegular) (count : Nat) (h : AreRegular false false pieces) :
    Yields (AreRegular false (decide (0 < count) && (({ role } : Shape).hands && must)))
      (fixedCopies (copy { role }) count pieces) := by
  have hrun : ({ role } : Shape).runsOn → must := by simp [Shape.runsOn]
  suffices hgeneral : ∀ must', AreRegular false must' pieces →
      Yields (AreRegular false (must' || decide (0 < count) && (({ role } : Shape).hands && must)))
        (fixedCopies (copy { role }) count pieces) from hgeneral false h
  clear h
  intro must' h
  induction count generalizing pieces must' with
  | zero => exact .pure (h.mono (by simp))
  | succ count ih =>
      refine .bind (yields_areRegular_copy hc hl hs hrun) fun p hp => ?_
      refine fun s => (ih (must' || (({ role } : Shape).hands && must)) (h.append hp) s).mono ?_
      simp
      tauto

theorem yields_areRegular_optionalCopies (hl : ({ role } : Shape).looksBehind = behind)
    (hs : ∀ entry, ({ role, entry } : Shape).isRegular) (entry : Entry) (count : Nat) :
    Yields (AreRegular false false) (optionalCopies copy role entry count) := by
  have hrun (entry : Entry) : ({ role, entry } : Shape).runsOn → must := by simp [Shape.runsOn]
  induction count using optionalCopies.induct with
  | case1 => exact .pure .nil
  | case2 =>
      exact .bind (yields_areRegular_copy hc hl (hs _) (hrun _)) fun _ hp =>
        .pure (hp.mono fun h => absurd h Bool.false_ne_true)
  | case3 count ih =>
      refine .bind (yields_areRegular_copy hc hl (hs _) (hrun _)) fun _ hp => .bind ih fun _ ho => ?_
      exact .bind (yields_areRegular_grouped _ (.inl rfl) (hp.append ho)) fun _ hg =>
        .pure (hg.mono fun h => absurd h Bool.false_ne_true)

/-- Without a limit a group has to take a character each time, unless it is guarded. -/
theorem yields_areRegular_unlimitedCopy (hr : role = .plain ∨ (∃ n again, role = .capture n again) ∨ role = .atomic)
    (hl : ({ role } : Shape).looksBehind = behind) (hg : guarded = false → must) (entry : Entry) (mode : RepeatMode) :
    Yields (fun p => AreRegular false (entry = .once && must) [p]) (unlimitedCopy copy role guarded entry mode) := by
  have hcopy {shape : Shape} (hl : shape.looksBehind = behind) (hs : shape.isRegular) (hrun : shape.runsOn → must)
      (hands : entry = .once → shape.hands) :
      Yields (fun p => AreRegular false (entry = .once && must) [p]) (copy shape) := by
    refine fun s => (yields_areRegular_copy hc hl hs hrun s).mono fun hm => ?_
    rw [Bool.and_eq_true, decide_eq_true_eq] at hm
    rw [hands hm.1, hm.2]
    rfl
  unfold unlimitedCopy
  rcases hr with rfl | ⟨n, again, rfl⟩ | rfl
  · refine hcopy hl rfl (fun hrun => hg ?_) fun h => by simp [Shape.hands, h]
    simp only [Shape.runsOn, Bool.and_eq_true, Bool.not_eq_true'] at hrun
    exact hrun.1.2
  · exact hcopy hl rfl (by simp [Shape.runsOn]) fun h => by simp [Shape.hands, h]
  · cases mode with
    | possessive => exact hcopy hl rfl (by simp [Shape.runsOn]) fun h => by simp [Shape.hands, h]
    | greedy | reluctant =>
        exact hcopy hl (by simp [Shape.isRegular, RepeatMode.ending]) (by simp [Shape.runsOn]) fun h => by
          simp [Shape.hands, h]

theorem yields_areRegular_repeatedGroup {kind : GroupKind} {a : Assembler} (hk : kind.isRegular)
    (hl : ({ role := a.role kind } : Shape).looksBehind = behind) (ht : times.isOrdered) (hg : guarded = false → must)
    (branches : Nat) :
    Yields (AreRegular false (decide (0 < times.least) && (kind.hands branches && must)))
      (repeatedGroup copy (a.role kind) guarded (kind.limit? times) times) := by
  have hs (entry : Entry) : ({ role := a.role kind, entry } : Shape).isRegular := by
    cases kind with
    | plain | capture | atomic | look => rfl
    | scriptRun | conditional => cases hk
  have hhands : kind.hands branches → ({ role := a.role kind } : Shape).hands := by
    intro h
    cases kind with
    | plain | capture | atomic => rfl
    | look => cases h
    | scriptRun | conditional => cases hk
  have hrun (entry : Entry) : ({ role := a.role kind, entry } : Shape).runsOn → must := by simp [Shape.runsOn]
  unfold repeatedGroup
  dsimp only
  split
  · next hzero =>
      refine .bind (yields_areRegular_copy hc hl (hs _) (hrun _)) fun _ hp => .pure (hp.mono ?_)
      have hleast : times.least = 0 := by
        unfold GroupKind.limit? at hzero
        split at hzero
        · cases hzero
        · simpa [Times.isOrdered, hzero] using ht
      simp [hleast]
  · next most hmost =>
      refine .bind (yields_areRegular_fixedCopies hc hl (hs _) _ .nil) fun _ hf => ?_
      refine .bind (yields_areRegular_optionalCopies hc hl hs _ _) fun _ ho => ?_
      refine yields_areRegular_wrappedIf _ ((hf.append ho).mono fun hm => ?_)
      simp only [Bool.and_eq_true, decide_eq_true_eq] at hm
      simp [hm, hhands hm.2.1]
  · next hnone =>
      have hrole : a.role kind = .plain ∨ (∃ n again, a.role kind = .capture n again) ∨ a.role kind = .atomic := by
        cases kind with
        | plain => exact .inl rfl
        | capture n again => exact .inr (.inl ⟨n, again, rfl⟩)
        | atomic => exact .inr (.inr rfl)
        | look =>
            cases hm : times.most <;> simp [GroupKind.limit?, hm] at hnone
        | scriptRun | conditional => cases hk
      refine .bind (yields_areRegular_fixedCopies hc hl (hs _) _ .nil) fun _ hf => ?_
      refine .bind (yields_areRegular_unlimitedCopy hc hrole hl hg _ _) fun _ hl => ?_
      refine yields_areRegular_wrappedIf _ (AreRegular.mono (hf.append hl) fun hm => ?_)
      simp only [Bool.and_eq_true, decide_eq_true_eq] at hm
      simp [hm, show times.least ≠ 0 by omega]

end

section
variable {a : Assembler} {place : Position} {times : Times} {behind must : Bool}

theorem yields_areRegular_singlePieces {x : Single} (hx : x ≠ .byte) (ht : times.isOrdered) :
    Yields (AreRegular false (decide (0 < times.least))) (singlePieces x times) := by
  have hmany (times' : Times) (h : times'.least = times.least) :
      AreRegular false (decide (0 < times.least)) [.step (.many x times')] :=
    .singleton (by simpa [Code.Piece.isRegular, Instruction.isRegular] using hx)
      (by simp [Code.Piece.takes, Instruction.takes, h])
  refine .ite (fun hnever => .pure (AreRegular.nil.mono ?_)) fun _ => .ite (fun _ => .pure ?_) fun _ =>
    .ite (fun _ => yields_areRegular_wrappedIf true (hmany _ rfl)) fun _ => .pure (hmany _ rfl)
  · have hleast : times.least = 0 := by
      rw [Times.isNever, decide_eq_true_eq] at hnever
      simpa [Times.isOrdered, hnever] using ht
    simp [hleast]
  · exact .singleton (by simpa [Code.Piece.isRegular, Instruction.isRegular] using hx) fun _ => rfl

theorem Assembler.yields_areRegular_item {i : Item} (hi : i.isRegular) (ht : times.isOrdered) :
    Yields (AreRegular false (i.takes && decide (0 < times.least))) (a.item place times i) := by
  cases i with
  | single x =>
      exact fun s =>
        (yields_areRegular_singlePieces (by simpa [Item.isRegular] using hi) ht s).mono (by simp [Item.takes])
  | anchor anchor => exact .pure (.singleton rfl nofun)
  | callout | settings => exact .pure (AreRegular.nil.mono nofun)
  | keepOut | backReference | call | verb => cases hi

/-- A copy of a group with regular alternatives. -/
theorem yields_isRegularCopy {body : Assembling Code} {shape : Shape}
    (hb : Yields (fun c => c.isRegular behind ∧ (must → c.takes)) body) :
    Yields (IsRegularCopy behind must shape) (copyOf body shape) := by
  have hgroup (role : Role) (hr : ∀ upTo, ({ shape with role, upTo } : Shape).Resembles shape) :
      Yields (IsRegularCopy behind must shape) (do
        let body ← body
        let s ← get
        return Code.Piece.group { shape with role, upTo := s.leaves } body) :=
    .bind hb fun c hc => .get_bind fun s => .pure ⟨_, c, rfl, hr _, hc.1, hc.2⟩
  unfold copyOf
  cases hrole : shape.role with
  | capture n again =>
      refine .get_bind fun s _ => hgroup _ (fun upTo => ⟨?_, ?_, ?_, ?_⟩) { s with seen := s.seen.setIfInBounds n true }
      · simp [Shape.isRegular, hrole]
      · simp [Shape.runsOn, hrole]
      · simp [Shape.looksBehind, hrole]
      · simp [Shape.hands, hrole]
  | _ => exact hgroup _ fun upTo => ⟨by simp [Shape.isRegular, hrole], by simp [Shape.runsOn, hrole],
      by simp [Shape.looksBehind, hrole], by simp [Shape.hands, hrole]⟩

theorem areRegular_stepBackPieces {widths : List Nat} (h : behind ∨ widths = []) :
    AreRegular behind false (stepBackPieces widths) := by
  cases widths with
  | nil => exact .nil
  | cons w widths =>
      unfold stepBackPieces
      dsimp only
      split
      · exact .singleton (h.resolve_right (List.cons_ne_nil _ _)) nofun
      · exact .nil

/-- The pieces of a group are regular if its alternatives are. -/
theorem Assembler.yields_areRegular_groupPieces {kind : GroupKind} {body : Regex} (hk : kind.isRegular)
    (ht : times.isOrdered)
    (hb : ({ role := a.role kind } : Shape).looksBehind ∨ a.widthsOf kind = [] →
      Yields (fun c => c.isRegular ({ role := a.role kind } : Shape).looksBehind ∧ (takesFrom {} body → c.takes))
        (a.alternatives (place.within kind) [] ((a.widthsOf kind).drop 1) (stepBackPieces (a.widthsOf kind)) body)) :
    Yields (AreRegular false (decide (0 < times.least) && (kind.hands body.branchCount && takesFrom {} body)))
      (a.groupPieces place kind body times) := by
  have hwidths : ({ role := a.role kind } : Shape).looksBehind ∨ a.widthsOf kind = [] := by
    cases kind with
    | look look offset =>
        cases hl : look.behind with
        | true => exact .inl hl
        | false => exact .inr (by simp [widthsOf, hl])
    | _ => exact .inr rfl
  have hcopy (shape : Shape) : Yields (IsRegularCopy _ _ shape) (copyOf _ shape) := yields_isRegularCopy (hb hwidths)
  have hguarded : isGuarded kind body = false → takesFrom {} body := by
    cases kind with
    | conditional => cases hk
    | _ => simp [isGuarded, mayBeEmpty]
  refine .ite (fun hfailure => .pure ?_) fun _ => .ite (fun _ => ?_) fun _ => ?_
  · refine .singleton rfl fun hm => ?_
    unfold isFailure at hfailure
    split at hfailure
    · simp [GroupKind.hands] at hm
    · cases hfailure
  · refine .bind (yields_areRegular_copy hcopy rfl ?_ (by simp [Shape.runsOn])) fun _ hp => .pure (hp.mono fun hm => ?_)
    · cases kind with
      | plain | capture | atomic | look => rfl
      | scriptRun | conditional => cases hk
    · simp only [Bool.and_eq_true] at hm
      rw [hm.2.2, Bool.and_true]
      cases kind with
      | plain | capture | atomic => rfl
      | look => cases hm.2.1
      | scriptRun | conditional => cases hk
  · exact yields_areRegular_repeatedGroup hcopy hk rfl ht hguarded _

/-- The alternatives of an expression are regular, and they take a character if the expression is not taken to match the
empty text. `k` is what is known of the pieces of the alternative that has begun. -/
theorem Assembler.yields_isRegular_alternatives {finished : List (Nat × Code)} {widths : List Nat}
    {pieces : List Code.Piece} {r : Regex} {k : Taking} (hr : r.isRegular) (hk : k.accepted = false)
    (hp : AreRegular behind (k.takes || k.last) pieces) (hw : behind ∨ widths = [])
    (hf : ∀ x ∈ finished, x.2.isRegular behind) :
    Yields (fun c => c.isRegular behind ∧ (takesFrom k r → (∀ x ∈ finished, x.2.takes) → c.takes))
      (a.alternatives place finished widths pieces r) := by
  induction r generalizing place finished widths pieces k behind with
  | stop =>
      have hfold (c : Code) (hc : c.isRegular behind) :
          (finished.foldl (fun others x => Code.either x.1 x.2 others) c).isRegular behind ∧
            (c.takes → (∀ x ∈ finished, x.2.takes) →
              (finished.foldl (fun others x => Code.either x.1 x.2 others) c).takes) := by
        induction finished generalizing c with
        | nil => exact ⟨hc, fun ht _ => ht⟩
        | cons x finished ih =>
            obtain ⟨hx, hf⟩ := List.forall_mem_cons.mp hf
            obtain ⟨hregular, htakes⟩ := ih hf (.either x.1 x.2 c) (by simp [Code.isRegular, hx, hc])
            refine ⟨hregular, fun ht hall => ?_⟩
            obtain ⟨hxt, hall⟩ := List.forall_mem_cons.mp hall
            exact htakes (by simp [Code.takes, hxt, ht]) hall
      obtain ⟨hregular, htakes⟩ := hfold _ hp.ofPieces.1
      refine .pure ⟨hregular, fun ht hall => htakes (hp.ofPieces.2 ?_) hall⟩
      simpa [takesFrom, Taking.settle, hk] using ht
  | bar next ih =>
      refine .get_bind fun s => ?_
      have hwidths : behind ∨ widths.drop 1 = [] := hw.imp_right fun h => by rw [h, List.drop_nil]
      refine fun s' => ?_
      have hfinished : ∀ x ∈ (s.leaves, Code.ofPieces pieces) :: finished, x.2.isRegular behind :=
        List.forall_mem_cons.mpr ⟨hp.ofPieces.1, hf⟩
      obtain ⟨hregular, htakes⟩ := ih (k := {}) hr rfl (areRegular_stepBackPieces hw) hwidths hfinished s'
      refine ⟨hregular, fun ht hall => ?_⟩
      rw [takesFrom, Bool.and_eq_true] at ht
      refine htakes ht.2 (List.forall_mem_cons.mpr ⟨hp.ofPieces.2 ?_, hall⟩)
      simpa [Taking.settle, hk] using ht.1
  | item i times next ih =>
      simp only [isRegular, Bool.and_eq_true] at hr
      obtain ⟨⟨hi, ht⟩, hnext⟩ := hr
      have haccepts : i.accepts = false := by
        cases i with
        | verb => cases hi
        | _ => rfl
      refine .bind (a.yields_areRegular_item hi ht) fun new hnew => ?_
      refine ih hnext ?_ ((hp.append hnew.anywhere).mono ?_) hw hf
      · simp [Taking.after, Taking.settle, hk, haccepts]
      · simp [Taking.after, Taking.settle, hk]
  | group kind body times next ihb ih =>
      simp only [isRegular, Bool.and_eq_true] at hr
      obtain ⟨⟨⟨hkind, ht⟩, hbody⟩, hnext⟩ := hr
      rw [alternatives_group]
      have hgroup : Yields (AreRegular false (0 < times.least && (kind.hands body.branchCount && takesFrom {} body)))
          (a.groupPieces place kind body times) := by
        refine a.yields_areRegular_groupPieces hkind ht fun hl => ?_
        refine fun s => ((ihb (k := {}) hbody rfl (areRegular_stepBackPieces hl) ?_ (List.forall_mem_nil _)) s).imp
          id fun h ht => h ht (List.forall_mem_nil _)
        exact hl.imp_right fun h => by rw [h, List.drop_nil]
      refine .bind hgroup fun new hnew => ?_
      refine ih hnext ?_ ((hp.append hnew.anywhere).mono ?_) hw hf
      · simp [Taking.after, Taking.settle, hk]
      · simp [Taking.after, Taking.settle, hk]
        tauto

end

/-! ## Possessive repetitions -/

/-- The instruction itself, or the same repetition without a way back. -/
inductive Instruction.Tightened : Instruction → Instruction → Prop where
  | same (i : Instruction) : Tightened i i
  | possessive (x : Single) (times : Times) : Tightened (.many x times) (.many x { times with mode := .possessive })

/-- The same code, but that some repetitions may have no way back any more. -/
inductive Code.Tightened : Code → Code → Prop where
  | stop : Tightened .stop .stop
  | either (upTo : Nat) {branch branch' others others' : Code} :
      Tightened branch branch' → Tightened others others' →
        Tightened (.either upTo branch others) (.either upTo branch' others')
  | step {i i' : Instruction} {next next' : Code} :
      i.Tightened i' → Tightened next next' → Tightened (.step i next) (.step i' next')
  | group (shape : Shape) {body body' next next' : Code} :
      Tightened body body' → Tightened next next' → Tightened (.group shape body next) (.group shape body' next')

theorem Code.Tightened.refl (c : Code) : c.Tightened c := by
  induction c with
  | stop => exact .stop
  | either upTo _ _ hb ho => exact .either upTo hb ho
  | step i _ ih => exact .step (.same i) ih
  | group shape _ _ hb hn => exact .group shape hb hn

theorem Instruction.tightened_possessified (hasCalls : Bool) (fuel : Nat) (around : List Enclosure) (left : Nat)
    (next : Code) (i : Instruction) : i.Tightened (i.possessified hasCalls fuel around left next).1 := by
  cases i with
  | many x times =>
      unfold possessified
      dsimp only
      split
      · exact .same _
      · split
        · exact .same _
        · split
          · exact .possessive x times
          · exact .same _
  | _ => exact .same _

section
variable (hasCalls : Bool) (fuel : Nat) (around : List Enclosure) (left : Nat)

theorem Code.possessifiedFrom_either (pieces : List Piece) (upTo : Nat) (branch others : Code) :
    let b := branch.possessifiedFrom hasCalls fuel around [] left
    (Code.either upTo branch others).possessifiedFrom hasCalls fuel around pieces left =
      others.possessifiedFrom hasCalls fuel around (.either upTo b.1 :: pieces) b.2 := rfl

theorem Code.possessifiedFrom_step (pieces : List Piece) (i : Instruction) (next : Code) :
    let i' := i.possessified hasCalls fuel around left next
    (Code.step i next).possessifiedFrom hasCalls fuel around pieces left =
      next.possessifiedFrom hasCalls fuel around (.step i'.1 :: pieces) i'.2 := rfl

theorem Code.possessifiedFrom_group (pieces : List Piece) (shape : Shape) (body next : Code) :
    let b :=
      body.possessifiedFrom hasCalls fuel ({ role := shape.role, ending := shape.ending, next } :: around) [] left
    (Code.group shape body next).possessifiedFrom hasCalls fuel around pieces left =
      next.possessifiedFrom hasCalls fuel around (.group shape b.1 :: pieces) b.2 := rfl

/-- The pieces in front stay as they are. -/
theorem Code.possessifiedFrom_eq (pieces : List Piece) (c : Code) :
    c.possessifiedFrom hasCalls fuel around pieces left =
      (pieces.foldl Piece.before (c.possessifiedFrom hasCalls fuel around [] left).1,
        (c.possessifiedFrom hasCalls fuel around [] left).2) := by
  induction c generalizing around pieces left with
  | stop => rfl
  | either upTo branch others _ ho =>
      rw [possessifiedFrom_either, possessifiedFrom_either, ho around _ (_ :: pieces), ho around _ [_]]
      rfl
  | step i next ih =>
      rw [possessifiedFrom_step, possessifiedFrom_step, ih around _ (_ :: pieces), ih around _ [_]]
      rfl
  | group shape body next _ hn =>
      rw [possessifiedFrom_group, possessifiedFrom_group, hn around _ (_ :: pieces), hn around _ [_]]
      rfl

theorem Code.tightened_possessifiedFrom (c : Code) :
    c.Tightened (c.possessifiedFrom hasCalls fuel around [] left).1 := by
  induction c generalizing around left with
  | stop => exact .stop
  | either upTo branch others hb ho =>
      rw [possessifiedFrom_either, possessifiedFrom_eq]
      exact .either upTo (hb around left) (ho around _)
  | step i next ih =>
      rw [possessifiedFrom_step, possessifiedFrom_eq]
      exact .step (i.tightened_possessified hasCalls fuel around left next) (ih around _)
  | group shape body next hb hn =>
      rw [possessifiedFrom_group, possessifiedFrom_eq]
      exact .group shape (hb _ left) (hn around _)

end

theorem Code.tightened_possessified (hasCalls : Bool) (c : Code) : c.Tightened (c.possessified hasCalls) :=
  c.tightened_possessifiedFrom hasCalls _ _ _

theorem Code.Tightened.takes {c c' : Code} (h : c.Tightened c') : c'.takes = c.takes := by
  induction h with
  | stop => rfl
  | either upTo _ _ hb ho => rw [Code.takes, Code.takes, hb, ho]
  | step hi _ ih =>
      rw [Code.takes, Code.takes, ih]
      cases hi <;> rfl
  | group shape _ _ hb hn => rw [Code.takes, Code.takes, hb, hn]

theorem Code.Tightened.isRegular {c c' : Code} {behind : Bool} (h : c.Tightened c') :
    c'.isRegular behind = c.isRegular behind := by
  induction h generalizing behind with
  | stop => rfl
  | either upTo _ _ hb ho => rw [Code.isRegular, Code.isRegular, hb, ho]
  | step hi _ ih =>
      rw [Code.isRegular, Code.isRegular, ih]
      cases hi <;> rfl
  | group shape hbody _ hb hn => rw [Code.isRegular, Code.isRegular, hb, hn, hbody.takes]

/-! ## Programs -/

/-- The code of an expression is what has been assembled, with some repetitions possessive. -/
theorem tightened_programOf (groups : Groups) (widths : List (Nat × List Nat)) (settings : Settings) (r : Regex) :
    (Assembler.assemble { groups, widths } r).1.Tightened (programOf groups widths settings r).code := by
  rw [programOf]
  dsimp only
  split
  · exact Code.tightened_possessified _ _
  · exact .refl _

/-- A regular expression has regular code. -/
theorem isRegular_programOf {r : Regex} (hr : r.isRegular) (groups : Groups) (widths : List (Nat × List Nat))
    (settings : Settings) : (programOf groups widths settings r).code.isRegular false := by
  let a : Assembler := { groups, widths }
  have halternatives : Yields (fun c => c.isRegular false ∧ _) (a.alternatives {} [] [] [] r) :=
    Assembler.yields_isRegular_alternatives (k := {}) hr rfl .nil (.inr rfl) (List.forall_mem_nil _)
  have hcode := (halternatives { seen := Array.replicate (groups.count + 1) false }).1
  rw [(tightened_programOf groups widths settings r).isRegular]
  exact hcode

end PatternGrammar.Regex
