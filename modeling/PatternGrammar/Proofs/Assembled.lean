import PatternGrammar.Proofs.Sequence

/-!
# The code of a sequence

The code of an expression without alternatives is put together from the pieces of its items and groups, one
after the other. So two such expressions in a sequence have the code of the first one and then that of the
second, and groups around them are groups around these.
-/

namespace PatternGrammar.Regex

/-! ## Pieces -/

/-- The pieces of a group with its repetition. -/
def Assembler.groupPieces (a : Assembler) (place : Position) (kind : GroupKind) (body : Regex) (times : Times) :
    Assembling (List Code.Piece) :=
  if isFailure kind body times then return [.step .fail]
  else
    let inner := a.widthsOf kind
    let copy := copyOf (a.alternatives (place.within kind) [] (inner.drop 1) (stepBackPieces inner) body)
    let role := a.role kind
    if times.isOnce || neverRuns kind body then do pure [← copy { role }]
    else repeatedGroup copy role (isGuarded kind body) (kind.limit? times) times

/-- The pieces of an expression without alternatives, the last one first. -/
def Assembler.pieces (a : Assembler) (place : Position) : Regex → Assembling (List Code.Piece)
  | .stop => return []
  | .bar next => a.pieces place next
  | .item i times next => do
      let new ← a.item place times i
      return (← a.pieces place next) ++ new
  | .group kind body times next => do
      let new ← a.groupPieces place kind body times
      return (← a.pieces place next) ++ new

theorem Assembler.alternatives_group (a : Assembler) (place : Position) (finished : List (Nat × Code))
    (widths : List Nat) (pieces : List Code.Piece) (kind : GroupKind) (body : Regex) (times : Times)
    (next : Regex) :
    a.alternatives place finished widths pieces (.group kind body times next) = (do
      let new ← a.groupPieces place kind body times
      a.alternatives place finished widths (new ++ pieces) next) := by
  rw [alternatives, groupPieces]
  split
  · rw [pure_bind, List.singleton_append]
  · split <;> simp only [bind_assoc, pure_bind, *]

theorem Assembler.alternatives_eq (a : Assembler) {place : Position} {finished : List (Nat × Code)}
    {widths : List Nat} {pieces : List Code.Piece} {r : Regex} (h : r.branchCount = 1) :
    a.alternatives place finished widths pieces r = (do
      let new ← a.pieces place r
      return finished.foldl (fun others (upTo, branch) => .either upTo branch others)
        (Code.ofPieces (new ++ pieces))) := by
  induction r generalizing pieces with
  | stop => simp only [alternatives, Assembler.pieces, pure_bind, List.nil_append]
  | bar next =>
      have hpos := next.branchCount_pos
      rw [branchCount] at h
      omega
  | item i times next ih =>
      simp only [alternatives, Assembler.pieces, ih h, bind_assoc, pure_bind, List.append_assoc]
  | group kind body times next _ ih =>
      simp only [alternatives_group, Assembler.pieces, ih h, bind_assoc, pure_bind, List.append_assoc]

theorem Assembler.pieces_append (a : Assembler) (place : Position) (r s : Regex) :
    a.pieces place (r.append s) = (do
      let first ← a.pieces place r
      return (← a.pieces place s) ++ first) := by
  induction r with
  | stop => simp only [append, pieces, pure_bind, List.append_nil, bind_pure]
  | bar next ih => exact ih
  | item i times next ih => simp only [append, pieces, ih, bind_assoc, pure_bind, List.append_assoc]
  | group kind body times next _ ih =>
      simp only [append, pieces, ih, bind_assoc, pure_bind, List.append_assoc]

/-! ## Plain pieces -/

/-- Outside of groups no item is repeated reluctantly. -/
def isEager : Regex → Bool
  | .stop => true
  | .bar next => next.isEager
  | .item _ times next => times.mode ≠ .reluctant && next.isEager
  | .group _ _ _ next => next.isEager

/-- No group is called. -/
def Code.Piece.callsNone : Code.Piece → Bool
  | .either _ branch => branch.callsNone
  | .step i => !i.isCall
  | .group _ body => body.callsNone

/-- The piece is no alternative and calls no group; if `eager`, it is no reluctant repetition either. -/
def Code.Piece.isPlain (eager : Bool) : Code.Piece → Bool
  | .either _ _ => false
  | .step (.many _ times) => !eager || times.mode ≠ .reluctant
  | .step i => !i.isCall
  | .group _ body => body.callsNone

theorem Code.callsNone_ofPieces {pieces : List Code.Piece} (h : ∀ p ∈ pieces, p.callsNone) :
    (Code.ofPieces pieces).callsNone := by
  have hfold (rest : Code) (hr : rest.callsNone) : (pieces.foldl Code.Piece.before rest).callsNone := by
    induction pieces generalizing rest with
    | nil => exact hr
    | cons p pieces ih =>
        obtain ⟨hp, hps⟩ := List.forall_mem_cons.mp h
        refine ih hps _ ?_
        cases p with
        | step i =>
            cases i with
            | call => cases hp
            | _ => exact hr
        | either | group =>
            rw [Code.Piece.before, Code.callsNone, Bool.and_eq_true]
            exact ⟨hp, hr⟩
  exact hfold .stop rfl

theorem Code.Piece.callsNone_of_isPlain {eager : Bool} {p : Code.Piece} (h : p.isPlain eager) : p.callsNone := by
  cases p with
  | either => cases h
  | step i =>
      cases i with
      | call => cases h
      | _ => rfl
  | group shape body => exact h

def ArePlain (eager : Bool) (pieces : List Code.Piece) : Prop := ∀ p ∈ pieces, p.isPlain eager

namespace ArePlain

theorem nil {eager : Bool} : ArePlain eager [] := List.forall_mem_nil _

variable {eager : Bool} {pieces more : List Code.Piece}

theorem append (h : ArePlain eager pieces) (hm : ArePlain eager more) : ArePlain eager (more ++ pieces) :=
  List.forall_mem_append.mpr ⟨hm, h⟩

theorem callsNone (h : ArePlain eager pieces) : (Code.ofPieces pieces).callsNone :=
  Code.callsNone_ofPieces fun p hp => Code.Piece.callsNone_of_isPlain (h p hp)

theorem hasAlternatives_eq_false (h : ArePlain eager pieces) : (Code.ofPieces pieces).hasAlternatives = false := by
  have hfold (rest : Code) (hr : rest.hasAlternatives = false) :
      (pieces.foldl Code.Piece.before rest).hasAlternatives = false := by
    induction pieces generalizing rest with
    | nil => exact hr
    | cons p pieces ih =>
        obtain ⟨hp, hps⟩ := List.forall_mem_cons.mp h
        refine ih hps _ ?_
        cases p with
        | either => cases hp
        | _ => rfl
  exact hfold .stop rfl

theorem ofPieces_append (h : ArePlain eager pieces) :
    Code.ofPieces (more ++ pieces) = (Code.ofPieces pieces).append (Code.ofPieces more) := by
  have hfold (rest : Code) : pieces.foldl Code.Piece.before (rest.append (Code.ofPieces more)) =
      (pieces.foldl Code.Piece.before rest).append (Code.ofPieces more) := by
    induction pieces generalizing rest with
    | nil => rfl
    | cons p pieces ih =>
        obtain ⟨hp, hps⟩ := List.forall_mem_cons.mp h
        have hbefore : p.before (rest.append (Code.ofPieces more)) =
            (p.before rest).append (Code.ofPieces more) := by
          cases p with
          | either => cases hp
          | _ => rfl
        rw [List.foldl_cons, hbefore, ih hps, List.foldl_cons]
  rw [Code.ofPieces, List.foldl_append]
  exact hfold .stop

end ArePlain

/-- The outcome is such, whatever has been assembled before. -/
def Yields {α : Type} (P : α → Prop) (x : Assembling α) : Prop := ∀ s, P (x s).1

namespace Yields

variable {α β : Type} {P : α → Prop} {Q : β → Prop}

theorem pure {a : α} (h : P a) : Yields P (Pure.pure a) := fun _ => h

theorem bind {x : Assembling α} {k : α → Assembling β} (hx : Yields P x) (hk : ∀ a, P a → Yields Q (k a)) :
    Yields Q (x >>= k) :=
  fun s => hk _ (hx s) _

theorem get_bind {k : Assembled → Assembling β} (hk : ∀ s, Yields Q (k s)) : Yields Q (get >>= k) :=
  fun s => hk s s

theorem ite {p : Prop} [Decidable p] {x y : Assembling α} (hx : p → Yields P x) (hy : ¬ p → Yields P y) :
    Yields P (if p then x else y) := by
  split
  · next hp => exact hx hp
  · next hp => exact hy hp

end Yields

section
variable {eager : Bool} {pieces : List Code.Piece} {copy : Shape → Assembling Code.Piece}

theorem arePlain_singleton {p : Code.Piece} (h : p.isPlain eager) : ArePlain eager [p] :=
  List.forall_mem_singleton.mpr h

theorem yields_grouped (role : Role) (entry : Entry) (h : ArePlain eager pieces) :
    Yields (·.isPlain eager) (grouped role entry pieces) :=
  .get_bind fun _ => .pure h.callsNone

theorem yields_wrappedIf (wraps : Bool) (h : ArePlain eager pieces) : Yields (ArePlain eager) (wrappedIf wraps pieces) :=
  .ite (fun _ => .bind (yields_grouped _ _ h) fun _ hp => .pure (arePlain_singleton hp)) fun _ => .pure h

theorem yields_optionalCopies (hc : ∀ shape, Yields (·.isPlain eager) (copy shape)) (role : Role) (entry : Entry)
    (count : Nat) : Yields (ArePlain eager) (optionalCopies copy role entry count) := by
  induction count using optionalCopies.induct with
  | case1 => exact .pure .nil
  | case2 => exact .bind (hc _) fun _ hp => .pure (arePlain_singleton hp)
  | case3 count ih =>
      refine .bind (hc _) fun _ hp => .bind ih fun _ ho => ?_
      exact .bind (yields_grouped _ _ ((arePlain_singleton hp).append ho)) fun _ hg =>
        .pure (arePlain_singleton hg)

theorem yields_fixedCopies {copy : Assembling Code.Piece} (hc : Yields (·.isPlain eager) copy) (count : Nat)
    (h : ArePlain eager pieces) : Yields (ArePlain eager) (fixedCopies copy count pieces) := by
  induction count generalizing pieces with
  | zero => exact .pure h
  | succ count ih => exact .bind hc fun _ hp => ih (List.forall_mem_cons.mpr ⟨hp, h⟩)

theorem yields_unlimitedCopy (hc : ∀ shape, Yields (·.isPlain eager) (copy shape)) (role : Role) (guarded : Bool)
    (entry : Entry) (mode : RepeatMode) :
    Yields (·.isPlain eager) (unlimitedCopy copy role guarded entry mode) := by
  unfold unlimitedCopy
  split
  · exact .bind (hc _) fun _ hp => .get_bind fun _ => .pure (arePlain_singleton hp).callsNone
  all_goals exact hc _

theorem yields_repeatedGroup (hc : ∀ shape, Yields (·.isPlain eager) (copy shape)) (role : Role) (guarded : Bool)
    (limit? : Option Nat) (times : Times) :
    Yields (ArePlain eager) (repeatedGroup copy role guarded limit? times) := by
  unfold repeatedGroup
  dsimp only
  split
  · exact .bind (hc _) fun _ hp => .pure (arePlain_singleton hp)
  · refine .bind (yields_fixedCopies (hc _) _ .nil) fun _ hf => ?_
    exact .bind (yields_optionalCopies hc _ _ _) fun _ ho => yields_wrappedIf _ (hf.append ho)
  · refine .bind (yields_fixedCopies (hc _) _ .nil) fun _ hf => ?_
    refine .bind (yields_unlimitedCopy hc _ _ _ _) fun _ hl => ?_
    exact yields_wrappedIf _ (List.forall_mem_cons.mpr ⟨hl, hf⟩)

theorem yields_singlePieces (s : Single) {times : Times} (ht : eager → times.mode ≠ .reluctant) :
    Yields (ArePlain eager) (singlePieces s times) := by
  have hmany : (Code.Piece.step (.many s times)).isPlain eager := by
    cases eager with
    | false => rfl
    | true => simpa [Code.Piece.isPlain] using ht rfl
  have hgreedy : (Code.Piece.step (.many s { times with mode := .greedy })).isPlain eager := by
    simp [Code.Piece.isPlain]
  exact .ite (fun _ => .pure .nil) fun _ => .ite (fun _ => .pure (arePlain_singleton rfl)) fun _ =>
    .ite (fun _ => yields_wrappedIf _ (arePlain_singleton hgreedy)) fun _ => .pure (arePlain_singleton hmany)

theorem yields_referencePieces (numbers : List Nat) (ignoreCase : Bool) (times : Times) :
    Yields (ArePlain eager) (referencePieces numbers ignoreCase times) :=
  .ite (fun _ => .pure .nil) fun _ => .ite (fun _ => .pure (arePlain_singleton rfl)) fun _ =>
    .ite (fun _ => yields_wrappedIf _ (arePlain_singleton rfl)) fun _ => .pure (arePlain_singleton rfl)

theorem arePlain_markPieces (name : Option Text) : ArePlain eager (markPieces name) := by
  cases name with
  | none => exact .nil
  | some name => exact arePlain_singleton rfl

theorem yields_verbPieces (place : Position) (v : Verb) : Yields (ArePlain eager) (verbPieces place v) := by
  cases v with
  | accept name | fail name =>
      exact .pure (List.forall_mem_cons.mpr ⟨rfl, arePlain_markPieces name⟩)
  | mark name => exact .pure (arePlain_markPieces _)
  | commit name | prune name => exact .pure (arePlain_singleton rfl)
  | skip name => cases name <;> exact .pure (arePlain_singleton rfl)
  | leave name => exact fun _ => arePlain_singleton rfl

theorem Assembler.yields_item (a : Assembler) (place : Position) {times : Times} {i : Item}
    (hi : i.isCall = false) (ht : eager → times.mode ≠ .reluctant) : Yields (ArePlain eager) (a.item place times i) := by
  cases i with
  | call => cases hi
  | single s => exact yields_singlePieces s ht
  | backReference target ignoreCase =>
      obtain ⟨ref, offset⟩ := target
      cases ref <;> exact yields_referencePieces _ _ _
  | verb v => exact yields_verbPieces place v
  | anchor | keepOut => exact .pure (arePlain_singleton rfl)
  | callout | settings => exact .pure .nil

theorem yields_copyOf {body : Assembling Code} (hb : Yields (·.callsNone) body) (shape : Shape) :
    Yields (·.isPlain eager) (copyOf body shape) := by
  have hgroup (role : Role) : Yields (·.isPlain eager) (do
      let body ← body
      let s ← get
      return Code.Piece.group { shape with role, upTo := s.leaves } body) :=
    .bind hb fun _ hb => .get_bind fun _ => .pure hb
  unfold copyOf
  cases shape.role with
  | capture n again => exact .get_bind fun s _ => hgroup _ { s with seen := s.seen.setIfInBounds n true }
  | _ => exact hgroup _

theorem arePlain_stepBackPieces (widths : List Nat) : ArePlain eager (stepBackPieces widths) := by
  cases widths with
  | nil => exact .nil
  | cons w widths =>
      unfold stepBackPieces
      dsimp only
      split
      · exact arePlain_singleton rfl
      · exact .nil

theorem Assembler.yields_groupPieces {a : Assembler} {place : Position} {kind : GroupKind} {body : Regex}
    {times : Times} (hb : ∀ widths pieces, ArePlain false pieces →
      Yields (·.callsNone) (a.alternatives (place.within kind) [] widths pieces body)) :
    Yields (ArePlain eager) (a.groupPieces place kind body times) := by
  have hcopy (shape : Shape) : Yields (·.isPlain eager) (copyOf _ shape) :=
    yields_copyOf (hb ((a.widthsOf kind).drop 1) _ (arePlain_stepBackPieces (a.widthsOf kind))) shape
  refine .ite (fun _ => .pure (arePlain_singleton rfl)) fun _ => .ite (fun _ => ?_) fun _ => ?_
  · exact .bind (hcopy _) fun _ hp => .pure (arePlain_singleton hp)
  · exact yields_repeatedGroup hcopy _ _ _ _

theorem Assembler.yields_alternatives (a : Assembler) {place : Position} {finished : List (Nat × Code)}
    {widths : List Nat} {r : Regex} (hr : hasItem Item.isCall r = false) (hp : ArePlain false pieces)
    (hf : ∀ x ∈ finished, x.2.callsNone) :
    Yields (·.callsNone) (a.alternatives place finished widths pieces r) := by
  induction r generalizing place finished widths pieces with
  | stop =>
      have hfold (c : Code) (hc : c.callsNone) :
          (finished.foldl (fun others (upTo, branch) => Code.either upTo branch others) c).callsNone := by
        induction finished generalizing c with
        | nil => exact hc
        | cons x finished ih =>
            obtain ⟨hx, hf⟩ := List.forall_mem_cons.mp hf
            refine ih hf _ ?_
            rw [Code.callsNone, Bool.and_eq_true]
            exact ⟨hx, hc⟩
      exact .pure (hfold _ hp.callsNone)
  | bar next ih =>
      refine .get_bind fun s => ?_
      exact ih hr (arePlain_stepBackPieces widths) (List.forall_mem_cons.mpr ⟨hp.callsNone, hf⟩)
  | item i times next ih =>
      simp only [hasItem, Bool.or_eq_false_iff] at hr
      exact .bind (a.yields_item place hr.1 Bool.false_ne_true.elim) fun _ hn => ih hr.2 (hp.append hn) hf
  | group kind body times next ihb ih =>
      simp only [hasItem, Bool.or_eq_false_iff] at hr
      rw [alternatives_group]
      have hgroup : Yields (ArePlain false) (a.groupPieces place kind body times) :=
        yields_groupPieces fun _ _ hp => ihb hr.1 hp (List.forall_mem_nil _)
      exact .bind hgroup fun _ hn => ih hr.2 (hp.append hn) hf

theorem Assembler.yields_pieces (a : Assembler) {place : Position} {r : Regex}
    (hr : hasItem Item.isCall r = false) (he : eager → r.isEager) :
    Yields (ArePlain eager) (a.pieces place r) := by
  induction r with
  | stop => exact .pure .nil
  | bar next ih => exact ih hr he
  | item i times next ih =>
      simp only [hasItem, Bool.or_eq_false_iff] at hr
      simp only [isEager, Bool.and_eq_true, decide_eq_true_eq] at he
      refine .bind (a.yields_item place hr.1 fun h => (he h).1) fun _ hn => ?_
      exact .bind (ih hr.2 fun h => (he h).2) fun _ hm => .pure (hn.append hm)
  | group kind body times next _ ih =>
      simp only [hasItem, Bool.or_eq_false_iff] at hr
      have hgroup : Yields (ArePlain eager) (a.groupPieces place kind body times) :=
        yields_groupPieces fun _ _ hp => a.yields_alternatives hr.1 hp (List.forall_mem_nil _)
      refine .bind hgroup fun _ hn => ?_
      exact .bind (ih hr.2 he) fun _ hm => .pure (hn.append hm)

end

/-! ## Sequences -/

theorem Assembling.bind_apply {α β : Type} (x : Assembling α) (k : α → Assembling β) (s : Assembled) :
    (x >>= k) s = k (x s).1 (x s).2 := rfl

/-- The codes in bare groups, one behind the other. -/
def Code.pair (upTo upTo' : Nat) (x y : Code) : Code :=
  .group { role := .plain, upTo } x (.group { role := .plain, upTo := upTo' } y .stop)

def Code.framed (anchored : Bool) (upTo : Nat) (c : Code) : Code :=
  if anchored then
    .step (.anchor .subjectStart) (.group { role := .plain, upTo } c (.step (.anchor .subjectEnd) .stop))
  else c

/-- What the assembly of an expression starts from. -/
def Assembler.start (asm : Assembler) : Assembled := { seen := Array.replicate (asm.groups.count + 1) false }

section
variable (asm : Assembler) {r : Regex} (hr : r.branchCount = 1)
include hr

/-- A bare group around a sequence holds its pieces. -/
theorem Assembler.groupPieces_plain (s : Assembled) :
    asm.groupPieces {} .plain r {} s =
      ([.group { role := .plain, upTo := (asm.pieces {} r s).2.leaves } (.ofPieces (asm.pieces {} r s).1)],
        (asm.pieces {} r s).2) := by
  have hfailure : isFailure .plain r {} = false := by cases r <;> rfl
  rw [groupPieces, hfailure]
  change (copyOf (asm.alternatives {} [] [] [] r) { role := .plain } >>= fun p => pure [p]) s = _
  rw [asm.alternatives_eq hr]
  simp only [List.append_nil]
  rfl

theorem Assembler.assemble_framed_eq (anchored : Bool) :
    asm.assemble (Regex.framed anchored r) =
      (.framed anchored (asm.pieces {} r asm.start).2.leaves (.ofPieces (asm.pieces {} r asm.start).1),
        (asm.pieces {} r asm.start).2.leaves) := by
  have hf : (Regex.framed anchored r).branchCount = 1 := by
    cases anchored with
    | false => exact hr
    | true => rfl
  rw [assemble, asm.alternatives_eq hf]
  simp only [List.append_nil]
  cases anchored with
  | false => rfl
  | true =>
      have hpieces : asm.pieces {} (Regex.framed true r) asm.start =
          ([.step (.anchor .subjectEnd),
            .group { role := .plain, upTo := (asm.pieces {} r asm.start).2.leaves }
              (.ofPieces (asm.pieces {} r asm.start).1),
            .step (.anchor .subjectStart)], (asm.pieces {} r asm.start).2) := by
        change ((do
          let new ← asm.groupPieces {} .plain r {}
          let next ← (do return [.step (.anchor .subjectEnd)])
          pure (next ++ new ++ [.step (.anchor .subjectStart)]) : Assembling (List Code.Piece)) asm.start) = _
        rw [Assembling.bind_apply, asm.groupPieces_plain hr]
        rfl
      change (Code.ofPieces (asm.pieces {} (Regex.framed true r) asm.start).1,
        (asm.pieces {} (Regex.framed true r) asm.start).2.leaves) = _
      rw [hpieces]
      rfl

end

/-- The pieces of two groups are those of the two sequences, each in its group. -/
theorem Assembler.pieces_pair (asm : Assembler) {a b : Regex} (ha : a.branchCount = 1) (hb : b.branchCount = 1)
    (s : Assembled) :
    asm.pieces {} (pair a b) s =
      let x := asm.pieces {} a s
      let y := asm.pieces {} b x.2
      ([.group { role := .plain, upTo := y.2.leaves } (.ofPieces y.1),
        .group { role := .plain, upTo := x.2.leaves } (.ofPieces x.1)], y.2) := by
  rw [pair, pieces, Assembling.bind_apply, asm.groupPieces_plain ha]
  change (do
    let next ← (do
      let new ← asm.groupPieces {} .plain b {}
      let next ← (do return [])
      pure (next ++ new))
    pure (next ++ [_]) : Assembling (List Code.Piece)) (asm.pieces {} a s).2 = _
  rw [Assembling.bind_apply, Assembling.bind_apply, asm.groupPieces_plain hb]
  rfl

theorem Assembler.assemble_framed (asm : Assembler) {a b : Regex} (ha : a.branchCount = 1)
    (hb : b.branchCount = 1) (hac : hasItem Item.isCall a = false) (hbc : hasItem Item.isCall b = false)
    (hae : a.isEager) (anchored : Bool) :
    ∃ (x y : List Code.Piece) (upTo leaves : Nat), ArePlain true x ∧ ArePlain false y ∧
      asm.assemble (Regex.framed anchored (pair a b)) =
        (.framed anchored leaves (.pair upTo leaves (.ofPieces x) (.ofPieces y)), leaves) ∧
      asm.assemble (Regex.framed anchored (a.append b)) =
        (.framed anchored leaves ((Code.ofPieces x).append (.ofPieces y)), leaves) := by
  let x := asm.pieces {} a asm.start
  let y := asm.pieces {} b x.2
  have hx : ArePlain true x.1 := asm.yields_pieces hac (fun _ => hae) asm.start
  have hy : ArePlain false y.1 := asm.yields_pieces hbc Bool.false_ne_true.elim x.2
  have hab : (a.append b).branchCount = 1 := by
    have h := branchCount_append a b
    omega
  refine ⟨x.1, y.1, x.2.leaves, y.2.leaves, hx, hy, ?_, ?_⟩
  · rw [asm.assemble_framed_eq rfl, asm.pieces_pair ha hb]
    rfl
  · rw [asm.assemble_framed_eq hab, asm.pieces_append, ← hx.ofPieces_append]
    rfl

end PatternGrammar.Regex
