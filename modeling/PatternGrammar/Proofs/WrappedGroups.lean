import PatternGrammar.Proofs.Agreement
import PatternGrammar.Proofs.RegularCode

/-!
# Groups within groups

The alternatives of a group can stand in a bare group of their own, and every copy of the group then has that group in
it. The code leads to the same places: a bare group leads where its alternatives do, and what follows a repetition can
be seen behind its end just as well, so the same repetitions become possessive.
-/

namespace PatternGrammar.Regex

/-! ## Code -/

/-- In the second code the alternatives of some plain groups stand in a bare group of their own. -/
inductive Code.Wrapped : Code → Code → Prop where
  | stop : Wrapped .stop .stop
  | either (upTo : Nat) {branch branch' others others' : Code} :
      Wrapped branch branch' → Wrapped others others' →
        Wrapped (.either upTo branch others) (.either upTo branch' others')
  | step (i : Instruction) {next next' : Code} : Wrapped next next' → Wrapped (.step i next) (.step i next')
  | group (shape : Shape) {body body' next next' : Code} :
      Wrapped body body' → Wrapped next next' → Wrapped (.group shape body next) (.group shape body' next')
  | bare {shape : Shape} (upTo : Nat) {body body' next next' : Code} : shape.role = .plain →
      Wrapped body body' → Wrapped next next' →
      Wrapped (.group shape body next) (.group shape (.group { role := .plain, upTo } body' .stop) next')

namespace Code.Wrapped

variable {s : Subject} {c c' d d' : Code} {p p' : Code.Piece} {pieces pieces' : List Code.Piece}

theorem refl (c : Code) : c.Wrapped c := by
  induction c with
  | stop => exact .stop
  | either upTo _ _ hb ho => exact .either upTo hb ho
  | step i _ ih => exact .step i ih
  | group shape _ _ hb hn => exact .group shape hb hn

/-- The codes lead to the same places. -/
theorem ends_eq (h : c.Wrapped c') : c'.ends s = c.ends s := by
  induction h with
  | stop => rfl
  | either upTo _ _ hb ho =>
      funext i
      rw [ends, ends, hb, ho]
  | step instruction _ ih =>
      funext i
      rw [ends, ends, ih]
  | group shape _ _ hb hn =>
      funext i
      rw [ends, ends, hb, hn]
  | @bare _ upTo _ body' _ _ _ _ _ hb hn =>
      have hbare : (Code.group { role := .plain, upTo } body' .stop).ends s = body'.ends s := by
        funext j
        simp [ends, Shape.ends, Shape.endsInside, Role.ends]
      funext i
      rw [ends, ends, hbare, hb, hn]

theorem equallyFar (h : c.Wrapped c') : c.EquallyFar c' := fun _ _ _ _ => .of_eq (congrFun h.ends_eq.symm _)

theorem framed (h : c.Wrapped c') (anchored : Bool) (upTo : Nat) :
    (Code.framed anchored upTo c).Wrapped (Code.framed anchored upTo c') := by
  cases anchored with
  | false => exact h
  | true => exact .step _ (.group _ h (.step _ .stop))

end Code.Wrapped

/-- Whatever follows, with the pieces in front the codes are wrapped. -/
def Code.Piece.Wrapped (p p' : Code.Piece) : Prop :=
  ∀ rest rest' : Code, rest.Wrapped rest' → (p.before rest).Wrapped (p'.before rest')

theorem Code.Wrapped.ofPieces {pieces pieces' : List Code.Piece} (h : List.Forall₂ Code.Piece.Wrapped pieces pieces') :
    (Code.ofPieces pieces).Wrapped (Code.ofPieces pieces') := by
  have hfold : ∀ rest rest' : Code, rest.Wrapped rest' →
      (pieces.foldl Code.Piece.before rest).Wrapped (pieces'.foldl Code.Piece.before rest') := by
    induction h with
    | nil => exact fun _ _ hr => hr
    | cons hp _ ih => exact fun rest rest' hr => ih _ _ (hp rest rest' hr)
  exact hfold _ _ .stop

/-! ## What follows a repetition -/

/-- The groups around, with some bare ones in between that nothing follows. -/
inductive Enclosed : List Enclosure → List Enclosure → Prop where
  | nil : Enclosed [] []
  | cons (role : Role) (ending : Ending) {next next' : Code} {outer outer' : List Enclosure} :
      next.Wrapped next' → Enclosed outer outer' →
        Enclosed (⟨role, ending, next⟩ :: outer) (⟨role, ending, next'⟩ :: outer')
  | bare {around around' : List Enclosure} :
      Enclosed around around' → Enclosed around (⟨.plain, .once, .stop⟩ :: around')

namespace Repetition

variable {r : Repetition} {around around' : List Enclosure} {code code' : Code}

/-- Behind the end of a bare group there is nothing but what is behind the group. -/
theorem final_bare (entered : Bool) (around : List Enclosure) (left : Nat) :
    r.final entered (⟨.plain, .once, .stop⟩ :: around) left .stop = r.final entered around left .stop := by
  rw [final_stop]
  cases hr : r.greedy with
  | true => simp [outlook, hr]
  | false =>
      have hnone (g : Enclosure) : r.outlook g = .none := by simp [outlook, hr]
      rw [hnone]
      cases around with
      | nil => rw [final_nil, hr]
      | cons g outer => rw [final_stop, hnone]

/-- A comparison comes to the same end in wrapped code, by induction on what is still to be seen. -/
theorem final_wrapped (h : code.Wrapped code') (ha : Enclosed around around') (entered : Bool) (left : Nat) :
    r.final entered around' left code' = r.final entered around left code := by
  obtain ⟨n, hn⟩ : ∃ n, code.sizeIn around ≤ n := ⟨_, Nat.le_refl _⟩
  induction n generalizing entered around around' left code code' with
  | zero =>
      have hc := code.size_pos
      simp only [Code.sizeIn] at hn
      omega
  | succ n ih =>
      have hbranch {c c' : Code} (hc : c.Wrapped c') (hsize : c.sizeIn around ≤ n) (left : Nat) :
          r.branchOff around' left c' = r.branchOff around left c := by
        rw [branchOff, branchOff, ih hc ha _ _ hsize]
      -- how the alternatives of a group are reached does not depend on what they are
      have hgroup {shape : Shape} {body inner next next' : Code} (hnext : next.Wrapped next')
          (hsize : next.sizeIn around ≤ n)
          (hbody : ∀ left, r.final true (⟨shape.role, shape.ending, next'⟩ :: around') left inner =
            r.final true (⟨shape.role, shape.ending, next⟩ :: around) left body) :
          r.final entered around' left (.group shape inner next') =
            r.final entered around left (.group shape body next) := by
        rw [final_group, final_group, hbranch hnext hsize]
        simp only [hbody]
      cases h with
      | stop =>
          clear hbranch hgroup
          induction ha with
          | nil => rfl
          | cons role ending hnext houter =>
              have hsame (next next' : Code) : r.outlook ⟨role, ending, next'⟩ = r.outlook ⟨role, ending, next⟩ := rfl
              simp only [Code.sizeIn, Code.size_stop, List.map_cons, List.sum_cons] at hn
              rw [final_stop, final_stop, hsame, ih hnext houter _ _ (by simp only [Code.sizeIn]; omega)]
          | bare _ iha =>
              rw [final_bare]
              exact iha hn
      | @either upTo branch _ others _ hb ho =>
          have hbsize := branch.size_pos
          have hosize := others.size_pos
          simp only [Code.sizeIn, Code.size_either] at hn
          rw [final_either, final_either, hbranch hb (by simp only [Code.sizeIn]; omega)]
          split
          · exact ih ho ha _ _ (by simp only [Code.sizeIn]; omega)
          · rfl
      | step i hnext =>
          simp only [Code.sizeIn, Code.size_step] at hn
          rw [final_step, final_step]
          split
          · rfl
          · rw [ih hnext ha _ _ (by simp only [Code.sizeIn]; omega)]
      | @group shape body _ next _ hb hnext =>
          have hbsize := body.size_pos
          have hnsize := next.size_pos
          simp only [Code.sizeIn, Code.size_group] at hn
          refine hgroup hnext (by simp only [Code.sizeIn]; omega) fun left => ?_
          exact ih hb (.cons shape.role shape.ending hnext ha) true left
            (by simp only [Code.sizeIn, List.map_cons, List.sum_cons]; omega)
      | @bare shape upTo body body' next next' _ hb hnext =>
          have hbsize := body.size_pos
          have hnsize := next.size_pos
          simp only [Code.sizeIn, Code.size_group] at hn
          refine hgroup hnext (by simp only [Code.sizeIn]; omega) fun left => ?_
          have hinner : r.final true (⟨shape.role, shape.ending, next'⟩ :: around') left
              (.group { role := .plain, upTo } body' .stop) =
                r.final true (⟨.plain, .once, .stop⟩ :: ⟨shape.role, shape.ending, next'⟩ :: around') left body' := by
            rw [final_group]
            rfl
          rw [hinner]
          exact ih hb (.bare (.cons shape.role shape.ending hnext ha)) true left
            (by simp only [Code.sizeIn, List.map_cons, List.sum_cons]; omega)

end Repetition

/-! ## Possessive repetitions -/

section
variable {around around' : List Enclosure} {c c' : Code} {fuel fuel' : Nat}

theorem Instruction.possessified_wrapped (h : c.Wrapped c') (ha : Enclosed around around')
    (hf : c.sizeIn around < fuel) (hf' : c'.sizeIn around' < fuel') (hasCalls : Bool) (left : Nat) (i : Instruction) :
    i.possessified hasCalls fuel' around' left c' = i.possessified hasCalls fuel around left c := by
  cases i with
  | many x times =>
      have hsame (r : Repetition) (left : Nat) :
          r.isFinal fuel' false around' left c' = r.isFinal fuel false around left c := by
        rw [Repetition.isFinal_eq hf, Repetition.isFinal_eq hf', Repetition.final_wrapped h ha]
      simp only [possessified, hsame]
  | _ => rfl

/-- The same repetitions become possessive in wrapped code. -/
theorem Code.possessifiedFrom_wrapped (h : c.Wrapped c') (ha : Enclosed around around')
    (hf : c.sizeIn around < fuel) (hf' : c'.sizeIn around' < fuel') (hasCalls : Bool) (left : Nat) :
    (c.possessifiedFrom hasCalls fuel around [] left).1.Wrapped (c'.possessifiedFrom hasCalls fuel' around' [] left).1 ∧
      (c'.possessifiedFrom hasCalls fuel' around' [] left).2 = (c.possessifiedFrom hasCalls fuel around [] left).2 := by
  induction h generalizing around around' left with
  | stop => exact ⟨.stop, rfl⟩
  | @either upTo branch branch' others others' _ _ hb ho =>
      have hbsize := branch.size_pos
      have hosize := others.size_pos
      have hbsize' := branch'.size_pos
      have hosize' := others'.size_pos
      simp only [sizeIn, size_either] at hf hf'
      obtain ⟨hbranch, hleft⟩ := hb ha (by simp only [sizeIn]; omega) (by simp only [sizeIn]; omega) left
      rw [possessifiedFrom_either, possessifiedFrom_eq, possessifiedFrom_either,
        possessifiedFrom_eq hasCalls fuel', hleft]
      obtain ⟨hothers, hleft⟩ := ho ha (by simp only [sizeIn]; omega) (by simp only [sizeIn]; omega)
        (branch.possessifiedFrom hasCalls fuel around [] left).2
      exact ⟨.either upTo hbranch hothers, hleft⟩
  | @step i next next' hnext ih =>
      simp only [sizeIn, size_step] at hf hf'
      have hi := Instruction.possessified_wrapped hnext ha (show next.sizeIn around < fuel by simp only [sizeIn]; omega)
        (show next'.sizeIn around' < fuel' by simp only [sizeIn]; omega) hasCalls left i
      rw [possessifiedFrom_step, possessifiedFrom_eq, possessifiedFrom_step, possessifiedFrom_eq hasCalls fuel', hi]
      obtain ⟨hcode, hleft⟩ := ih ha (by simp only [sizeIn]; omega) (by simp only [sizeIn]; omega)
        (i.possessified hasCalls fuel around left next).2
      exact ⟨.step _ hcode, hleft⟩
  | @group shape body body' next next' _ hnext hb hn =>
      have hbsize := body.size_pos
      have hnsize := next.size_pos
      have hbsize' := body'.size_pos
      have hnsize' := next'.size_pos
      simp only [sizeIn, size_group] at hf hf'
      obtain ⟨hbody, hleft⟩ := hb (.cons shape.role shape.ending hnext ha)
        (by simp only [sizeIn, List.map_cons, List.sum_cons]; omega)
        (by simp only [sizeIn, List.map_cons, List.sum_cons]; omega) left
      rw [possessifiedFrom_group, possessifiedFrom_eq, possessifiedFrom_group, possessifiedFrom_eq hasCalls fuel',
        hleft]
      obtain ⟨hcode, hleft⟩ := hn ha (by simp only [sizeIn]; omega) (by simp only [sizeIn]; omega)
        (body.possessifiedFrom hasCalls fuel (⟨shape.role, shape.ending, next⟩ :: around) [] left).2
      exact ⟨.group shape hbody hcode, hleft⟩
  | @bare shape upTo body body' next next' hr _ hnext hb hn =>
      have hbsize := body.size_pos
      have hnsize := next.size_pos
      have hbsize' := body'.size_pos
      have hnsize' := next'.size_pos
      simp only [sizeIn, size_group, size_stop] at hf hf'
      obtain ⟨hbody, hleft⟩ := hb (.bare (.cons shape.role shape.ending hnext ha))
        (by simp only [sizeIn, List.map_cons, List.sum_cons]; omega)
        (by simp only [sizeIn, size_stop, List.map_cons, List.sum_cons]; omega) left
      have hinner : (Code.group { role := .plain, upTo } body' .stop).possessifiedFrom hasCalls fuel'
          (⟨shape.role, shape.ending, next'⟩ :: around') [] left =
            (.group { role := .plain, upTo } (body'.possessifiedFrom hasCalls fuel'
              (⟨.plain, .once, .stop⟩ :: ⟨shape.role, shape.ending, next'⟩ :: around') [] left).1 .stop,
              (body'.possessifiedFrom hasCalls fuel'
                (⟨.plain, .once, .stop⟩ :: ⟨shape.role, shape.ending, next'⟩ :: around') [] left).2) := rfl
      rw [possessifiedFrom_group, possessifiedFrom_eq, possessifiedFrom_group, possessifiedFrom_eq hasCalls fuel',
        hinner]
      dsimp only
      rw [hleft]
      obtain ⟨hcode, hleft⟩ := hn ha (by simp only [sizeIn]; omega) (by simp only [sizeIn]; omega)
        (body.possessifiedFrom hasCalls fuel (⟨shape.role, shape.ending, next⟩ :: around) [] left).2
      exact ⟨.bare upTo hr hbody hcode, hleft⟩

theorem Code.Wrapped.possessified (h : c.Wrapped c') (hasCalls : Bool) :
    (c.possessified hasCalls).Wrapped (c'.possessified hasCalls) := by
  have hfuel (c : Code) : c.sizeIn [] < 2 * c.size + 2 := by
    simp only [sizeIn, List.map_nil, List.sum_nil]
    omega
  exact (possessifiedFrom_wrapped h .nil (hfuel c) (hfuel c') hasCalls maxComparisons).1

end

/-! ## Assembly -/

/-- Whatever has been assembled before, the outcomes correspond, and the same has been assembled then. -/
def YieldAlike {α β : Type} (R : α → β → Prop) (x : Assembling α) (y : Assembling β) : Prop :=
  ∀ s, R (x s).1 (y s).1 ∧ (y s).2 = (x s).2

namespace YieldAlike

variable {α β γ δ : Type} {R : α → β → Prop} {Q : γ → δ → Prop}

theorem pure {a : α} {b : β} (h : R a b) : YieldAlike R (Pure.pure a) (Pure.pure b) := fun _ => ⟨h, rfl⟩

theorem bind {x : Assembling α} {y : Assembling β} {k : α → Assembling γ} {l : β → Assembling δ} (h : YieldAlike R x y)
    (hk : ∀ a b, R a b → YieldAlike Q (k a) (l b)) : YieldAlike Q (x >>= k) (y >>= l) := by
  intro s
  obtain ⟨hr, hs⟩ := h s
  rw [Assembling.bind_apply, Assembling.bind_apply, hs]
  exact hk _ _ hr _

theorem get_bind {k : Assembled → Assembling γ} {l : Assembled → Assembling δ} (hk : ∀ s, YieldAlike Q (k s) (l s)) :
    YieldAlike Q (get >>= k) (get >>= l) :=
  fun s => hk s s

theorem ite {p : Prop} [Decidable p] {x x' : Assembling α} {y y' : Assembling β} (h : p → YieldAlike R x y)
    (h' : ¬ p → YieldAlike R x' y') : YieldAlike R (if p then x else x') (if p then y else y') := by
  split
  · next hp => exact h hp
  · next hp => exact h' hp

end YieldAlike

theorem Code.Piece.wrapped_group (shape : Shape) {body body' : Code} (h : body.Wrapped body') :
    (Code.Piece.group shape body).Wrapped (.group shape body') :=
  fun _ _ hr => .group shape h hr

section
variable {pieces pieces' : List Code.Piece} {copy copy' : Shape → Assembling Code.Piece}

theorem wrapped_grouped (role : Role) (entry : Entry) (h : List.Forall₂ Code.Piece.Wrapped pieces pieces') :
    YieldAlike Code.Piece.Wrapped (grouped role entry pieces) (grouped role entry pieces') :=
  .get_bind fun _ => .pure (Code.Piece.wrapped_group _ (.ofPieces h))

theorem wrapped_wrappedIf (wraps : Bool) (h : List.Forall₂ Code.Piece.Wrapped pieces pieces') :
    YieldAlike (List.Forall₂ Code.Piece.Wrapped) (wrappedIf wraps pieces) (wrappedIf wraps pieces') :=
  .ite (fun _ => .bind (wrapped_grouped _ _ h) fun _ _ hp => .pure (.cons hp .nil)) fun _ => .pure h

variable (hc : ∀ shape : Shape, shape.role = .plain → YieldAlike Code.Piece.Wrapped (copy shape) (copy' shape))
include hc

theorem wrapped_optionalCopies (entry : Entry) (count : Nat) :
    YieldAlike (List.Forall₂ Code.Piece.Wrapped) (optionalCopies copy .plain entry count)
      (optionalCopies copy' .plain entry count) := by
  induction count using optionalCopies.induct with
  | case1 => exact .pure .nil
  | case2 => exact .bind (hc _ rfl) fun _ _ hp => .pure (.cons hp .nil)
  | case3 count ih =>
      refine .bind (hc _ rfl) fun _ _ hp => .bind ih fun _ _ ho => ?_
      exact .bind (wrapped_grouped _ _ (List.rel_append ho (.cons hp .nil))) fun _ _ hg => .pure (.cons hg .nil)

theorem wrapped_fixedCopies (count : Nat) (h : List.Forall₂ Code.Piece.Wrapped pieces pieces') :
    YieldAlike (List.Forall₂ Code.Piece.Wrapped) (fixedCopies (copy { role := .plain }) count pieces)
      (fixedCopies (copy' { role := .plain }) count pieces') := by
  induction count generalizing pieces pieces' with
  | zero => exact .pure h
  | succ count ih => exact .bind (hc _ rfl) fun _ _ hp => ih (.cons hp h)

theorem wrapped_repeatedGroup (guarded : Bool) (limit? : Option Nat) (times : Times) :
    YieldAlike (List.Forall₂ Code.Piece.Wrapped) (repeatedGroup copy .plain guarded limit? times)
      (repeatedGroup copy' .plain guarded limit? times) := by
  unfold repeatedGroup
  dsimp only
  split
  · exact .bind (hc _ rfl) fun _ _ hp => .pure (.cons hp .nil)
  · refine .bind (wrapped_fixedCopies hc _ .nil) fun _ _ hf => ?_
    exact .bind (wrapped_optionalCopies hc _ _) fun _ _ ho => wrapped_wrappedIf _ (List.rel_append ho hf)
  · refine .bind (wrapped_fixedCopies hc _ .nil) fun _ _ hf => ?_
    exact .bind (R := Code.Piece.Wrapped) (hc _ rfl) fun _ _ hl => wrapped_wrappedIf _ (.cons hl hf)

end

section
variable (a : Assembler) (place : Position) (body : Regex) (times : Times)

/-- A bare group around alternatives is a group around their code. -/
theorem Assembler.alternatives_bare (s : Assembled) :
    a.alternatives place [] [] [] (.group .plain body {} .stop) s =
      (.group { role := .plain, upTo := (a.alternatives place [] [] [] body s).2.leaves }
        (a.alternatives place [] [] [] body s).1 .stop, (a.alternatives place [] [] [] body s).2) := by
  have hfailure : isFailure .plain body {} = false := by cases body <;> rfl
  rw [alternatives_group, groupPieces, hfailure]
  rfl

/-- In each copy of the group the alternatives have their own group around them. -/
theorem Assembler.wrapped_copyOf (shape : Shape) (hs : shape.role = .plain) :
    YieldAlike Code.Piece.Wrapped (copyOf (a.alternatives place [] [] [] body) shape)
      (copyOf (a.alternatives place [] [] [] (.group .plain body {} .stop)) shape) := by
  intro s
  have hcopy (r : Regex) : copyOf (a.alternatives place [] [] [] r) shape s =
      (.group { shape with role := .plain, upTo := (a.alternatives place [] [] [] r s).2.leaves }
        (a.alternatives place [] [] [] r s).1, (a.alternatives place [] [] [] r s).2) := by
    simp only [copyOf, hs]
    rfl
  rw [hcopy, hcopy, a.alternatives_bare]
  exact ⟨fun _ _ hr => .bare _ rfl (.refl _) hr, rfl⟩

theorem Assembler.wrapped_groupPieces : YieldAlike (List.Forall₂ Code.Piece.Wrapped)
    (a.groupPieces place .plain body times)
    (a.groupPieces place .plain (.group .plain body {} .stop) times) := by
  have hfailure (r : Regex) : isFailure .plain r times = false := by cases r <;> rfl
  have hguarded : isGuarded .plain (.group .plain body {} .stop) = isGuarded .plain body := by
    simp [isGuarded, mayBeEmpty, takesFrom, GroupKind.hands, Taking.after, Taking.settle]
  rw [groupPieces, groupPieces, hfailure, hfailure, hguarded]
  refine .ite (fun h => absurd h Bool.false_ne_true) fun _ => .ite (fun _ => ?_) fun _ => ?_
  · exact .bind (a.wrapped_copyOf place body _ rfl) fun _ _ hp => .pure (.cons hp .nil)
  · exact wrapped_repeatedGroup (a.wrapped_copyOf place body) _ _ _

end

/-! ## Programs -/

/-- A repeated group leads where it leads with its alternatives in a group of their own. -/
theorem programOf_group_wrapped (anchored : Bool) (groups : Groups) (widths : List (Nat × List Nat))
    (settings : Settings) (body : Regex) (times : Times) :
    (programOf groups widths settings (framed anchored (.group .plain body times .stop))).code.Wrapped
      (programOf groups widths settings
        (framed anchored (.group .plain (.group .plain body {} .stop) times .stop))).code := by
  let asm : Assembler := { groups, widths }
  have hpieces : YieldAlike (List.Forall₂ Code.Piece.Wrapped) (asm.pieces {} (.group .plain body times .stop))
      (asm.pieces {} (.group .plain (.group .plain body {} .stop) times .stop)) :=
    .bind (asm.wrapped_groupPieces {} body times) fun _ _ hnew => .pure (List.rel_append .nil hnew)
  obtain ⟨hcode, hleaves⟩ := hpieces asm.start
  have hassembled : (asm.assemble (framed anchored (.group .plain body times .stop))).1.Wrapped
      (asm.assemble (framed anchored (.group .plain (.group .plain body {} .stop) times .stop))).1 := by
    rw [asm.assemble_framed_eq rfl, asm.assemble_framed_eq rfl, hleaves]
    exact (Code.Wrapped.ofPieces hcode).framed anchored _
  have hcalls : hasItem Item.isCall (framed anchored (.group .plain (.group .plain body {} .stop) times .stop)) =
      hasItem Item.isCall (framed anchored (.group .plain body times .stop)) := by
    cases anchored <;> simp [framed, hasItem]
  rw [programOf, programOf, hcalls]
  dsimp only
  split
  · exact hassembled.possessified _
  · exact hassembled

end PatternGrammar.Regex
