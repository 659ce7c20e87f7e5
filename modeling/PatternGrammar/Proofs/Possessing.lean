import Mathlib
import PatternGrammar.Proofs.Assembled

/-!
# Possessive repetitions in a sequence

What follows a repetition is looked for behind the end of its group and inside the groups that come next. In two
bare groups one behind the other the same repetitions become possessive as without these groups, unless a
reluctant one stands in the first group: for that the end of a group is as far as one can see.
-/

namespace PatternGrammar.Regex

/-! ## Sizes -/

namespace Code

theorem sizeOnto_eq (c : Code) (n : Nat) : c.sizeOnto n = n + c.size := by
  unfold size
  induction c generalizing n with
  | stop => simp only [sizeOnto, Nat.zero_add]
  | either upTo branch others hb ho =>
      rw [sizeOnto, sizeOnto, ho, hb, ho (sizeOnto _ _), hb (0 + 1)]
      omega
  | step i next ih =>
      rw [sizeOnto, sizeOnto, ih, ih (0 + 1)]
      omega
  | group shape body next hb hn =>
      rw [sizeOnto, sizeOnto, hn, hb, hn (sizeOnto _ _), hb (0 + 1)]
      omega

@[simp] theorem size_stop : Code.stop.size = 1 := rfl

@[simp] theorem size_either (upTo : Nat) (branch others : Code) :
    (Code.either upTo branch others).size = 1 + branch.size + others.size := by
  rw [size, sizeOnto, sizeOnto_eq, sizeOnto_eq, Nat.zero_add]

@[simp] theorem size_step (i : Instruction) (next : Code) : (Code.step i next).size = 1 + next.size := by
  rw [size, sizeOnto, sizeOnto_eq, Nat.zero_add]

@[simp] theorem size_group (shape : Shape) (body next : Code) :
    (Code.group shape body next).size = 1 + body.size + next.size := by
  rw [size, sizeOnto, sizeOnto_eq, sizeOnto_eq, Nat.zero_add]

theorem size_pos (c : Code) : 0 < c.size := by
  cases c <;> simp

theorem size_le_append (a b : Code) : b.size ≤ (a.append b).size := by
  induction a with
  | stop => exact Nat.le_refl _
  | either upTo branch others hb _ =>
      rw [append, size_either]
      omega
  | step i next ih =>
      rw [append, size_step]
      omega
  | group shape body next _ ih =>
      rw [append, size_group]
      omega

/-- The size together with that of what follows the groups around. -/
def sizeIn (around : List Enclosure) (c : Code) : Nat := c.size + (around.map (·.next.size)).sum

end Code

/-! ## Comparing to the end -/

namespace Repetition

variable {r : Repetition} {fuel k left : Nat} {entered entered' : Bool} {around outer : List Enclosure}
  {code : Code} {g : Enclosure}

theorem isFinal_congr (h : code.sizeIn around < fuel) (h' : code.sizeIn around < k) :
    r.isFinal fuel entered around left code = r.isFinal k entered around left code := by
  induction fuel generalizing k entered around left code with
  | zero => omega
  | succ fuel ih =>
      obtain _ | k := k
      · omega
      cases code with
      | stop =>
          cases around with
          | nil => rfl
          | cons g outer =>
              simp only [Code.sizeIn, Code.size_stop, List.map_cons, List.sum_cons] at h h'
              simp only [isFinal]
              rw [ih (k := k) (by simp only [Code.sizeIn]; omega) (by simp only [Code.sizeIn]; omega)]
      | either upTo branch others =>
          simp only [Code.sizeIn, Code.size_either] at h h'
          have hb := branch.size_pos
          have ho := others.size_pos
          simp only [isFinal]
          simp (disch := simp only [Code.sizeIn]; omega) only [ih (k := k)]
      | step i next =>
          simp only [Code.sizeIn, Code.size_step] at h h'
          simp only [isFinal]
          simp (disch := simp only [Code.sizeIn]; omega) only [ih (k := k)]
      | group shape body next =>
          simp only [Code.sizeIn, Code.size_group] at h h'
          have hb := body.size_pos
          have hn := next.size_pos
          simp only [isFinal]
          simp (disch := simp only [Code.sizeIn, List.map_cons, List.sum_cons]; omega) only [ih (k := k)]

/-- What `isFinal` says when it is not cut short. -/
def final (r : Repetition) (entered : Bool) (around : List Enclosure) (left : Nat) (code : Code) : Bool × Nat :=
  r.isFinal (code.sizeIn around + 1) entered around left code

theorem isFinal_eq (h : code.sizeIn around < fuel) :
    r.isFinal fuel entered around left code = r.final entered around left code :=
  isFinal_congr h (Nat.lt_succ_self _)

/-- One comparison of those that branch off. -/
def branchOff (r : Repetition) (around : List Enclosure) (left : Nat) (code : Code) : Bool × Nat :=
  if left ≤ 1 then (false, 0) else r.final false around (left - 1) code

theorem final_nil : r.final entered [] left .stop = (r.greedy, left) := rfl

theorem final_stop : r.final entered (g :: outer) left .stop =
    match r.outlook g with
    | .settled => (!entered, left)
    | .open => r.final entered outer left g.next
    | .none => (false, left) := by
  rw [final, isFinal]
  simp (disch := simp only [Code.sizeIn, Code.size_stop, List.map_cons, List.sum_cons]; omega) only [isFinal_eq] <;> rfl

theorem final_either {upTo : Nat} {branch others : Code} :
    r.final entered around left (.either upTo branch others) =
      match r.branchOff around left branch with
      | (true, left) => r.final entered around left others
      | (false, left) => (false, left) := by
  have hb := branch.size_pos
  have ho := others.size_pos
  rw [final, isFinal, branchOff]
  simp (disch := simp only [Code.sizeIn, Code.size_either]; omega) only [isFinal_eq] <;> rfl

theorem final_step {i : Instruction} {next : Code} :
    r.final entered around left (.step i next) =
      match i.taken? with
      | none => (false, left)
      | some (taken, optional) =>
          if !r.taken.excludes optional taken then (false, left)
          else if optional then r.final entered around left next
          else (true, left) := by
  rw [final, isFinal]
  simp (disch := simp only [Code.sizeIn, Code.size_step]; omega) only [isFinal_eq] <;> rfl

theorem final_group {shape : Shape} {body next : Code} :
    r.final entered around left (.group shape body next) =
      if !shape.isTransparent then (false, left)
      else
        let inside := { role := shape.role, ending := shape.ending, next } :: around
        match shape.entry with
        | .never => (false, left)
        | .once => r.final true inside left body
        | .maybe | .maybeNot =>
            match r.branchOff around left next with
            | (true, left) => r.final true inside left body
            | (false, left) => (false, left) := by
  have hb := body.size_pos
  have hn := next.size_pos
  rw [final, isFinal, branchOff]
  simp (disch := simp only [Code.sizeIn, Code.size_group, List.map_cons, List.sum_cons]; omega) only [isFinal_eq] <;> rfl

end Repetition

/-! ## Groups opened up -/

/-- The code when its group is opened up and `rest` follows that: code in one of the groups `inner` stays. -/
def Code.behind (c rest : Code) : (inner : List Enclosure) → Code
  | [] => c.append rest
  | _ :: _ => c

/-- The groups `inner` when the group around them is opened up and `rest` follows that. -/
def Enclosure.opened (rest : Code) (outer : List Enclosure) : (inner : List Enclosure) → List Enclosure
  | [] => outer
  | g :: inner => { g with next := g.next.behind rest inner } :: opened rest outer inner

namespace Code

variable {rest next : Code} {inner : List Enclosure}

theorem behind_either {upTo : Nat} {branch others : Code} :
    (Code.either upTo branch others).behind rest inner =
      .either upTo (branch.behind rest inner) (others.behind rest inner) := by
  cases inner <;> rfl

theorem behind_step {i : Instruction} :
    (Code.step i next).behind rest inner = .step i (next.behind rest inner) := by
  cases inner <;> rfl

theorem behind_group {shape : Shape} {body : Code} :
    (Code.group shape body next).behind rest inner = .group shape body (next.behind rest inner) := by
  cases inner <;> rfl

end Code

/-- The group is bare, and the repetition sees `rest` behind its end. -/
structure Repetition.SeesBeyond (r : Repetition) (g : Enclosure) (outer : List Enclosure) (rest : Code) :
    Prop where
  role : g.role = .plain
  ending : g.ending = .once
  next : r.greedy → ∀ entered entered' left,
    r.final entered outer left g.next = r.final entered' outer left rest

/-- A reluctant repetition does not become possessive in front of `rest`. -/
def EndsBlind (outer : List Enclosure) (rest : Code) : Prop :=
  ∀ r : Repetition, r.greedy = false → ∀ entered left, r.final entered outer left rest = (false, left)

namespace Repetition

variable {r : Repetition} {g : Enclosure} {outer inner : List Enclosure} {rest code : Code}
  {entered entered' : Bool}

/-- A reluctant repetition sees no end of a group. -/
theorem greedy_of_outlook (h : r.outlook g = .open) : r.greedy := by
  by_contra hr
  rw [outlook, if_pos (by simp [hr])] at h
  cases h

theorem final_opened_stop (hg : r.SeesBeyond g outer rest) (hr : r.greedy ∨ EndsBlind outer rest) (left : Nat) :
    r.final entered (g :: outer) left .stop = r.final entered' outer left rest := by
  rw [final_stop]
  cases hgreedy : r.greedy with
  | true =>
      have hopen : r.outlook g = .open := by simp [outlook, hgreedy, hg.role, hg.ending]
      rw [hopen]
      exact hg.next hgreedy _ _ _
  | false =>
      have hnone : r.outlook g = .none := by simp [outlook, hgreedy]
      rw [hnone, hr.resolve_left (by simp [hgreedy]) r hgreedy entered' left]

/-- The comparison comes to the same end. Whether a group has been entered counts only inside of groups. -/
theorem final_opened (hg : r.SeesBeyond g outer rest) (he : entered = entered' ∨ inner = [])
    (hr : r.greedy ∨ inner ≠ [] ∨ EndsBlind outer rest) (left : Nat) :
    r.final entered (inner ++ g :: outer) left code =
      r.final entered' (Enclosure.opened rest outer inner) left (code.behind rest inner) := by
  obtain ⟨n, hn⟩ : ∃ n, code.sizeIn (inner ++ g :: outer) ≤ n := ⟨_, Nat.le_refl _⟩
  induction n generalizing entered entered' inner left code with
  | zero =>
      have hc := code.size_pos
      simp only [Code.sizeIn] at hn
      omega
  | succ n ih =>
      have hbranch (c : Code) (hc : c.sizeIn (inner ++ g :: outer) ≤ n) (left : Nat) :
          r.branchOff (inner ++ g :: outer) left c =
            r.branchOff (Enclosure.opened rest outer inner) left (c.behind rest inner) := by
        rw [branchOff, branchOff, ih (.inl rfl) hr _ hc]
      cases code with
      | stop =>
          cases inner with
          | nil => exact final_opened_stop hg (hr.imp_right (·.resolve_left (· rfl))) left
          | cons u inner =>
              obtain rfl := he.resolve_right (List.cons_ne_nil _ _)
              rw [List.cons_append, final_stop, Code.behind, Enclosure.opened, final_stop]
              have hsame : r.outlook { u with next := u.next.behind rest inner } = r.outlook u := rfl
              rw [hsame]
              cases ho : r.outlook u with
              | «open» => 
                  refine ih (.inl rfl) (.inl (greedy_of_outlook ho)) left ?_
                  simp only [Code.sizeIn, Code.size_stop, List.cons_append, List.map_cons, List.sum_cons] at hn ⊢
                  omega
              | settled | none => rfl
      | either upTo branch others =>
          have hb := branch.size_pos
          have ho := others.size_pos
          simp only [Code.sizeIn, Code.size_either] at hn
          rw [final_either, Code.behind_either, final_either, hbranch branch (by simp only [Code.sizeIn]; omega)]
          split
          · exact ih he hr _ (by simp only [Code.sizeIn]; omega)
          · rfl
      | step i next =>
          simp only [Code.sizeIn, Code.size_step] at hn
          rw [final_step, Code.behind_step, final_step]
          split
          · rfl
          · rw [ih he hr _ (by simp only [Code.sizeIn]; omega)]
      | group shape body next =>
          have hb := body.size_pos
          have hn' := next.size_pos
          simp only [Code.sizeIn, Code.size_group] at hn
          let u : Enclosure := { role := shape.role, ending := shape.ending, next }
          have hbody (left : Nat) : r.final true (u :: inner ++ g :: outer) left body =
              r.final true (Enclosure.opened rest outer (u :: inner)) left body := by
            refine ih (.inl rfl) (.inr (.inl (List.cons_ne_nil _ _))) left ?_
            simp only [Code.sizeIn, List.cons_append, List.map_cons, List.sum_cons, u]
            omega
          rw [final_group, Code.behind_group, final_group, hbranch next (by simp only [Code.sizeIn]; omega)]
          split
          · rfl
          · dsimp only
            split
            · rfl
            · exact hbody _
            · split
              · exact hbody _
              · rfl
            · split
              · exact hbody _
              · rfl

end Repetition

/-! ## All repetitions of a sequence -/

theorem Code.callsNone_step (i : Instruction) (next : Code) :
    (Code.step i next).callsNone = (!i.isCall && next.callsNone) := by
  cases i <;> rfl

theorem Code.Piece.isPlain_step (i : Instruction) : (Code.Piece.step i).isPlain false = !i.isCall := by
  cases i <;> rfl

theorem Instruction.isCall_possessified (hasCalls : Bool) (fuel : Nat) (around : List Enclosure) (left : Nat)
    (next : Code) (i : Instruction) :
    (i.possessified hasCalls fuel around left next).1.isCall = i.isCall := by
  cases i with
  | many s times =>
      unfold possessified
      dsimp only
      split
      · rfl
      · split
        · rfl
        · split <;> rfl
  | _ => rfl

theorem Code.callsNone_possessifiedFrom {hasCalls : Bool} {fuel left : Nat} {around : List Enclosure}
    {pieces : List Code.Piece} {c : Code} (hc : c.callsNone) (hp : ∀ p ∈ pieces, p.callsNone) :
    (c.possessifiedFrom hasCalls fuel around pieces left).1.callsNone := by
  induction c generalizing around pieces left with
  | stop => exact callsNone_ofPieces hp
  | either upTo branch others hb ho =>
      rw [callsNone, Bool.and_eq_true] at hc
      exact ho hc.2 (List.forall_mem_cons.mpr ⟨hb hc.1 (List.forall_mem_nil _), hp⟩)
  | step i next ih =>
      rw [callsNone_step, Bool.and_eq_true] at hc
      have hi : (Piece.step (i.possessified hasCalls fuel around left next).1).callsNone := by
        rw [Piece.callsNone, Instruction.isCall_possessified]
        exact hc.1
      exact ih hc.2 (List.forall_mem_cons.mpr ⟨hi, hp⟩)
  | group shape body next hb hn =>
      rw [callsNone, Bool.and_eq_true] at hc
      exact hn hc.2 (List.forall_mem_cons.mpr ⟨hb hc.1 (List.forall_mem_nil _), hp⟩)

section
variable {g : Enclosure} {outer inner : List Enclosure} {rest c next : Code} {hasCalls : Bool}
  {fuel fuel' left : Nat}

theorem Instruction.possessified_opened {i : Instruction} (hg : ∀ r : Repetition, r.SeesBeyond g outer rest)
    (hi : (Code.Piece.step i).isPlain true ∨ inner ≠ [] ∨ EndsBlind outer rest)
    (hf : next.sizeIn (inner ++ g :: outer) < fuel)
    (hf' : (next.behind rest inner).sizeIn (Enclosure.opened rest outer inner) < fuel') :
    i.possessified hasCalls fuel (inner ++ g :: outer) left next =
      i.possessified hasCalls fuel' (Enclosure.opened rest outer inner) left (next.behind rest inner) := by
  cases i with
  | many s times =>
      unfold possessified
      dsimp only
      split
      · rfl
      · next taken ht =>
          have hmode : times.mode ≠ .possessive := by
            intro h
            simp [mayBecomePossessive, h] at ht
          let r : Repetition := { taken, greedy := times.mode = .greedy, hasCalls }
          have hr : r.greedy ∨ inner ≠ [] ∨ EndsBlind outer rest := by
            cases hm : times.mode with
            | greedy => exact .inl (by simp [r, hm])
            | possessive => exact (hmode hm).elim
            | reluctant =>
                exact .inr (hi.resolve_left (by simp [Code.Piece.isPlain, hm]))
          rw [Repetition.isFinal_eq hf, Repetition.isFinal_eq hf', Repetition.final_opened (hg r) (.inl rfl) hr]
  | _ => rfl

/-- Inside of groups nothing changes. -/
theorem Code.possessifiedFrom_within (hg : ∀ r : Repetition, r.SeesBeyond g outer rest) {u : Enclosure}
    {pieces : List Code.Piece} (hf : c.sizeIn (u :: inner ++ g :: outer) < fuel)
    (hf' : c.sizeIn (Enclosure.opened rest outer (u :: inner)) < fuel') :
    c.possessifiedFrom hasCalls fuel (u :: inner ++ g :: outer) pieces left =
      c.possessifiedFrom hasCalls fuel' (Enclosure.opened rest outer (u :: inner)) pieces left := by
  induction c generalizing u inner pieces left with
  | stop => rfl
  | either upTo branch others hb ho =>
      simp only [sizeIn, size_either] at hf hf'
      rw [possessifiedFrom, possessifiedFrom, hb (by simp only [sizeIn]; omega) (by simp only [sizeIn]; omega)]
      exact ho (by simp only [sizeIn]; omega) (by simp only [sizeIn]; omega)
  | step i next ih =>
      simp only [sizeIn, size_step] at hf hf'
      have hi : i.possessified hasCalls fuel (u :: inner ++ g :: outer) left next =
          i.possessified hasCalls fuel' (Enclosure.opened rest outer (u :: inner)) left next :=
        Instruction.possessified_opened hg (.inr (.inl (List.cons_ne_nil _ _))) (by simp only [sizeIn]; omega)
          (by simp only [sizeIn, behind]; omega)
      rw [possessifiedFrom, possessifiedFrom, hi]
      exact ih (by simp only [sizeIn]; omega) (by simp only [sizeIn]; omega)
  | group shape body next hb hn =>
      have hsize := body.size_pos
      simp only [sizeIn, size_group] at hf hf'
      let v : Enclosure := { role := shape.role, ending := shape.ending, next }
      have hbody : body.possessifiedFrom hasCalls fuel (v :: u :: inner ++ g :: outer) [] left =
          body.possessifiedFrom hasCalls fuel' (Enclosure.opened rest outer (v :: u :: inner)) [] left := by
        refine hb ?_ ?_ <;>
          simp only [sizeIn, List.cons_append, List.map_cons, List.sum_cons, Enclosure.opened, behind, v]
            at hf hf' ⊢ <;>
          omega
      rw [possessifiedFrom, possessifiedFrom]
      rw [← List.cons_append, hbody]
      exact hn (by simp only [sizeIn]; omega) (by simp only [sizeIn]; omega)

/-- The code yields the same pieces at the end of the group and in front of `rest`. -/
def YieldsAlike (hasCalls : Bool) (fuel fuel' : Nat) (g : Enclosure) (outer : List Enclosure) (rest : Code)
    (left : Nat) (c : Code) : Prop :=
  ∃ new left', ArePlain false new ∧ ∀ pieces,
    c.possessifiedFrom hasCalls fuel (g :: outer) pieces left = (.ofPieces (new ++ pieces), left') ∧
    (c.append rest).possessifiedFrom hasCalls fuel' outer pieces left =
      rest.possessifiedFrom hasCalls fuel' outer (new ++ pieces) left'

namespace YieldsAlike

theorem before {p p' : Code.Piece} {left₁ : Nat} (h : YieldsAlike hasCalls fuel fuel' g outer rest left₁ c)
    (hp : p'.isPlain false)
    (hg : ∀ pieces, (p.before c).possessifiedFrom hasCalls fuel (g :: outer) pieces left =
      c.possessifiedFrom hasCalls fuel (g :: outer) (p' :: pieces) left₁)
    (ho : ∀ pieces, ((p.before c).append rest).possessifiedFrom hasCalls fuel' outer pieces left =
      (c.append rest).possessifiedFrom hasCalls fuel' outer (p' :: pieces) left₁) :
    YieldsAlike hasCalls fuel fuel' g outer rest left (p.before c) := by
  obtain ⟨new, left', hnew, h⟩ := h
  refine ⟨new ++ [p'], left', (arePlain_singleton hp).append hnew, fun pieces => ?_⟩
  rw [List.append_assoc, List.singleton_append]
  exact ⟨(hg pieces).trans (h _).1, (ho pieces).trans (h _).2⟩

theorem step {i : Instruction} (hcall : i.isCall = false)
    (hi : i.possessified hasCalls fuel (g :: outer) left c =
      i.possessified hasCalls fuel' outer left (c.append rest))
    (h : ∀ left, YieldsAlike hasCalls fuel fuel' g outer rest left c) :
    YieldsAlike hasCalls fuel fuel' g outer rest left (.step i c) := by
  have hkeeps := i.isCall_possessified hasCalls fuel (g :: outer) left c
  rcases hres : i.possessified hasCalls fuel (g :: outer) left c with ⟨i', left₁⟩
  rw [hres] at hi hkeeps
  have hplain : (Code.Piece.step i').isPlain false := by
    rw [Code.Piece.isPlain_step, hkeeps, hcall]
    rfl
  refine before (p := .step i) (h left₁) hplain (fun pieces => ?_) fun pieces => ?_
  · rw [Code.Piece.before, Code.possessifiedFrom, hres]
  · rw [Code.Piece.before, Code.append, Code.possessifiedFrom, ← hi]

theorem group {shape : Shape} {body : Code} (hbody : body.callsNone)
    (hb : body.possessifiedFrom hasCalls fuel (⟨shape.role, shape.ending, c⟩ :: g :: outer) [] left =
      body.possessifiedFrom hasCalls fuel' (⟨shape.role, shape.ending, c.append rest⟩ :: outer) [] left)
    (h : ∀ left, YieldsAlike hasCalls fuel fuel' g outer rest left c) :
    YieldsAlike hasCalls fuel fuel' g outer rest left (.group shape body c) := by
  have hkeeps (around : List Enclosure) :
      (body.possessifiedFrom hasCalls fuel around [] left).1.callsNone :=
    Code.callsNone_possessifiedFrom hbody (List.forall_mem_nil _)
  rcases hres : body.possessifiedFrom hasCalls fuel (⟨shape.role, shape.ending, c⟩ :: g :: outer) [] left
    with ⟨body', left₁⟩
  rw [hres] at hb
  have hplain : (Code.Piece.group shape body').isPlain false := by
    have := hkeeps (⟨shape.role, shape.ending, c⟩ :: g :: outer)
    rwa [hres] at this
  refine before (p := .group shape body) (h left₁) hplain (fun pieces => ?_) fun pieces => ?_
  · rw [Code.Piece.before, Code.possessifiedFrom, hres]
  · rw [Code.Piece.before, Code.append, Code.possessifiedFrom, ← hb]

end YieldsAlike

/-- Outside of groups one goes on with `rest` where the group ends. -/
theorem ArePlain.yieldsAlike {eager : Bool} {xs : List Code.Piece} (hx : ArePlain eager xs)
    (hg : ∀ r : Repetition, r.SeesBeyond g outer rest) (he : eager ∨ EndsBlind outer rest)
    (hf : (Code.ofPieces xs).sizeIn (g :: outer) < fuel)
    (hf' : ((Code.ofPieces xs).append rest).sizeIn outer < fuel') (left : Nat) :
    YieldsAlike hasCalls fuel fuel' g outer rest left (.ofPieces xs) := by
  induction xs using List.reverseRecOn generalizing left with
  | nil => exact ⟨[], left, .nil, fun pieces => ⟨rfl, rfl⟩⟩
  | append_singleton xs p ih =>
      obtain ⟨hxs, hp⟩ := List.forall_mem_append.mp hx
      have hp := List.forall_mem_singleton.mp hp
      have hcode : Code.ofPieces (xs ++ [p]) = p.before (.ofPieces xs) := List.foldl_append
      rw [hcode] at hf hf' ⊢
      cases p with
      | either => cases hp
      | step i =>
          simp only [Code.Piece.before, Code.append, Code.sizeIn, Code.size_step] at hf hf'
          have hlast : (Code.Piece.step i).isPlain true ∨ [] ≠ ([] : List Enclosure) ∨ EndsBlind outer rest := by
            rcases he with rfl | he
            · exact .inl hp
            · exact .inr (.inr he)
          have hcall : i.isCall = false := by
            have := Code.Piece.callsNone_of_isPlain hp
            rwa [Code.Piece.callsNone, Bool.not_eq_true'] at this
          refine .step hcall ?_ (ih hxs (by simp only [Code.sizeIn]; omega) (by simp only [Code.sizeIn]; omega))
          exact Instruction.possessified_opened hg hlast (by simp only [Code.sizeIn, List.nil_append]; omega)
            (by simp only [Code.sizeIn, Code.behind, Enclosure.opened]; omega)
      | group shape body =>
          simp only [Code.Piece.before, Code.append, Code.sizeIn, Code.size_group] at hf hf'
          have hsize := body.size_pos
          let u : Enclosure := { role := shape.role, ending := shape.ending, next := .ofPieces xs }
          have hb : body.possessifiedFrom hasCalls fuel ([u] ++ g :: outer) [] left =
              body.possessifiedFrom hasCalls fuel' (Enclosure.opened rest outer [u]) [] left := by
            refine Code.possessifiedFrom_within hg ?_ ?_ <;>
              simp only [Code.sizeIn, List.cons_append, List.nil_append, List.map_cons, List.sum_cons,
                Enclosure.opened, Code.behind, u] at hf hf' ⊢ <;>
              omega
          exact .group hp hb (ih hxs (by simp only [Code.sizeIn]; omega) (by simp only [Code.sizeIn]; omega))

end

/-! ## Two groups -/

/-- Whether a group has been entered makes no difference at the end, and a reluctant repetition sees nothing. -/
structure Closes (outer : List Enclosure) : Prop where
  entered : ∀ (r : Repetition) entered entered' left,
    r.final entered outer left .stop = r.final entered' outer left .stop
  blind : EndsBlind outer .stop

namespace Closes

variable {outer : List Enclosure}

theorem nil : Closes [] where
  entered _ _ _ _ := rfl
  blind r hr _ _ := by rw [Repetition.final_nil, hr]

theorem frame : Closes [⟨.plain, .once, .step (.anchor .subjectEnd) .stop⟩] where
  entered r _ _ _ := by
    cases hr : r.greedy <;>
      simp [Repetition.final_stop, Repetition.outlook, hr, Repetition.final_step, Instruction.taken?]
  blind r hr _ _ := by simp [Repetition.final_stop, Repetition.outlook, hr]

theorem seesEnd (h : Closes outer) (r : Repetition) : r.SeesBeyond ⟨.plain, .once, .stop⟩ outer .stop :=
  ⟨rfl, rfl, fun _ => h.entered r⟩

theorem seesGroup (h : Closes outer) (upTo : Nat) (y : Code) (r : Repetition) :
    r.SeesBeyond ⟨.plain, .once, .group { role := .plain, upTo } y .stop⟩ outer y := by
  refine ⟨rfl, rfl, fun hr entered entered' left => ?_⟩
  have hbody : r.final true ([] ++ ⟨.plain, .once, .stop⟩ :: outer) left y =
      r.final entered' outer left (y.append .stop) :=
    Repetition.final_opened (h.seesEnd r) (.inr rfl) (.inl hr) left
  rw [Code.append_stop] at hbody
  rw [Repetition.final_group, ← hbody]
  rfl

/-- The pieces of both codes become the same ones. -/
theorem possessifiedFrom_pair (h : Closes outer) {x y : List Code.Piece} (hx : ArePlain true x)
    (hy : ArePlain false y) (hasCalls : Bool) (upTo upTo' : Nat) {fuel fuel' : Nat}
    (hf : (Code.pair upTo upTo' (.ofPieces x) (.ofPieces y)).sizeIn outer < fuel)
    (hf' : ((Code.ofPieces x).append (.ofPieces y)).sizeIn outer < fuel') (left : Nat) :
    ∃ x' y' left', ArePlain false x' ∧ ArePlain false y' ∧
      (Code.pair upTo upTo' (.ofPieces x) (.ofPieces y)).possessifiedFrom hasCalls fuel outer [] left =
        (.pair upTo upTo' (.ofPieces x') (.ofPieces y'), left') ∧
      ((Code.ofPieces x).append (.ofPieces y)).possessifiedFrom hasCalls fuel' outer [] left =
        ((Code.ofPieces x').append (.ofPieces y'), left') := by
  have hle := (Code.ofPieces x).size_le_append (.ofPieces y)
  simp only [Code.pair, Code.sizeIn, Code.size_group, Code.size_stop] at hf
  have hfirst : YieldsAlike hasCalls fuel fuel'
      ⟨.plain, .once, .group { role := .plain, upTo := upTo' } (.ofPieces y) .stop⟩ outer (.ofPieces y) left
      (.ofPieces x) := by
    refine hx.yieldsAlike (h.seesGroup upTo' (.ofPieces y)) (.inl rfl) ?_ hf' left
    simp only [Code.sizeIn, Code.size_group, Code.size_stop, List.map_cons, List.sum_cons]
    omega
  obtain ⟨x', left₁, hx', hxy⟩ := hfirst
  have hsecond : YieldsAlike hasCalls fuel fuel' ⟨.plain, .once, .stop⟩ outer .stop left₁ (.ofPieces y) := by
    refine hy.yieldsAlike h.seesEnd (.inr h.blind) ?_ ?_ left₁
    · simp only [Code.sizeIn, Code.size_stop, List.map_cons, List.sum_cons]
      omega
    · simp only [Code.append_stop, Code.sizeIn] at hf' ⊢
      omega
  obtain ⟨y', left₂, hy', hyend⟩ := hsecond
  refine ⟨x', y', left₂, hx', hy', ?_, ?_⟩
  · rw [Code.pair, Code.possessifiedFrom, (hxy []).1, List.append_nil]
    dsimp only
    rw [Code.possessifiedFrom, (hyend []).1, List.append_nil]
    rfl
  · rw [(hxy []).2, List.append_nil, ← (Code.ofPieces y).append_stop, (hyend x').2, ← hx'.ofPieces_append]
    rfl

end Closes

namespace Code

theorem possessified_framed_true {hasCalls : Bool} {leaves left : Nat} {c c' : Code}
    (h : c.possessifiedFrom hasCalls (2 * (framed true leaves c).size + 2)
      [⟨.plain, .once, .step (.anchor .subjectEnd) .stop⟩] [] maxComparisons = (c', left)) :
    (framed true leaves c).possessified hasCalls = framed true leaves c' := by
  rw [framed, if_pos rfl] at h
  rw [possessified, framed, if_pos rfl, possessifiedFrom, Instruction.possessified]
  dsimp only
  rw [possessifiedFrom, h]
  rfl
  all_goals exact nofun

theorem possessified_framed {x y : List Code.Piece} (hx : ArePlain true x) (hy : ArePlain false y)
    (hasCalls anchored : Bool) (upTo upTo' leaves : Nat) :
    ∃ x' y', ArePlain false x' ∧ ArePlain false y' ∧
      (framed anchored leaves (pair upTo upTo' (ofPieces x) (ofPieces y))).possessified hasCalls =
        framed anchored leaves (pair upTo upTo' (ofPieces x') (ofPieces y')) ∧
      (framed anchored leaves ((ofPieces x).append (ofPieces y))).possessified hasCalls =
        framed anchored leaves ((ofPieces x').append (ofPieces y')) := by
  cases anchored with
  | false =>
      have hadequate (c : Code) : c.sizeIn [] < 2 * c.size + 2 := by
        simp only [sizeIn, List.map_nil, List.sum_nil]
        omega
      obtain ⟨x', y', left, hx', hy', hpair, happend⟩ :=
        Closes.nil.possessifiedFrom_pair hx hy hasCalls upTo upTo' (hadequate _) (hadequate _) maxComparisons
      exact ⟨x', y', hx', hy', congrArg Prod.fst hpair, congrArg Prod.fst happend⟩
  | true =>
      have hadequate (c : Code) : c.sizeIn [⟨.plain, .once, .step (.anchor .subjectEnd) .stop⟩] <
          2 * (framed true leaves c).size + 2 := by
        simp only [framed, if_true, sizeIn, size_step, size_group, size_stop, List.map_cons, List.sum_cons,
          List.map_nil, List.sum_nil]
        omega
      obtain ⟨x', y', left, hx', hy', hpair, happend⟩ :=
        Closes.frame.possessifiedFrom_pair hx hy hasCalls upTo upTo' (hadequate _) (hadequate _) maxComparisons
      exact ⟨x', y', hx', hy', possessified_framed_true hpair, possessified_framed_true happend⟩

end Code

/-! ## Programs -/

theorem ArePlain.of_eager {eager : Bool} {pieces : List Code.Piece} (h : ArePlain eager pieces) :
    ArePlain false pieces := by
  intro p hp
  have := h p hp
  cases p with
  | either => cases this
  | step i =>
      cases i with
      | many => rfl
      | _ => exact this
  | group => exact this

theorem Spliced.pair_append {upTo upTo' : Nat} {x y : List Code.Piece} (hx : ArePlain false x)
    (hy : ArePlain false y) :
    Spliced (.pair upTo upTo' (.ofPieces x) (.ofPieces y)) ((Code.ofPieces x).append (.ofPieces y)) := by
  have hsecond : Spliced (.group { role := .plain, upTo := upTo' } (.ofPieces y) .stop)
      ((Code.ofPieces y).append .stop) :=
    .opened ⟨rfl, rfl, rfl, rfl⟩ hy.hasAlternatives_eq_false (.refl hy.callsNone) rfl .stop
  rw [Code.append_stop] at hsecond
  exact .opened ⟨rfl, rfl, rfl, rfl⟩ hx.hasAlternatives_eq_false (.refl hx.callsNone) rfl hsecond

theorem Spliced.framed {anchored : Bool} {leaves : Nat} {c c' : Code} (h : Spliced c c')
    (hc : c.hasAlternatives = false) : Spliced (.framed anchored leaves c) (.framed anchored leaves c') := by
  cases anchored with
  | false => exact h
  | true => exact .step rfl (.within ⟨rfl, rfl, rfl, rfl⟩ hc h (.step rfl .stop))

/-- The programs of an expression in two groups and of the same one without them. -/
theorem programOf_framed {a b : Regex} (ha : a.branchCount = 1) (hb : b.branchCount = 1)
    (hac : hasItem Item.isCall a = false) (hbc : hasItem Item.isCall b = false) (hae : a.isEager) (anchored : Bool)
    (groups : Groups) (widths : List (Nat × List Nat)) (settings : Settings) :
    let p := programOf groups widths settings (Regex.framed anchored (pair a b))
    let p' := programOf groups widths settings (Regex.framed anchored (a.append b))
    Spliced p.code p'.code ∧ p.code.hasAlternatives = false ∧ p'.leaves = p.leaves := by
  obtain ⟨x, y, upTo, leaves, hx, hy, hpair, happend⟩ :=
    Assembler.assemble_framed { groups, widths } ha hb hac hbc hae anchored
  have hcalls : hasItem Item.isCall (Regex.framed anchored (a.append b)) =
      hasItem Item.isCall (Regex.framed anchored (pair a b)) := by
    rw [hasItem_framed (fun _ => rfl), hasItem_framed (fun _ => rfl), hasItem_append]
    simp only [pair, hasItem, Bool.or_false]
  have hspliced {x y : List Code.Piece} (hx : ArePlain false x) (hy : ArePlain false y) :
      Spliced (.framed anchored leaves (.pair upTo leaves (.ofPieces x) (.ofPieces y)))
          (.framed anchored leaves ((Code.ofPieces x).append (.ofPieces y))) ∧
        (Code.framed anchored leaves (.pair upTo leaves (.ofPieces x) (.ofPieces y))).hasAlternatives = false :=
    ⟨(Spliced.pair_append hx hy).framed rfl, by cases anchored <;> rfl⟩
  simp only [programOf, hpair, happend, hcalls]
  split
  · obtain ⟨x', y', hx', hy', hpair', happend'⟩ := Code.possessified_framed hx hy
      (hasItem Item.isCall (Regex.framed anchored (pair a b))) anchored upTo leaves leaves
    rw [hpair', happend']
    exact ⟨(hspliced hx' hy').1, (hspliced hx' hy').2, trivial⟩
  · exact ⟨(hspliced hx.of_eager hy).1, (hspliced hx.of_eager hy).2, trivial⟩

end PatternGrammar.Regex
