import PatternGrammar.Proofs.Agreement
import PatternGrammar.Proofs.RegularCode

/-!
# Copies of a single item

A repeated single item is one instruction, and a repeated group around it is spelled out in copies. Both lead equally
far: as often as the item has to be taken, and then as often as it can be, up to the limit. Whether a repetition is
greedy, reluctant or possessive makes no difference for how far it leads.
-/

namespace PatternGrammar.Regex

/-- The greatest of the places, if there are any. -/
def Farthest (l : List Nat) : Option Nat → Prop
  | none => l = []
  | some m => IsGreatest {j | j ∈ l} m

namespace Farthest

variable {l l' : List Nat} {o : Option Nat} {i j m : Nat}

theorem equallyFar (h : Farthest l o) (h' : Farthest l' o) : EquallyFar l l' := by
  cases o with
  | none =>
      rw [show l = [] from h, show l' = [] from h']
      exact .refl []
  | some m => exact .of_isGreatest h h'

theorem toList (o : Option Nat) : Farthest o.toList o := by
  cases o with
  | none => rfl
  | some m => exact ⟨List.mem_singleton_self m, fun j hj => (List.mem_singleton.mp hj).le⟩

theorem singleton (m : Nat) : Farthest [m] (some m) := toList (some m)

/-- Further places in front of the greatest one. -/
theorem append (h : Farthest l (some m)) (hi : i ≤ m) : Farthest (l ++ [i]) (some m) :=
  ⟨List.mem_append_left _ h.1, fun _ hj =>
    (List.mem_append.mp hj).elim (h.2 ·) fun h => (List.mem_singleton.mp h).le.trans hi⟩

theorem cons (h : Farthest l (some m)) (hi : i ≤ m) : Farthest (i :: l) (some m) :=
  ⟨List.mem_cons_of_mem _ h.1, fun _ hj => (List.mem_cons.mp hj).elim (fun h => h.le.trans hi) (h.2 ·)⟩

/-- What is tried behind the one place of the first. -/
theorem flatMap {f : Nat → List Nat} {g : Nat → Option Nat} (h : ∀ j, Farthest (f j) (g j)) (o : Option Nat) :
    Farthest (o.toList.flatMap f) (o.bind g) := by
  cases o with
  | none => rfl
  | some m => simpa using h m

end Farthest

/-! ## Repeated items -/

namespace Subject

variable {s : Subject} {x : Single} {i j low n m : Nat} {times : Times}

theorem take_of_size_le (h : s.size ≤ i) : s.take x i = i := by
  have hahead := @take_ahead s x i
  simp only [Ahead] at hahead
  omega

/-- The place behind one more item, if there is one. -/
def takeOne? (s : Subject) (x : Single) (i : Nat) : Option Nat := if s.take x i = i then none else some (s.take x i)

theorem takeTimes?_succ (n i : Nat) : s.takeTimes? x (n + 1) i = (s.takeTimes? x n i).bind (s.takeOne? x) := by
  induction n generalizing i with
  | zero =>
      rw [takeTimes?, takeTimes?, Option.bind_some, takeOne?]
      split <;> rfl
  | succ n ih =>
      have hstep (k : Nat) : s.takeTimes? x (k + 1) i =
          if s.take x i = i then none else s.takeTimes? x k (s.take x i) := rfl
      rw [hstep, hstep]
      split
      · rfl
      · exact ih _

theorem takeMost_of_size_le (h : s.size ≤ i) : s.takeMost x n i = i := by
  cases n with
  | zero => rfl
  | succ n => rw [takeMost, if_pos (take_of_size_le h)]

/-- Nothing is left to take behind as many items as there are bytes to come. -/
theorem takeMost_eq (hn : s.size ≤ i + n) (hm : s.size ≤ i + m) : s.takeMost x n i = s.takeMost x m i := by
  induction n generalizing i m with
  | zero => rw [takeMost_of_size_le (i := i) hn, takeMost_of_size_le (i := i) hn]
  | succ n ih =>
      cases m with
      | zero => rw [takeMost_of_size_le (i := i) hm, takeMost_of_size_le (i := i) hm]
      | succ m =>
          rw [takeMost, takeMost]
          split
          · rfl
          · have hahead := @take_ahead s x i
            simp only [Ahead] at hahead
            exact ih (by omega) (by omega)

/-- How far a repeated item leads. -/
def farthest (s : Subject) (x : Single) (times : Times) (i : Nat) : Option Nat :=
  (s.takeTimes? x times.least i).map fun low => s.takeMost x (s.mostFrom times low) low

theorem farthest_onFrom (n i : Nat) : Farthest (s.onFrom x n i) (some (s.takeMost x n i)) := by
  induction n generalizing i with
  | zero => exact .singleton i
  | succ n ih =>
      rw [onFrom, takeMost]
      split
      · exact .singleton i
      · exact (ih _).cons (take_ahead.le.trans takeMost_ahead.le)

theorem farthest_backFrom (low n i : Nat) : Farthest (s.backFrom x low n i) (some i) := by
  induction n generalizing i with
  | zero => exact .singleton i
  | succ n ih =>
      rw [backFrom]
      split
      · exact .singleton i
      · next hlow =>
          refine ⟨List.mem_cons_self, fun j hj => ?_⟩
          rcases List.mem_cons.mp hj with rfl | hj
          · exact Nat.le_refl _
          · exact (((ih _).2 hj).trans_lt (giveBack_lt (by omega))).le

theorem farthest_endsOfMany (s : Subject) (x : Single) (times : Times) (i : Nat) :
    Farthest (s.endsOfMany x times i) (s.farthest x times i) := by
  unfold endsOfMany farthest
  cases s.takeTimes? x times.least i with
  | none => rfl
  | some low =>
      rw [Option.map_some]
      dsimp only
      split
      · split
        · exact farthest_backFrom _ _ _
        · exact farthest_onFrom _ _
        · exact .singleton _
      · next hvaries =>
          have hmost : times.most = some times.least := by simpa [Times.varies] using hvaries
          have hzero : s.mostFrom times low = 0 := by simp [mostFrom, hmost]
          rw [hzero]
          exact .singleton low

/-- The first place that a repetition tries to end at is the farthest one, unless it is reluctant. -/
theorem take_endsOfMany (hm : times.mode ≠ .reluctant) (i : Nat) :
    (s.endsOfMany x times i).take 1 = (s.farthest x times i).toList := by
  have hback (low n i : Nat) : (s.backFrom x low n i).take 1 = [i] := by
    cases n with
    | zero => rfl
    | succ n =>
        rw [backFrom]
        split <;> rfl
  unfold endsOfMany farthest
  cases s.takeTimes? x times.least i with
  | none => rfl
  | some low =>
      cases hvaries : times.varies with
      | true =>
          cases hmode : times.mode with
          | greedy => exact hback _ _ _
          | reluctant => exact (hm hmode).elim
          | possessive => rfl
      | false =>
          have hmost : times.most = some times.least := by simpa [Times.varies] using hvaries
          simp [mostFrom, hmost, takeMost]

end Subject

/-! ## The instruction -/

section
variable {s : Subject} {x : Single} {times : Times}

theorem Code.Tightened.stop_eq {c : Code} (h : Code.stop.Tightened c) : c = .stop := by
  cases h
  rfl

/-- A repeated item, with or without a way back. -/
theorem ends_many {i : Instruction} (hi : (Instruction.many x times).Tightened i) (j : Nat) :
    Farthest ((Code.step i .stop).ends s j) (s.farthest x times j) := by
  have hends (times' : Times) : (Code.step (.many x times') .stop).ends s j = s.endsOfMany x times' j := by
    simp [Code.ends, Instruction.ends]
  cases hi with
  | same =>
      rw [hends]
      exact s.farthest_endsOfMany x times j
  | possessive =>
      rw [hends]
      exact s.farthest_endsOfMany x { times with mode := .possessive } j

/-- The code of a repeated item leads as far as the item can be taken, whatever of it has become possessive. -/
theorem yields_farthest_singlePieces (ht : times.isOrdered) :
    Yields (fun pieces => ∀ c, (Code.ofPieces pieces).Tightened c → ∀ i, Farthest (c.ends s i) (s.farthest x times i))
      (singlePieces x times) := by
  refine .ite (fun hnever => .pure ?_) fun hnever => .ite (fun honce => .pure ?_) fun _ => .ite (fun hwrap => ?_)
    fun _ => .pure ?_
  · intro c hc i
    obtain rfl := hc.stop_eq
    rw [Times.isNever, decide_eq_true_eq] at hnever
    have hleast : times.least = 0 := by simpa [Times.isOrdered, hnever] using ht
    simp only [Subject.farthest, Subject.mostFrom, hnever, hleast, Subject.takeTimes?]
    exact .singleton i
  · intro c hc i
    rw [Bool.and_eq_true, decide_eq_true_eq, decide_eq_true_eq] at honce
    cases hc with
    | step hi hnext =>
        obtain rfl := hnext.stop_eq
        cases hi
        simp only [Code.ends, Instruction.ends, Subject.farthest, Subject.mostFrom, honce, Subject.takeTimes?]
        split
        · rfl
        · exact .singleton _
  · refine .bind (.get_bind fun state => .pure (P := fun p => ∀ c, (Code.ofPieces [p]).Tightened c → ∀ i,
      Farthest (c.ends s i) (s.farthest x times i)) ?_) fun p hp => .pure hp
    intro c hc i
    have hends (times' : Times) (upTo : Nat) :
        (Code.group { role := .atomic, upTo } (.step (.many x times') .stop) .stop).ends s i =
          (s.endsOfMany x times' i).take 1 := by
      simp [Code.ends, Instruction.ends, Shape.ends, Shape.endsInside, Role.ends]
    cases hc with
    | group _ hbody hnext =>
        obtain rfl := hnext.stop_eq
        cases hbody with
        | step hi hnext =>
            obtain rfl := hnext.stop_eq
            cases hi with
            | same =>
                rw [hends, Subject.take_endsOfMany (by simp)]
                exact .toList _
            | possessive =>
                rw [hends, Subject.take_endsOfMany (by simp)]
                exact .toList _
  · intro c hc i
    cases hc with
    | step hi hnext =>
        obtain rfl := hnext.stop_eq
        exact ends_many hi i

end

/-! ## Copies -/

/-- No instruction repeats anything, and there are no alternatives. -/
def Code.isSpelledOut : Code → Bool
  | .stop => true
  | .step (.one _) next => next.isSpelledOut
  | .step _ _ | .either _ _ _ => false
  | .group _ body next => body.isSpelledOut && next.isSpelledOut

namespace Code

variable {s : Subject} {c c' d : Code}

theorem Tightened.eq_of_isSpelledOut (h : c.Tightened c') (hc : c.isSpelledOut) : c' = c := by
  induction h with
  | stop => rfl
  | either => cases hc
  | @step i _ _ _ hi _ ih =>
      cases i with
      | one =>
          cases hi
          rw [ih hc]
      | _ => cases hc
  | group shape _ _ hb hn =>
      rw [isSpelledOut, Bool.and_eq_true] at hc
      rw [hb hc.1, hn hc.2]

theorem callsNone_of_isSpelledOut (hc : c.isSpelledOut) : c.callsNone := by
  induction c with
  | stop => rfl
  | either => cases hc
  | step i next ih =>
      cases i with
      | one => exact ih hc
      | _ => cases hc
  | group shape body next hb hn =>
      rw [isSpelledOut, Bool.and_eq_true] at hc
      rw [callsNone, hb hc.1, hn hc.2]
      rfl

theorem ends_append (hc : c.isSpelledOut) (i : Nat) : (c.append d).ends s i = (c.ends s i).flatMap (d.ends s) := by
  induction c generalizing i with
  | stop => simp [append, ends]
  | either => cases hc
  | step instruction next ih =>
      cases instruction with
      | one x =>
          simp only [append, ends, List.flatMap_assoc]
          exact congrArg (List.flatMap · _) (funext fun j => ih hc j)
      | _ => cases hc
  | group shape body next _ hn =>
      rw [isSpelledOut, Bool.and_eq_true] at hc
      simp only [append, ends, List.flatMap_assoc]
      exact congrArg (List.flatMap · _) (funext fun j => hn hc.2 j)

theorem isSpelledOut_append (hc : c.isSpelledOut) (hd : d.isSpelledOut) : (c.append d).isSpelledOut := by
  induction c with
  | stop => exact hd
  | either => cases hc
  | step i next ih =>
      cases i with
      | one => exact ih hc
      | _ => cases hc
  | group shape body next _ hn =>
      rw [isSpelledOut, Bool.and_eq_true] at hc
      rw [append, isSpelledOut, hc.1, hn hc.2]
      rfl

end Code

/-- The pieces lead to these places and repeat nothing; if they are `eager`, the farthest place is tried first. -/
structure AreCopies (s : Subject) (eager : Bool) (far : Nat → Option Nat) (pieces : List Code.Piece) : Prop where
  plain : ArePlain false pieces
  spelledOut : (Code.ofPieces pieces).isSpelledOut
  farthest : ∀ i, Farthest ((Code.ofPieces pieces).ends s i) (far i)
  first : eager → ∀ i, ((Code.ofPieces pieces).ends s i).take 1 = (far i).toList

/-- The pieces lead to one place at most. -/
structure AreFixed (s : Subject) (far : Nat → Option Nat) (pieces : List Code.Piece) : Prop where
  plain : ArePlain false pieces
  spelledOut : (Code.ofPieces pieces).isSpelledOut
  ends : ∀ i, (Code.ofPieces pieces).ends s i = (far i).toList

section
variable {s : Subject} {x : Single} {eager : Bool} {far far' : Nat → Option Nat} {pieces more : List Code.Piece}

theorem take_toList (o : Option Nat) : o.toList.take 1 = o.toList := by
  cases o <;> rfl

theorem AreFixed.nil : AreFixed s some [] := ⟨.nil, rfl, fun _ => rfl⟩

theorem AreFixed.areCopies (h : AreFixed s far pieces) : AreCopies s eager far pieces where
  plain := h.plain
  spelledOut := h.spelledOut
  farthest i := h.ends i ▸ .toList _
  first _ i := by rw [h.ends, take_toList]

/-- Copies behind others. -/
theorem AreFixed.append (h : AreFixed s far pieces) (hm : AreCopies s eager far' more) :
    AreCopies s eager (fun i => (far i).bind far') (more ++ pieces) := by
  have hends (i : Nat) : (Code.ofPieces (more ++ pieces)).ends s i =
      (far i).toList.flatMap ((Code.ofPieces more).ends s) := by
    rw [h.plain.ofPieces_append, Code.ends_append h.spelledOut, h.ends]
  refine ⟨h.plain.append hm.plain, ?_, fun i => ?_, fun he i => ?_⟩
  · rw [h.plain.ofPieces_append]
    exact Code.isSpelledOut_append h.spelledOut hm.spelledOut
  · rw [hends]
    exact .flatMap hm.farthest (far i)
  · rw [hends]
    cases far i with
    | none => rfl
    | some j => simpa using hm.first he j

/-- Fixed copies behind others. -/
theorem AreFixed.append_fixed (h : AreFixed s far pieces) (hm : AreFixed s far' more) :
    AreFixed s (fun i => (far i).bind far') (more ++ pieces) := by
  have hcopies : AreCopies s false _ (more ++ pieces) := h.append hm.areCopies
  obtain ⟨hplain, hspelled, -, -⟩ := hcopies
  refine ⟨hplain, hspelled, fun i => ?_⟩
  rw [h.plain.ofPieces_append, Code.ends_append h.spelledOut, h.ends]
  cases far i with
  | none => rfl
  | some j => simpa using hm.ends j

theorem AreCopies.mono (h : AreCopies s eager far pieces) (hfar : far = far') : AreCopies s eager far' pieces :=
  hfar ▸ h

/-- A group of this shape, which is not repeated, around pieces. -/
theorem isSpelledOut_group (shape : Shape) (h : (Code.ofPieces pieces).isSpelledOut) :
    (Code.ofPieces [.group shape (.ofPieces pieces)]).isSpelledOut := by
  have hcode : (Code.ofPieces [.group shape (.ofPieces pieces)]).isSpelledOut =
      ((Code.ofPieces pieces).isSpelledOut && true) := rfl
  rw [hcode, h]
  rfl

theorem ends_ofPieces_group (shape : Shape) (body : Code) (i : Nat) :
    (Code.ofPieces [.group shape body]).ends s i = shape.ends s (fun j => body.ends s j) i := by
  have hcode : Code.ofPieces [.group shape body] = .group shape body .stop := rfl
  rw [hcode, Code.ends]
  simp [Code.ends]

/-- Without a way back only the first place counts. -/
theorem AreCopies.atomic (h : AreCopies s true far pieces) (upTo : Nat) :
    AreCopies s true far [.group { role := .atomic, upTo } (.ofPieces pieces)] := by
  have hends (i : Nat) : (Code.ofPieces [.group { role := .atomic, upTo } (.ofPieces pieces)]).ends s i =
      (far i).toList := by
    rw [ends_ofPieces_group]
    exact h.first rfl i
  refine ⟨arePlain_singleton h.plain.callsNone, isSpelledOut_group _ h.spelledOut, fun i => ?_, fun _ i => ?_⟩
  · rw [hends]
    exact .toList _
  · rw [hends, take_toList]

/-- A group that can be left out leads to the place where it begins as well, and tries that last if it is eager. -/
theorem AreCopies.optional {entry : Entry} (h : AreCopies s (entry = .maybe) far pieces)
    (hfar : ∀ i j, far i = some j → i ≤ j) (he : entry = .maybe ∨ entry = .maybeNot) (upTo : Nat) :
    AreCopies s (entry = .maybe) (fun i => some ((far i).getD i))
      [.group { role := .plain, entry, upTo } (.ofPieces pieces)] := by
  have hempty {i : Nat} (hi : far i = none) : (Code.ofPieces pieces).ends s i = [] := by
    have hbody := h.farthest i
    rwa [hi] at hbody
  refine ⟨arePlain_singleton h.plain.callsNone, isSpelledOut_group _ h.spelledOut, fun i => ?_, fun hm i => ?_⟩
  · have hends : Farthest ((Code.ofPieces pieces).ends s i ++ [i]) (some ((far i).getD i)) ∧
        Farthest (i :: (Code.ofPieces pieces).ends s i) (some ((far i).getD i)) := by
      cases hi : far i with
      | none =>
          rw [hempty hi]
          exact ⟨.singleton i, .singleton i⟩
      | some j =>
          have hbody := h.farthest i
          rw [hi] at hbody
          exact ⟨hbody.append (hfar i j hi), hbody.cons (hfar i j hi)⟩
    rw [ends_ofPieces_group]
    rcases he with rfl | rfl
    · exact hends.1
    · exact hends.2
  · obtain rfl : entry = .maybe := by simpa using hm
    rw [ends_ofPieces_group]
    change ((Code.ofPieces pieces).ends s i ++ [i]).take 1 = _
    cases hi : far i with
    | none =>
        rw [hempty hi]
        rfl
    | some j =>
        have hfirst := h.first rfl i
        rw [hi] at hfirst
        obtain ⟨k, rest, hbody⟩ := List.exists_cons_of_ne_nil (l := (Code.ofPieces pieces).ends s i) (by
          intro hnil
          rw [hnil] at hfirst
          cases hfirst)
        rw [hbody] at hfirst ⊢
        exact hfirst

/-! ### Copies of the item -/

/-- The piece is a group of this shape around the item. -/
def IsCopyOf (x : Single) (shape : Shape) (p : Code.Piece) : Prop :=
  ∃ upTo, p = .group { shape with upTo } (.step (.one x) .stop)

theorem ends_one (i : Nat) : (Code.step (.one x) .stop).ends s i = (s.takeOne? x i).toList := by
  simp only [Code.ends, Instruction.ends, Subject.takeOne?]
  split <;> rfl

theorem areFixed_one : AreFixed s (s.takeOne? x) [.step (.one x)] :=
  ⟨arePlain_singleton rfl, rfl, ends_one⟩

theorem le_of_takeOne? {i j : Nat} (h : s.takeOne? x i = some j) : i < j ∧ i < s.size ∧ s.take x i = j := by
  have hahead := @Subject.take_ahead s x i
  rw [Subject.takeOne?] at h
  split at h
  · cases h
  · cases h
    simp only [Subject.Ahead] at hahead
    exact ⟨by omega, by omega, rfl⟩

theorem getD_takeMost (n i : Nat) :
    (((s.takeOne? x i).bind fun j => some (s.takeMost x n j)).getD i) = s.takeMost x (n + 1) i := by
  rw [Subject.takeOne?, Subject.takeMost]
  split <;> rfl

/-- Copies that can be left out take the item as often as there are copies. -/
theorem yields_areCopies_optionalCopies {copy : Shape → Assembling Code.Piece} {entry : Entry}
    (hc : ∀ shape : Shape, shape.role = .plain → Yields (IsCopyOf x shape) (copy shape))
    (he : entry = .maybe ∨ entry = .maybeNot) (count : Nat) :
    Yields (AreCopies s (entry = .maybe) fun i => some (s.takeMost x count i))
      (optionalCopies copy .plain entry count) := by
  induction count using optionalCopies.induct with
  | case1 => exact .pure AreFixed.nil.areCopies
  | case2 =>
      refine .bind (hc _ rfl) fun p hp => .pure ?_
      obtain ⟨upTo, rfl⟩ := hp
      refine (areFixed_one.areCopies.optional (fun i j h => (le_of_takeOne? h).1.le) he upTo).mono (funext fun i => ?_)
      rw [← getD_takeMost]
      cases s.takeOne? x i <;> rfl
  | case3 count ih =>
      refine .bind (hc _ rfl) fun p hp => .bind ih fun others ho => .get_bind fun state => .pure ?_
      obtain ⟨upTo, rfl⟩ := hp
      have hfirst : AreFixed s (s.takeOne? x) [.group { role := .plain, upTo } (.step (.one x) .stop)] :=
        ⟨arePlain_singleton rfl, rfl, fun i => by rw [ends_ofPieces_group]; exact ends_one i⟩
      refine ((hfirst.append ho).optional (fun i j h => ?_) he state.leaves).mono (funext fun i => ?_)
      · obtain ⟨k, hk, hj⟩ := Option.bind_eq_some_iff.mp h
        cases hj
        exact (le_of_takeOne? hk).1.le.trans Subject.takeMost_ahead.le
      · rw [getD_takeMost]

/-- Copies that have to be there take the item once each. -/
theorem yields_areFixed_fixedCopies {copy : Shape → Assembling Code.Piece}
    (hc : ∀ shape : Shape, shape.role = .plain → Yields (IsCopyOf x shape) (copy shape)) (count : Nat) :
    Yields (AreFixed s (s.takeTimes? x count)) (fixedCopies (copy { role := .plain }) count []) := by
  suffices hgeneral : ∀ (done : Nat) (pieces : List Code.Piece), AreFixed s (s.takeTimes? x done) pieces →
      Yields (AreFixed s (s.takeTimes? x (done + count))) (fixedCopies (copy { role := .plain }) count pieces) by
    simpa using hgeneral 0 [] AreFixed.nil
  induction count with
  | zero => exact fun done pieces h => .pure h
  | succ count ih =>
      intro done pieces h
      refine .bind (hc _ rfl) fun p hp => ?_
      obtain ⟨upTo, rfl⟩ := hp
      have hone : AreFixed s (s.takeOne? x) [.group { role := .plain, upTo } (.step (.one x) .stop)] :=
        ⟨arePlain_singleton rfl, rfl, fun i => by rw [ends_ofPieces_group]; exact ends_one i⟩
      have hnext : AreFixed s (s.takeTimes? x (done + 1))
          (.group { role := .plain, upTo } (.step (.one x) .stop) :: pieces) := by
        have happend := h.append_fixed hone
        rwa [← funext (Subject.takeTimes?_succ done)] at happend
      rw [show done + (count + 1) = done + 1 + count by omega]
      exact ih (done + 1) _ hnext

/-- The item over and over, as long as something is taken. -/
theorem farthest_endsOfLoop (greedy : Bool) (n i : Nat) :
    Farthest (endsOfLoop greedy (fun j => (Code.step (.one x) .stop).ends s j) (n + 1) i)
      ((s.takeOne? x i).map (s.takeMost x n)) := by
  induction n generalizing i with
  | zero =>
      rw [endsOfLoop, ends_one]
      cases hi : s.takeOne? x i with
      | none => rfl
      | some j =>
          have hlt := (le_of_takeOne? hi).1
          have hne : j ≠ i := by omega
          cases greedy <;> simp [endsOfLoop, Subject.takeMost, Farthest.singleton]
  | succ n ih =>
      rw [endsOfLoop, ends_one]
      cases hi : s.takeOne? x i with
      | none => rfl
      | some j =>
          have hlt := (le_of_takeOne? hi).1
          have hne : j ≠ i := by omega
          have hmore := ih j
          have hboth : ∀ l, Farthest l ((s.takeOne? x j).map (s.takeMost x n)) →
              Farthest (l ++ [j]) (some (s.takeMost x (n + 1) j)) ∧
                Farthest (j :: l) (some (s.takeMost x (n + 1) j)) := by
            intro l hl
            rw [← getD_takeMost]
            cases hj : s.takeOne? x j with
            | none =>
                rw [hj] at hl
                obtain rfl : l = [] := hl
                exact ⟨.singleton j, .singleton j⟩
            | some k =>
                rw [hj] at hl
                have hle : j ≤ s.takeMost x n k := (le_of_takeOne? hj).1.le.trans Subject.takeMost_ahead.le
                exact ⟨Farthest.append hl hle, Farthest.cons hl hle⟩
          cases greedy with
          | true => simpa [hne] using (hboth _ hmore).1
          | false => simpa [hne] using (hboth _ hmore).2

theorem endOfKept_one (n i : Nat) :
    endOfKept (fun j => (Code.step (.one x) .stop).ends s j) n i = s.takeMost x n i := by
  induction n generalizing i with
  | zero => rfl
  | succ n ih =>
      rw [endOfKept, Subject.takeMost, ends_one]
      cases hi : s.takeOne? x i with
      | none =>
          have htake : s.take x i = i := by
            by_contra hne
            simp [Subject.takeOne?, hne] at hi
          rw [if_pos htake]
          rfl
      | some j =>
          obtain ⟨hlt, -, htake⟩ := le_of_takeOne? hi
          rw [if_neg (by omega), htake]
          have hne : j ≠ i := by omega
          simpa [hne] using ih j

/-- The item as often as it can be taken, but once at least. -/
def Subject.takeAll? (s : Subject) (x : Single) (i : Nat) : Option Nat :=
  (s.takeOne? x i).map (s.takeMost x (s.size + 1 - i))

theorem Subject.takeAll?_eq (i : Nat) : s.takeAll? x i = (s.takeOne? x i).map (s.takeMost x (s.size - i)) := by
  rw [takeAll?]
  cases hi : s.takeOne? x i with
  | none => rfl
  | some j =>
      have hlt := (le_of_takeOne? hi).1
      exact congrArg some (takeMost_eq (by omega) (by omega))

theorem Subject.getD_takeAll? (i : Nat) : (s.takeAll? x i).getD i = s.takeMost x (s.size + 1 - i) i := by
  have hbind : s.takeAll? x i = (s.takeOne? x i).bind fun j => some (s.takeMost x (s.size - i) j) := by
    rw [takeAll?_eq, Option.map_eq_bind]
    rfl
  rw [hbind, getD_takeMost]
  exact takeMost_eq (by omega) (by omega)

/-- Items that have to be taken, and then all there are. -/
theorem Subject.bind_takeAll? (n i : Nat) : (s.takeTimes? x n i).bind (s.takeAll? x) =
    (s.takeTimes? x (n + 1) i).map fun low => s.takeMost x (s.size + 1 - low) low := by
  rw [takeTimes?_succ]
  cases s.takeTimes? x n i with
  | none => rfl
  | some j =>
      rw [Option.bind_some, Option.bind_some, takeAll?]
      cases hj : s.takeOne? x j with
      | none => rfl
      | some k =>
          have hlt := (le_of_takeOne? hj).1
          exact congrArg some (takeMost_eq (by omega) (by omega))

theorem le_of_takeAll? {i j : Nat} (h : s.takeAll? x i = some j) : i ≤ j := by
  obtain ⟨k, hk, rfl⟩ := Option.map_eq_some_iff.mp h
  exact (le_of_takeOne? hk).1.le.trans Subject.takeMost_ahead.le

/-- What a repetition without a limit leads to when it is entered. -/
theorem endsInside_unlimited (mode : RepeatMode) (entry : Entry) (guarded : Bool) (upTo i : Nat) :
    let shape : Shape := { role := .plain, entry, ending := mode.ending, guarded, upTo }
    let inside := shape.endsInside s (fun j => (Code.step (.one x) .stop).ends s j) i
    if mode = .possessive then
      inside = if entry = .maybe then [(s.takeAll? x i).getD i] else (s.takeAll? x i).toList
    else Farthest inside (s.takeAll? x i) := by
  intro shape inside
  have hloop (greedy : Bool) : Farthest
      (endsOfLoop greedy (fun j => (Code.step (.one x) .stop).ends s j) (s.size - i + 1) i) (s.takeAll? x i) := by
    rw [Subject.takeAll?_eq]
    exact farthest_endsOfLoop greedy _ i
  cases mode with
  | greedy => exact hloop true
  | reluctant => exact hloop false
  | possessive =>
      have hinside : inside = if ((Code.step (.one x) .stop).ends s i).isEmpty then
          (if entry = .maybe then [i] else [])
        else [endOfKept (fun j => (Code.step (.one x) .stop).ends s j) (s.size - i + 1) i] := rfl
      rw [if_pos rfl, hinside, ends_one, endOfKept_one, Subject.takeAll?_eq]
      cases hi : s.takeOne? x i with
      | none => rfl
      | some j =>
          obtain ⟨hlt, -, htake⟩ := le_of_takeOne? hi
          have hmost : s.takeMost x (s.size - i + 1) i = s.takeMost x (s.size - i) j := by
            rw [Subject.takeMost, if_neg (by omega), htake]
          rw [hmost]
          cases entry <;> rfl

/-- The last copy, which is repeated without a limit, takes the item as often as it can be taken. -/
theorem areCopies_unlimited (mode : RepeatMode) (entry : Entry) (he : entry = .once ∨ entry = mode.entry)
    (guarded : Bool) (upTo : Nat) :
    AreCopies s (mode = .possessive)
      (fun i => if entry = .once then s.takeAll? x i else some ((s.takeAll? x i).getD i))
      [.group { role := .plain, entry, ending := mode.ending, guarded, upTo } (.step (.one x) .stop)] := by
  have hinside (i : Nat) := endsInside_unlimited (s := s) (x := x) mode entry guarded upTo i
  have hfar {l : List Nat} {i : Nat} (h : Farthest l (s.takeAll? x i)) :
      Farthest (l ++ [i]) (some ((s.takeAll? x i).getD i)) ∧ Farthest (i :: l) (some ((s.takeAll? x i).getD i)) := by
    cases hi : s.takeAll? x i with
    | none =>
        rw [hi] at h
        obtain rfl : l = [] := h
        exact ⟨.singleton i, .singleton i⟩
    | some j =>
        rw [hi] at h
        exact ⟨h.append (le_of_takeAll? hi), h.cons (le_of_takeAll? hi)⟩
  have hkept (i : Nat) (hm : mode = .possessive) : (Code.ofPieces [.group
      { role := .plain, entry, ending := mode.ending, guarded, upTo } (.step (.one x) .stop)]).ends s i =
        (if entry = .once then s.takeAll? x i else some ((s.takeAll? x i).getD i)).toList := by
    subst hm
    rw [ends_ofPieces_group]
    rcases he with rfl | rfl
    · exact hinside i
    · exact hinside i
  refine ⟨arePlain_singleton rfl, rfl, fun i => ?_, fun hm i => ?_⟩
  · have hi := hinside i
    by_cases hm : mode = .possessive
    · rw [hkept i hm]
      exact .toList _
    · rw [if_neg hm] at hi
      rw [ends_ofPieces_group]
      rcases he with rfl | rfl
      · exact hi
      · cases mode with
        | greedy => exact (hfar hi).1
        | reluctant => exact (hfar hi).2
        | possessive => exact (hm rfl).elim
  · rw [hkept i (by simpa using hm), take_toList]

/-- The copies that a repeated group around the item is spelled out in lead as far as the item can be taken. -/
theorem yields_areCopies_repeatedGroup {copy : Shape → Assembling Code.Piece} {times : Times}
    (hc : ∀ shape : Shape, shape.role = .plain → Yields (IsCopyOf x shape) (copy shape)) (ht : times.isOrdered)
    (guarded : Bool) :
    Yields (AreCopies s false (s.farthest x times)) (repeatedGroup copy .plain guarded times.most times) := by
  have hentry : times.mode.entry = .maybe ∨ times.mode.entry = .maybeNot := by
    cases times.mode <;> simp [RepeatMode.entry]
  have heager (h : times.mode = .possessive) : times.mode.entry = .maybe := by rw [h]; rfl
  have hwrapped {eager wraps : Bool} {far : Nat → Option Nat} {pieces : List Code.Piece}
      (h : AreCopies s eager far pieces) (hw : wraps → eager) :
      Yields (AreCopies s false far) (wrappedIf wraps pieces) := by
    refine .ite (fun hwraps => .bind (.get_bind fun state => .pure ?_) fun p hp => .pure hp) fun _ =>
      .pure ⟨h.plain, h.spelledOut, h.farthest, nofun⟩
    obtain rfl : eager = true := hw hwraps
    obtain ⟨hplain, hspelled, hfarthest, -⟩ := h.atomic state.leaves
    exact ⟨hplain, hspelled, hfarthest, nofun⟩
  unfold repeatedGroup
  dsimp only
  split
  · next hzero =>
      refine .bind (hc _ rfl) fun p hp => .pure ?_
      obtain ⟨upTo, rfl⟩ := hp
      have hleast : times.least = 0 := by simpa [Times.isOrdered, hzero] using ht
      have hfar (i : Nat) : s.farthest x times i = some i := by
        simp [Subject.farthest, Subject.mostFrom, hzero, hleast, Subject.takeTimes?, Subject.takeMost]
      refine ⟨arePlain_singleton rfl, rfl, fun i => ?_, nofun⟩
      rw [ends_ofPieces_group, hfar]
      exact .singleton i
  · next most _ hmost =>
      refine .bind (yields_areFixed_fixedCopies (s := s) hc _) fun _ hf => ?_
      refine .bind (yields_areCopies_optionalCopies (s := s) hc hentry _) fun _ ho => ?_
      refine fun state => (hwrapped (hf.append ho) (fun h => ?_) state).mono (funext fun i => ?_)
      · simpa using heager (by simpa using h)
      · simp only [Subject.farthest, Subject.mostFrom, hmost]
        cases s.takeTimes? x times.least i <;> rfl
  · next hnone =>
      have hmany (low : Nat) : s.mostFrom times low = s.size + 1 - low := by rw [Subject.mostFrom, hnone]
      refine .bind (yields_areFixed_fixedCopies (s := s) hc _) fun _ hf => ?_
      let shape : Shape :=
        { role := .plain, entry := if times.least = 0 then times.mode.entry else .once, ending := times.mode.ending,
          guarded }
      refine .bind (P := IsCopyOf x shape) (hc shape rfl) fun p hp => ?_
      obtain ⟨upTo, rfl⟩ := hp
      have hlast := areCopies_unlimited (s := s) (x := x) times.mode
        (if times.least = 0 then times.mode.entry else .once) (by split <;> simp) guarded upTo
      refine fun state => (hwrapped (hf.append hlast) (fun h => ?_) state).mono (funext fun i => ?_)
      · simp only [Bool.and_eq_true, decide_eq_true_eq] at h
        simpa using h.1
      · rw [Subject.farthest]
        by_cases hleast : times.least = 0
        · have hne : times.mode.entry ≠ .once := by rcases hentry with h | h <;> simp [h]
          simp [hleast, hne, Subject.takeTimes?, Subject.getD_takeAll?, hmany]
        · obtain ⟨n, hn⟩ : ∃ n, times.least = n + 1 := ⟨times.least - 1, by omega⟩
          simp only [hn, Nat.add_one_sub_one, Nat.add_one_ne_zero, if_false, if_true, hmany]
          exact Subject.bind_takeAll? n i

end

/-! ## Programs -/

theorem Code.Tightened.framed {c d : Code} {anchored : Bool} {upTo : Nat}
    (h : (Code.framed anchored upTo c).Tightened d) : ∃ c', c.Tightened c' ∧ d = Code.framed anchored upTo c' := by
  cases anchored with
  | false => exact ⟨d, h, rfl⟩
  | true =>
      cases h with
      | step hi hnext =>
          cases hi
          cases hnext with
          | group _ hbody hnext =>
              cases hnext with
              | step hi hnext =>
                  cases hi
                  obtain rfl := hnext.stop_eq
                  exact ⟨_, hbody, rfl⟩

/-- In code that has been assembled of pieces, the pieces may have become possessive. -/
theorem exists_programOf_framed {r : Regex} (hr : r.branchCount = 1) (anchored : Bool) (groups : Groups)
    (widths : List (Nat × List Nat)) (settings : Settings) :
    let asm : Assembler := { groups, widths }
    ∃ upTo c, (Code.ofPieces (asm.pieces {} r asm.start).1).Tightened c ∧
      (programOf groups widths settings (framed anchored r)).code = Code.framed anchored upTo c := by
  intro asm
  have h := tightened_programOf groups widths settings (framed anchored r)
  rw [asm.assemble_framed_eq hr anchored] at h
  obtain ⟨c, hc, heq⟩ := h.framed
  exact ⟨_, c, hc, heq⟩

/-- A repeated group around a single item leads as far as the repeated item. -/
theorem programOf_single_equallyFar {x : Single} {times : Times} (ht : times.isOrdered) (anchored : Bool)
    (groups groups' : Groups) (widths widths' : List (Nat × List Nat)) (settings settings' : Settings) :
    (programOf groups widths settings
      (framed anchored (.group .plain (.item (.single x) {} .stop) times .stop))).code.EquallyFar
      (programOf groups' widths' settings' (framed anchored (.item (.single x) times .stop))).code := by
  let asm : Assembler := { groups, widths }
  let asm' : Assembler := { groups := groups', widths := widths' }
  obtain ⟨upTo, c, hc, hcode⟩ := exists_programOf_framed (r := .group .plain (.item (.single x) {} .stop) times .stop)
    rfl anchored groups widths settings
  obtain ⟨upTo', c', hc', hcode'⟩ := exists_programOf_framed (r := .item (.single x) times .stop)
    rfl anchored groups' widths' settings'
  have hsingle (s : Subject) : ∀ c,
      (Code.ofPieces (asm'.pieces {} (.item (.single x) times .stop) asm'.start).1).Tightened c →
      ∀ i, Farthest (c.ends s i) (s.farthest x times i) :=
    yields_farthest_singlePieces ht asm'.start
  have hgroup (s : Subject) : AreCopies s false (s.farthest x times)
      (asm.pieces {} (.group .plain (.item (.single x) {} .stop) times .stop) asm.start).1 := by
    have hcopies : Yields (AreCopies s false (s.farthest x times))
        (asm.groupPieces {} .plain (.item (.single x) {} .stop) times) := by
      have hc (shape : Shape) (hr : shape.role = .plain) : Yields (IsCopyOf x shape)
          (copyOf (asm.alternatives {} [] [] [] (.item (.single x) {} .stop)) shape) := by
        obtain ⟨role, entry, ending, guarded, upTo⟩ := shape
        obtain rfl : role = .plain := hr
        exact fun state => ⟨state.leaves, rfl⟩
      refine .ite nofun fun _ => .ite (fun honce => .bind (hc _ rfl) fun p hp => .pure ?_) fun _ => ?_
      · obtain ⟨upTo, rfl⟩ := hp
        have honce : times.least = 1 ∧ times.most = some 1 := by
          simp only [Times.isOnce, neverRuns, Bool.or_false, Bool.and_eq_true, decide_eq_true_eq] at honce
          exact honce.1
        refine AreFixed.areCopies ⟨arePlain_singleton rfl, rfl, fun i => ?_⟩
        rw [ends_ofPieces_group]
        refine (ends_one i).trans ?_
        simp only [Subject.farthest, Subject.mostFrom, honce, Subject.takeTimes?, Subject.takeOne?]
        split <;> rfl
      · exact yields_areCopies_repeatedGroup hc ht _
    exact hcopies asm.start
  rw [hcode, hcode']
  refine Code.EquallyFar.framed (fun s _ i _ => ?_) anchored upTo upTo'
  rw [hc.eq_of_isSpelledOut (hgroup s).spelledOut]
  exact ((hgroup s).farthest i).equallyFar (hsingle s c' hc' i)

end PatternGrammar.Regex
