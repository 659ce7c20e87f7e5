import PatternGrammar.Proofs.Resolution

/-!
# Parentheses in an expression

A scan over the bytes of an expression finds its capturing parentheses, and with each of them the text up to
the parenthesis that matches it. Texts that leave nothing open can be scanned one behind the other; every
text that emission writes is one of these.
-/

namespace PatternGrammar

open Ascii

/-! ## Scanning parentheses -/

/-- What a byte of an expression stands in: among the items, behind a backslash, or in a character class.
A closing bracket in front of the first member of a class is a member. -/
inductive Lexing where
  | items
  | escaped
  | classStart
  | classCaret
  | inClass
  | classEscaped
  deriving DecidableEq, Repr

/-- What the byte behind this one stands in. -/
def Lexing.next : Lexing → UInt8 → Lexing
  | .items, b => if b = backslash then .escaped else if b = openBracket then .classStart else .items
  | .escaped, _ => .items
  | .classStart, b =>
      if b = caret then .classCaret else if b = backslash then .classEscaped else .inClass
  | .classCaret, b => if b = backslash then .classEscaped else .inClass
  | .inClass, b =>
      if b = closeBracket then .items else if b = backslash then .classEscaped else .inClass
  | .classEscaped, _ => .inClass

/-- The text up to the parenthesis that closes the group around it, `depth` groups being open within. -/
def untilClosing (l : Lexing) (depth : Nat) : Text → Option Text
  | [] => none
  | b :: rest =>
      if l = .items ∧ b = openParen then (untilClosing .items (depth + 1) rest).map (b :: ·)
      else if l = .items ∧ b = closeParen then
        match depth with
        | 0 => some []
        | depth + 1 => (untilClosing .items depth rest).map (b :: ·)
      else (untilClosing (l.next b) depth rest).map (b :: ·)

/-- What each capturing parenthesis encloses, from left to right. A parenthesis captures unless it is
escaped, stands in a class, or is followed by a question mark. -/
def capturedFrom (l : Lexing) : Text → List (Option Text)
  | [] => []
  | b :: rest =>
      if l = .items ∧ b = openParen ∧ rest.head? ≠ some question then
        untilClosing .items 0 rest :: capturedFrom .items rest
      else capturedFrom (l.next b) rest

/-- What the capturing groups of an expression enclose, in the order of their opening parentheses. -/
def capturedTexts (t : Text) : List (Option Text) := capturedFrom .items t

/-- What may follow an opening parenthesis that does not capture. -/
def uncountedOpenings : List Text := ["?:", "?=", "?!", "?>", "?<=", "?<!"]

/-- The parentheses of the text balance, `depth` of them being open, and none of them captures; classes
are closed and have no opening bracket among their members; the last backslash has a byte behind it. -/
def closesFrom (l : Lexing) (depth : Nat) : Text → Bool
  | [] => l = .items && depth = 0
  | b :: rest =>
      if l = .items ∧ b = openParen then
        uncountedOpenings.any (Text.startsWith rest) && closesFrom .items (depth + 1) rest
      else if l = .items ∧ b = closeParen then depth ≠ 0 && closesFrom .items (depth - 1) rest
      else
        !(b = openBracket && (l = .classStart || l = .classCaret || l = .inClass)) &&
          closesFrom (l.next b) depth rest

/-- A fragment that is closed, has no group of its own and no number sign, and does not begin with a sign of
repetition. -/
def IsClosedFragment (source : Text) : Prop :=
  closesFrom .items 0 source ∧ numberSign ∉ source ∧
    source.head?.all fun b => b ≠ question && b ≠ 42 && b ≠ plus

instance (source : Text) : Decidable (IsClosedFragment source) :=
  inferInstanceAs (Decidable (_ ∧ _ ∧ _))

/-! ## Texts that are scanned as a whole -/

/-- The text has no parenthesis that is left open, and its capturing groups enclose these texts. -/
structure Encloses (t : Text) (bodies : List Text) : Prop where
  closing : ∀ depth rest,
    untilClosing .items depth (t ++ rest) = (untilClosing .items depth rest).map (t ++ ·)
  captured : ∀ rest,
    capturedFrom .items (t ++ rest) = bodies.map some ++ capturedFrom .items rest

theorem Encloses.nil : Encloses [] [] := ⟨by simp, by simp⟩

theorem Encloses.append {s t : Text} {bs cs : List Text} (hs : Encloses s bs)
    (ht : Encloses t cs) : Encloses (s ++ t) (bs ++ cs) := by
  constructor
  · intro depth rest
    rw [List.append_assoc, hs.closing, ht.closing, Option.map_map]
    congr 1
    funext u
    exact (List.append_assoc s t u).symm
  · intro rest
    rw [List.append_assoc, hs.captured, ht.captured, List.map_append, List.append_assoc]

/-- The byte means nothing to the scan. -/
def isPlainByte (b : UInt8) : Bool :=
  b != openParen && b != closeParen && b != openBracket && b != backslash

theorem isPlainByte_of_ne {b : UInt8}
    (h : ∀ c ∈ [openParen, closeParen, openBracket, backslash], b ≠ c) : isPlainByte b := by
  simp only [List.forall_mem_cons, List.not_mem_nil, false_imp_iff, implies_true, and_true] at h
  simp [isPlainByte, h]

theorem Encloses.byte {b : UInt8} (h : isPlainByte b) : Encloses [b] [] := by
  simp only [isPlainByte, Bool.and_eq_true, bne_iff_ne] at h
  obtain ⟨⟨⟨ho, hc⟩, hb⟩, hs⟩ := h
  constructor
  · intro depth rest
    simp [untilClosing, ho, hc, Lexing.next, hs, hb]
  · intro rest
    simp [capturedFrom, ho, Lexing.next, hs, hb]

theorem Encloses.plain {t : Text} (h : ∀ b ∈ t, isPlainByte b) : Encloses t [] := by
  induction t with
  | nil => exact .nil
  | cons b t ih =>
      exact (Encloses.byte (h b List.mem_cons_self)).append
        (ih fun c hc => h c (List.mem_cons_of_mem _ hc))

theorem Encloses.escape (b : UInt8) : Encloses [backslash, b] [] := by
  constructor
  · intro depth rest
    simp [untilClosing, Lexing.next, Function.comp_def, backslash, openParen, closeParen]
  · intro rest
    simp [capturedFrom, Lexing.next, backslash, openParen]

theorem untilClosing_openParen (depth : Nat) (rest : Text) :
    untilClosing .items depth (openParen :: rest) =
      (untilClosing .items (depth + 1) rest).map (openParen :: ·) := by
  simp [untilClosing]

theorem untilClosing_closeParen (depth : Nat) (rest : Text) :
    untilClosing .items (depth + 1) (closeParen :: rest) =
      (untilClosing .items depth rest).map (closeParen :: ·) := by
  simp [untilClosing, closeParen, openParen]

theorem untilClosing_closeParen_zero (rest : Text) :
    untilClosing .items 0 (closeParen :: rest) = some [] := by
  simp [untilClosing, closeParen, openParen]

theorem capturedFrom_closeParen (rest : Text) :
    capturedFrom .items (closeParen :: rest) = capturedFrom .items rest := by
  simp [capturedFrom, Lexing.next, closeParen, openParen, backslash, openBracket]

/-- A closed text stays closed between parentheses. -/
theorem Encloses.closing_group {t : Text} {bodies : List Text} (h : Encloses t bodies)
    (depth : Nat) (rest : Text) :
    untilClosing .items depth (openParen :: (t ++ closeParen :: rest)) =
      (untilClosing .items depth rest).map fun u => openParen :: (t ++ closeParen :: u) := by
  rw [untilClosing_openParen, h.closing, untilClosing_closeParen, Option.map_map, Option.map_map]
  rfl

/-- The text begins a group that does not capture. -/
def opensUncounted : Text → Bool
  | openParen :: question :: inner => inner.all isPlainByte
  | _ => false

theorem Encloses.group {opening : Text} (ho : opensUncounted opening) {t : Text}
    {bodies : List Text} (h : Encloses t bodies) : Encloses (opening ++ t ++ ")") bodies := by
  match opening, ho with
  | openParen :: question :: inner, ho =>
      have hi : Encloses (question :: inner) [] := by
        refine .plain fun b hb => ?_
        rcases List.mem_cons.mp hb with rfl | hb
        · decide
        · exact List.all_eq_true.mp ho b hb
      have hw := hi.append h
      have he (rest : Text) : openParen :: question :: inner ++ t ++ (")" : Text) ++ rest =
          openParen :: (question :: inner ++ t ++ closeParen :: rest) := by
        simp [show (")" : Text) = [closeParen] from rfl]
      constructor
      · intro depth rest
        rw [he, hw.closing_group]
        simp only [he]
      · intro rest
        rw [he, capturedFrom, if_neg (by simp)]
        change capturedFrom .items _ = _
        rw [hw.captured, capturedFrom_closeParen, List.nil_append]

theorem Encloses.capture {t : Text} {bodies : List Text} (h : Encloses t bodies)
    (hq : t.head? ≠ some question) : Encloses ("(" ++ t ++ ")") (t :: bodies) := by
  have he (rest : Text) : ("(" : Text) ++ t ++ (")" : Text) ++ rest =
      openParen :: (t ++ closeParen :: rest) := by
    simp [show (")" : Text) = [closeParen] from rfl, show ("(" : Text) = [openParen] from rfl]
  constructor
  · intro depth rest
    rw [he, h.closing_group]
    simp only [he]
  · intro rest
    have hh : (t ++ closeParen :: rest).head? ≠ some question := by
      cases t with
      | nil =>
          rw [List.nil_append, List.head?_cons]
          decide
      | cons b t => exact hq
    rw [he, capturedFrom, if_pos ⟨rfl, rfl, hh⟩, h.closing, h.captured, capturedFrom_closeParen,
      untilClosing_closeParen_zero, Option.map_some, List.append_nil, List.map_cons,
      List.cons_append]

/-! ## The texts that emission writes -/

theorem Encloses.escapeRegex (t : Text) : Encloses (escapeRegex t) [] := by
  apply escapeRegex_induction (Q := fun t => Encloses t []) .nil
  · intro s t hs ht
    exact hs.append ht
  · intro b
    rcases escapeByte_cases b with ⟨c, hc⟩ | ⟨hb, hm⟩
    · rw [hc]
      exact .escape c
    · rw [hb]
      have he : ∀ c ∈ [openParen, closeParen, openBracket, backslash], c ∈ escapedBytes :=
        List.all_iff_forall_prop.mp (by decide)
      exact .byte (isPlainByte_of_ne fun c hc hbc => hm (hbc ▸ he c hc))

theorem Encloses.wordsAssertion (words : Option (List Text)) :
    Encloses (Quantity.wordsAssertion words) [] := by
  apply Quantity.wordsAssertion_induction (Q := fun t => Encloses t []) .nil
  · intro s t hs ht
    exact hs.append ht
  · exact .plain (List.all_iff_forall_prop.mp (by decide))
  · exact fun w _ => .escapeRegex w
  · exact .escape 98
  · intro opening ho t ht
    have hn : ∀ opening ∈ (["(?!", "(?:"] : List Text), opensUncounted opening := by decide
    exact .group (hn opening ho) ht

theorem isPlainByte_of_isQuantifierByte {b : UInt8} (h : isQuantifierByte b) : isPlainByte b := by
  have hq : ∀ c ∈ [openParen, closeParen, openBracket, backslash], ¬ isQuantifierByte c :=
    List.all_iff_forall_prop.mp (by decide)
  exact isPlainByte_of_ne fun c hc hbc => hq c hc (hbc ▸ h)

theorem Encloses.quantifier (q : Quantity) (dontBackTrack asFewAsPossible : Bool) :
    Encloses (q.quantifier dontBackTrack asFewAsPossible) [] :=
  .plain fun b hb => isPlainByte_of_isQuantifierByte (q.isQuantifierByte_quantifier _ _ b hb)

theorem head?_of_startsUncounted {t : Text} (h : uncountedOpenings.any (Text.startsWith t)) :
    t.head? = some question := by
  obtain ⟨opening, ho, hs⟩ := List.any_eq_true.mp h
  obtain ⟨rest, hr⟩ := Option.isSome_iff_exists.mp hs
  have hh : ∀ opening ∈ uncountedOpenings, opening.head? = some question := by decide
  rw [Text.eq_append_of_afterStart? hr, List.head?_append, hh opening ho, Option.some_or]

theorem untilClosing_of_closesFrom {l : Lexing} {depth : Nat} {t : Text}
    (h : closesFrom l depth t) (outer : Nat) (rest : Text) :
    untilClosing l (outer + depth) (t ++ rest) = (untilClosing .items outer rest).map (t ++ ·) := by
  induction t generalizing l depth with
  | nil =>
      simp only [closesFrom, Bool.and_eq_true, decide_eq_true_eq] at h
      obtain ⟨rfl, rfl⟩ := h
      simp
  | cons b t ih =>
      rw [closesFrom] at h
      rw [List.cons_append]
      split at h
      · next ho =>
          obtain ⟨rfl, rfl⟩ := ho
          have hr := ih (Bool.and_eq_true_iff.mp h).2
          rw [untilClosing_openParen, Nat.add_assoc, hr, Option.map_map]
          rfl
      · next ho =>
          split at h
          · next hc =>
              obtain ⟨rfl, rfl⟩ := hc
              simp only [Bool.and_eq_true, decide_eq_true_eq] at h
              obtain ⟨d, rfl⟩ := Nat.exists_eq_succ_of_ne_zero h.1
              have hr := ih h.2
              rw [Nat.succ_eq_add_one, ← Nat.add_assoc, untilClosing_closeParen]
              rw [Nat.succ_eq_add_one, Nat.add_sub_cancel] at hr
              rw [hr, Option.map_map]
              rfl
          · next hc =>
              rw [untilClosing.eq_def]
              simp only [if_neg ho, if_neg hc]
              rw [ih (Bool.and_eq_true_iff.mp h).2, Option.map_map]
              rfl

theorem capturedFrom_of_closesFrom {l : Lexing} {depth : Nat} {t : Text}
    (h : closesFrom l depth t) (rest : Text) :
    capturedFrom l (t ++ rest) = capturedFrom .items rest := by
  induction t generalizing l depth with
  | nil =>
      simp only [closesFrom, Bool.and_eq_true, decide_eq_true_eq] at h
      rw [h.1, List.nil_append]
  | cons b t ih =>
      rw [closesFrom] at h
      rw [List.cons_append, capturedFrom]
      split at h
      · next ho =>
          obtain ⟨rfl, rfl⟩ := ho
          obtain ⟨hs, hr⟩ := Bool.and_eq_true_iff.mp h
          have hh : (t ++ rest).head? = some question := by
            rw [List.head?_append, head?_of_startsUncounted hs, Option.some_or]
          rw [if_neg fun hn => hn.2.2 hh]
          exact ih hr
      · next ho =>
          rw [if_neg fun hn => ho ⟨hn.1, hn.2.1⟩]
          split at h
          · next hc =>
              obtain ⟨rfl, rfl⟩ := hc
              exact ih (Bool.and_eq_true_iff.mp h).2
          · exact ih (Bool.and_eq_true_iff.mp h).2

theorem Encloses.fragment {source : Text} (h : IsClosedFragment source) : Encloses source [] := by
  constructor
  · intro depth rest
    exact untilClosing_of_closesFrom h.1 depth rest
  · intro rest
    rw [capturedFrom_of_closesFrom h.1]
    rfl

/-- Behind a backslash and a byte the scan goes on as before. -/
theorem Encloses.backslash {t : Text} (hn : t ≠ []) (hp : ∀ b ∈ t, isPlainByte b) :
    Encloses (backslash :: t) [] := by
  obtain ⟨b, t, rfl⟩ := List.exists_cons_of_ne_nil hn
  exact (Encloses.escape b).append (.plain fun c hc => hp c (List.mem_cons_of_mem _ hc))

theorem Encloses.render (kind : ReferenceKind) (number : Int) (digit : Bool) :
    Encloses (kind.render number digit) [] := by
  have hd : ∀ b ∈ Text.ofInt number, isPlainByte b := fun b hb =>
    isPlainByte_of_isQuantifierByte (isQuantifierByte_ofInt number b hb)
  cases kind with
  | backReference =>
      have hr : Encloses (Ascii.backslash :: Text.ofInt number) [] :=
        .backslash (Text.ofInt_ne_nil number) hd
      cases digit with
      | false => exact hr.append .nil
      | true =>
          have hopening : opensUncounted "(?:" := by decide
          exact hr.append (.group hopening .nil)
  | subroutine =>
      have hp : ∀ b ∈ ("g<" : Text) ++ Text.ofInt number ++ ">", isPlainByte b := by
        simp only [List.forall_mem_append]
        exact ⟨⟨List.all_iff_forall_prop.mp (by decide), hd⟩, List.all_iff_forall_prop.mp (by decide)⟩
      exact .backslash (by simp) hp

end PatternGrammar
