import Mathlib.Data.List.Chain
import Mathlib.Data.List.Infix
import PatternGrammar.Proofs.Composition

/-!
# Resolution finds what emission wrote

Cutting the text of a pattern finds exactly the pieces that it was put together from: nothing that a
literal, a fragment or the structure of the tree writes is taken for a place. Evaluation therefore fills in
the pieces of the pattern, and filling in goes along with putting pieces together.
-/

namespace PatternGrammar

open Ascii

/-! ## Cutting the text into its pieces -/

/-- A name that can be told from what surrounds it in a place for a reference. -/
structure IsPlaceName (name : Text) : Prop where
  nonempty : name ≠ []
  noBackslash : backslash ∉ name
  noClosing : ¬ placeholderClosing <:+: name

instance (name : Text) : Decidable (IsPlaceName name) :=
  decidable_of_iff (name ≠ [] ∧ backslash ∉ name ∧ ¬ placeholderClosing <:+: name)
    ⟨fun ⟨h, h', h''⟩ => ⟨h, h', h''⟩, fun ⟨h, h', h''⟩ => ⟨h, h', h''⟩⟩

/-- The closing of a place has no border: it can begin inside a name only by standing in it. -/
theorem afterStart?_closing_of_noClosing {name : Text} (h : ¬ placeholderClosing <:+: name)
    (hn : name ≠ []) (after : Text) :
    Text.afterStart? placeholderClosing (name ++ placeholderClosing ++ after) = none := by
  cases hc : Text.afterStart? placeholderClosing (name ++ placeholderClosing ++ after) with
  | none => rfl
  | some rest =>
      have he := Text.eq_append_of_afterStart? hc
      rw [placeholderClosing_eq] at he h
      match name, hn with
      | [a], _ =>
          simp only [List.cons_append, List.nil_append, List.cons.injEq] at he
          exact absurd he.2.1 (by decide)
      | [a, b], _ =>
          simp only [List.cons_append, List.nil_append, List.cons.injEq] at he
          exact absurd he.2.2.1 (by decide)
      | a :: b :: c :: inner, _ =>
          simp only [List.cons_append, List.nil_append, List.cons.injEq] at he
          obtain ⟨rfl, rfl, rfl, -⟩ := he
          exact absurd ⟨[], inner, rfl⟩ h

theorem untilClosing?_append {name : Text} (hb : backslash ∉ name)
    (hc : ¬ placeholderClosing <:+: name) (after : Text) :
    untilClosing? (name ++ placeholderClosing ++ after) = some name := by
  induction name with
  | nil =>
      rw [List.nil_append, placeholderClosing_eq, List.cons_append, untilClosing?,
        ← List.cons_append, ← placeholderClosing_eq, Text.afterStart?_append]
  | cons b rest ih =>
      have hr : ¬ placeholderClosing <:+: rest := fun h =>
        hc (h.trans (List.suffix_cons b rest).isInfix)
      have hs := afterStart?_closing_of_noClosing hc (List.cons_ne_nil b rest) after
      rw [List.cons_append, List.cons_append] at hs ⊢
      rw [untilClosing?, hs]
      have hne : b ≠ backslash := fun h => hb (h ▸ List.mem_cons_self)
      simp only [if_neg hne]
      rw [ih (fun h => hb (List.mem_cons_of_mem _ h)) hr]
      rfl

theorem placeOf?_append (kind : ReferenceKind) {name : Text} (h : IsPlaceName name) (after : Text) :
    placeOf? kind (placeholder kind name ++ after) = some name := by
  obtain ⟨b, rest, rfl⟩ := List.exists_cons_of_ne_nil h.nonempty
  have hb : b ≠ backslash := fun hb => h.noBackslash (hb ▸ List.mem_cons_self)
  have hr : untilClosing? (rest ++ placeholderClosing ++ after) = some rest := by
    refine untilClosing?_append (fun hm => h.noBackslash (List.mem_cons_of_mem _ hm)) ?_ after
    exact fun hc => h.noClosing (hc.trans (List.suffix_cons b rest).isInfix)
  rw [placeOf?, placeholder, List.append_assoc, List.append_assoc, Text.afterStart?_append]
  simp only [Option.bind_some, List.cons_append, placeName?, if_neg hb]
  rw [← List.append_assoc, hr]
  rfl

/-- The two openings differ behind their common start. -/
theorem placeOf?_backReference_subroutine (name after : Text) :
    placeOf? .backReference (placeholder .subroutine name ++ after) = none := rfl

theorem startingPlace?_append (kind : ReferenceKind) {name : Text} (h : IsPlaceName name)
    (after : Text) : startingPlace? (placeholder kind name ++ after) = some (kind, name) := by
  cases kind with
  | backReference =>
      rw [startingPlace?, placeOf?_append .backReference h after]
  | subroutine =>
      rw [startingPlace?, placeOf?_backReference_subroutine, placeOf?_append .subroutine h after]
      rfl

theorem regexPiecesAfter_append (s t : Text) :
    regexPiecesAfter s.length (s ++ t) = regexPieces t := by
  induction s with
  | nil => rfl
  | cons b s ih => rw [List.length_cons, List.cons_append, regexPiecesAfter, ih]

/-- A number sign among the kept bytes stands behind a backslash. -/
def KeepsApart (a b : RegexPiece) : Prop := b = .byte numberSign → a = .byte backslash

/-- No place begins among the kept bytes of these pieces, nor where other such pieces go on, and every
place has a name that can be told. -/
structure Unmarked (pieces : List RegexPiece) : Prop where
  chain : pieces.IsChain KeepsApart
  head : pieces.head? ≠ some (.byte numberSign)
  names : ∀ kind name, .place kind name ∈ pieces → IsPlaceName name

theorem Unmarked.nil : Unmarked [] := ⟨.nil, by simp, by simp⟩

theorem Unmarked.append {a b : List RegexPiece} (ha : Unmarked a) (hb : Unmarked b) :
    Unmarked (a ++ b) := by
  refine ⟨List.isChain_append.mpr ⟨ha.chain, hb.chain, ?_⟩, ?_, ?_⟩
  · intro x _ y hy hm
    rw [hm] at hy
    exact absurd hy hb.head
  · cases a with
    | nil => exact hb.head
    | cons piece rest => exact ha.head
  · intro kind name hm
    rcases List.mem_append.mp hm with hm | hm
    · exact ha.names kind name hm
    · exact hb.names kind name hm

theorem Unmarked.of_keep {t : Text} (h : numberSign ∉ t) : Unmarked (keep t) := by
  induction t with
  | nil => exact .nil
  | cons b t ih =>
      have hb : b ≠ numberSign := fun hb => h (hb ▸ List.mem_cons_self)
      have hs : Unmarked [.byte b] := ⟨.singleton _, by simpa using hb, by simp⟩
      exact hs.append (ih fun hm => h (List.mem_cons_of_mem _ hm))

theorem Unmarked.place (kind : ReferenceKind) {name : Text} (h : IsPlaceName name) :
    Unmarked [.place kind name] := by
  refine ⟨.singleton _, by simp, ?_⟩
  intro kind' name' hm
  cases List.mem_singleton.mp hm
  exact h

theorem piecesText_place_cons (kind : ReferenceKind) (name : Text) (rest : List RegexPiece) :
    ∃ more, piecesText (.place kind name :: rest) = openParen :: more := by
  cases kind <;> exact ⟨_, rfl⟩

/-- No place begins with a kept byte. -/
theorem startingPlace?_of_isChain {b : UInt8} {rest : List RegexPiece}
    (h : (RegexPiece.byte b :: rest).IsChain KeepsApart) : startingPlace? (b :: piecesText rest) = none := by
  cases hp : startingPlace? (b :: piecesText rest) with
  | none => rfl
  | some place =>
      exfalso
      obtain ⟨kind, name⟩ := place
      obtain ⟨after, ha⟩ := eq_of_startingPlace? hp
      have ho : ∃ more, piecesText rest = question :: numberSign :: more := by
        cases kind <;> exact ⟨_, (List.cons.inj ha).2⟩
      obtain ⟨more, hm⟩ := ho
      -- a place among the pieces begins with a parenthesis, so both bytes are kept ones
      cases rest with
      | nil => cases hm
      | cons first rest =>
          cases first with
          | place kind name =>
              obtain ⟨m, hp⟩ := piecesText_place_cons kind name rest
              rw [hp] at hm
              exact absurd (List.cons.inj hm).1 (by decide)
          | byte c =>
              have hc : c = question := (List.cons.inj hm).1
              have hr : piecesText rest = numberSign :: more := (List.cons.inj hm).2
              cases rest with
              | nil => cases hr
              | cons second rest =>
                  cases second with
                  | place kind name =>
                      obtain ⟨m, hp⟩ := piecesText_place_cons kind name rest
                      rw [hp] at hr
                      exact absurd (List.cons.inj hr).1 (by decide)
                  | byte d =>
                      have hd : d = numberSign := (List.cons.inj hr).1
                      have hb := (List.isChain_cons_cons.mp
                        (List.isChain_cons_cons.mp h).2).1 (congrArg _ hd)
                      rw [hc] at hb
                      exact absurd hb (by decide)

/-- Cutting a text finds the pieces that it was put together from. -/
theorem regexPieces_piecesText {pieces : List RegexPiece} (h : pieces.IsChain KeepsApart)
    (hn : ∀ kind name, .place kind name ∈ pieces → IsPlaceName name) :
    regexPieces (piecesText pieces) = pieces := by
  induction pieces with
  | nil => rfl
  | cons piece rest ih =>
      have hr := ih h.tail fun kind name hm => hn kind name (List.mem_cons_of_mem _ hm)
      cases piece with
      | byte b =>
          change regexPiecesAfter 0 (b :: piecesText rest) = _
          rw [regexPiecesAfter, startingPlace?_of_isChain h]
          exact congrArg _ hr
      | place kind name =>
          have hs := startingPlace?_append kind (hn kind name List.mem_cons_self) (piecesText rest)
          obtain ⟨inner, hi⟩ : ∃ inner, placeholder kind name = openParen :: inner := by
            cases kind <;> exact ⟨_, rfl⟩
          change regexPiecesAfter 0 (placeholder kind name ++ piecesText rest) = _
          rw [hi, List.cons_append] at hs ⊢
          rw [regexPiecesAfter, hs]
          simp only
          rw [hi, List.length_cons, Nat.add_sub_cancel, regexPiecesAfter_append, hr]

theorem Unmarked.regexPieces_eq {pieces : List RegexPiece} (h : Unmarked pieces) :
    regexPieces (piecesText pieces) = pieces :=
  regexPieces_piecesText h.chain h.names

/-! ## The pieces of a tree -/

theorem Unmarked.escapeRegex (t : Text) : Unmarked (keep (escapeRegex t)) := by
  apply escapeRegex_induction (Q := fun t => Unmarked (keep t)) .nil
  · intro s t hs ht
    rw [keep_append]
    exact hs.append ht
  · intro b
    rcases escapeByte_cases b with ⟨c, hc⟩ | ⟨hb, hm⟩
    · rw [hc]
      have hn : backslash ≠ numberSign := by decide
      exact ⟨by simp [KeepsApart], by simpa using hn, by simp⟩
    · rw [hb]
      refine .of_keep ?_
      intro h
      rw [List.mem_singleton] at h
      exact hm (h ▸ by decide)

theorem Unmarked.group {opening : Text} (ho : numberSign ∉ opening) {body : List RegexPiece}
    (hb : Unmarked body) : Unmarked (groupPieces opening body) :=
  ((Unmarked.of_keep ho).append hb).append (.of_keep (by decide))

theorem Unmarked.wordsAssertion (words : Option (List Text)) :
    Unmarked (keep (Quantity.wordsAssertion words)) := by
  apply Quantity.wordsAssertion_induction (Q := fun t => Unmarked (keep t)) .nil
  · intro s t hs ht
    rw [keep_append]
    exact hs.append ht
  · exact .of_keep (by decide)
  · exact fun w _ => .escapeRegex w
  · exact .of_keep (by decide)
  · intro opening ho t ht
    have hn : ∀ opening ∈ (["(?!", "(?:"] : List Text), numberSign ∉ opening := by decide
    rw [keep_append, keep_append]
    exact .group (hn opening ho) ht

/-- A raw fragment is a place for a reference, or has no number sign in it. -/
def Matcher.MarksPlaces : Matcher → Prop
  | .fragment source =>
      numberSign ∉ source ∨ ∃ kind name, IsPlaceName name ∧ source = placeholder kind name
  | .literal _ | .nested _ => True

theorem regexPieces_of_unmarked {source : Text} (h : numberSign ∉ source) :
    regexPieces source = keep source := by
  have hk := (Unmarked.of_keep h).regexPieces_eq
  rwa [piecesText_keep] at hk

theorem regexPieces_placeholder (kind : ReferenceKind) {name : Text} (h : IsPlaceName name) :
    regexPieces (placeholder kind name) = [.place kind name] := by
  have hk := (Unmarked.place kind h).regexPieces_eq
  rwa [piecesText, List.flatMap_singleton] at hk

theorem Unmarked.composes :
    Composes (·.matcher.MarksPlaces) (fun _ => 0) fun _ _ pieces => Unmarked pieces where
  append := Unmarked.append
  group ho ha := by
    have hn : ∀ opening ∈ plainOpenings, numberSign ∉ opening := by decide
    exact .group (hn _ ho) ha
  capture ha := .group (by decide) ha
  quantified _ ha q possessive lazy := by
    refine ha.append (.of_keep fun h => ?_)
    exact absurd (q.isQuantifierByte_quantifier _ _ _ h) (by decide)
  bar := .of_keep (by decide)
  words n _ := .wordsAssertion n.options.wordCannotBeAnyOf
  literal _ text _ _ := .escapeRegex text
  fragment n source hn hm := by
    rw [hm] at hn
    rcases hn with h | ⟨kind, name, hp, rfl⟩
    · rw [regexPieces_of_unmarked h]
      exact .of_keep h
    · rw [regexPieces_placeholder kind hp]
      exact .place kind hp

theorem Node.piecesText_bodyPieces (n : Node) : piecesText n.bodyPieces = n.body := by
  rw [Node.bodyPieces, Node.piecesText_bodyAround, Matcher.piecesText_pieces]
  rfl

theorem Node.regexPieces_body (n : Node) (h : n.Every (·.matcher.MarksPlaces)) :
    regexPieces n.body = n.bodyPieces := by
  rw [← n.piecesText_bodyPieces]
  exact (Unmarked.composes.bodyPieces {} n h).regexPieces_eq

theorem Pattern.piecesText_wholePieces (p : Pattern) : piecesText p.wholePieces = p.wholeText := by
  unfold Pattern.wholePieces Pattern.wholeText
  split
  · exact p.head.piecesText_bodyPieces
  · exact p.piecesText_pieces

theorem Pattern.regexPieces_wholeText (p : Pattern) (h : p.Every (·.matcher.MarksPlaces)) :
    regexPieces p.wholeText = p.wholePieces := by
  rw [← p.piecesText_wholePieces]
  exact (Unmarked.composes.wholePieces p h).regexPieces_eq

/-- Evaluation fills in the pieces that the expression was put together from. -/
theorem Pattern.evaluate_eq (p : Pattern) (h : p.Every (·.matcher.MarksPlaces)) :
    p.evaluate = fillPieces p.groups p.wholePieces := by
  rw [Pattern.evaluate, p.unresolved_eq, ← p.regexPieces_wholeText h]
  rfl

/-! ## Filling in piece by piece -/

/-- The next byte is a digit, `digit` telling whether one follows behind the pieces. -/
def digitAhead (digit : Bool) : List RegexPiece → Bool
  | [] => digit
  | piece :: rest => startsWithDigit (piece :: rest)

/-- Fills in the places among pieces in front of other text, `digit` telling whether it begins with a
digit. -/
def fillBefore (groups : List Group) (digit : Bool) : List RegexPiece → Except Error Text
  | [] => .ok []
  | .byte b :: rest => do return b :: (← fillBefore groups digit rest)
  | .place kind name :: rest =>
      match numberOf? groups name with
      | none => .error (.unresolved name (.regex kind))
      | some number => do
          return kind.render number (digitAhead digit rest) ++ (← fillBefore groups digit rest)

theorem fillPieces_eq (groups : List Group) (pieces : List RegexPiece) :
    fillPieces groups pieces = fillBefore groups false pieces := by
  induction pieces with
  | nil => rfl
  | cons piece rest ih =>
      cases piece with
      | byte b => rw [fillPieces, fillBefore, ih]
      | place kind name =>
          rw [fillPieces_place, fillBefore, ih]
          cases rest <;> rfl

@[simp] theorem fillBefore_nil (groups : List Group) (digit : Bool) :
    fillBefore groups digit [] = .ok [] := rfl

theorem digitAhead_append (digit : Bool) (a b : List RegexPiece) :
    digitAhead digit (a ++ b) = digitAhead (digitAhead digit b) a := by
  cases a with
  | nil => rfl
  | cons piece a => cases piece <;> rfl

theorem fillBefore_byte {groups : List Group} {digit : Bool} {b : UInt8} {rest : List RegexPiece}
    {t : Text} : fillBefore groups digit (.byte b :: rest) = .ok t ↔
      ∃ u, fillBefore groups digit rest = .ok u ∧ t = b :: u := by
  simp only [fillBefore, Except.bind_eq_ok, pure, Except.pure, Except.ok.injEq]
  simp only [eq_comm]

theorem fillBefore_place {groups : List Group} {digit : Bool} {kind : ReferenceKind} {name : Text}
    {rest : List RegexPiece} {t : Text} :
    fillBefore groups digit (.place kind name :: rest) = .ok t ↔
      ∃ number u, numberOf? groups name = some number ∧ fillBefore groups digit rest = .ok u ∧
        t = kind.render number (digitAhead digit rest) ++ u := by
  rw [fillBefore]
  cases numberOf? groups name with
  | none => simp
  | some number =>
      simp only [Except.bind_eq_ok, pure, Except.pure, Except.ok.injEq, Option.some.injEq,
        exists_and_left, exists_eq_left']
      simp only [eq_comm]

theorem fillBefore_append {groups : List Group} {digit : Bool} {a b : List RegexPiece} {t : Text} :
    fillBefore groups digit (a ++ b) = .ok t ↔
      ∃ s u, fillBefore groups (digitAhead digit b) a = .ok s ∧ fillBefore groups digit b = .ok u ∧
        t = s ++ u := by
  induction a generalizing t with
  | nil => simp
  | cons piece a ih =>
      cases piece with
      | byte c =>
          simp only [List.cons_append, fillBefore_byte, ih]
          constructor
          · rintro ⟨v, ⟨s, u, ha, hb, rfl⟩, rfl⟩
            exact ⟨c :: s, u, ⟨s, ha, rfl⟩, hb, rfl⟩
          · rintro ⟨_, u, ⟨s, ha, rfl⟩, hb, rfl⟩
            exact ⟨s ++ u, ⟨s, u, ha, hb, rfl⟩, rfl⟩
      | place kind name =>
          simp only [List.cons_append, fillBefore_place, ih, digitAhead_append]
          constructor
          · rintro ⟨number, v, hn, ⟨s, u, ha, hb, rfl⟩, rfl⟩
            exact ⟨_, u, ⟨number, s, hn, ha, rfl⟩, hb, by rw [List.append_assoc]⟩
          · rintro ⟨_, u, ⟨number, s, hn, ha, rfl⟩, hb, rfl⟩
            exact ⟨number, s ++ u, hn, ⟨s, u, ha, hb, rfl⟩, by rw [List.append_assoc]⟩

@[simp] theorem fillBefore_keep (groups : List Group) (digit : Bool) (t : Text) :
    fillBefore groups digit (keep t) = .ok t := by
  induction t with
  | nil => rfl
  | cons b t ih => exact fillBefore_byte.mpr ⟨t, ih, rfl⟩

theorem fillBefore_append_keep {groups : List Group} {digit : Bool} {a : List RegexPiece}
    {t u : Text} :
    fillBefore groups digit (a ++ keep u) = .ok t ↔
      ∃ s, fillBefore groups (digitAhead digit (keep u)) a = .ok s ∧ t = s ++ u := by
  rw [fillBefore_append]
  constructor
  · rintro ⟨s, u', hs, hu, rfl⟩
    rw [fillBefore_keep] at hu
    obtain rfl := Except.ok.inj hu
    exact ⟨s, hs, rfl⟩
  · rintro ⟨s, hs, rfl⟩
    exact ⟨s, u, hs, fillBefore_keep groups digit u, rfl⟩

/-- No digit follows what stands in a group. -/
theorem fillBefore_groupPieces {groups : List Group} {digit : Bool} {opening : Text}
    {body : List RegexPiece} {t : Text} :
    fillBefore groups digit (groupPieces opening body) = .ok t ↔
      ∃ s, fillBefore groups false body = .ok s ∧ t = opening ++ s ++ ")" := by
  rw [groupPieces, fillBefore_append_keep]
  constructor
  · rintro ⟨u, hu, rfl⟩
    obtain ⟨o, s, ho, hs, rfl⟩ := fillBefore_append.mp hu
    rw [fillBefore_keep] at ho
    obtain rfl := Except.ok.inj ho
    exact ⟨s, hs, rfl⟩
  · rintro ⟨s, hs, rfl⟩
    exact ⟨_, fillBefore_append.mpr ⟨opening, s, fillBefore_keep groups _ _, hs, rfl⟩, rfl⟩

end PatternGrammar
