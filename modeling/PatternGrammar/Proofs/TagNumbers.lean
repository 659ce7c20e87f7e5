import Mathlib.Data.List.TakeWhile
import PatternGrammar.Proofs.Placeless
import PatternGrammar.Proofs.RuleContents

/-!
# The number that a name stands for

A name stands for the last group that carries it. Tags look it up in the table of groups and regular expressions
in a dictionary made from the table, each behind a scanner of its own; wherever either scanner finds the name,
it is that group's number which is written. In a regular expression a digit that follows is kept out of the
number. In a tag it is not.
-/

namespace PatternGrammar

open Ascii

/-! ## The last group of a name -/

/-- The last group of the table that carries the name. -/
def IsLastNamed (groups : List Group) (name : Text) (g : Group) : Prop :=
  ∃ before after, groups = before ++ g :: after ∧ g.reference = some name ∧
    ∀ h ∈ after, h.reference ≠ some name

section
variable {groups : List Group} {name : Text} {g : Group}

theorem IsLastNamed.mem (h : IsLastNamed groups name g) : g ∈ groups := by
  obtain ⟨before, after, rfl, -, -⟩ := h
  simp

theorem IsLastNamed.numberOf? (h : IsLastNamed groups name g) : numberOf? groups name = some g.number := by
  obtain ⟨before, after, rfl, hg, ha⟩ := h
  exact numberOf?_append_cons hg ha

theorem numberOf?_eq_some {number : Int} :
    numberOf? groups name = some number ↔ ∃ g, IsLastNamed groups name g ∧ g.number = number := by
  constructor
  · intro h
    obtain ⟨g, hg, rfl⟩ := Option.map_eq_some_iff.mp h
    obtain ⟨hn, after, before, hs, ha⟩ := List.find?_eq_some_iff_append.mp hg
    refine ⟨g, ⟨before.reverse, after.reverse, ?_, by simpa using hn, ?_⟩, rfl⟩
    · rw [← groups.reverse_reverse, hs]
      simp
    · intro h hm
      simpa using ha h (List.mem_reverse.mp hm)
  · rintro ⟨g, hg, rfl⟩
    exact hg.numberOf?

theorem exists_isLastNamed_or (groups : List Group) (name : Text) :
    (∃ g, IsLastNamed groups name g) ∨ ∀ g ∈ groups, g.reference ≠ some name := by
  cases hn : PatternGrammar.numberOf? groups name with
  | none => exact .inr (numberOf?_eq_none.mp hn)
  | some number =>
      obtain ⟨g, hg, -⟩ := numberOf?_eq_some.mp hn
      exact .inl ⟨g, hg⟩

end

/-! ## The pieces of a tag as text -/

/-- What a piece of a tag was cut from. -/
def TagPiece.text : TagPiece → Text
  | .byte b => [b]
  | .ownNumber => "$match"
  | .numberOf name => "$reference(" ++ name ++ ")"

def tagText (pieces : List TagPiece) : Text := pieces.flatMap TagPiece.text

@[simp] theorem tagText_nil : tagText [] = [] := rfl

@[simp] theorem tagText_cons (piece : TagPiece) (pieces : List TagPiece) :
    tagText (piece :: pieces) = piece.text ++ tagText pieces := rfl

@[simp] theorem tagText_append (a b : List TagPiece) : tagText (a ++ b) = tagText a ++ tagText b :=
  List.flatMap_append

/-- The piece asks for a number, and where its text ends can be told. -/
inductive TagPiece.IsPlace : TagPiece → Prop where
  | ownNumber : IsPlace .ownNumber
  | numberOf {name : Text} (hn : name ≠ []) (hc : closeParen ∉ name) : IsPlace (.numberOf name)

section
variable {piece : TagPiece} {t s : Text}

theorem TagPiece.IsPlace.text_eq (h : piece.IsPlace) : ∃ inner, piece.text = dollar :: inner := by
  cases h <;> exact ⟨_, rfl⟩

theorem parenthesisName?_append {name : Text} (hn : name ≠ []) (hc : closeParen ∉ name) (after : Text) :
    parenthesisName? (name ++ ")" ++ after) = some name := by
  have hkept : ∀ b ∈ name, decide (b ≠ closeParen) = true := by
    intro b hb
    simpa using fun h : b = closeParen => hc (h ▸ hb)
  have htake : (name ++ (")" : Text) ++ after).takeWhile (· ≠ closeParen) = name := by
    rw [List.append_assoc, List.takeWhile_append_of_pos hkept]
    exact List.append_nil name
  have hl : name.length ≠ (name ++ (")" : Text) ++ after).length := by
    rw [List.append_assoc, List.length_append]
    change name.length ≠ name.length + (after.length + 1)
    omega
  have hfound : (name.isEmpty || decide (name.length = (name ++ (")" : Text) ++ after).length)) = false := by
    rw [Bool.or_eq_false_iff]
    exact ⟨by simpa using hn, decide_eq_false hl⟩
  rw [parenthesisName?, htake, hfound]
  rfl

theorem startingNumber?_append (h : piece.IsPlace) (after : Text) :
    startingNumber? (piece.text ++ after) = some (piece, piece.text.length) := by
  cases h with
  | ownNumber => rfl
  | @numberOf name hn hc =>
      have hm : Text.startsWith ("$reference(" ++ name ++ ")" ++ after) "$match" = false := rfl
      have ha : Text.afterStart? "$reference(" ("$reference(" ++ name ++ ")" ++ after) =
          some (name ++ ")" ++ after) := by
        rw [List.append_assoc, List.append_assoc, Text.afterStart?_append, List.append_assoc]
      rw [TagPiece.text, startingNumber?, hm, ha, if_neg Bool.false_ne_true]
      simp only [parenthesisName?_append hn hc, Option.map_some, List.length_append]
      congr 2
      change 12 + name.length = 11 + name.length + 1
      omega

theorem eq_of_startingNumber? {size : Nat} (h : startingNumber? t = some (piece, size)) :
    piece.IsPlace ∧ size = piece.text.length ∧ ∃ after, t = piece.text ++ after := by
  have hfound (other : TagPiece) (ho : other.IsPlace) (after : Text) (ht : t = other.text ++ after) :
      piece.IsPlace ∧ size = piece.text.length ∧ ∃ after, t = piece.text ++ after := by
    rw [ht, startingNumber?_append ho after] at h
    cases h
    exact ⟨ho, rfl, after, ht⟩
  rw [startingNumber?] at h
  split at h
  · next hm =>
      obtain ⟨after, ha⟩ := Option.isSome_iff_exists.mp hm
      exact hfound .ownNumber .ownNumber after (Text.eq_append_of_afterStart? ha)
  · split at h
    · cases h
    · next rest ha =>
        obtain ⟨name, hname, -⟩ := Option.map_eq_some_iff.mp h
        obtain ⟨hn, hc, after, rfl⟩ := eq_of_parenthesisName? hname
        refine hfound (.numberOf name) (.numberOf hn hc) after ?_
        rw [Text.eq_append_of_afterStart? ha]
        simp [TagPiece.text]

theorem startingNumber?_eq_none_iff :
    startingNumber? t = none ↔ ∀ piece : TagPiece, piece.IsPlace → ¬ piece.text <+: t := by
  constructor
  · rintro h piece hp ⟨after, rfl⟩
    rw [startingNumber?_append hp] at h
    cases h
  · intro h
    cases hs : startingNumber? t with
    | none => rfl
    | some found =>
        obtain ⟨hp, -, after, ht⟩ := eq_of_startingNumber? hs
        exact absurd ⟨after, ht.symm⟩ (h found.1 hp)

/-! ## Cutting a tag -/

/-- The tag is cut into these pieces: the place that starts first is taken, and then the scan goes on
behind it. -/
inductive TagCut : Text → List TagPiece → Prop where
  | nil : TagCut [] []
  | byte {b : UInt8} {t : Text} {pieces : List TagPiece} (hb : startingNumber? (b :: t) = none)
      (ht : TagCut t pieces) : TagCut (b :: t) (.byte b :: pieces)
  | place {piece : TagPiece} {t : Text} {pieces : List TagPiece} (hp : piece.IsPlace)
      (ht : TagCut t pieces) : TagCut (piece.text ++ t) (piece :: pieces)

theorem tagPiecesAfter_append (s t : Text) : tagPiecesAfter s.length (s ++ t) = tagPieces t := by
  induction s with
  | nil => rfl
  | cons b s ih => rw [List.length_cons, List.cons_append, tagPiecesAfter, ih]

theorem tagCut_tagPiecesAfter (skipped : Nat) (t : Text) :
    TagCut (t.drop skipped) (tagPiecesAfter skipped t) := by
  induction t generalizing skipped with
  | nil => cases skipped <;> exact .nil
  | cons b rest ih =>
      cases skipped with
      | succ skipped => exact ih skipped
      | zero =>
          rw [tagPiecesAfter, List.drop_zero]
          cases hs : startingNumber? (b :: rest) with
          | none => exact .byte hs (ih 0)
          | some found =>
              obtain ⟨piece, size⟩ := found
              obtain ⟨hp, rfl, after, ha⟩ := eq_of_startingNumber? hs
              obtain ⟨inner, hi⟩ := hp.text_eq
              have hr : rest = inner ++ after := by
                rw [hi] at ha
                exact (List.cons.inj ha).2
              have hcut := ih inner.length
              rw [hr, List.drop_left, ← hr] at hcut
              simp only
              rw [ha, hi, List.length_cons, Nat.add_sub_cancel, ← hi]
              exact .place hp hcut

theorem tagCut_tagPieces (t : Text) : TagCut t (tagPieces t) := tagCut_tagPiecesAfter 0 t

section
variable {pieces a b : List TagPiece}

theorem TagCut.tagPieces_eq (h : TagCut t pieces) : tagPieces t = pieces := by
  induction h with
  | nil => rfl
  | byte hb _ ih =>
      rw [tagPieces, tagPiecesAfter, hb]
      exact congrArg _ ih
  | @place piece t pieces hp _ ih =>
      obtain ⟨inner, hi⟩ := hp.text_eq
      have hs := startingNumber?_append hp t
      rw [hi, List.cons_append] at hs ⊢
      rw [tagPieces, tagPiecesAfter, hs]
      simp only
      rw [List.length_cons, Nat.add_sub_cancel, tagPiecesAfter_append, ih]

theorem TagCut.tagText_eq (h : TagCut t pieces) : tagText pieces = t := by
  induction h with
  | nil => rfl
  | byte _ _ ih => rw [tagText_cons, ih]; rfl
  | place _ _ ih => rw [tagText_cons, ih]

/-- Each half of the pieces is what its own text is cut into: no place is found in a text that is not found
when more follows. -/
theorem TagCut.split (h : TagCut t (a ++ b)) : TagCut (tagText a) a ∧ TagCut (tagText b) b := by
  induction a generalizing t with
  | nil =>
      rw [List.nil_append] at h
      exact ⟨.nil, h.tagText_eq ▸ h⟩
  | cons piece a ih =>
      cases h with
      | place hp ht => exact ⟨.place hp (ih ht).1, (ih ht).2⟩
      | @byte c rest _ hc ht =>
          refine ⟨.byte ?_ (ih ht).1, (ih ht).2⟩
          rw [startingNumber?_eq_none_iff] at hc ⊢
          intro piece hp hs
          refine hc piece hp (List.IsPrefix.trans (show piece.text <+: c :: tagText a from hs) ?_)
          exact List.cons_prefix_cons.mpr ⟨rfl, tagText b, by rw [← tagText_append]; exact ht.tagText_eq⟩

/-- Every name that is begun in the text is ended in it. -/
def ClosesNames (t : Text) : Prop := ∀ u : Text, ("$reference(" : Text) ++ u <:+ t → closeParen ∈ u

theorem ClosesNames.of_append (h : ClosesNames (s ++ t)) : ClosesNames t :=
  fun u hu => h u (hu.trans (List.suffix_append s t))

/-- Before the next dollar a place is found only where it ends in front of it. -/
theorem startingNumber?_append_dollar {c : UInt8} (hs : startingNumber? (c :: s) = none)
    (hc : ClosesNames (c :: s)) (u : Text) : startingNumber? (c :: s ++ dollar :: u) = none := by
  rw [startingNumber?_eq_none_iff] at hs ⊢
  intro piece hp hpre
  cases hp with
  | ownNumber =>
      obtain ⟨hd, hm⟩ := List.cons_prefix_cons.mp hpre
      have hin : ("match" : Text) <+: s := prefix_of_prefix_append_cons (by decide) hm
      exact hs _ .ownNumber (List.cons_prefix_cons.mpr ⟨hd, hin⟩)
  | @numberOf name hn hcn =>
      obtain ⟨rfl, hm⟩ := List.cons_prefix_cons.mp hpre
      have hopen : ("reference(" : Text) <+: s := by
        refine prefix_of_prefix_append_cons (by decide) (List.IsPrefix.trans ?_ hm)
        exact (List.prefix_append _ _).trans (List.prefix_append _ _)
      obtain ⟨inner, rfl⟩ := hopen
      have hclosed : closeParen ∈ inner := hc inner (List.suffix_refl _)
      have hrest : name ++ (")" : Text) <+: inner ++ dollar :: u := by
        have hm' : ("reference(" : Text) ++ (name ++ (")" : Text)) <+:
            ("reference(" : Text) ++ (inner ++ dollar :: u) := by
          rw [← List.append_assoc, ← List.append_assoc]
          exact hm
        exact (List.prefix_append_right_inj _).mp hm'
      -- the name ends with the first parenthesis behind its opening, and one stands in front of the dollar
      have hin : name ++ (")" : Text) <+: inner := by
        rcases List.prefix_or_prefix_of_prefix hrest (List.prefix_append inner _) with h | h
        · exact h
        · rcases List.prefix_concat_iff.mp h with h | h
          · exact h ▸ List.prefix_refl _
          · exact absurd (h.subset hclosed) hcn
      obtain ⟨after, rfl⟩ := hin
      refine hs _ (.numberOf hn hcn) ⟨after, ?_⟩
      simp only [TagPiece.text, List.append_assoc]
      rfl

theorem TagCut.append_place (hs : TagCut s a) (hc : ClosesNames s) (hp : piece.IsPlace) (ht : TagCut t b) :
    TagCut (s ++ (piece.text ++ t)) (a ++ piece :: b) := by
  induction hs with
  | nil => exact .place hp ht
  | @byte c s pieces hb _ ih =>
      refine .byte ?_ (ih (ClosesNames.of_append (s := [c]) hc))
      obtain ⟨inner, hi⟩ := hp.text_eq
      rw [hi, List.cons_append]
      exact startingNumber?_append_dollar hb hc _
  | place hq _ ih =>
      rw [List.append_assoc]
      exact .place hq (ih hc.of_append)

end

/-! ## Filling in a tag -/

variable {groups : List Group} {own : Int}

theorem fillTagPieces_append (groups : List Group) (own : Int) (a b : List TagPiece) :
    fillTagPieces groups own (a ++ b) = do
      let u ← fillTagPieces groups own a
      let v ← fillTagPieces groups own b
      return u ++ v := by
  induction a with
  | nil =>
      rw [List.nil_append, fillTagPieces]
      cases fillTagPieces groups own b <;> rfl
  | cons piece a ih =>
      rw [List.cons_append]
      cases piece with
      | byte c =>
          rw [fillTagPieces, fillTagPieces, ih]
          cases fillTagPieces groups own a <;> cases fillTagPieces groups own b <;> rfl
      | ownNumber =>
          rw [fillTagPieces, fillTagPieces, ih]
          cases fillTagPieces groups own a <;> cases fillTagPieces groups own b <;>
            simp [bind, Except.bind, pure, Except.pure]
      | numberOf name =>
          rw [fillTagPieces, fillTagPieces, ih]
          cases numberOf? groups name with
          | none => rfl
          | some number =>
              cases fillTagPieces groups own a <;> cases fillTagPieces groups own b <;>
                simp [bind, Except.bind, pure, Except.pure]

end

/-! ## Cutting an expression -/

section
variable {kind : ReferenceKind} {name s t : Text}

theorem untilClosing?_append_of_eq_some (h : untilClosing? t = some name) (w : Text) :
    untilClosing? (t ++ w) = some name := by
  induction t generalizing name with
  | nil => simp [untilClosing?, placeholderClosing_eq, Text.afterStart?] at h
  | cons b rest ih =>
      rw [List.cons_append, untilClosing?]
      rw [untilClosing?] at h
      cases hc : Text.afterStart? placeholderClosing (b :: rest) with
      | some after =>
          rw [hc] at h
          rw [← List.cons_append, Text.eq_append_of_afterStart? hc, List.append_assoc, Text.afterStart?_append]
          exact h
      | none =>
          simp only [hc] at h
          split at h
          · cases h
          · next hb =>
              obtain ⟨inner, hi, rfl⟩ := Option.map_eq_some_iff.mp h
              -- the closing is as long as three bytes, and these are in front of what is added
              have hstill : Text.afterStart? placeholderClosing (b :: (rest ++ w)) = none := by
                cases ha : Text.afterStart? placeholderClosing (b :: (rest ++ w)) with
                | none => rfl
                | some after =>
                    obtain ⟨more, rfl⟩ := eq_of_untilClosing? hi
                    have hpre : placeholderClosing <+: b :: (inner ++ placeholderClosing ++ more) := by
                      refine List.prefix_of_prefix_length_le ⟨after, (Text.eq_append_of_afterStart? ha).symm⟩
                        (List.prefix_append _ w) ?_
                      simp only [List.length_cons, List.length_append]
                      omega
                    obtain ⟨u, hu⟩ := hpre
                    rw [← hu, Text.afterStart?_append] at hc
                    cases hc
              simp only [hstill, if_neg hb, ih hi, Option.map_some]

theorem placeOf?_append_of_eq_some (h : placeOf? kind t = some name) (w : Text) :
    placeOf? kind (t ++ w) = some name := by
  obtain ⟨rest, hr, hn⟩ := Option.bind_eq_some_iff.mp h
  rw [placeOf?, Text.eq_append_of_afterStart? hr, List.append_assoc, Text.afterStart?_append,
    Option.bind_some]
  cases rest with
  | nil => cases hn
  | cons b rest =>
      rw [List.cons_append, placeName?]
      rw [placeName?] at hn
      split at hn
      · cases hn
      · next hb =>
          obtain ⟨inner, hi, rfl⟩ := Option.map_eq_some_iff.mp hn
          rw [if_neg hb, untilClosing?_append_of_eq_some hi]
          rfl

theorem startingPlace?_append_of_eq_some (h : startingPlace? t = some (kind, name)) (w : Text) :
    startingPlace? (t ++ w) = some (kind, name) := by
  rw [startingPlace?] at h ⊢
  cases hb : placeOf? .backReference t with
  | some other =>
      rw [hb] at h
      rw [placeOf?_append_of_eq_some hb]
      exact h
  | none =>
      rw [hb] at h
      obtain ⟨other, hs, he⟩ := Option.map_eq_some_iff.mp h
      obtain ⟨after, rfl⟩ := eq_of_placeOf? hs
      rw [List.append_assoc, placeOf?_backReference_subroutine, ← List.append_assoc,
        placeOf?_append_of_eq_some hs, ← he]
      rfl

/-- Behind every opening of a place in the text stands its closing, unless a backslash stops the name. -/
def ClosesPlaces (t : Text) : Prop :=
  ∀ (kind : ReferenceKind) (u : Text), kind.opening ++ u <:+ t →
    backslash ∈ u ∨ ∃ name after : Text, name ≠ [] ∧ u = name ++ placeholderClosing ++ after

/-- Before the next parenthesis a place is found only where it ends in front of it. -/
theorem startingPlace?_append_openParen {c : UInt8} (hs : startingPlace? (c :: s) = none)
    (hc : ClosesPlaces (c :: s)) (w : Text) : startingPlace? (c :: s ++ openParen :: w) = none := by
  have hnone (kind : ReferenceKind) {name : Text} (hn : name ≠ []) (hb : backslash ∉ name) (after : Text) :
      c :: s ≠ placeholder kind name ++ after :=
    fun he => startingPlace?_eq_none_iff.mp hs kind name hn hb ⟨after, he.symm⟩
  cases hp : startingPlace? (c :: s ++ openParen :: w) with
  | none => rfl
  | some place =>
      exfalso
      obtain ⟨kind, name⟩ := place
      obtain ⟨hn, hb⟩ := name_of_startingPlace? hp
      obtain ⟨after, ha⟩ := eq_of_startingPlace? hp
      obtain ⟨inner, hi, ho⟩ : ∃ inner, kind.opening = openParen :: inner ∧ openParen ∉ inner := by
        cases kind <;> exact ⟨_, rfl, by decide⟩
      simp only [placeholder, hi, List.cons_append, List.append_assoc, List.cons.injEq] at ha
      obtain ⟨rfl, ha⟩ := ha
      have hopen : inner <+: s := by
        refine prefix_of_prefix_append_cons ho (a := openParen) (t := w) ?_
        rw [ha]
        exact List.prefix_append _ _
      obtain ⟨u, rfl⟩ := hopen
      have hrest : u ++ openParen :: w = name ++ placeholderClosing ++ after := by
        rw [List.append_assoc] at ha ⊢
        exact List.append_cancel_left ha
      have hwhole : openParen :: (inner ++ u) = kind.opening ++ u := by rw [hi, List.cons_append]
      have hclosing : backslash ∉ name ++ placeholderClosing := by
        rw [List.mem_append, not_or]
        exact ⟨hb, by decide⟩
      rcases List.prefix_or_prefix_of_prefix (List.prefix_append u (openParen :: w))
        (hrest ▸ List.prefix_append (name ++ placeholderClosing) after) with h | h
      · -- the text ends before the place does, so that what it closes is a place of its own
        rcases hc kind u (hwhole ▸ List.suffix_refl _) with hbu | ⟨other, more, hne, rfl⟩
        · exact hclosing (h.subset hbu)
        · refine hnone kind hne (fun hm => hclosing (h.subset ?_)) more ?_
          · exact List.mem_append_left _ (List.mem_append_left _ hm)
          · rw [hwhole, placeholder]
            simp only [List.append_assoc]
      · obtain ⟨more, rfl⟩ := h
        refine hnone kind hn hb more ?_
        rw [hwhole, placeholder]
        simp only [List.append_assoc]

theorem ClosesPlaces.of_cons {b : UInt8} (h : ClosesPlaces (b :: t)) : ClosesPlaces t :=
  fun kind u hu => h kind u (hu.trans (List.suffix_cons b t))

theorem regexPieces_place_append (kind : ReferenceKind) (hn : IsPlaceName name) (w : Text) :
    regexPieces (placeholder kind name ++ w) = .place kind name :: regexPieces w := by
  have hs := startingPlace?_append kind hn w
  obtain ⟨inner, hi⟩ := placeholder_eq kind name
  rw [hi, List.cons_append] at hs ⊢
  rw [regexPieces, regexPiecesAfter, hs]
  simp only
  rw [hi, List.length_cons, Nat.add_sub_cancel, regexPiecesAfter_append]

theorem regexPiecesAfter_append_place (hn : IsPlaceName name) (w : Text) {skipped : Nat}
    (hl : skipped ≤ t.length) (hc : ClosesPlaces t) :
    regexPiecesAfter skipped (t ++ (placeholder kind name ++ w)) =
      regexPiecesAfter skipped t ++ .place kind name :: regexPieces w := by
  obtain ⟨inner, hi⟩ := placeholder_eq kind name
  induction t generalizing skipped with
  | nil =>
      obtain rfl : skipped = 0 := Nat.le_zero.mp hl
      exact regexPieces_place_append kind hn w
  | cons b rest ih =>
      cases skipped with
      | succ skipped => exact ih (Nat.le_of_succ_le_succ hl) hc.of_cons
      | zero =>
          rw [List.cons_append, regexPiecesAfter, regexPiecesAfter]
          cases hs : startingPlace? (b :: rest) with
          | some place =>
              obtain ⟨other, found⟩ := place
              rw [← List.cons_append, startingPlace?_append_of_eq_some hs]
              obtain ⟨after, ha⟩ := eq_of_startingPlace? hs
              have hle : (placeholder other found).length - 1 ≤ rest.length := by
                have := congrArg List.length ha
                rw [List.length_cons, List.length_append] at this
                omega
              simp only
              rw [ih hle hc.of_cons]
              rfl
          | none =>
              have hstill : startingPlace? (b :: (rest ++ (placeholder kind name ++ w))) = none := by
                rw [hi, List.cons_append]
                exact startingPlace?_append_openParen hs hc _
              rw [hstill]
              simp only
              rw [ih (Nat.zero_le _) hc.of_cons]
              rfl

theorem regexPieces_append_place (kind : ReferenceKind) (hn : IsPlaceName name) (hc : ClosesPlaces t) (w : Text) :
    regexPieces (t ++ (placeholder kind name ++ w)) = regexPieces t ++ .place kind name :: regexPieces w :=
  regexPiecesAfter_append_place hn w (Nat.zero_le _) hc

end

theorem fillPieces_append_place (groups : List Group) (a : List RegexPiece) (kind : ReferenceKind) (name : Text)
    (b : List RegexPiece) :
    fillPieces groups (a ++ .place kind name :: b) = do
      let u ← fillPieces groups a
      let v ← fillPieces groups (.place kind name :: b)
      return u ++ v := by
  induction a with
  | nil =>
      rw [List.nil_append]
      cases fillPieces groups (.place kind name :: b) <;> rfl
  | cons piece a ih =>
      rw [List.cons_append]
      cases piece with
      | byte c =>
          rw [fillPieces, fillPieces, ih]
          cases fillPieces groups a <;> cases fillPieces groups (.place kind name :: b) <;> rfl
      | place other found =>
          have hd : startsWithDigit (a ++ .place kind name :: b) = startsWithDigit a := by
            cases a with
            | nil => rfl
            | cons piece a => cases piece <;> rfl
          rw [fillPieces_place, fillPieces_place, ih, hd]
          cases numberOf? groups found with
          | none => rfl
          | some number =>
              cases fillPieces groups a <;> cases fillPieces groups (.place kind name :: b) <;>
                simp [bind, Except.bind, pure, Except.pure]

/-! ## One number for a name -/

section
variable {groups : List Group} {name : Text} {g : Group}

theorem resolveTag_append_place (hn : name ≠ []) (hc : closeParen ∉ name) (groups : List Group) (own : Int)
    {before : Text} (hb : ClosesNames before) (behind : Text) :
    resolveTag groups own (before ++ ("$reference(" ++ name ++ ")" ++ behind)) = do
      let u ← resolveTag groups own before
      let v ← fillTagPieces groups own (.numberOf name :: tagPieces behind)
      return u ++ v := by
  have hcut := (tagCut_tagPieces before).append_place hb (.numberOf hn hc) (tagCut_tagPieces behind)
  change fillTagPieces groups own (tagPieces (before ++ ((TagPiece.numberOf name).text ++ behind))) = _
  rw [hcut.tagPieces_eq, fillTagPieces_append]
  rfl

theorem resolveReferences_append_place (hn : IsPlaceName name) (groups : List Group) (kind : ReferenceKind)
    {before : Text} (hb : ClosesPlaces before) (behind : Text) :
    resolveReferences groups (before ++ (placeholder kind name ++ behind)) = do
      let u ← resolveReferences groups before
      let v ← fillPieces groups (.place kind name :: regexPieces behind)
      return u ++ v := by
  rw [resolveReferences, regexPieces_append_place kind hn hb, fillPieces_append_place]
  rfl

theorem IsLastNamed.resolveReferences (h : IsLastNamed groups name g) (hn : IsPlaceName name)
    (kind : ReferenceKind) {before : Text} (hb : ClosesPlaces before) (behind : Text) :
    resolveReferences groups (before ++ (placeholder kind name ++ behind)) = do
      let u ← resolveReferences groups before
      let v ← resolveReferences groups behind
      return u ++ kind.render g.number (behind.head?.any Text.isDigit) ++ v := by
  rw [resolveReferences_append_place hn groups kind hb, fillPieces_place, h.numberOf?, startsWithDigit_eq,
    piecesText_regexPieces]
  change _ = do
    let u ← PatternGrammar.resolveReferences groups before
    let v ← fillPieces groups (regexPieces behind)
    return u ++ kind.render g.number (behind.head?.any Text.isDigit) ++ v
  cases PatternGrammar.resolveReferences groups before <;> cases fillPieces groups (regexPieces behind) <;>
    simp [bind, Except.bind, pure, Except.pure]

end

/-- A name stands for one number in tags and in both kinds of reference of a regular expression: for that of the
last group that carries it. This holds at every place of the name in a longer text, in whatever text follows
and behind any text that does not leave a place open. A name that no group carries stands for no number, and what
asks for it fails with a request of its own kind, unless something in front of it does. -/
theorem name_stands_for_last_group (groups : List Group) {name : Text} (hn : name ≠ [])
    (hc : closeParen ∉ name) (hb : backslash ∉ name) :
    ((∃ g, IsLastNamed groups name g) ∨ ∀ g ∈ groups, g.reference ≠ some name) ∧
      (∀ g, IsLastNamed groups name g →
        (∀ own before behind, ClosesNames before →
          resolveTag groups own (before ++ ("$reference(" ++ name ++ ")" ++ behind)) = do
            let u ← resolveTag groups own before
            let v ← resolveTag groups own behind
            return u ++ ("$" ++ Text.ofInt g.number) ++ v) ∧
        (∀ before behind, ClosesPlaces before →
          resolveReferences groups (before ++ (placeholder .backReference name ++ behind)) = do
            let u ← resolveReferences groups before
            let v ← resolveReferences groups behind
            return u ++ ("\\" ++ Text.ofInt g.number ++
              if behind.head?.any Text.isDigit then "(?:)" else "") ++ v) ∧
        (∀ before behind, ClosesPlaces before →
          resolveReferences groups (before ++ (placeholder .subroutine name ++ behind)) = do
            let u ← resolveReferences groups before
            let v ← resolveReferences groups behind
            return u ++ ("\\g<" ++ Text.ofInt g.number ++ ">") ++ v)) ∧
      ((∀ g ∈ groups, g.reference ≠ some name) →
        (∀ own before behind, ClosesNames before →
          resolveTag groups own (before ++ ("$reference(" ++ name ++ ")" ++ behind)) = do
            let _ ← resolveTag groups own before
            .error (.unresolved name .tag)) ∧
        ∀ kind before behind, ClosesPlaces before →
          resolveReferences groups (before ++ (placeholder kind name ++ behind)) = do
            let _ ← resolveReferences groups before
            .error (.unresolved name (.regex kind))) := by
  have hplace := isPlaceName_of_closeParen hn hb hc
  refine ⟨exists_isLastNamed_or groups name, ?_, ?_⟩
  · intro g hg
    refine ⟨?_, fun before behind h => hg.resolveReferences hplace .backReference h behind,
      fun before behind h => hg.resolveReferences hplace .subroutine h behind⟩
    intro own before behind h
    rw [resolveTag_append_place hn hc groups own h, fillTagPieces, hg.numberOf?]
    change _ = do
      let u ← resolveTag groups own before
      let v ← fillTagPieces groups own (tagPieces behind)
      return u ++ ("$" ++ Text.ofInt g.number) ++ v
    cases resolveTag groups own before <;> cases fillTagPieces groups own (tagPieces behind) <;>
      simp [bind, Except.bind, pure, Except.pure]
    rfl
  · intro hnone
    have hno := numberOf?_eq_none.mpr hnone
    constructor
    · intro own before behind h
      rw [resolveTag_append_place hn hc groups own h, fillTagPieces, hno]
      rfl
    · intro kind before behind h
      rw [resolveReferences_append_place hplace groups kind h, fillPieces_place, hno]
      rfl

/-- A table in which two groups carry one name. -/
def oneNameTwice : List Group :=
  [{ number := 3, reference := some "x" }, { number := 12, reference := some "x" }, { number := 7 }]

theorem oneNameTwice_stands_for_last :
    IsLastNamed oneNameTwice "x" { number := 12, reference := some "x" } ∧
      resolveTag oneNameTwice 5 "$match$reference(x)1" = .ok "$5$121" ∧
      resolveReferences oneNameTwice "a(?#[:backreference:x:])1" = .ok "a\\12(?:)1" ∧
      resolveReferences oneNameTwice "a(?#[:subroutine:x:])1" = .ok "a\\g<12>1" ∧
      resolveTag oneNameTwice 5 "$match$reference(y)1" = .error (.unresolved "y" .tag) := by
  have hx := name_stands_for_last_group oneNameTwice (show ("x" : Text) ≠ [] by decide) (by decide) (by decide)
  have hy := name_stands_for_last_group oneNameTwice (show ("y" : Text) ≠ [] by decide) (by decide) (by decide)
  have hlast : IsLastNamed oneNameTwice "x" { number := 12, reference := some "x" } :=
    ⟨[{ number := 3, reference := some "x" }], [{ number := 7 }], rfl, rfl, by simp⟩
  have hnone : ∀ g ∈ oneNameTwice, g.reference ≠ some "y" := by decide
  have hnames : ClosesNames "$match" := by
    intro u hu
    have hl := hu.length_le
    rw [List.length_append] at hl
    change 11 + u.length ≤ 6 at hl
    omega
  have hplaces : ClosesPlaces "a" := by
    intro kind u hu
    have hl := hu.length_le
    rw [List.length_append] at hl
    change kind.opening.length + u.length ≤ 1 at hl
    cases kind with
    | backReference =>
        change 19 + u.length ≤ 1 at hl
        omega
    | subroutine =>
        change 16 + u.length ≤ 1 at hl
        omega
  obtain ⟨htag, hback, hcall⟩ := hx.2.1 _ hlast
  exact ⟨hlast, htag 5 "$match" "1" hnames, hback "a" "1" hplaces, hcall "a" "1" hplaces,
    (hy.2.2 hnone).1 5 "$match" "1" hnames⟩

/-! ## Reading a number of a tag back -/

/-- The number that is written for a piece of the tag of the group numbered `own`. -/
def TagPiece.Means (groups : List Group) (own : Int) : TagPiece → Int → Prop
  | .byte _, _ => False
  | .ownNumber, number => number = own
  | .numberOf name, number => ∃ g, IsLastNamed groups name g ∧ number = g.number

section
variable {groups : List Group} {own : Int} {piece : TagPiece} {pieces : List TagPiece} {r v : Text}

theorem fillTagPieces_place (hp : ∀ c, piece ≠ .byte c)
    (h : fillTagPieces groups own (piece :: pieces) = .ok r) :
    ∃ number v, piece.Means groups own number ∧ fillTagPieces groups own pieces = .ok v ∧
      r = dollar :: (Text.ofInt number ++ v) := by
  cases piece with
  | byte c => exact absurd rfl (hp c)
  | ownNumber =>
      rw [fillTagPieces] at h
      obtain ⟨v, hv, hr⟩ := Except.bind_eq_ok.mp h
      cases hr
      exact ⟨own, v, rfl, hv, rfl⟩
  | numberOf name =>
      rw [fillTagPieces] at h
      cases hn : numberOf? groups name with
      | none =>
          rw [hn] at h
          cases h
      | some number =>
          rw [hn] at h
          obtain ⟨v, hv, hr⟩ := Except.bind_eq_ok.mp h
          cases hr
          obtain ⟨g, hg, he⟩ := numberOf?_eq_some.mp hn
          exact ⟨number, v, ⟨g, hg, he.symm⟩, hv, rfl⟩

/-- A tag begins with the same signs as its resolved text, for any signs that a dollar stops: a number is written
behind a dollar. -/
theorem takeWhile_fillTagPieces {p : UInt8 → Bool} (hp : p dollar = false)
    (h : fillTagPieces groups own pieces = .ok v) : v.takeWhile p = (tagText pieces).takeWhile p := by
  have hdollar (s t : Text) : (dollar :: s).takeWhile p = (dollar :: t).takeWhile p := by
    rw [List.takeWhile_cons, List.takeWhile_cons, hp, if_neg Bool.false_ne_true, if_neg Bool.false_ne_true]
  induction pieces generalizing v with
  | nil =>
      cases h
      rfl
  | cons piece pieces ih =>
      cases piece with
      | byte c =>
          obtain ⟨u, hu, hv⟩ := Except.bind_eq_ok.mp h
          cases hv
          change (c :: u).takeWhile p = (c :: tagText pieces).takeWhile p
          rw [List.takeWhile_cons, List.takeWhile_cons, ih hu]
      | ownNumber =>
          obtain ⟨number, u, -, -, rfl⟩ := fillTagPieces_place (by simp) h
          exact hdollar _ _
      | numberOf name =>
          obtain ⟨number, u, -, -, rfl⟩ := fillTagPieces_place (by simp) h
          exact hdollar _ _

theorem takeWhile_isDigit_fillTagPieces (h : fillTagPieces groups own pieces = .ok v) :
    v.takeWhile Text.isDigit = (tagText pieces).takeWhile Text.isDigit :=
  takeWhile_fillTagPieces (by decide) h

theorem takeWhile_isDigit_ofNat_append (n : Nat) (t : Text) :
    (Text.ofNat n ++ t).takeWhile Text.isDigit = Text.ofNat n ++ t.takeWhile Text.isDigit :=
  List.takeWhile_append_of_pos fun _ h => Text.isDigit_of_mem_ofNat h

theorem takeWhile_isDigit_eq_nil {t : Text} :
    t.takeWhile Text.isDigit = [] ↔ t.head?.any Text.isDigit = false := by
  cases t with
  | nil => simp
  | cons b t => simp

theorem TagPiece.Means.nonneg {number : Int} (h : piece.Means groups own number) (hown : 0 ≤ own)
    (hgroups : ∀ g ∈ groups, 0 ≤ g.number) : 0 ≤ number := by
  cases piece with
  | byte c => exact h.elim
  | ownNumber =>
      rw [h]
      exact hown
  | numberOf name =>
      obtain ⟨g, hg, rfl⟩ := h
      exact hgroups g hg.mem

/-- At every place of a tag the number that is meant is written behind a dollar, between what the text in front of
the place and the text behind it are resolved to. The digits behind the dollar are those of the number and those
with which the rest of the tag begins, so that the number reads back just when no digit follows the place. -/
theorem digits_behind_dollar {own : Int} (hown : 0 ≤ own) {groups : List Group}
    (hgroups : ∀ g ∈ groups, 0 ≤ g.number) {tag r : Text} (hr : resolveTag groups own tag = .ok r)
    {a b : List TagPiece} {piece : TagPiece} (ht : tagPieces tag = a ++ piece :: b) (hp : ∀ c, piece ≠ .byte c) :
    tag = tagText a ++ piece.text ++ tagText b ∧
      ∃ (n : Nat) (u v : Text), piece.Means groups own n ∧
        resolveTag groups own (tagText a) = .ok u ∧ resolveTag groups own (tagText b) = .ok v ∧
        r = u ++ dollar :: (Text.ofNat n ++ v) ∧
        (Text.ofNat n ++ v).takeWhile Text.isDigit = Text.ofNat n ++ (tagText b).takeWhile Text.isDigit ∧
        ((Text.ofNat n ++ v).takeWhile Text.isDigit = Text.ofNat n ↔
          (tagText b).head?.any Text.isDigit = false) := by
  have hcut := tagCut_tagPieces tag
  rw [ht] at hcut
  have hrest := (List.append_cons a piece b ▸ hcut).split.2
  rw [resolveTag, ht, fillTagPieces_append] at hr
  obtain ⟨u, hu, hr⟩ := Except.bind_eq_ok.mp hr
  obtain ⟨s, hs, hr⟩ := Except.bind_eq_ok.mp hr
  cases hr
  obtain ⟨number, v, hm, hv, rfl⟩ := fillTagPieces_place hp hs
  obtain ⟨n, rfl⟩ := Int.eq_ofNat_of_zero_le (hm.nonneg hown hgroups)
  refine ⟨?_, n, u, v, hm, ?_, ?_, rfl, ?_, ?_⟩
  · rw [← hcut.tagText_eq, tagText_append, tagText_cons, List.append_assoc]
  · rw [resolveTag, hcut.split.1.tagPieces_eq, hu]
  · rw [resolveTag, hrest.tagPieces_eq, hv]
  · rw [takeWhile_isDigit_ofNat_append, takeWhile_isDigit_fillTagPieces hv]
  · rw [takeWhile_isDigit_ofNat_append, takeWhile_isDigit_fillTagPieces hv, List.append_right_eq_self,
      takeWhile_isDigit_eq_nil]

theorem match_before_period :
    resolveTag [] 1 "a$match.5" = .ok "a$1.5" ∧
      tagPieces "a$match.5" = [.byte 97] ++ .ownNumber :: [.byte 46, .byte 53] ∧
      ∃ v, resolveTag [] 1 ".5" = .ok v ∧ (Text.ofNat 1 ++ v).takeWhile Text.isDigit = Text.ofNat 1 := by
  have hr : resolveTag [] 1 "a$match.5" = .ok "a$1.5" := rfl
  have ht : tagPieces "a$match.5" = [.byte 97] ++ .ownNumber :: [.byte 46, .byte 53] := rfl
  obtain ⟨-, n, -, v, hm, -, hv, -, -, hback⟩ := digits_behind_dollar (by decide) (by simp) hr ht (by simp)
  obtain rfl : n = 1 := Int.ofNat.inj hm
  exact ⟨hr, ht, v, hv, hback.mpr rfl⟩

/-- A digit behind a place joins the number in a tag, while in a regular expression it is kept out of it. -/
theorem match_before_digit :
    resolveTag [] 1 "$match5" = .ok "$15" ∧ tagPieces "$match5" = .ownNumber :: [.byte 53] ∧
      ("15" : Text).takeWhile Text.isDigit ≠ Text.ofNat 1 ∧
      resolveReferences [{ number := 1, reference := some "x" }] "(?#[:backreference:x:])5" =
        .ok "\\1(?:)5" :=
  ⟨rfl, rfl, by decide, rfl⟩

end

end PatternGrammar
