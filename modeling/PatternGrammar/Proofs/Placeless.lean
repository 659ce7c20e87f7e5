import PatternGrammar.Proofs.Replacement

/-!
# Filling in leaves no place

A place for a reference holds no backslash, and every reference that is filled in begins with one. So what is
filled in ends any place that might have begun before it, and the text between two references is text in
which no place was found: an expression whose references are filled in holds no place any more, whatever text
it was made from.
-/

namespace PatternGrammar

open Ascii

/-! ## Texts without places -/

/-- No place for a reference stands in the text. A place with no name in it, or with a backslash in its name, is
none to the resolver. -/
def Placeless (t : Text) : Prop :=
  ∀ kind name, name ≠ [] → backslash ∉ name → ¬ placeholder kind name <:+: t

section
variable {kind : ReferenceKind} {name t : Text}

theorem Placeless.of_infix {s : Text} (h : Placeless t) (hs : s <:+: t) : Placeless s :=
  fun kind name hn hb hp => h kind name hn hb (hp.trans hs)

theorem placeholder_eq (kind : ReferenceKind) (name : Text) :
    ∃ inner, placeholder kind name = openParen :: question :: numberSign :: inner := by
  cases kind <;> exact ⟨_, rfl⟩

theorem backslash_notMem_placeholder (h : backslash ∉ name) : backslash ∉ placeholder kind name := by
  have ho : backslash ∉ kind.opening := by cases kind <;> decide
  have hc : backslash ∉ placeholderClosing := by decide
  simp only [placeholder, List.mem_append, not_or]
  exact ⟨⟨ho, h⟩, hc⟩

theorem isSome_untilClosing? (h : backslash ∉ name) (after : Text) :
    (untilClosing? (name ++ placeholderClosing ++ after)).isSome := by
  induction name with
  | nil =>
      rw [List.nil_append, untilClosing?.eq_def, Text.afterStart?_append]
      rfl
  | cons b rest ih =>
      have hb : b ≠ backslash := fun hb => h (hb ▸ List.mem_cons_self)
      have hr := ih fun hm => h (List.mem_cons_of_mem _ hm)
      rw [List.cons_append, List.cons_append, untilClosing?]
      split
      · rfl
      · simpa [hb] using hr

/-- The resolver finds a place, if perhaps with a shorter name. -/
theorem isSome_startingPlace? (kind : ReferenceKind) (hn : name ≠ []) (hb : backslash ∉ name) (after : Text) :
    (startingPlace? (placeholder kind name ++ after)).isSome := by
  have hplace : (placeOf? kind (placeholder kind name ++ after)).isSome := by
    obtain ⟨b, rest, rfl⟩ := List.exists_cons_of_ne_nil hn
    have hne : b ≠ backslash := fun h => hb (h ▸ List.mem_cons_self)
    have hr := isSome_untilClosing? (fun hm => hb (List.mem_cons_of_mem b hm)) after
    rw [placeOf?, placeholder, List.append_assoc, List.append_assoc, Text.afterStart?_append]
    simpa [placeName?, hne] using hr
  rw [startingPlace?]
  cases hb : placeOf? .backReference (placeholder kind name ++ after) with
  | some _ => rfl
  | none =>
      cases kind with
      | backReference => simp [hb] at hplace
      | subroutine => simpa using hplace

/-! ## Where no place begins -/

theorem backslash_notMem_of_untilClosing? (h : untilClosing? t = some name) : backslash ∉ name := by
  induction t generalizing name with
  | nil => simp [untilClosing?, placeholderClosing_eq, Text.afterStart?] at h
  | cons b rest ih =>
      rw [untilClosing?] at h
      split at h
      · cases h
        exact List.not_mem_nil
      · split at h
        · cases h
        · next hb =>
            obtain ⟨inner, hi, rfl⟩ := Option.map_eq_some_iff.mp h
            exact List.not_mem_cons_of_ne_of_not_mem (Ne.symm hb) (ih hi)

theorem name_of_startingPlace? (h : startingPlace? t = some (kind, name)) : name ≠ [] ∧ backslash ∉ name := by
  have hplace (kind : ReferenceKind) (h : placeOf? kind t = some name) : name ≠ [] ∧ backslash ∉ name := by
    obtain ⟨rest, -, hn⟩ := Option.bind_eq_some_iff.mp h
    cases rest with
    | nil => cases hn
    | cons b rest =>
        rw [placeName?] at hn
        split at hn
        · cases hn
        · next hb =>
            obtain ⟨inner, hi, rfl⟩ := Option.map_eq_some_iff.mp hn
            exact ⟨List.cons_ne_nil _ _,
              List.not_mem_cons_of_ne_of_not_mem (Ne.symm hb) (backslash_notMem_of_untilClosing? hi)⟩
  rw [startingPlace?] at h
  split at h
  · next other hb =>
      cases h
      exact hplace _ hb
  · obtain ⟨other, hs, he⟩ := Option.map_eq_some_iff.mp h
    cases he
    exact hplace _ hs

theorem startingPlace?_eq_none_iff : startingPlace? t = none ↔
    ∀ kind name, name ≠ [] → backslash ∉ name → ¬ placeholder kind name <+: t := by
  constructor
  · rintro h kind name hn hb ⟨after, rfl⟩
    have hsome := isSome_startingPlace? kind hn hb after
    rw [h] at hsome
    cases hsome
  · intro h
    cases hp : startingPlace? t with
    | none => rfl
    | some place =>
        obtain ⟨hn, hb⟩ := name_of_startingPlace? hp
        obtain ⟨after, ha⟩ := eq_of_startingPlace? hp
        exact absurd ⟨after, ha.symm⟩ (h _ _ hn hb)

/-- What begins with a sign does not begin in a text without it. -/
theorem infix_of_infix_append {a : UInt8} {u s t : Text} (ha : a ∉ s) (h : a :: u <:+: s ++ t) : a :: u <:+: t := by
  induction s with
  | nil => exact h
  | cons b s ih =>
      rw [List.mem_cons, not_or] at ha
      rcases List.infix_cons_iff.mp h with h | h
      · exact absurd (List.cons_prefix_cons.mp h).1 ha.1
      · exact ih ha.2 h

theorem placeholder_infix_of_append {s : Text} (hs : openParen ∉ s) (h : placeholder kind name <:+: s ++ t) :
    placeholder kind name <:+: t := by
  obtain ⟨inner, hi⟩ := placeholder_eq kind name
  rw [hi] at h ⊢
  exact infix_of_infix_append hs h

theorem placeholder_infix_of_cons {b : UInt8} (hb : b ≠ openParen) (h : placeholder kind name <:+: b :: t) :
    placeholder kind name <:+: t :=
  placeholder_infix_of_append (s := [b]) (by simpa using hb.symm) h

/-- No place begins where a group does that captures nothing. -/
theorem placeholder_infix_of_group (h : placeholder kind name <:+: "(?:" ++ t) :
    placeholder kind name <:+: t := by
  obtain ⟨inner, hi⟩ := placeholder_eq kind name
  rcases List.infix_cons_iff.mp h with h | h
  · rw [hi] at h
    exact absurd (List.cons_prefix_cons.mp (List.cons_prefix_cons.mp
      (List.cons_prefix_cons.mp h).2).2).1 (by decide)
  · exact placeholder_infix_of_append (s := "?:") (by decide) h

/-- What begins in front of a sign that it does not hold ends there. -/
theorem prefix_of_prefix_append_cons {a : UInt8} {u s t : Text} (ha : a ∉ u) (h : u <+: s ++ a :: t) : u <+: s := by
  induction s generalizing u with
  | nil =>
      rcases List.prefix_cons_iff.mp h with rfl | ⟨u, rfl, -⟩
      · exact List.nil_prefix
      · exact absurd List.mem_cons_self ha
  | cons b s ih =>
      rcases List.prefix_cons_iff.mp h with rfl | ⟨u, rfl, hu⟩
      · exact List.nil_prefix
      · exact List.cons_prefix_cons.mpr ⟨rfl, ih (fun hm => ha (List.mem_cons_of_mem _ hm)) hu⟩

/-- A place stands on one side of a backslash. -/
theorem Placeless.append_backslash {s : Text} (hs : Placeless s) (ht : Placeless t) :
    Placeless (s ++ backslash :: t) := by
  intro kind name hn hb h
  induction s with
  | nil => exact ht kind name hn hb (placeholder_infix_of_cons (by decide) h)
  | cons b s ih =>
      rcases List.infix_cons_iff.mp h with h | h
      · have hp := prefix_of_prefix_append_cons (s := b :: s) (backslash_notMem_placeholder hb) h
        exact hs kind name hn hb hp.isInfix
      · exact ih (hs.of_infix (List.suffix_cons b s).isInfix) h

end

/-! ## What is filled in -/

theorem startingPlace?_of_regexPiecesAfter {skipped : Nat} {before after : List RegexPiece} {b : UInt8} {t : Text}
    (h : regexPiecesAfter skipped t = before ++ .byte b :: after) :
    startingPlace? (b :: piecesText after) = none := by
  induction t generalizing skipped before with
  | nil => simp [regexPiecesAfter] at h
  | cons c rest ih =>
      cases skipped with
      | succ skipped => exact ih h
      | zero =>
          rw [regexPiecesAfter] at h
          cases hp : startingPlace? (c :: rest) with
          | some place =>
              -- the place is the first piece, and the byte comes later
              rw [hp] at h
              cases before with
              | nil => cases h
              | cons piece before => exact ih (List.cons.inj h).2
          | none =>
              rw [hp] at h
              cases before with
              | cons piece before => exact ih (List.cons.inj h).2
              | nil =>
                  cases h
                  rwa [piecesText_regexPiecesAfter, List.drop_zero]

/-- No place begins with a byte that the resolver keeps. -/
theorem startingPlace?_of_regexPieces {before after : List RegexPiece} {b : UInt8} {t : Text}
    (h : regexPieces t = before ++ .byte b :: after) : startingPlace? (b :: piecesText after) = none :=
  startingPlace?_of_regexPiecesAfter h

/-- Up to the first backslash the references may be filled in or not. -/
theorem prefix_piecesText_of_prefix_written {number : Text → Int} {u : Text} (pieces : List RegexPiece)
    (hu : backslash ∉ u) (h : u <+: written number pieces) : u <+: piecesText pieces := by
  induction pieces generalizing u with
  | nil => exact h
  | cons piece rest ih =>
      cases piece with
      | byte b =>
          rw [written] at h
          rcases List.prefix_cons_iff.mp h with rfl | ⟨u, rfl, hr⟩
          · exact List.nil_prefix
          · exact List.cons_prefix_cons.mpr ⟨rfl, ih (fun hm => hu (List.mem_cons_of_mem _ hm)) hr⟩
      | place kind name =>
          have hw : ∃ more, written number (.place kind name :: rest) = backslash :: more := by
            cases kind <;> exact ⟨_, rfl⟩
          obtain ⟨more, hw⟩ := hw
          rw [hw] at h
          rw [List.prefix_nil.mp (prefix_of_prefix_append_cons (s := []) hu h)]
          exact List.nil_prefix

theorem placeholder_infix_of_render {kind other : ReferenceKind} {name t : Text} {number : Int} {digit : Bool}
    (h : placeholder kind name <:+: other.render number digit ++ t) : placeholder kind name <:+: t := by
  have hn : openParen ∉ Text.ofInt number := Text.notMem_ofInt (by decide) (by decide)
  have hb : openParen ∉ ("\\" : Text) := by decide
  have hg : openParen ∉ ("\\g<" : Text) := by decide
  have he : openParen ∉ (">" : Text) := by decide
  cases other with
  | subroutine => exact placeholder_infix_of_append (by simp [ReferenceKind.render, hn, hg, he]) h
  | backReference =>
      rw [ReferenceKind.render, List.append_assoc] at h
      have hr := placeholder_infix_of_append (by simp [hn, hb]) h
      cases digit with
      | false => exact hr
      | true => exact placeholder_infix_of_append (s := ")") (by decide) (placeholder_infix_of_group hr)

theorem written_of_referencesIn_eq_nil {number : Text → Int} {pieces : List RegexPiece}
    (h : referencesIn pieces = []) : written number pieces = piecesText pieces := by
  induction pieces with
  | nil => rfl
  | cons piece rest ih =>
      cases piece with
      | byte b => exact congrArg (b :: ·) (ih h)
      | place kind name => cases h

/-- A parenthesis behind an expression is no digit, so it changes nothing before it. -/
theorem written_append_closeParen (number : Text → Int) (pieces : List RegexPiece) :
    written number (pieces ++ keep ")") = written number pieces ++ ")" := by
  induction pieces with
  | nil => rfl
  | cons piece rest ih =>
      have hdigit : (piecesText (rest ++ keep ")")).head?.any Text.isDigit =
          (piecesText rest).head?.any Text.isDigit := by
        rw [piecesText_append, piecesText_keep]
        cases piecesText rest <;> rfl
      cases piece with
      | byte b => exact congrArg (b :: ·) ih
      | place kind name =>
          cases kind with
          | backReference => simp only [List.cons_append, written, ih, hdigit, List.append_assoc]
          | subroutine => simp only [List.cons_append, written, ih, List.append_assoc]

/-- Where all references are filled in, no place is left. -/
theorem placeless_written (number : Text → Int) (t : Text) : Placeless (written number (regexPieces t)) := by
  intro kind name hn hb
  have hall (after : List RegexPiece) :
      ∀ before, regexPieces t = before ++ after → ¬ placeholder kind name <:+: written number after := by
    induction after with
    | nil =>
        obtain ⟨inner, hi⟩ := placeholder_eq kind name
        simp [written, hi]
    | cons piece rest ih =>
        intro before ha h
        have hrest := ih (before ++ [piece]) (by simp [ha])
        cases piece with
        | byte b =>
            rcases List.infix_cons_iff.mp h with h | h
            · -- the place would have stood in the text itself
              have hp := prefix_piecesText_of_prefix_written (.byte b :: rest) (backslash_notMem_placeholder hb) h
              exact startingPlace?_eq_none_iff.mp (startingPlace?_of_regexPieces ha) kind name hn hb hp
            · exact hrest h
        | place other name =>
            rw [written_place] at h
            exact hrest (placeholder_infix_of_render h)
  exact hall _ [] rfl

end PatternGrammar
