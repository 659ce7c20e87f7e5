import PatternGrammar.Proofs.EmptyMembers
import PatternGrammar.Proofs.TagNumbers

/-!
# One pass fills in everything

References are filled in from left to right, and so are the numbers of a tag. In an expression a backslash begins
what is written, and no place holds one, so nothing that was kept before it becomes a place. In a tag a dollar begins
what is written, which no place holds before its name, and no parenthesis is among it, so an opening that stood
without a name is given none. The outcome therefore holds no place, and a second pass leaves it as it is, with any
groups. The texts that a pass leaves as they are are those without places.
-/

namespace PatternGrammar

open Ascii

/-! ## References -/

section
variable {groups : List Group} {t r : Text}

theorem Placeless.regexPieces_eq (h : Placeless t) : regexPieces t = keep t := by
  induction t with
  | nil => rfl
  | cons b t ih =>
      have hs : startingPlace? (b :: t) = none :=
        startingPlace?_eq_none_iff.mpr fun kind name hn hb hp => h kind name hn hb hp.isInfix
      rw [regexPieces, regexPiecesAfter, hs]
      exact congrArg _ (ih (h.of_infix (List.suffix_cons b t).isInfix))

theorem placeless_of_resolveReferences (h : resolveReferences groups t = .ok r) : Placeless r := by
  rw [resolveReferences, fillPieces_eq_written] at h
  split at h
  · cases h
  · cases h
    exact placeless_written _ t

/-- An expression is left as it is just when it has no place, whatever the groups are. -/
theorem resolveReferences_eq_self_iff : resolveReferences groups t = .ok t ↔ Placeless t := by
  refine ⟨placeless_of_resolveReferences, fun h => ?_⟩
  rw [resolveReferences, h.regexPieces_eq, fillPieces_eq, fillBefore_keep]

/-- The references of an expression are filled in at once: in the outcome no place is left and none has come
together, whatever stood between the places, and filling in once more changes nothing and misses no group. -/
theorem references_filled_in_once (groups : List Group) {t r : Text} (h : resolveReferences groups t = .ok r) :
    Placeless r ∧ ∀ others, resolveReferences others r = .ok r := by
  have hr := placeless_of_resolveReferences h
  exact ⟨hr, fun _ => resolveReferences_eq_self_iff.mpr hr⟩

/-- A group with the beginning of a place as its name, and a group with a plain name. -/
def placeAsName : List Group :=
  [{ number := 4, reference := some "(?#[:subroutine:x" }, { number := 2, reference := some "x" }]

/-- A place within a place, a beginning that goes on behind it, and a place next to that. -/
theorem placeAsName_filled_in :
    resolveReferences placeAsName
        "(?#[:sub(?#[:backreference:(?#[:subroutine:x:])7routine:x:])(?#[:subroutine:x:])" =
      .ok "(?#[:sub\\4(?:)7routine:x:])\\g<2>" ∧
      Placeless "(?#[:sub\\4(?:)7routine:x:])\\g<2>" ∧
      resolveReferences [] "(?#[:sub\\4(?:)7routine:x:])\\g<2>" = .ok "(?#[:sub\\4(?:)7routine:x:])\\g<2>" := by
  have hr : resolveReferences placeAsName
      "(?#[:sub(?#[:backreference:(?#[:subroutine:x:])7routine:x:])(?#[:subroutine:x:])" =
    .ok "(?#[:sub\\4(?:)7routine:x:])\\g<2>" := rfl
  obtain ⟨hplaceless, hsame⟩ := references_filled_in_once placeAsName hr
  exact ⟨hr, hplaceless, hsame []⟩

end

/-! ## Numbers of a tag -/

section
variable {groups : List Group} {own : Int} {pieces : List TagPiece} {piece : TagPiece} {t u v : Text}

theorem asksForNumber_iff : AsksForNumber t ↔ ∃ piece : TagPiece, piece.IsPlace ∧ piece.text <:+: t := by
  constructor
  · rintro (h | ⟨name, hn, hc, h⟩)
    · exact ⟨_, .ownNumber, h⟩
    · exact ⟨_, .numberOf hn hc, h⟩
  · rintro ⟨_, _ | ⟨hn, hc⟩, h⟩
    · exact .inl h
    · exact .inr ⟨_, hn, hc, h⟩

/-- What a tag begins with up to the first dollar, it begins with when the numbers are there. -/
theorem prefix_fillTagPieces_iff (hu : dollar ∉ u) (h : fillTagPieces groups own pieces = .ok v) :
    u <+: v ↔ u <+: tagText pieces := by
  have hstart (s : Text) : u <+: s ↔ u <+: s.takeWhile (· ≠ dollar) := by
    refine ⟨?_, fun h => h.trans (List.takeWhile_prefix _)⟩
    rintro ⟨after, rfl⟩
    rw [List.takeWhile_append_of_pos fun b hb => by simpa using ne_of_mem_of_not_mem hb hu]
    exact List.prefix_append _ _
  rw [hstart v, hstart (tagText pieces), takeWhile_fillTagPieces (by decide) h]

/-- With the numbers no closing parenthesis is written. -/
theorem closeParen_mem_tagText (h : fillTagPieces groups own pieces = .ok v) (hc : closeParen ∈ v) :
    closeParen ∈ tagText pieces := by
  induction pieces generalizing v with
  | nil =>
      cases h
      cases hc
  | cons piece pieces ih =>
      rw [tagText_cons, List.mem_append]
      by_cases hp : ∃ c, piece = .byte c
      · obtain ⟨c, rfl⟩ := hp
        obtain ⟨u, hu, hv⟩ := Except.bind_eq_ok.mp h
        cases hv
        exact (List.mem_cons.mp hc).imp List.mem_singleton.mpr (ih hu)
      · obtain ⟨number, u, -, hu, rfl⟩ := fillTagPieces_place (not_exists.mp hp) h
        have hn : closeParen ∉ dollar :: Text.ofInt number :=
          List.not_mem_cons_of_ne_of_not_mem (by decide) (Text.notMem_ofInt (by decide) (by decide))
        exact .inr (ih hu ((List.mem_append.mp hc).resolve_left hn))

/-- A name that is ended when the numbers are there was ended before, if perhaps as a longer one. -/
theorem exists_name_of_fillTagPieces {opening name : Text} (hd : dollar ∉ opening) (ho : closeParen ∉ opening)
    (hn : name ≠ []) (hc : closeParen ∉ name) (hv : fillTagPieces groups own pieces = .ok v)
    (h : opening ++ (name ++ [closeParen]) <+: v) :
    ∃ other, other ≠ [] ∧ closeParen ∉ other ∧ opening ++ (other ++ [closeParen]) <+: tagText pieces := by
  have hopen : opening <+: tagText pieces :=
    (prefix_fillTagPieces_iff hd hv).mp ((List.prefix_append _ _).trans h)
  obtain ⟨s, hs⟩ := hopen
  have hclosed : closeParen ∈ s := by
    have hm := closeParen_mem_tagText hv (h.subset (by simp))
    rw [← hs] at hm
    exact (List.mem_append.mp hm).resolve_left ho
  obtain ⟨other, after, rfl, hother⟩ := List.eq_append_cons_of_mem hclosed
  refine ⟨other, ?_, hother, after, ?_⟩
  · -- an opening that is closed at once stays so, and no name stands behind it
    rintro rfl
    have hempty : opening ++ [closeParen] <+: v := by
      refine (prefix_fillTagPieces_iff ?_ hv).mpr ⟨after, ?_⟩
      · rw [List.mem_append, not_or]
        exact ⟨hd, by decide⟩
      · rw [← hs, List.append_assoc]
        rfl
    obtain ⟨b, name, rfl⟩ := List.exists_cons_of_ne_nil hn
    have hsame := List.prefix_of_prefix_length_le hempty h (by simp)
    rw [List.prefix_append_right_inj] at hsame
    exact hc ((List.cons_prefix_cons.mp hsame).1 ▸ List.mem_cons_self)
  · rw [← hs, List.append_assoc, List.append_assoc]
    rfl

/-- No place begins with a byte that was kept. -/
theorem startingNumber?_of_fillTagPieces {b : UInt8} (hb : startingNumber? (b :: tagText pieces) = none)
    (hv : fillTagPieces groups own pieces = .ok v) : startingNumber? (b :: v) = none := by
  rw [startingNumber?_eq_none_iff] at hb ⊢
  intro piece hp hpre
  cases hp with
  | ownNumber =>
      obtain ⟨hd, hm⟩ := List.cons_prefix_cons.mp hpre
      refine hb _ .ownNumber (List.cons_prefix_cons.mpr ⟨hd, ?_⟩)
      exact (prefix_fillTagPieces_iff (by decide) hv).mp hm
  | @numberOf name hn hc =>
      have hopening : dollar ∉ ("reference(" : Text) ∧ closeParen ∉ ("reference(" : Text) := by decide
      rw [TagPiece.text, List.append_assoc] at hpre
      obtain ⟨hd, hm⟩ := List.cons_prefix_cons.mp hpre
      obtain ⟨other, hother, hco, hpre⟩ := exists_name_of_fillTagPieces hopening.1 hopening.2 hn hc hv hm
      refine hb _ (.numberOf hother hco) ?_
      rw [TagPiece.text, List.append_assoc]
      exact List.cons_prefix_cons.mpr ⟨hd, hpre⟩

/-- No place begins with the dollar of a number: a letter would have to follow. -/
theorem TagPiece.IsPlace.not_prefix_number (hp : piece.IsPlace) (number : Int) (t : Text) :
    ¬ piece.text <+: dollar :: (Text.ofInt number ++ t) := by
  obtain ⟨letter, inner, hl, hd, hm⟩ : ∃ letter inner, piece.text = dollar :: letter :: inner ∧
      Text.isDigit letter = false ∧ letter ≠ minus := by
    cases hp <;> exact ⟨_, _, rfl, by decide, by decide⟩
  obtain ⟨sign, more, hn⟩ := List.exists_cons_of_ne_nil (Text.ofInt_ne_nil number)
  have hsign : sign ∈ Text.ofInt number := hn ▸ List.mem_cons_self
  rw [hl, hn, List.cons_append, List.cons_prefix_cons, List.cons_prefix_cons]
  rintro ⟨-, rfl, -⟩
  exact Text.notMem_ofInt hd hm hsign

theorem TagCut.holds_no_place (hc : TagCut t pieces) (hv : fillTagPieces groups own pieces = .ok v)
    (hp : piece.IsPlace) : ¬ piece.text <:+: v := by
  induction hc generalizing v with
  | nil =>
      cases hv
      obtain ⟨inner, hi⟩ := hp.text_eq
      rw [hi, List.infix_nil]
      exact List.cons_ne_nil _ _
  | byte hb ht ih =>
      obtain ⟨u, hu, hr⟩ := Except.bind_eq_ok.mp hv
      cases hr
      rw [← ht.tagText_eq] at hb
      intro h
      rcases List.infix_cons_iff.mp h with h | h
      · exact startingNumber?_eq_none_iff.mp (startingNumber?_of_fillTagPieces hb hu) piece hp h
      · exact ih hu h
  | @place other t pieces ho _ ih =>
      have hbyte : ∀ c, other ≠ .byte c := by
        rintro c rfl
        cases ho
      obtain ⟨number, u, -, hu, rfl⟩ := fillTagPieces_place hbyte hv
      intro h
      rcases List.infix_cons_iff.mp h with h | h
      · exact hp.not_prefix_number number u h
      · obtain ⟨inner, hi⟩ := hp.text_eq
        rw [hi] at h
        have hbehind := infix_of_infix_append (Text.notMem_ofInt (by decide) (by decide)) h
        exact ih hu (hi ▸ hbehind)

theorem not_asksForNumber_of_resolveTag {tag r : Text} (h : resolveTag groups own tag = .ok r) :
    ¬ AsksForNumber r := by
  rw [asksForNumber_iff]
  rintro ⟨piece, hp, hi⟩
  exact (tagCut_tagPieces tag).holds_no_place h hp hi

/-- A tag is left as it is just when it asks for no number, whatever the groups are. -/
theorem resolveTag_eq_self_iff {tag : Text} : resolveTag groups own tag = .ok tag ↔ ¬ AsksForNumber tag :=
  ⟨not_asksForNumber_of_resolveTag, fun h => resolveTag_eq h groups own⟩

/-- The numbers of a tag are filled in at once: the outcome asks for none, in what was kept of the tag, in what was
written and across the two, and filling in once more changes nothing, for any group of any table. -/
theorem numbers_filled_in_once (groups : List Group) (own : Int) {tag r : Text}
    (h : resolveTag groups own tag = .ok r) :
    ¬ AsksForNumber r ∧ ∀ others other, resolveTag others other r = .ok r := by
  have hr := not_asksForNumber_of_resolveTag h
  exact ⟨hr, fun _ _ => resolveTag_eq_self_iff.mpr hr⟩

/-- A group with a place and a parenthesis in its name. -/
def matchAsName : List Group := [{ number := 12, reference := some "$match(" }]

/-- A place in the middle of another, an opening that is closed at once, a place within a name, and an opening that
is not closed. -/
theorem matchAsName_filled_in :
    resolveTag matchAsName 7 "$ma$matchtch.$reference()$reference($match()$$match$reference(x" =
      .ok "$ma$7tch.$reference()$12$$7$reference(x" ∧
      ¬ AsksForNumber "$ma$7tch.$reference()$12$$7$reference(x" ∧
      resolveTag [] 3 "$ma$7tch.$reference()$12$$7$reference(x" =
        .ok "$ma$7tch.$reference()$12$$7$reference(x" := by
  have hr : resolveTag matchAsName 7 "$ma$matchtch.$reference()$reference($match()$$match$reference(x" =
    .ok "$ma$7tch.$reference()$12$$7$reference(x" := rfl
  obtain ⟨hnone, hsame⟩ := numbers_filled_in_once matchAsName 7 hr
  exact ⟨hr, hnone, hsame [] 3⟩

end

/-! ## Rules -/

theorem Pattern.placeless_of_evaluate {p : Pattern} {t : Text} (h : p.evaluate = .ok t) : Placeless t := by
  obtain ⟨u, -, ht⟩ := Except.bind_eq_ok.mp h
  exact placeless_of_resolveReferences ht

theorem not_asksForNumber_of_mapM {groups : List Group} {own : Int} {tag : Option Text} {t : Text}
    (h : tag.mapM (resolveTag groups own) = .ok (some t)) : ¬ AsksForNumber t := by
  cases tag with
  | none => cases h
  | some tag =>
      obtain ⟨u, hu, ht⟩ := Except.bind_eq_ok.mp h
      cases ht
      exact not_asksForNumber_of_resolveTag hu

/-- A rule in the rule of a pattern is the rule of a pattern itself. -/
theorem Rule.Within.exists_toRule {r rule : Rule} (hr : r.Within rule) {p : Pattern} (h : p.toRule = .ok rule) :
    ∃ q : Pattern, q.toRule = .ok r := by
  induction hr generalizing p with
  | self => exact ⟨p, h⟩
  | @inside rule inner x hx hi _ ih =>
      obtain ⟨g, -, -, -, ht⟩ := ((Pattern.hasRule h).captures x.1 x.2).mp hx
      obtain ⟨entry, -, hs⟩ := ht.exists_include hi
      cases hs with
      | pattern hq => exact ih hq
      | @literal t _ => exact ih (literalRule_eq t)

/-- In the rule of a pattern everything is filled in, at any depth: no expression has a place for a reference left,
and neither the name of a rule nor that of a capture asks for a number. -/
theorem Pattern.toRule_filled_in {p : Pattern} {rule : Rule} (h : p.toRule = .ok rule) {r : Rule}
    (hr : r.Within rule) :
    Placeless r.expression ∧ (∀ t, r.name = some t → ¬ AsksForNumber t) ∧
      ∀ x ∈ r.captures, ∀ t, x.2.name = some t → ¬ AsksForNumber t := by
  obtain ⟨q, hq⟩ := hr.exists_toRule h
  have hrule := Pattern.hasRule hq
  refine ⟨Pattern.placeless_of_evaluate hrule.expression, fun t ht => ?_, fun x hx t ht => ?_⟩
  · exact not_asksForNumber_of_mapM (ht ▸ hrule.name)
  · obtain ⟨g, -, -, -, hname, -⟩ := (hrule.captures x.1 x.2).mp hx
    exact not_asksForNumber_of_mapM (ht ▸ hname)

end PatternGrammar
