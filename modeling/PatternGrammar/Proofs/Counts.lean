import PatternGrammar.Proofs.Repetition

/-!
# The quantifier says what is asked for

The text of a quantifier can be read in one way only, and what is read are the counts and the mode that the
options ask for. So two nodes have the same quantifier exactly if they ask for the same.
-/

namespace PatternGrammar

/-! ## Reading a quantifier -/

/-- How often something is to stand. Of exactly one there is no mode to choose it in. -/
structure Repetition where
  least : Nat
  most : Option Nat
  mode : Option Greediness
  deriving DecidableEq, Repr

/-- The text, behind an atom, repeats the atom in this way. -/
inductive IsQuantifier : Text → Repetition → Prop where
  | once : IsQuantifier "" ⟨1, some 1, none⟩
  | counted {bounds : Text} {least : Nat} {most : Option Nat} (mode : Greediness) :
      IsBounds bounds least most → IsQuantifier (bounds ++ mode.text) ⟨least, most, some mode⟩

theorem IsBounds.ne_nil {t : Text} {least : Nat} {most : Option Nat} (h : IsBounds t least most) : t ≠ [] := by
  obtain ⟨b, rest, rfl, -⟩ := h.begins
  exact List.cons_ne_nil b rest

/-- A sign of a mode is never taken for part of the bounds before it. -/
theorem IsQuantifier.unique {t : Text} {r r' : Repetition} (h : IsQuantifier t r) (h' : IsQuantifier t r') :
    r = r' := by
  have hend : Level.factor.Stops [] := fun _ hb => by cases hb
  generalize ht : t = u at h'
  cases h with
  | once =>
      cases h' with
      | once => rfl
      | counted mode hb => exact absurd (List.append_eq_nil_iff.mp ht.symm).1 hb.ne_nil
  | counted mode hb =>
      cases h' with
      | once => exact absurd (List.append_eq_nil_iff.mp ht).1 hb.ne_nil
      | counted mode' hb' =>
          obtain ⟨rfl, rfl, rfl⟩ := hb.unique hb' ht
          have hm : mode.text ++ [] = mode'.text ++ [] := congrArg (· ++ []) (List.append_cancel_left ht)
          rw [Greediness.unique hend hend hm]

/-! ## What options ask for -/

/-- The counts that options ask for: at least so many, and at most so many if there is a limit. An exact count
overrides the bounds, one bound alone has one below it and no limit above, and no bound at all means exactly one. -/
def Options.counts (o : Options) : Int × Option Int :=
  match o.howManyTimes, o.atLeast, o.atMost with
  | some n, _, _ => (n, some n)
  | none, none, none => (1, some 1)
  | none, least, most => (least.getD 1, most)

/-- The repetition is the one that the options ask for. -/
structure Repetition.Meets (r : Repetition) (o : Options) : Prop where
  least : (r.least : Int) = o.counts.1
  most : r.most.map Int.ofNat = o.counts.2
  mode : r.mode = if o.counts = (1, some 1) then none else some o.greediness

theorem Quantity.counts_eq (o : Options) :
    o.counts = if (requested o).isSet then ((requested o).lower, (requested o).atMost) else (1, some 1) := by
  unfold Options.counts requested
  cases o.howManyTimes with
  | some n => rfl
  | none => cases o.atLeast <;> cases o.atMost <;> rfl

theorem Quantity.repeats_requested (o : Options) : (requested o).repeats = true ↔ o.counts ≠ (1, some 1) := by
  rw [counts_eq, repeats]
  cases (requested o).isSet with
  | false => simp
  | true => simp [imp_iff_not_or]

theorem Quantity.counts_of_repeats {o : Options} (h : (requested o).repeats = true) :
    o.counts = ((requested o).lower, (requested o).atMost) := by
  have hs : (requested o).isSet = true := by
    simp only [repeats, Bool.and_eq_true] at h
    exact h.1
  rw [counts_eq, if_pos hs]

/-! ## What is written -/

variable {o o' : Options} {allowed allowed' : Bool} {q q' : Quantity}

namespace Quantity

theorem hasNegative_of_resolve (h : resolve o allowed = .ok q) (hr : q.repeats = true) : q.hasNegative = false := by
  simp only [repeats, Bool.and_eq_true] at hr
  exact ((resolve_eq_ok h).2 hr.1).2.1

theorem quantifier_of_repeats (h : resolve o allowed = .ok q) (hr : q.repeats = true) :
    IsBounds q.boundsText q.lower.toNat (q.atMost.map Int.toNat) ∧
      q.quantifier o.dontBackTrack o.asFewAsPossible = q.boundsText ++ o.greediness.text := by
  have hb := q.isBounds_boundsText (hasNegative_of_resolve h hr) hr
  exact ⟨hb, q.quantifier_eq o hb.ne_nil⟩

/-- The text of the quantifier is read as the repetition that the options ask for. -/
theorem exists_isQuantifier (h : resolve o allowed = .ok q) :
    ∃ r : Repetition, r.Meets o ∧ IsQuantifier (q.quantifier o.dontBackTrack o.asFewAsPossible) r := by
  obtain rfl := eq_requested_of_resolve h
  cases hr : (requested o).repeats with
  | false =>
      have hc : o.counts = (1, some 1) := by
        by_contra hc
        exact absurd ((repeats_requested o).mpr hc) (by simp [hr])
      refine ⟨⟨1, some 1, none⟩, ⟨by rw [hc]; rfl, by rw [hc]; rfl, by rw [if_pos hc]⟩, ?_⟩
      rw [quantifier_eq_nil hr]
      exact .once
  | true =>
      obtain ⟨hb, hq⟩ := quantifier_of_repeats h hr
      obtain ⟨hl, hm⟩ := (requested o).nonneg_of_hasNegative (hasNegative_of_resolve h hr)
      have hc := counts_of_repeats hr
      refine ⟨⟨(requested o).lower.toNat, (requested o).atMost.map Int.toNat, some o.greediness⟩, ⟨?_, ?_, ?_⟩, ?_⟩
      · rw [hc]
        exact Int.toNat_of_nonneg hl
      · rw [hc, Option.map_map]
        cases hmost : (requested o).atMost with
        | none => rfl
        | some most => exact congrArg some (Int.toNat_of_nonneg (hm most hmost))
      · rw [if_neg ((repeats_requested o).mp hr)]
      · rw [hq]
        exact .counted o.greediness hb

theorem boundsText_congr (hs : q.isSet = q'.isSet) (hl : q.lower = q'.lower) (hm : q.atMost = q'.atMost) :
    q.boundsText = q'.boundsText := by
  rw [boundsText, boundsText, hs, hl, hm]

/-- What is asked for determines the text. -/
theorem quantifier_congr (h : resolve o allowed = .ok q) (h' : resolve o' allowed' = .ok q')
    (hc : o.counts = o'.counts) (hg : o.counts ≠ (1, some 1) → o.greediness = o'.greediness) :
    q.quantifier o.dontBackTrack o.asFewAsPossible = q'.quantifier o'.dontBackTrack o'.asFewAsPossible := by
  obtain rfl := eq_requested_of_resolve h
  obtain rfl := eq_requested_of_resolve h'
  have hrepeats : (requested o).repeats = (requested o').repeats := by
    rw [Bool.eq_iff_iff, repeats_requested, repeats_requested, hc]
  cases hr : (requested o).repeats with
  | false => rw [quantifier_eq_nil hr, quantifier_eq_nil (hrepeats ▸ hr)]
  | true =>
      have hr' : (requested o').repeats = true := hrepeats ▸ hr
      obtain ⟨hl, hm⟩ := Prod.mk.inj ((counts_of_repeats hr).symm.trans (hc.trans (counts_of_repeats hr')))
      have hs : (requested o).isSet = (requested o').isSet := by
        simp only [repeats, Bool.and_eq_true] at hr hr'
        rw [hr.1, hr'.1]
      rw [(quantifier_of_repeats h hr).2, (quantifier_of_repeats h' hr').2, boundsText_congr hs hl hm,
        hg ((repeats_requested o).mp hr)]

end Quantity

theorem Repetition.Meets.counts_eq {r : Repetition} (h : r.Meets o) (h' : r.Meets o') : o.counts = o'.counts :=
  Prod.ext (h.least.symm.trans h'.least) (h.most.symm.trans h'.most)

theorem Repetition.Meets.greediness_eq {r : Repetition} (h : r.Meets o) (h' : r.Meets o')
    (hc : o.counts ≠ (1, some 1)) : o.greediness = o'.greediness := by
  have hm := h.mode.symm.trans h'.mode
  rwa [← h.counts_eq h', if_neg hc, if_neg hc, Option.some.injEq] at hm

/-- The quantifier of options that are accepted has exactly one reading, which is what they ask for: their
counts, and unless these are exactly one their mode. Two such quantifiers are the same text exactly if the same
is asked for. -/
theorem Quantity.quantifier_decodes (h : resolve o allowed = .ok q) :
    (∃ r : Repetition, r.Meets o ∧
        ∀ s, IsQuantifier (q.quantifier o.dontBackTrack o.asFewAsPossible) s ↔ s = r) ∧
      ∀ {o' : Options} {allowed' : Bool} {q' : Quantity}, resolve o' allowed' = .ok q' →
        (q.quantifier o.dontBackTrack o.asFewAsPossible = q'.quantifier o'.dontBackTrack o'.asFewAsPossible ↔
          o.counts = o'.counts ∧ (o.counts ≠ (1, some 1) → o.greediness = o'.greediness)) := by
  obtain ⟨r, hr, hq⟩ := exists_isQuantifier h
  refine ⟨⟨r, hr, fun s => ⟨fun hs => hs.unique hq, fun hs => hs ▸ hq⟩⟩, fun h' => ⟨fun he => ?_, fun hc => ?_⟩⟩
  · obtain ⟨r', hr', hq'⟩ := exists_isQuantifier h'
    obtain rfl : r = r' := hq.unique (he ▸ hq')
    exact ⟨hr.counts_eq hr', hr.greediness_eq hr'⟩
  · exact quantifier_congr h h' hc.1 hc.2

/-- At least one without backtracking; a plus sign stands for the count and another one for the mode. -/
def possessiveOneOrMore : Options := { atLeast := some 1, dontBackTrack := true }

/-- A lower bound given as zero and a limit of one, as few as possible. -/
def lazyOptional : Options := { atLeast := some 0, atMost := some 1, asFewAsPossible := true }

theorem possessiveOneOrMore_decodes :
    Quantity.resolve possessiveOneOrMore true = .ok ⟨some 1, none⟩ ∧
      Quantity.resolve lazyOptional true = .ok ⟨some 0, some 1⟩ ∧
      (∀ s, IsQuantifier "++" s ↔ s = ⟨1, none, some .possessive⟩) ∧
      ("++" : Text) ≠ Quantity.quantifier ⟨some 0, some 1⟩ false true := by
  have h : Quantity.resolve possessiveOneOrMore true = .ok ⟨some 1, none⟩ := rfl
  have h' : Quantity.resolve lazyOptional true = .ok ⟨some 0, some 1⟩ := rfl
  obtain ⟨⟨r, -, hr⟩, hsame⟩ := Quantity.quantifier_decodes h
  have hq : IsQuantifier "++" ⟨1, none, some .possessive⟩ := .counted .possessive .plus
  refine ⟨h, h', fun s => ?_, fun he => ?_⟩
  · rw [(hr _).mp hq]
    exact hr s
  · exact absurd ((hsame h').mp he).1 (by decide)

end PatternGrammar
