import PatternGrammar.Proofs.RepeatedSingles
import PatternGrammar.Proofs.Units
import PatternGrammar.Proofs.WrappedGroups

/-!
# A quantifier binds a unit

A single item with a quantifier behind it is matched as if it had a group of its own, and so is a group. The expression
without the additional group takes no more room, so it compiles whenever the other one does.
-/

namespace PatternGrammar.Regex

/-! ## Extents -/

section
variable {one one' least bare unit : Nat} {most : Option Nat} {wraps : Bool} {times : Times}

theorem copiesExtent_mono (h : one ≤ one') :
    copiesExtent one least most wraps ≤ copiesExtent one' least most wraps := by
  have hcopies (count : Nat) : count * (one + 7) ≤ count * (one' + 7) :=
    Nat.mul_le_mul_left count (Nat.add_le_add_right h 7)
  have hleast := Nat.mul_le_mul_left least h
  unfold copiesExtent
  dsimp only
  split
  · rcases most with _ | _ | _ | m
    · simpa using h
    · simpa using h
    · simpa using h
    · have hmore := hcopies (m + 1)
      simp only [Nat.add_sub_cancel]
      omega
  · cases most with
    | none => simpa using hleast
    | some m =>
        have hmore := hcopies (m - least)
        dsimp only
        split <;> omega

/-- The copies take room for each one that has to be there, and more if there may be more of them. -/
theorem le_copiesExtent : least * one ≤ copiesExtent one least most wraps ∧
    (least = 0 → one + 1 ≤ copiesExtent one least most wraps) ∧
      (least = 1 → (∃ m ∈ most, 1 < m) → 2 * one + 1 ≤ copiesExtent one least most wraps) := by
  unfold copiesExtent
  dsimp only
  refine ⟨?_, ?_, ?_⟩
  · split
    · next h => simp [h]
    · omega
  · rintro rfl
    rw [if_pos rfl]
    split <;> omega
  · rintro rfl ⟨m, hm, hlt⟩
    obtain rfl := Option.mem_def.mp hm
    rw [if_neg Nat.one_ne_zero]
    dsimp only
    have hmul := Nat.mul_le_mul_right (one + 7) (show 1 ≤ m - 1 by omega)
    rw [if_neg (by omega)]
    omega

theorem groupExtent_plain (times : Times) : ∃ wraps, ∀ body one, groupExtent .plain body one times =
    if times.isOnce then one else copiesExtent one times.least times.most wraps := by
  cases hm : times.most with
  | none =>
      refine ⟨times.mode = .possessive && 1 < times.least, fun body one => ?_⟩
      simp [groupExtent, neverRuns, GroupKind.limit?, hm, GroupKind.unlimitedExtent]
  | some most =>
      refine ⟨times.mode = .possessive, fun body one => ?_⟩
      simp [groupExtent, neverRuns, GroupKind.limit?, hm]

theorem groupExtent_mono (body body' : Regex) (times : Times) (h : one ≤ one') :
    groupExtent .plain body one times ≤ groupExtent .plain body' one' times := by
  obtain ⟨wraps, hextent⟩ := groupExtent_plain times
  rw [hextent, hextent]
  split
  · exact h
  · exact copiesExtent_mono h

theorem repeatedExtent_le (hu : unit ≤ bare) (ht : times.isOrdered) : repeatedExtent bare unit times ≤ bare + 3 ∨
    2 ≤ times.least ∧ repeatedExtent bare unit times ≤ 2 * bare + 6 ∨
      times.least = 1 ∧ (∃ m ∈ times.most, 1 < m) ∧ repeatedExtent bare unit times ≤ 2 * bare + 3 := by
  obtain ⟨least, most, mode⟩ := times
  have hbeyond (rest : Nat) : (if rest = 0 then 0 else if rest = 1 then 1 + unit else 3 + unit) ≤ 3 + unit := by
    split_ifs <;> omega
  rcases least with _ | _ | least
  · refine .inl ?_
    rcases most with _ | _ | _ | most <;> simp only [repeatedExtent] <;> omega
  · rcases most with _ | _ | _ | most
    · exact .inl (by simp only [repeatedExtent]; omega)
    · simp [Times.isOrdered] at ht
    · exact .inl (by simp only [repeatedExtent]; omega)
    · exact .inr (.inr ⟨rfl, ⟨most + 1 + 1, rfl, by omega⟩, by simp only [repeatedExtent]; omega⟩)
  · refine .inr (.inl ⟨by simp, ?_⟩)
    cases most with
    | none => simp only [repeatedExtent]; omega
    | some most =>
        have hle := hbeyond (most - (least + 1 + 1))
        simp only [repeatedExtent]
        omega

/-- How much room a repeated single item takes. -/
theorem Single.extent_le (x : Single) (ht : times.isOrdered) : x.extent times ≤ x.extent {} + 5 ∨
    2 ≤ times.least ∧ x.extent times ≤ 2 * x.extent {} + 6 ∨
      times.least = 1 ∧ (∃ m ∈ times.most, 1 < m) ∧ x.extent times ≤ 2 * x.extent {} + 9 := by
  have hwrap : wrapExtent times = 0 ∨ times.least = 1 ∧ (∃ m ∈ times.most, 1 < m) ∧ wrapExtent times ≤ 6 := by
    unfold wrapExtent
    split
    · next h =>
        simp only [Bool.and_eq_true, decide_eq_true_eq] at h
        exact .inr ⟨h.1.2, by cases hm : times.most <;> simp_all, Nat.le_refl _⟩
    · exact .inl rfl
  have hrepeated {bare unit : Nat} (hu : unit ≤ bare) (extra : Nat)
      (he : extra = 0 ∨ times.least = 1 ∧ (∃ m ∈ times.most, 1 < m) ∧ extra ≤ 6) :
      repeatedExtent bare unit times + extra ≤ bare + 5 ∨
        2 ≤ times.least ∧ repeatedExtent bare unit times + extra ≤ 2 * bare + 6 ∨
          times.least = 1 ∧ (∃ m ∈ times.most, 1 < m) ∧ repeatedExtent bare unit times + extra ≤ 2 * bare + 9 := by
    have hle := repeatedExtent_le hu ht
    grind
  cases x with
  | literal c | notLiteral c => exact hrepeated (Nat.le_add_left _ 1) 0 (.inl rfl)
  | oneOf | property => exact hrepeated (Nat.le_refl 3) _ hwrap
  | set chars =>
      have hsuffix : suffixExtent times ≤ 5 := by
        unfold suffixExtent
        split <;> omega
      exact .inl (Nat.add_le_add_left hsuffix _)
  | kind | notNewline | any | byte | newline | cluster => exact hrepeated (Nat.le_refl 1) _ hwrap

end

section
variable {v : Surveyor} {place : Standing} {total n : Nat} {times : Times} {body : Regex} {x : Single}

/-- A single item takes no more room than a group that holds it, however often it is repeated. -/
theorem Single.extent_le_groupExtent (x : Single) (body : Regex) (ht : times.isOrdered) :
    x.extent times ≤ groupExtent .plain body (frameExtent + x.extent {}) times := by
  obtain ⟨wraps, hextent⟩ := groupExtent_plain times
  have hframe : frameExtent = 6 := rfl
  have hle := x.extent_le ht
  rw [hextent, hframe]
  split
  · next honce =>
      simp only [Times.isOnce, Bool.and_eq_true, decide_eq_true_eq] at honce
      obtain ⟨⟨hleast, hmost⟩, -⟩ := honce
      rcases hle with hle | ⟨htwo, -⟩ | ⟨-, ⟨m, hm, hlt⟩, -⟩
      · omega
      · omega
      · rw [hmost, Option.mem_def, Option.some.injEq] at hm
        omega
  · obtain ⟨hfixed, hnone, hmore⟩ := @le_copiesExtent (6 + x.extent {}) times.least times.most wraps
    rcases hle with hle | ⟨htwo, hle⟩ | ⟨hone, hm, hle⟩
    · rcases Nat.eq_zero_or_pos times.least with hleast | hleast
      · have hroom := hnone hleast
        omega
      · have hroom := Nat.mul_le_mul_right (6 + x.extent {}) hleast
        omega
    · have hroom := Nat.mul_le_mul_right (6 + x.extent {}) htwo
      omega
    · have hroom := hmore hone hm
      omega

theorem survey_group_stop : v.survey place [] total (.group .plain body times .stop) = .ok n ↔
    total ≤ maxExtent ∧ n ≤ maxExtent ∧ ∃ one, v.survey place [] frameExtent body = .ok one ∧
      n = total + groupExtent .plain body one times := by
  have hfailure : isFailure .plain body times = false := by cases body <;> rfl
  simp only [Surveyor.survey, Except.bind_eq_ok, check_eq_ok, hfailure, Bool.false_eq_true, if_false]
  constructor
  · rintro ⟨_, hc, _, ⟨⟩, one, hone, _, hn, ⟨⟩⟩
    exact ⟨hc, hn, one, hone, rfl⟩
  · rintro ⟨hc, hn, one, hone, rfl⟩
    exact ⟨(), hc, 0, rfl, one, hone, (), hn, rfl⟩

theorem survey_single_stop : v.survey place [] total (.item (.single x) times .stop) = .ok n ↔
    total ≤ maxExtent ∧ n ≤ maxExtent ∧ n = total + x.extent times := by
  simp only [Surveyor.survey, Except.bind_eq_ok, check_eq_ok]
  constructor
  · rintro ⟨_, hc, _, ⟨⟩, _, hn, ⟨⟩⟩
    exact ⟨hc, hn, rfl⟩
  · rintro ⟨hc, hn, rfl⟩
    exact ⟨(), hc, _, rfl, (), hn, rfl⟩

theorem standsFor_single (x : Single) (ht : times.isOrdered) :
    (Regex.item (.single x) times .stop).StandsFor (.group .plain (.item (.single x) {} .stop) times .stop) where
  definitions _ _ := rfl
  measured m place := by simp [Measures.measureWithin]
  extent := by
    intro v place total n h
    obtain ⟨hc, hn, one, hone, rfl⟩ := survey_group_stop.mp h
    obtain ⟨-, -, rfl⟩ := survey_single_stop.mp hone
    have hle := x.extent_le_groupExtent (.item (.single x) {} .stop) ht
    exact ⟨total + x.extent times, by omega, survey_single_stop.mpr ⟨hc, by omega, rfl⟩⟩
  conditions _ := rfl

theorem standsFor_group (body : Regex) (times : Times) : (Regex.group .plain body times .stop).StandsFor
    (.group .plain (.group .plain body {} .stop) times .stop) where
  definitions _ _ := rfl
  measured m place := by simp [Measures.measureWithin]
  extent := by
    intro v place total n h
    obtain ⟨hc, hn, one, hone, rfl⟩ := survey_group_stop.mp h
    obtain ⟨-, -, one', hbody, rfl⟩ := survey_group_stop.mp hone
    have hmono := groupExtent_mono body (.group .plain body {} .stop) times (Nat.le_add_left one' frameExtent)
    have hbare : groupExtent .plain body one' {} = one' := rfl
    rw [hbare] at hn ⊢
    exact ⟨total + groupExtent .plain body one' times, by omega, survey_group_stop.mpr ⟨hc, by omega, one', hbody, rfl⟩⟩
  conditions h := by
    simp only [checkConditions, Except.bind_eq_ok] at h ⊢
    obtain ⟨_, ⟨_, hbody, -⟩, _, hb, hstop⟩ := h
    exact ⟨(), hbody, (), hb, hstop⟩

end

/-! ## Compiled expressions -/

/-- A quantifier behind such a piece binds nothing else: a single item that takes whole characters, or a regular group
that does nothing but hold its alternatives together. -/
inductive Piece.IsUnit : Piece → Prop where
  | single {x : Single} : x ≠ .byte → IsUnit (.item (.single x) {})
  | group {body : Regex} : body.isRegular → IsUnit (.group .plain body {})

namespace Piece.IsUnit

variable {p : Piece} {times : Times}

theorem standsFor (h : p.IsUnit) (ht : times.isOrdered) (anchored : Bool) :
    (p.repeatedIn anchored false times).StandsFor (p.repeatedIn anchored true times) := by
  cases h with
  | single => exact (standsFor_single _ ht).framed anchored
  | group => exact (standsFor_group _ times).framed anchored

theorem isRegular (h : p.IsUnit) (ht : times.isOrdered) (anchored wraps : Bool) :
    (p.repeatedIn anchored wraps times).isRegular := by
  have honce : ({} : Times).isOrdered := rfl
  have hframed {r : Regex} (hr : r.isRegular) : (framed anchored r).isRegular := by
    cases anchored with
    | false => exact hr
    | true => simp [framed, Regex.isRegular, hr, honce, Item.isRegular, GroupKind.isRegular]
  refine hframed ?_
  cases h with
  | single hx =>
      cases wraps <;> simp [groupedIf, quantified, repeated, ofPieces, before, Regex.isRegular, Item.isRegular,
        GroupKind.isRegular, hx, ht, honce]
  | group hb =>
      cases wraps <;> simp [groupedIf, quantified, repeated, ofPieces, before, Regex.isRegular, GroupKind.isRegular, hb,
        ht, honce]

/-- The repeated piece leads as far as the repeated group with the piece in it. -/
theorem equallyFar (h : p.IsUnit) (ht : times.isOrdered) (anchored : Bool) (groups : Groups)
    (widths : List (Nat × List Nat)) (settings : Settings) :
    (programOf groups widths settings (p.repeatedIn anchored true times)).code.EquallyFar
      (programOf groups widths settings (p.repeatedIn anchored false times)).code := by
  cases h with
  | single => exact programOf_single_equallyFar ht anchored groups groups widths widths settings settings
  | @group body =>
      have hwrapped := programOf_group_wrapped anchored groups widths settings body times
      exact fun s hs i hi => (hwrapped.equallyFar s hs i hi).symm

end Piece.IsUnit

theorem Reading.Result.Alike.symm {f f' : Nat → Nat} {result result' : Reading.Result} (h : result.Alike f f' result') :
    result'.Alike f' f result :=
  ⟨h.regex.symm, h.groupCount.symm, h.names.symm, h.sharesNumbers.symm⟩

/-- If the repeated group compiles, so does the repeated piece, and they agree. -/
theorem Reading.Result.Fits.compiled_ungrouped {base result result' : Reading.Result} {p : Piece} {times : Times}
    {anchored : Bool} {j j' size : Nat} {widths : List (Nat × List Nat)} (hfits : result.Fits size widths)
    (hp : p.IsUnit) (ht : times.isOrdered)
    (h : result.Alike (· + j) id { base with regex := p.repeatedIn anchored true times })
    (h' : result'.Alike (· + j') id { base with regex := p.repeatedIn anchored false times })
    (hsettings : result'.settings = result.settings) (hbreak : result'.namesBreak = result.namesBreak)
    (source source' : Text) (size' : Nat) :
    ∃ widths', result'.Fits size' widths' ∧
      (result.compiled source widths).Agree (result'.compiled source' widths') := by
  have hstands := hp.standsFor ht anchored
  have hfit : ∃ widths₀, Reading.Result.Fits size' _ widths₀ ∧ _ :=
    h.fits (add_left_injective j) Function.injective_id hfits
  obtain ⟨widths₀, hfits₀, hprogram⟩ := hfit
  have hfit' : ∃ widths', result'.Fits size' widths' ∧ _ :=
    h'.symm.fits Function.injective_id (add_left_injective j') (hstands.fits hfits₀)
  obtain ⟨widths', hfits', hprogram'⟩ := hfit'
  refine ⟨widths', hfits', .of_equallyFar hsettings hbreak ?_ ?_ ?_⟩
  · change (programOf _ _ _ _).code.isRegular false
    rw [← hprogram]
    exact isRegular_programOf (hp.isRegular ht anchored true) _ _ _
  · change (programOf _ _ _ _).code.isRegular false
    rw [hprogram']
    exact isRegular_programOf (hp.isRegular ht anchored false) _ _ _
  · change (programOf _ _ _ _).code.EquallyFar (programOf _ _ _ _).code
    rw [← hprogram, hprogram', hsettings, hstands.groups_eq]
    exact hp.equallyFar ht anchored _ _ _

end PatternGrammar.Regex

namespace PatternGrammar

/-- The engine reads the text as one unit wherever it stands between items. -/
def ReadsAsUnit (t : Text) : Prop := ∃ unit : Regex.Piece, unit.IsUnit ∧ ReadsAs t unit

/-- If a unit in a group compiles with a quantifier behind it, so does the unit by itself, and the two agree. -/
theorem ReadsAsUnit.compile_agree {t k : Text} {ks : List Nat} {times : Regex.Times} (h : ReadsAsUnit t)
    (hk : Spells k ks) (hq : Regex.Quantifies ks times) (ht : times.isOrdered) (anchored : Bool) {c : Regex.Compiled}
    (hc : Regex.compile (framedText anchored (groupText t ++ k)) = .ok c) :
    ∃ c', Regex.compile (framedText anchored (t ++ k)) = .ok c' ∧ c.Agree c' := by
  obtain ⟨unit, hunit, hreads⟩ := h
  obtain ⟨base, hread⟩ := hreads.exists_readWhole
  obtain ⟨result, j, hr, halike, hsettings, hbreak⟩ := hread hk hq anchored true
  obtain ⟨result', j', hr', halike', hsettings', hbreak'⟩ := hread hk hq anchored false
  obtain ⟨whole, widths, hwhole, hfits, rfl⟩ := Regex.compile_eq_ok.mp hc
  obtain rfl := Except.ok.inj (hr.symm.trans hwhole)
  obtain ⟨widths', hfits', hagree⟩ := hfits.compiled_ungrouped hunit ht halike halike'
    (hsettings'.trans hsettings.symm) (hbreak'.trans hbreak.symm) (framedText anchored (groupText t ++ k))
    (framedText anchored (t ++ k)) (framedText anchored (t ++ k)).length
  exact ⟨_, Regex.compile_eq_ok.mpr ⟨result', widths', hr', hfits', rfl⟩, hagree⟩

end PatternGrammar
