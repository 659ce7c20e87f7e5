import PatternGrammar.Proofs.Literals
import PatternGrammar.Proofs.UnitTexts

/-!
# What a quantifier binds

A quantifier stands behind a fragment that is a single entity, and behind a group around any other fragment. If the
engine reads every single entity as one unit, the quantifier binds the whole of it, as it would with a group.
-/

namespace PatternGrammar

/-- A raw fragment with repetition options. -/
structure RepeatedFragment where
  source : Text
  atLeast : Option Int := none
  atMost : Option Int := none
  howManyTimes : Option Int := none
  dontBackTrack : Bool := false
  asFewAsPossible : Bool := false

namespace RepeatedFragment

variable (r : RepeatedFragment)

/-- What the node of the fragment is told: how often the fragment stands there, and nothing else. -/
def attributes : Attributes :=
  { atLeast := r.atLeast, atMost := r.atMost, howManyTimes := r.howManyTimes, dontBackTrack := r.dontBackTrack,
    asFewAsPossible := r.asFewAsPossible }

/-- The bounds that the options ask for. -/
def quantity : Quantity := .requested r.attributes.toOptions

/-- The text of the quantifier. -/
def quantifier : Text := r.quantity.quantifier r.dontBackTrack r.asFewAsPossible

/-- The fragment is accepted with its options, and makes this pattern. -/
def Builds (p : Pattern) : Prop := Pattern.create .plain (.fragment r.source) r.attributes = .ok p

/-- The bounds do not exceed what the engine can count. -/
def IsBounded : Prop :=
  (∀ n ∈ r.quantity.atLeast, n ≤ Regex.maxCount) ∧ ∀ n ∈ r.quantity.atMost, n ≤ Regex.maxCount

/-- The fragment with its quantifier. -/
def text : Text := (if isSingleEntity r.source then r.source else groupText r.source) ++ r.quantifier

variable {r} {p : Pattern}

/-- The options have been accepted, and the pattern has one node, which has them. -/
theorem Builds.eq (h : r.Builds p) : Quantity.resolve r.attributes.toOptions true = .ok r.quantity ∧
    p = .last (.mk .plain (.fragment r.source) none r.attributes.toOptions r.quantity) := by
  simp only [Builds, Pattern.create, Node.ofParts, Except.bind_eq_ok] at h
  obtain ⟨_, -, n, hn, hp⟩ := h
  split at hn
  · next q hq =>
      cases hn
      cases hp
      obtain rfl := Quantity.eq_requested_of_resolve hq
      exact ⟨hq, rfl⟩
  · cases hn

/-- The expression of a repeated fragment, unless something in it looks like a reference to be filled in. -/
theorem Builds.evaluate (h : r.Builds p) (hk : r.quantifier ≠ []) (ht : regexPieces r.text = keep r.text) :
    p.evaluate = .ok r.text := by
  have hrepeated : r.quantity.applyTo r.attributes.toOptions r.source = r.text := by
    have hempty : (r.quantity.quantifier r.dontBackTrack r.asFewAsPossible).isEmpty = false := by
      simpa [quantifier] using hk
    change [] ++ Quantity.repeated _ _ _ = _
    simp only [Quantity.repeated, attributes, hempty, Bool.false_eq_true, if_false]
    rfl
  have hunresolved : p.unresolved = .ok r.text := by
    rw [h.eq.2, ← hrepeated]
    rfl
  rw [Pattern.evaluate, hunresolved]
  change resolveReferences p.groups r.text = _
  have hw := written_keep_append (numberIn p.groups) r.text []
  rw [List.append_nil, written, List.append_nil] at hw
  rw [resolveReferences, ht, fillPieces_eq_written, referencesIn_keep]
  exact congrArg Except.ok hw

/-- The engine repeats as the quantifier says. -/
theorem Builds.exists_quantifies (h : r.Builds p) (hk : r.quantifier ≠ []) (hb : r.IsBounded) :
    ∃ (ks : List Nat) (times : Regex.Times), Spells r.quantifier ks ∧ times.isOrdered ∧ Regex.Quantifies ks times := by
  obtain ⟨⟨least, most, mode⟩, ⟨hleast, hmost, hmode⟩, hq⟩ := Quantity.exists_isQuantifier h.eq.1
  cases mode with
  | none =>
      have hone : IsQuantifier r.quantifier ⟨least, most, none⟩ := hq
      generalize r.quantifier = q at hone hk
      cases hone
      exact absurd rfl hk
  | some mode =>
      have hcounts : r.attributes.toOptions.counts ≠ (1, some 1) := by
        intro hc
        rw [if_pos hc] at hmode
        cases hmode
      have hrepeats : r.quantity.repeats = true := (Quantity.repeats_requested _).mpr hcounts
      have hcounts := Quantity.counts_of_repeats hrepeats
      rw [hcounts] at hleast hmost
      have hset : r.quantity.isSet = true := by
        simp only [Quantity.repeats, Bool.and_eq_true] at hrepeats
        exact hrepeats.1
      have hordered := ((Quantity.resolve_eq_ok h.eq.1).2 hset).2.2
      have hatMost {m : Nat} (hm : m ∈ most) : (m : Int) ∈ r.quantity.atMost := by
        rw [Option.mem_def] at hm
        rw [hm] at hmost
        exact hmost.symm
      have hlower : r.quantity.lower ≤ Regex.maxCount := by
        unfold Quantity.lower
        cases hl : r.quantity.atLeast with
        | none => decide
        | some n => exact hb.1 n hl
      have hleast : (least : Int) = r.quantity.lower := hleast
      have hle : ∀ m ∈ most, least ≤ m := fun m hm => by
        have hle := hordered _ (hatMost hm)
        omega
      have hmaximum : ∀ m ∈ most, m ≤ Regex.maxCount := fun m hm => Int.ofNat_le.mp (hb.2 _ (hatMost hm))
      refine ⟨_, _, .ascii hq.ascii, ?_, hq.quantifies (by omega) hmaximum hle⟩
      cases most with
      | none => rfl
      | some m => exact decide_eq_true (hle m rfl)

/-- The quantifier of a fragment binds the whole of it as it would with a group around it, if the engine reads what is
a single entity as one unit. -/
theorem Builds.binds_whole (h : r.Builds p) (hk : r.quantifier ≠ []) (ht : regexPieces r.text = keep r.text)
    (hb : r.IsBounded) (hu : isSingleEntity r.source → ReadsAsUnit r.source) :
    ∃ t, p.evaluate = .ok t ∧
      (isSingleEntity r.source = false → t = groupText r.source ++ r.quantifier) ∧
        ∀ anchored c, Regex.compile (framedText anchored (groupText r.source ++ r.quantifier)) = .ok c →
          ∃ c', Regex.compile (framedText anchored t) = .ok c' ∧ (anchored = false → p.toRegex = .ok c') ∧
            (c' = c ∨ c.Agree c') ∧
              (c'.plan = c.plan → c.plan.start.isWhole → ∀ subject cs, Spells subject cs → ∀ found found',
                c.search subject = .ok found → c'.search subject = .ok found' → found' = found) := by
  have he := h.evaluate hk ht
  have hregex {c' : Regex.Compiled} (hc : Regex.compile (framedText false r.text) = .ok c') : p.toRegex = .ok c' := by
    have hcompile : Regex.compile r.text = .ok c' := hc
    rw [Pattern.toRegex, he]
    simp [hcompile, pure, Except.pure]
  refine ⟨r.text, he, fun hs => by rw [text, hs]; rfl, fun anchored c hc => ?_⟩
  cases hs : isSingleEntity r.source with
  | false =>
      have htext : r.text = groupText r.source ++ r.quantifier := by
        rw [text, hs]
        rfl
      rw [← htext] at hc
      refine ⟨c, hc, ?_, .inl rfl, fun _ _ _ _ _ found found' hf hf' => ?_⟩
      · rintro rfl
        exact hregex hc
      · exact Except.ok.inj (hf'.symm.trans hf)
  | true =>
      have htext : r.text = r.source ++ r.quantifier := by
        rw [text, hs]
        rfl
      obtain ⟨ks, times, hspells, hordered, hquantifies⟩ := h.exists_quantifies hk hb
      obtain ⟨c', hc', hagree⟩ := (hu hs).compile_agree hspells hquantifies hordered anchored hc
      rw [← htext] at hc'
      refine ⟨c', hc', ?_, .inr hagree, fun hplan hw _ _ hsubject _ _ hf hf' => hagree.search hplan hw hsubject hf hf'⟩
      rintro rfl
      exact hregex hc'

end RepeatedFragment

theorem Matcher.check_fragment {source : Text} (h : hasOwnGroup source = false) :
    (Matcher.fragment source).check = .ok () := by
  rw [check, h]
  rfl

/-- Two characters in a group, twice. -/
def pairTwice : RepeatedFragment := { source := "(?:ab)", howManyTimes := some 2 }

theorem pairTwice_binds_group : isSingleEntity "(?:ab)" ∧
    ∃ p c c', pairTwice.Builds p ∧ p.evaluate = .ok "(?:ab)\x7b2\x7d" ∧ Regex.compile "(?:(?:ab))\x7b2\x7d" = .ok c ∧
      p.toRegex = .ok c' ∧ (c' = c ∨ c.Agree c') ∧ ∀ subject cs, Spells subject cs → ∀ found found',
        c.search subject = .ok found → c'.search subject = .ok found' → found' = found := by
  have hc : (Matcher.fragment pairTwice.source).check = .ok () := Matcher.check_fragment (by decide +kernel)
  have hb : pairTwice.Builds
      (.last (.mk .plain (.fragment "(?:ab)") none { howManyTimes := some 2 } ⟨some 2, some 2⟩)) := by
    rw [RepeatedFragment.Builds, Pattern.create, hc]
    rfl
  have hsingle : isSingleEntity "(?:ab)" := by decide +kernel
  have hunit : ReadsAsUnit (groupText "ab") :=
    .group (.singles Regex.ReadAlike.isPassable (List.all_iff_forall_prop.mp (by decide))) (by decide +kernel)
  have hcompiles : (Regex.compile "(?:(?:ab))\x7b2\x7d").isOk := by decide +kernel
  have hplan : (Regex.compile "(?:(?:ab))\x7b2\x7d").toOption.map (·.plan) =
      (Regex.compile "(?:ab)\x7b2\x7d").toOption.map (·.plan) := by
    decide +kernel
  have hwhole : (Regex.compile "(?:(?:ab))\x7b2\x7d").toOption.all (·.plan.start.isWhole) := by decide +kernel
  obtain ⟨t, he, -, hbinds⟩ := RepeatedFragment.Builds.binds_whole hb (by decide) (by decide)
    ⟨by decide, by decide⟩ fun _ => hunit
  obtain rfl : t = "(?:ab)\x7b2\x7d" := Except.ok.inj (he.symm.trans (hb.evaluate (by decide) (by decide)))
  cases hg : Regex.compile "(?:(?:ab))\x7b2\x7d" with
  | error e =>
      rw [hg] at hcompiles
      cases hcompiles
  | ok c =>
      obtain ⟨c', hc', hregex, hagree, hfound⟩ := hbinds false c hg
      have hopen : Regex.compile "(?:ab)\x7b2\x7d" = .ok c' := hc'
      rw [hg, hopen] at hplan
      rw [hg] at hwhole
      exact ⟨hsingle, _, c, c', hb, he, rfl, hregex rfl, hagree, hfound (Option.some.inj hplan).symm hwhole⟩

/-- A bracket in a class is one of its members, twice. -/
def bracketTwice : RepeatedFragment := { source := "[[a]]", howManyTimes := some 2 }

/-- The class ends at its first closing bracket, but the fragment is taken for one entity. The quantifier binds
the second closing bracket only. -/
theorem bracketTwice_binds_last :
    (∃ p, bracketTwice.Builds p ∧ p.evaluate = .ok "[[a]]\x7b2\x7d") ∧ Regex.compiles "[[a]]" ∧
      bracketTwice.quantifier = "\x7b2\x7d" ∧
      foundIn? "[[a]]\x7b2\x7d" "a]]" = some true ∧ foundIn? "(?:[[a]])\x7b2\x7d" "a]]" = some false := by
  have hc : (Matcher.fragment bracketTwice.source).check = .ok () := Matcher.check_fragment (by decide +kernel)
  have hb : bracketTwice.Builds
      (.last (.mk .plain (.fragment "[[a]]") none { howManyTimes := some 2 } ⟨some 2, some 2⟩)) := by
    rw [RepeatedFragment.Builds, Pattern.create, hc]
    rfl
  refine ⟨⟨_, hb, hb.evaluate (by decide) (by decide)⟩, by decide +kernel, by decide, ?_, ?_⟩ <;> decide +kernel

end PatternGrammar
