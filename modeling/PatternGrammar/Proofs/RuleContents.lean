import PatternGrammar.Proofs.OuterGroup

/-!
# What a rule holds

A rule has the expression of its pattern, a capture for every group of which something is known, and the tag
of the group that the whole match replaces as its name. Nothing else is in it, and nothing is lost on the way
through the dictionary of captures: no two groups have one key. There is no rule exactly when the expression,
a tag or an included pattern cannot be resolved.
-/

namespace PatternGrammar

/-! ## Failure -/

/-- There is no result. -/
def Fails (x : Except ε α) : Prop := ∃ e, x = .error e

@[simp] theorem not_fails_ok (a : α) : ¬ Fails (.ok a : Except ε α) := nofun

theorem not_fails_iff {x : Except ε α} : ¬ Fails x ↔ ∃ a, x = .ok a := by
  cases x <;> simp [Fails]

theorem fails_bind {x : Except ε α} {f : α → Except ε β} :
    Fails (x >>= f) ↔ Fails x ∨ ∃ a, x = .ok a ∧ Fails (f a) := by
  cases x <;> simp [Fails, bind, Except.bind]

/-- Of two steps in a row one fails if one of them does by itself, when the second does not depend on what the
first gives. -/
theorem fails_or_iff {x : Except ε α} {P : Prop} :
    (Fails x ∨ ∃ a, x = .ok a ∧ P) ↔ Fails x ∨ P := by
  cases x <;> simp [Fails]

/-- A step that cannot fail adds no failure. -/
theorem fails_bind_ok {x : Except ε α} {f : α → β} : Fails (x >>= fun a => .ok (f a)) ↔ Fails x := by
  simp [fails_bind]

/-! ## Tags -/

/-- The tag asks for the number of a group by a name that no group carries. -/
def AsksForUnknown (groups : List Group) (tag : Text) : Prop :=
  ∃ name, .numberOf name ∈ tagPieces tag ∧ ∀ g ∈ groups, g.reference ≠ some name

theorem numberOf?_eq_none {groups : List Group} {name : Text} :
    numberOf? groups name = none ↔ ∀ g ∈ groups, g.reference ≠ some name := by
  simp [numberOf?]

theorem fails_fillTagPieces {groups : List Group} {own : Int} {pieces : List TagPiece} :
    Fails (fillTagPieces groups own pieces) ↔
      ∃ name, .numberOf name ∈ pieces ∧ numberOf? groups name = none := by
  induction pieces with
  | nil => simp [fillTagPieces]
  | cons piece rest ih =>
      cases piece with
      | byte b => simpa [fillTagPieces, pure, Except.pure, fails_bind_ok] using ih
      | ownNumber => simpa [fillTagPieces, pure, Except.pure, fails_bind_ok] using ih
      | numberOf name =>
          rw [fillTagPieces]
          cases hn : numberOf? groups name with
          | none => exact iff_of_true ⟨_, rfl⟩ ⟨name, List.mem_cons_self, hn⟩
          | some number =>
              simp only [pure, Except.pure, fails_bind_ok, ih, List.mem_cons, TagPiece.numberOf.injEq]
              constructor
              · rintro ⟨other, hm, ho⟩
                exact ⟨other, .inr hm, ho⟩
              · rintro ⟨other, rfl | hm, ho⟩
                · rw [hn] at ho
                  cases ho
                · exact ⟨other, hm, ho⟩

theorem fails_resolveTag {groups : List Group} {own : Int} {tag : Text} :
    Fails (resolveTag groups own tag) ↔ AsksForUnknown groups tag := by
  simp only [resolveTag, fails_fillTagPieces, AsksForUnknown, numberOf?_eq_none]

/-! ## Includes -/

/-- What an include stands for. A pattern stands for its rule. A symbol names a rule of the repository,
except for the two words for a grammar. A text that names a foreign grammar is a word too; of any other text
the rule matches the text itself. -/
inductive Include.StandsFor : Include → RuleReference → Prop where
  | pattern {q : Pattern} {rule : Rule} (h : q.toRule = .ok rule) :
      StandsFor (.pattern q) (.inline rule)
  | grammar {name : Text} (h : name = "$self" ∨ name = "$base") :
      StandsFor (.symbol name) (.scope name)
  | rule {name : Text} (hs : name ≠ "$self") (hb : name ≠ "$base") :
      StandsFor (.symbol name) (.rule name)
  | scope {t : Text} (h : isExternalScope t = true) : StandsFor (.text t) (.scope t)
  | literal {t : Text} (h : isExternalScope t = false) :
      StandsFor (.text t) (.inline (.mk (escapeRegex t) [] none))

theorem literalRule_eq (t : Text) : literalRule t = .ok (.mk (escapeRegex t) [] none) := by
  have hm : (Pattern.last (.mk .plain (.literal t) none {} {})).Every (·.matcher.MarksPlaces) :=
    ⟨trivial, trivial⟩
  have he : Pattern.evaluate (.last (.mk .plain (.literal t) none {} {})) = .ok (escapeRegex t) := by
    have hw := written_keep_append (numberIn []) (escapeRegex t) []
    rw [List.append_nil, written, List.append_nil] at hw
    rw [Pattern.evaluate_eq_written _ hm]
    exact congrArg Except.ok hw
  rw [literalRule, Pattern.ruleWith, he]
  rfl

theorem Include.reference_eq_ok {entry : Include} {r : RuleReference} :
    entry.reference = .ok r ↔ entry.StandsFor r := by
  cases entry with
  | pattern q =>
      rw [Include.reference, ← Pattern.toRule]
      constructor
      · intro h
        obtain ⟨rule, hq, hr⟩ := Except.bind_eq_ok.mp h
        cases hr
        exact .pattern hq
      · rintro ⟨hq⟩
        rw [hq]
        rfl
  | symbol name =>
      simp only [Include.reference, Bool.or_eq_true, decide_eq_true_eq, pure, Except.pure,
        Except.ok.injEq]
      constructor
      · intro h
        split at h
        · next hn => exact h ▸ .grammar hn
        · next hn => exact h ▸ .rule (fun hs => hn (.inl hs)) (fun hb => hn (.inr hb))
      · rintro (⟨-⟩ | hn | ⟨hs, hb⟩)
        · exact if_pos hn
        · exact if_neg (not_or.mpr ⟨hs, hb⟩)
  | text t =>
      rw [Include.reference, literalRule_eq]
      cases ht : isExternalScope t with
      | true =>
          constructor
          · rintro ⟨⟩
            exact .scope ht
          · rintro (⟨-⟩ | ⟨-⟩ | ⟨-⟩ | hs | hl)
            · rfl
            · rw [ht] at hl
              cases hl
      | false =>
          constructor
          · rintro ⟨⟩
            exact .literal ht
          · rintro (⟨-⟩ | ⟨-⟩ | ⟨-⟩ | hs | hl)
            · rw [ht] at hs
              cases hs
            · rfl

theorem Include.fails_reference {entry : Include} :
    Fails entry.reference ↔ ∃ q, entry = .pattern q ∧ Fails q.toRule := by
  cases entry with
  | pattern q =>
      rw [Include.reference, ← Pattern.toRule]
      simp [pure, Except.pure, fails_bind_ok]
  | symbol name => simp [Include.reference, pure, Except.pure]
  | text t =>
      rw [Include.reference, literalRule_eq]
      split <;> simp [pure, Except.pure, bind, Except.bind]

theorem includeListReferences_eq_ok {list : List Include} {rs : List RuleReference} :
    includeListReferences list = .ok rs ↔ List.Forall₂ Include.StandsFor list rs := by
  induction list generalizing rs with
  | nil => simp [includeListReferences, eq_comm]
  | cons entry rest ih =>
      simp only [includeListReferences, Except.bind_eq_ok, ih, Include.reference_eq_ok, pure,
        Except.pure, Except.ok.injEq, List.forall₂_cons_left_iff]
      constructor
      · rintro ⟨r, hr, rs, hrs, rfl⟩
        exact ⟨r, rs, hr, hrs, rfl⟩
      · rintro ⟨r, rs, hr, hrs, rfl⟩
        exact ⟨r, hr, rs, hrs, rfl⟩

theorem fails_includeListReferences {list : List Include} :
    Fails (includeListReferences list) ↔ ∃ q, .pattern q ∈ list ∧ Fails q.toRule := by
  induction list with
  | nil => simp [includeListReferences]
  | cons entry rest ih =>
      simp only [includeListReferences, fails_bind, pure, Except.pure, not_fails_ok, and_false,
        exists_false, or_false, ih]
      rw [fails_or_iff]
      simp only [Include.fails_reference, List.mem_cons]
      constructor
      · rintro (⟨q, rfl, hq⟩ | ⟨q, hm, hq⟩)
        · exact ⟨q, .inl rfl, hq⟩
        · exact ⟨q, .inr hm, hq⟩
      · rintro ⟨q, hm | hm, hq⟩
        · exact .inl ⟨q, hm.symm, hq⟩
        · exact .inr ⟨q, hm, hq⟩

/-! ## Captures by key -/

theorem Group.references_eq (g : Group) :
    g.references = includeListReferences (g.includes.getD []) := by
  unfold Group.references
  cases g.includes <;> rfl

/-- The includes of a group include a pattern that has no rule. -/
def Group.IncludesUnresolved (g : Group) : Prop :=
  ∃ q, .pattern q ∈ g.includes.getD [] ∧ Fails q.toRule

theorem Group.toCapture_eq_ok {groups : List Group} {g : Group} {c : Capture} :
    g.toCapture groups g.references = .ok c ↔
      g.tagAs.mapM (resolveTag groups g.number) = .ok c.name ∧
        List.Forall₂ Include.StandsFor (g.includes.getD []) c.patterns := by
  obtain ⟨name, patterns⟩ := c
  rw [← includeListReferences_eq_ok, ← g.references_eq, Group.toCapture]
  cases ht : g.tagAs with
  | none =>
      cases g.references <;>
        simp [bind, Except.bind, pure, Except.pure, Capture.name, Capture.patterns]
  | some tag =>
      cases hr : resolveTag groups g.number tag <;> cases g.references <;>
        simp [hr, bind, Except.bind, pure, Except.pure, Except.map, Functor.map, Capture.name,
          Capture.patterns]

theorem Group.fails_toCapture {groups : List Group} {g : Group} :
    Fails (g.toCapture groups g.references) ↔
      (∃ tag, g.tagAs = some tag ∧ AsksForUnknown groups tag) ∨ g.IncludesUnresolved := by
  rw [Group.IncludesUnresolved, ← fails_includeListReferences, ← g.references_eq, Group.toCapture]
  cases g.tagAs with
  | none => simp [pure, Except.pure, fails_bind]
  | some tag =>
      simp only [pure, Except.pure, fails_bind, not_fails_ok, false_or, and_false, exists_false,
        or_false, Except.ok.injEq, exists_eq_left', Option.some.injEq]
      rw [fails_or_iff, fails_resolveTag]

section
variable {groups : List Group} {pairs : List (Group × Except Error (List RuleReference))}
  {before found : Dictionary Capture}

theorem fails_capturesWith :
    Fails (capturesWith groups pairs before) ↔ ∃ y ∈ pairs, Fails (y.1.toCapture groups y.2) := by
  induction pairs generalizing before with
  | nil => simp [capturesWith]
  | cons y pairs ih =>
      simp only [capturesWith, fails_bind, ih, fails_or_iff, List.exists_mem_cons_iff]

theorem sorted_of_capturesWith (h : capturesWith groups pairs before = .ok found)
    (hb : before.Sorted) : found.Sorted := by
  induction pairs generalizing before with
  | nil =>
      cases h
      exact hb
  | cons y pairs ih =>
      rw [capturesWith, Except.bind_eq_ok] at h
      obtain ⟨c, -, h⟩ := h
      exact ih h hb.insert

/-- Under the key of a group stands its own capture, if no other group has the key; all other keys are left
alone. -/
theorem get?_of_capturesWith (h : capturesWith groups pairs before = .ok found)
    (hn : (pairs.map fun y => Text.ofInt y.1.number).Nodup) (key : Text) (c : Capture) :
    Dictionary.get? key found = some c ↔
      (∃ y ∈ pairs, key = Text.ofInt y.1.number ∧ y.1.toCapture groups y.2 = .ok c) ∨
        key ∉ pairs.map (fun y => Text.ofInt y.1.number) ∧ Dictionary.get? key before = some c := by
  induction pairs generalizing before with
  | nil =>
      cases h
      simp
  | cons y pairs ih =>
      rw [capturesWith, Except.bind_eq_ok] at h
      obtain ⟨own, ho, h⟩ := h
      rw [List.map_cons, List.nodup_cons] at hn
      rw [ih h hn.2, Dictionary.get?_insert, List.exists_mem_cons_iff, ho, List.map_cons,
        List.mem_cons]
      by_cases hk : key = Text.ofInt y.1.number
      · have hno : ¬ ∃ z ∈ pairs, key = Text.ofInt z.1.number ∧ z.1.toCapture groups z.2 = .ok c := by
          rintro ⟨z, hz, hkz, -⟩
          exact hn.1 (List.mem_map.mpr ⟨z, hz, hkz.symm.trans hk⟩)
        rw [hk] at hno ⊢
        simp [hno, hn.1]
      · simp [hk]

end

/-! ## Keys of groups -/

theorem Text.ofInt_inj_of_nonneg {m n : Int} (hm : 0 ≤ m) (hn : 0 ≤ n)
    (h : Text.ofInt m = Text.ofInt n) : m = n := by
  obtain ⟨m, rfl⟩ := Int.eq_ofNat_of_zero_le hm
  obtain ⟨n, rfl⟩ := Int.eq_ofNat_of_zero_le hn
  exact congrArg _ (Text.ofNat_injective h)

theorem Pattern.firstNumber_nonneg (p : Pattern) : 0 ≤ p.firstNumber := by
  unfold Pattern.firstNumber
  split <;> decide

theorem Pattern.number_nonneg {p : Pattern} {g : Group} (h : g ∈ p.groups) : 0 ≤ g.number := by
  rw [Pattern.groups, p.groupsFrom_eq] at h
  obtain ⟨k, -, rfl⟩ := List.mem_mapIdx.mp h
  exact Int.add_nonneg p.firstNumber_nonneg (Int.natCast_nonneg k)

/-- No two groups of a pattern have one key. -/
theorem Pattern.nodup_keys (p : Pattern) : (p.groups.map fun g => Text.ofInt g.number).Nodup := by
  rw [p.keys_groups]
  refine List.nodup_range.map fun a b hab => ?_
  have hf := p.firstNumber_nonneg
  have h := Text.ofInt_inj_of_nonneg (Int.add_nonneg hf (Int.natCast_nonneg a))
    (Int.add_nonneg hf (Int.natCast_nonneg b)) hab
  exact Int.ofNat_inj.mp (Int.add_left_cancel h)

theorem Pattern.eq_of_key {p : Pattern} {g g' : Group} (hg : g ∈ p.groups) (hg' : g' ∈ p.groups)
    (h : Text.ofInt g.number = Text.ofInt g'.number) : g = g' :=
  List.inj_on_of_nodup_map p.nodup_keys hg hg' h

theorem Pattern.key_eq_zero_iff {p : Pattern} {g : Group} (h : g ∈ p.groups) :
    Text.ofInt g.number = "0" ↔ g.number = 0 :=
  ⟨Text.ofInt_inj_of_nonneg (Pattern.number_nonneg h) (Int.le_refl 0), fun hz => by rw [hz]; rfl⟩

/-- The outer group comes first, under the number zero. -/
theorem Pattern.groups_of_liftsOuterGroup {p : Pattern} (h : p.liftsOuterGroup) :
    ∃ rest, p.groups = p.head.group 0 {} :: rest := by
  cases p with
  | link node next => cases h
  | last node =>
      obtain ⟨kind, matcher, includes, options, quantity⟩ := node
      have hc := h
      simp only [Pattern.liftsOuterGroup, Bool.and_eq_true] at hc
      rw [Pattern.groups, Pattern.firstNumber, if_pos h, Pattern.groupsFrom, Node.groupsFrom,
        Node.ownGroups, if_pos hc.1]
      exact ⟨_, rfl⟩

/-! ## The rule -/

/-- The tag that becomes the name of the rule. -/
def Pattern.liftedTag (p : Pattern) : Option Text :=
  if p.liftsOuterGroup then p.head.options.tagAs else none

/-- The tag under which the captures list a group: its own, unless it becomes the name of the rule. -/
def Pattern.listedTag (p : Pattern) (g : Group) : Option Text :=
  if p.liftsOuterGroup ∧ g.number = 0 then none else g.tagAs

/-- Something is known about the group besides the name of the rule. -/
def Pattern.Mentions (p : Pattern) (g : Group) : Prop :=
  (p.listedTag g).isSome ∨ g.includes.getD [] ≠ []

/-- The capture says what is known about the group: its tag, with the numbers filled in, and what each of its
includes stands for, in order. -/
def Pattern.Tells (p : Pattern) (g : Group) (c : Capture) : Prop :=
  (p.listedTag g).mapM (resolveTag p.groups g.number) = .ok c.name ∧
    List.Forall₂ Include.StandsFor (g.includes.getD []) c.patterns

/-! ## The captures of all groups -/

theorem Pattern.fails_toCaptures {p : Pattern} :
    Fails (toCaptures p.groups) ↔ ∃ g ∈ p.groups, Fails (g.toCapture p.groups g.references) := by
  simp [toCaptures, fails_capturesWith]

section
variable {p : Pattern} {found : Dictionary Capture} (h : toCaptures p.groups = .ok found)
include h

theorem Pattern.exists_toCapture {g : Group} (hg : g ∈ p.groups) :
    ∃ own, g.toCapture p.groups g.references = .ok own := by
  apply not_fails_iff.mp
  intro hf
  have hall := Pattern.fails_toCaptures.mpr ⟨g, hg, hf⟩
  rw [h] at hall
  exact not_fails_ok _ hall

theorem Pattern.get?_of_toCaptures (key : Text) (c : Capture) :
    Dictionary.get? key found = some c ↔
      ∃ g ∈ p.groups, key = Text.ofInt g.number ∧ g.toCapture p.groups g.references = .ok c := by
  have hn : ((p.groups.map fun g => (g, g.references)).map fun y => Text.ofInt y.1.number).Nodup := by
    rw [List.map_map]
    exact p.nodup_keys
  rw [get?_of_capturesWith h hn]
  simp

theorem sorted_of_toCaptures : found.Sorted := sorted_of_capturesWith h Dictionary.sorted_nil

/-- The tag that becomes the name of the rule is the one of group zero. -/
theorem Pattern.mapM_liftedTag : p.liftedTag.mapM (resolveTag p.groups 0) =
    .ok ((if p.liftsOuterGroup then Dictionary.get? "0" found else none).bind (·.name)) := by
  unfold Pattern.liftedTag
  split
  · next hl =>
      obtain ⟨rest, hg⟩ := Pattern.groups_of_liftsOuterGroup hl
      have hm : p.head.group 0 {} ∈ p.groups := hg ▸ List.mem_cons_self
      obtain ⟨own, ho⟩ := Pattern.exists_toCapture h hm
      have hz := (Pattern.get?_of_toCaptures h "0" own).mpr ⟨_, hm, rfl, ho⟩
      rw [hz]
      exact (Group.toCapture_eq_ok.mp ho).1
  · rfl

end

/-- The captures without the name of group zero, if that becomes the name of the rule. -/
def liftedOut (lifts : Bool) (found : Dictionary Capture) : Dictionary Capture :=
  match if lifts then Dictionary.get? "0" found else none with
  | some capture => Dictionary.insert "0" (.mk none capture.patterns) found
  | none => found

theorem Dictionary.Sorted.liftedOut {found : Dictionary Capture} (h : found.Sorted) (lifts : Bool) :
    (liftedOut lifts found).Sorted := by
  unfold PatternGrammar.liftedOut
  split
  · exact h.insert
  · exact h

/-- Where the name of group zero is lifted out nothing else changes. -/
theorem get?_liftedOut (found : Dictionary Capture) (lifts : Bool) (key : Text) :
    Dictionary.get? key (liftedOut lifts found) = (Dictionary.get? key found).map fun own =>
      if lifts ∧ key = "0" then .mk none own.patterns else own := by
  unfold liftedOut
  cases lifts with
  | false => simp
  | true =>
      by_cases hk : key = "0"
      · subst hk
        cases hz : Dictionary.get? "0" found with
        | none => simp [hz]
        | some own => simp [Dictionary.get?_insert]
      · cases hz : Dictionary.get? "0" found with
        | none => simp [hk]
        | some own => simp [Dictionary.get?_insert, hk]

theorem Pattern.toRule_eq (p : Pattern) : p.toRule = (do
    let expression ← p.evaluate
    let found ← toCaptures p.groups
    return .mk expression ((liftedOut p.liftsOuterGroup found).filter fun x => !x.2.isEmpty)
      ((if p.liftsOuterGroup then Dictionary.get? "0" found else none).bind (·.name))) := by
  rw [Pattern.toRule, Pattern.ruleWith, p.zip_includeReferences]
  rfl

/-! ## The captures that are listed -/

/-- A capture tells what is known about a group if it is the one that the group declares, less the tag that
becomes the name of the rule. -/
theorem Pattern.tells_iff {p : Pattern} {g : Group} {own c : Capture}
    (h : g.toCapture p.groups g.references = .ok own) :
    p.Tells g c ↔ c = if p.liftsOuterGroup ∧ g.number = 0 then .mk none own.patterns else own := by
  obtain ⟨hname, hpatterns⟩ := Group.toCapture_eq_ok.mp h
  rw [← includeListReferences_eq_ok] at hpatterns
  obtain ⟨name, patterns⟩ := c
  rw [Pattern.Tells, ← includeListReferences_eq_ok, hpatterns, Pattern.listedTag]
  split
  · simp [Capture.name, Capture.patterns, pure, Except.pure, eq_comm]
  · rw [hname]
    cases own
    simp [Capture.name, Capture.patterns, eq_comm]

/-- A capture that tells what is known about a group is empty when nothing is. -/
theorem Pattern.Tells.isEmpty_eq_false {p : Pattern} {g : Group} {c : Capture} (h : p.Tells g c) :
    c.isEmpty = false ↔ p.Mentions g := by
  obtain ⟨hname, hpatterns⟩ := h
  have hp : c.patterns = [] ↔ g.includes.getD [] = [] := by
    rw [← List.length_eq_zero_iff, ← List.length_eq_zero_iff, hpatterns.length_eq]
  have hn : c.name.isSome = (p.listedTag g).isSome := by
    cases ht : p.listedTag g with
    | none =>
        rw [ht] at hname
        rw [← Except.ok.inj hname]
    | some tag =>
        rw [ht] at hname
        obtain ⟨name, -, hs⟩ := Except.bind_eq_ok.mp hname
        rw [← Except.ok.inj hs]
        rfl
  rw [Capture.isEmpty, Pattern.Mentions, ← hn, ne_eq, ← hp]
  cases c.name <;> simp

/-- The rule holds what is known about the pattern and its groups, each thing in its place, and nothing else. -/
structure Pattern.HasRule (p : Pattern) (expression : Text) (captures : List (Text × Capture))
    (name : Option Text) : Prop where
  expression : p.evaluate = .ok expression
  name : p.liftedTag.mapM (resolveTag p.groups 0) = .ok name
  /-- The keys are in order, and each stands there once. -/
  sorted : Dictionary.Sorted captures
  listed : ∀ g ∈ p.groups, p.Mentions g → ∃ c, (Text.ofInt g.number, c) ∈ captures
  captures : ∀ key c, (key, c) ∈ captures ↔
    ∃ g ∈ p.groups, key = Text.ofInt g.number ∧ p.Mentions g ∧ p.Tells g c

theorem Pattern.HasRule.unique {p : Pattern} {expression expression' : Text}
    {captures captures' : List (Text × Capture)} {name name' : Option Text}
    (h : p.HasRule expression captures name) (h' : p.HasRule expression' captures' name') :
    Rule.mk expression captures name = .mk expression' captures' name' := by
  have he : expression = expression' := Except.ok.inj (h.expression.symm.trans h'.expression)
  have hn : name = name' := Except.ok.inj (h.name.symm.trans h'.name)
  have hc : captures = captures' :=
    h.sorted.eq_of_mem_iff h'.sorted fun x => (h.captures x.1 x.2).trans (h'.captures x.1 x.2).symm
  rw [he, hn, hc]

theorem Pattern.mem_listed {p : Pattern} {found : Dictionary Capture}
    (h : toCaptures p.groups = .ok found) (key : Text) (c : Capture) :
    (key, c) ∈ (liftedOut p.liftsOuterGroup found).filter (fun x => !x.2.isEmpty) ↔
      ∃ g ∈ p.groups, key = Text.ofInt g.number ∧ p.Mentions g ∧ p.Tells g c := by
  rw [List.mem_filter, ((sorted_of_toCaptures h).liftedOut _).mem_iff, get?_liftedOut,
    Option.map_eq_some_iff, Bool.not_eq_true']
  constructor
  · rintro ⟨⟨own, ho, rfl⟩, hc⟩
    obtain ⟨g, hg, rfl, hown⟩ := (Pattern.get?_of_toCaptures h key own).mp ho
    simp only [Pattern.key_eq_zero_iff hg] at hc ⊢
    have ht := (Pattern.tells_iff hown).mpr rfl
    exact ⟨g, hg, rfl, ht.isEmpty_eq_false.mp hc, ht⟩
  · rintro ⟨g, hg, rfl, hm, ht⟩
    obtain ⟨own, hown⟩ := Pattern.exists_toCapture h hg
    refine ⟨⟨own, (Pattern.get?_of_toCaptures h _ own).mpr ⟨g, hg, rfl, hown⟩, ?_⟩,
      ht.isEmpty_eq_false.mpr hm⟩
    simp only [Pattern.key_eq_zero_iff hg]
    exact ((Pattern.tells_iff hown).mp ht).symm

theorem Pattern.hasRule_of_toRule {p : Pattern} {expression : Text}
    {captures : List (Text × Capture)} {name : Option Text}
    (h : p.toRule = .ok (.mk expression captures name)) : p.HasRule expression captures name := by
  rw [p.toRule_eq, Except.bind_eq_ok] at h
  obtain ⟨t, ht, h⟩ := h
  obtain ⟨found, hf, h⟩ := Except.bind_eq_ok.mp h
  cases h
  have hmem := Pattern.mem_listed hf
  refine ⟨ht, Pattern.mapM_liftedTag hf, ((sorted_of_toCaptures hf).liftedOut _).filter _, ?_, hmem⟩
  intro g hg hm
  obtain ⟨own, hown⟩ := Pattern.exists_toCapture hf hg
  exact ⟨_, (hmem _ _).mpr ⟨g, hg, rfl, hm, (Pattern.tells_iff hown).mpr rfl⟩⟩

/-! ## When there is no rule -/

theorem Pattern.fails_toRule {p : Pattern} :
    Fails p.toRule ↔ Fails p.evaluate ∨
      (∃ g ∈ p.groups, ∃ tag, g.tagAs = some tag ∧ AsksForUnknown p.groups tag) ∨
      ∃ g ∈ p.groups, g.IncludesUnresolved := by
  have hc : Fails (toCaptures p.groups) ↔
      (∃ g ∈ p.groups, ∃ tag, g.tagAs = some tag ∧ AsksForUnknown p.groups tag) ∨
        ∃ g ∈ p.groups, g.IncludesUnresolved := by
    simp only [Pattern.fails_toCaptures, Group.fails_toCapture, and_or_left, exists_or]
  rw [p.toRule_eq, ← hc, fails_bind]
  simp only [pure, Except.pure, fails_bind_ok]
  exact fails_or_iff

/-- A tag that has been filled in asks for no unknown group. -/
theorem not_asksForUnknown {groups : List Group} {own : Int} {tag : Text} {name : Option Text}
    (h : (some tag).mapM (resolveTag groups own) = .ok name) : ¬ AsksForUnknown groups tag := by
  obtain ⟨t, ht, -⟩ := Except.bind_eq_ok.mp h
  rw [← fails_resolveTag, ht]
  exact not_fails_ok _

theorem Pattern.HasRule.tells {p : Pattern} {expression : Text} {captures : List (Text × Capture)}
    {name : Option Text} (h : p.HasRule expression captures name) {g : Group} (hg : g ∈ p.groups)
    (hm : p.Mentions g) : ∃ c, p.Tells g c := by
  obtain ⟨c, hc⟩ := h.listed g hg hm
  obtain ⟨g', hg', hk, -, ht⟩ := (h.captures _ c).mp hc
  rw [Pattern.eq_of_key hg hg' hk]
  exact ⟨c, ht⟩

theorem Pattern.HasRule.not_fails {p : Pattern} {expression : Text}
    {captures : List (Text × Capture)} {name : Option Text}
    (h : p.HasRule expression captures name) : ¬ Fails p.toRule := by
  rw [Pattern.fails_toRule, h.expression]
  rintro (he | ⟨g, hg, tag, ht, ha⟩ | ⟨g, hg, q, hq, hf⟩)
  · exact not_fails_ok _ he
  · by_cases hl : p.liftsOuterGroup ∧ g.number = 0
    · -- the tag is the name of the rule
      obtain ⟨rest, hgs⟩ := Pattern.groups_of_liftsOuterGroup hl.1
      have hm : p.head.group 0 {} ∈ p.groups := hgs ▸ List.mem_cons_self
      obtain rfl := Pattern.eq_of_key hg hm (by rw [hl.2]; rfl)
      have hn := h.name
      rw [Pattern.liftedTag, if_pos hl.1] at hn
      change p.head.options.tagAs = some tag at ht
      rw [ht] at hn
      exact not_asksForUnknown hn ha
    · have hlisted : p.listedTag g = some tag := by rw [Pattern.listedTag, if_neg hl, ht]
      obtain ⟨c, hname, -⟩ := h.tells hg (.inl (by rw [hlisted]; rfl))
      rw [hlisted] at hname
      exact not_asksForUnknown hname ha
  · obtain ⟨c, -, hpatterns⟩ := h.tells hg (.inr (List.ne_nil_of_mem hq))
    rw [← includeListReferences_eq_ok] at hpatterns
    have hall := fails_includeListReferences.mpr ⟨q, hq, hf⟩
    rw [hpatterns] at hall
    exact not_fails_ok _ hall

/-- The rule of a pattern is exact. It is the one rule with the expression of the pattern, with the tag of the
outer group as its name if the whole match takes the place of that group, and with a capture under the number of
each group that has a tag of its own left or has includes, in which the tag and the includes are resolved and
nothing else stands. No two groups have one number. There is no rule exactly when the pattern has no expression,
a tag asks for the number of an unknown group, or an included pattern has no rule. -/
theorem Pattern.toRule_exact (p : Pattern) :
    (∀ expression captures name, p.toRule = .ok (.mk expression captures name) ↔
      p.HasRule expression captures name) ∧
    (p.groups.map fun g => Text.ofInt g.number).Nodup ∧
    (Fails p.toRule ↔ Fails p.evaluate ∨
      (∃ g ∈ p.groups, ∃ tag, g.tagAs = some tag ∧ AsksForUnknown p.groups tag) ∨
      ∃ g ∈ p.groups, g.IncludesUnresolved) := by
  refine ⟨fun expression captures name => ⟨Pattern.hasRule_of_toRule, fun h => ?_⟩, p.nodup_keys,
    Pattern.fails_toRule⟩
  obtain ⟨⟨expression', captures', name'⟩, hr⟩ := not_fails_iff.mp h.not_fails
  rw [hr, (Pattern.hasRule_of_toRule hr).unique h]

/-- The tag of the outer group becomes the name of the rule, and its includes stay. -/
example : (Pattern.last (.mk .plain (.literal "a") (some [.text "b"]) { tagAs := some "whole" } {})).toRule =
    .ok (.mk "a" [("0", .mk none [.inline (.mk "b" [] none)])] (some "whole")) := rfl

end PatternGrammar
