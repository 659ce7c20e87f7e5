import PatternGrammar.Proofs.Origins

/-!
# References in loaded patterns

Two keys ask for a reference to a group: the node then has the kind of such a reference, and what it matches is
the place for it. Beside any other matcher an object can name these kinds too, and that is the only way for kind
and place to come apart.
-/

namespace PatternGrammar

/-- The description asks for a reference to the group of this name. -/
def Json.Refers (w : Json) (reference : ReferenceKind) (name : Text) : Prop :=
  ∃ members key, w = .object members ∧ key.reference? = some reference ∧ OnlyMatcher members key (.string name)

/-- The description names the kind of such a reference beside a matcher that is none. -/
def Json.NamesBeside (w : Json) (reference : ReferenceKind) : Prop :=
  ∃ members key value, w = .object members ∧ OnlyMatcher members key value ∧ key.reference? = none ∧
    NamesKind members (some reference.nodeKind)

/-- The node has the kind of such a reference exactly when it matches the place for one that the description asks
for. -/
def Node.IsReferenceAsAsked (n : Node) (w : Json) (reference : ReferenceKind) : Prop :=
  n.kind = reference.nodeKind ↔
    ∃ name, w.Refers reference name ∧ n.matcher = .fragment (placeholder reference name)

theorem ReferenceKind.nodeKind_inj {r s : ReferenceKind} : r.nodeKind = s.nodeKind ↔ r = s := by
  cases r <;> cases s <;> decide

theorem ReferenceKind.nodeKind_ne_plain (r : ReferenceKind) : r.nodeKind ≠ .plain := by
  cases r <;> decide

theorem MatcherKey.fragment?_of_reference {key : MatcherKey} {reference : ReferenceKind}
    (h : key.reference? = some reference) (t : Text) : key.fragment? t = some (placeholder reference t) := by
  cases key <;> cases h <;> rfl

theorem OnlyMatcher.refers_iff {members : Dictionary Json} {key : MatcherKey} {value : Json}
    (h : OnlyMatcher members key value) {reference : ReferenceKind} {name : Text} :
    (Json.object members).Refers reference name ↔ key.reference? = some reference ∧ value = .string name := by
  constructor
  · rintro ⟨_, key', he, hr, ho⟩
    cases he
    obtain ⟨rfl, rfl⟩ := h.unique ho
    exact ⟨hr, rfl⟩
  · rintro ⟨hr, rfl⟩
    exact ⟨members, key, rfl, hr, h⟩

theorem OnlyMatcher.namesBeside_iff {members : Dictionary Json} {key : MatcherKey} {value : Json}
    (h : OnlyMatcher members key value) {named : Option Kind} (hn : NamesKind members named)
    {reference : ReferenceKind} :
    (Json.object members).NamesBeside reference ↔
      key.reference? = none ∧ named = some reference.nodeKind := by
  constructor
  · rintro ⟨_, key', _, he, ho, hr, hk⟩
    cases he
    obtain ⟨rfl, rfl⟩ := h.unique ho
    exact ⟨hr, hn.unique hk⟩
  · rintro ⟨hr, rfl⟩
    exact ⟨members, key, value, rfl, h, hr, hn⟩

variable {plugins : List Plugin}

/-- Kind and place come apart exactly where the kind is named beside another matcher. -/
theorem Node.DescribedBy.isReferenceAsAsked_iff {R : Json → Pattern → Prop} {n : Node} {w : Json}
    (h : n.DescribedBy R w) (reference : ReferenceKind) :
    n.IsReferenceAsAsked w reference ↔ ¬ w.NamesBeside reference := by
  cases h with
  | @text t hk hm _ =>
      have hrefers : ¬ ∃ name, (Json.string t).Refers reference name ∧
          n.matcher = .fragment (placeholder reference name) := by
        rintro ⟨_, ⟨_, _, he, -⟩, -⟩
        cases he
      have hbeside : ¬ (Json.string t).NamesBeside reference := by
        rintro ⟨_, _, _, he, -⟩
        cases he
      have hkind : n.kind ≠ reference.nodeKind := fun he => reference.nodeKind_ne_plain (he.symm.trans hk)
      exact iff_of_true (iff_of_false hkind hrefers) hbeside
  | @object members key value named only names agrees kind_eq gives includes =>
      rw [Node.IsReferenceAsAsked, only.namesBeside_iff names]
      simp only [only.refers_iff]
      cases hr : key.reference? with
      | none =>
          have hkind : n.kind = reference.nodeKind ↔ named = some reference.nodeKind := by
            rw [kind_eq, MatcherKey.defaultKind, hr]
            cases named with
            | none => exact iff_of_false reference.nodeKind_ne_plain.symm (Option.some_ne_none _).symm
            | some kind => exact Option.some_inj.symm
          rw [hkind]
          simp
      | some own =>
          obtain ⟨t, rfl, hm⟩ : ∃ t, value = .string t ∧ n.matcher = .fragment (placeholder own t) := by
            generalize n.matcher = m at gives
            cases gives with
            | literal | nested => cases hr
            | fragment hs =>
                rw [MatcherKey.fragment?_of_reference hr] at hs
                cases hs
                exact ⟨_, rfl, rfl⟩
          have hkind : n.kind = own.nodeKind := kind_eq.trans (agrees.getD_eq hr)
          rw [hkind, ReferenceKind.nodeKind_inj, hm]
          constructor
          · rintro - ⟨hn, -⟩
            cases hn
          · intro _
            constructor
            · rintro rfl
              exact ⟨t, ⟨rfl, rfl⟩, rfl⟩
            · rintro ⟨_, ⟨ho, -⟩, -⟩
              exact Option.some.inj ho

/-- Every node of a loaded pattern, at any depth, is described by a text or an object in what was loaded, and every
one of these describes a node. Of such a node and its description, the kind is that of a back-reference, or of a
subroutine call, exactly when the matcher is the place for one that the description asks for by the key of such
references, unless the description names the kind beside another matcher; then it is not so. -/
theorem Pattern.loaded_references {path : Text} {d : Json} {p : Pattern}
    (h : loadPatternAt plugins path d = .ok p) :
    (∀ n, p.Owns n → ∃ w : Json, w.Within d ∧ n.DescribedBy (Loads plugins) w ∧
      ∀ reference, n.IsReferenceAsAsked w reference ↔ ¬ w.NamesBeside reference) ∧
    (∀ w : Json, w.Within d → ∃ n, p.Owns n ∧ n.DescribedBy (Loads plugins) w ∧
      ∀ reference, n.IsReferenceAsAsked w reference ↔ ¬ w.NamesBeside reference) := by
  have haccounts := loadWithin_accounts plugins d.depth h
  constructor
  · intro n hn
    obtain ⟨w, hw, hd⟩ := haccounts.described n hn
    exact ⟨w, hw, hd, hd.isReferenceAsAsked_iff⟩
  · intro w hw
    obtain ⟨n, hn, hd⟩ := haccounts.owned w hw
    exact ⟨n, hn, hd, hd.isReferenceAsAsked_iff⟩

/-- A call of the group of a letter. -/
def callOfLetter : Json := .object [("recursively_match", .string "x")]

/-- A letter, and a call of its group behind it. -/
def letterThenCall : Json :=
  .object [("match", .string "a"), ("reference", .string "x"), ("then", .array [callOfLetter])]

theorem letterThenCall_references :
    ∃ p, loadPatternAt [] "pattern" letterThenCall = .ok p ∧ ∃ n, p.Owns n ∧
      n.IsReferenceAsAsked callOfLetter .backReference ∧ n.IsReferenceAsAsked callOfLetter .subroutine := by
  have hok : (loadPatternAt [] "pattern" letterThenCall).isOk = true := by decide +kernel
  cases hp : loadPatternAt [] "pattern" letterThenCall with
  | error e =>
      rw [hp] at hok
      cases hok
  | ok p =>
      have hwithin : callOfLetter.Within letterThenCall := .inside (.chained List.mem_cons_self) .self
      have honly : OnlyMatcher [("recursively_match", .string "x")] .recursivelyMatch (.string "x") :=
        onlyMatcher_eq_ok.mp (rfl : onlyMatcher "pattern" _ = _)
      have hbeside (reference : ReferenceKind) : ¬ callOfLetter.NamesBeside reference := by
        rintro ⟨_, key, _, he, ho, hr, -⟩
        cases he
        obtain ⟨rfl, -⟩ := honly.unique ho
        cases hr
      obtain ⟨n, hn, -, hiff⟩ := (Pattern.loaded_references hp).2 callOfLetter hwithin
      exact ⟨p, rfl, n, hn, (hiff _).mpr (hbeside _), (hiff _).mpr (hbeside _)⟩

/-- The kind of a back-reference beside a literal. -/
def literalAsReference : Json := .object [("kind", .string "matchResultOf"), ("match", .string "a")]

theorem literalAsReference_loaded :
    ∃ p n, loadPatternAt [] "pattern" literalAsReference = .ok p ∧ p.Owns n ∧ n.kind = .backReference ∧
      n.matcher = .literal "a" ∧ ∀ w, ¬ n.IsReferenceAsAsked w .backReference := by
  refine ⟨_, _, rfl, .chained List.mem_cons_self, rfl, rfl, fun w h => ?_⟩
  obtain ⟨_, -, hm⟩ := h.mp rfl
  cases hm

end PatternGrammar
