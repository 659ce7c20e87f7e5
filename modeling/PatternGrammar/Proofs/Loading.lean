import PatternGrammar.Proofs.Description
import PatternGrammar.Proofs.Dictionary
import PatternGrammar.Proofs.Numbering

/-!
# Loading accepts what describes a pattern

Every step of the loader decides a part of what it means to describe a pattern: it succeeds if that part holds
and reports that no pattern can be made if it does not. The steps go together as the parts of a description do,
and by induction on its levels the loader decides the whole.
-/

namespace PatternGrammar

/-- No pattern can be made, of the description or with the bounds that it asks for. -/
def Error.isConstruction : Error → Bool
  | .construction _ | .quantity _ _ => true
  | .unresolved _ _ | .engine _ | .numbering _ | .notLookAround _ => false

/-- The step succeeds if `P` holds, and reports that no pattern can be made if it does not. -/
structure Decides {α : Type} (x : Except Error α) (P : Prop) : Prop where
  ok_iff : (∃ a, x = .ok a) ↔ P
  isConstruction : ∀ e, x = .error e → e.isConstruction = true

namespace Decides

variable {α β : Type} {x : Except Error α} {P Q : Prop}

theorem ok (a : α) (h : P) : Decides (.ok a) P where
  ok_iff := ⟨fun _ => h, fun _ => ⟨a, rfl⟩⟩
  isConstruction e he := by cases he

theorem error {e : Error} (he : e.isConstruction = true) (h : ¬ P) : Decides (.error e : Except Error α) P where
  ok_iff := by
    refine ⟨fun hx => ?_, fun hp => absurd hp h⟩
    obtain ⟨a, ha⟩ := hx
    cases ha
  isConstruction _ h := Except.error.inj h ▸ he

theorem of_ok {a : α} (h : Decides x P) (ha : x = .ok a) : P := h.ok_iff.mp ⟨a, ha⟩

theorem of_iff (h : Decides x P) (hpq : P ↔ Q) : Decides x Q := ⟨h.ok_iff.trans hpq, h.isConstruction⟩

/-- What follows a step decides the whole, if the step decides a part of it. -/
theorem bind {f : α → Except Error β} (hx : Decides x P) (hqp : Q → P)
    (hf : ∀ a, x = .ok a → Decides (f a) Q) : Decides (x >>= f) Q := by
  cases x with
  | ok a => exact hf a rfl
  | error e =>
      refine .error (hx.isConstruction e rfl) fun hq => ?_
      obtain ⟨a, ha⟩ := hx.ok_iff.mpr (hqp hq)
      cases ha

theorem map (hx : Decides x P) (f : α → β) : Decides (x >>= fun a => pure (f a)) P :=
  hx.bind id fun _ ha => .ok _ (hx.of_ok ha)

end Decides

/-! ## Values -/

variable {plugins : List Plugin}

theorem hasType_text_iff {v : Json} : HasType plugins .text v ↔ ∃ t, v = .string t :=
  ⟨fun h => by cases h with | text t => exact ⟨t, rfl⟩, by rintro ⟨t, rfl⟩; exact .text t⟩

theorem Json.asText_eq_ok {path t : Text} {v : Json} : v.asText path = .ok t ↔ v = .string t := by
  cases v <;> simp [asText]

theorem Json.asText_decides (path : Text) (v : Json) : Decides (v.asText path) (∃ t, v = .string t) where
  ok_iff := exists_congr fun _ => asText_eq_ok
  isConstruction e h := by
    cases v <;> cases h <;> rfl

theorem Json.itemsAsTexts_decides (path : Text) (index : Nat) (items : List Json) :
    Decides (itemsAsTexts path index items) (∀ v ∈ items, HasType plugins .text v) := by
  induction items generalizing index with
  | nil => exact .ok _ fun v hv => by cases hv
  | cons v rest ih =>
      have hv : Decides (v.asText (itemPath path index)) (HasType plugins .text v) :=
        (v.asText_decides _).of_iff hasType_text_iff.symm
      refine hv.bind (fun h => h v List.mem_cons_self) fun t ht => ?_
      exact ((ih (index + 1)).map _).of_iff
        ⟨fun h => List.forall_mem_cons.mpr ⟨hv.of_ok ht, h⟩, fun h => (List.forall_mem_cons.mp h).2⟩

theorem Json.asTexts_decides (path : Text) (v : Json) :
    Decides (v.asTexts path) (HasType plugins .texts v) := by
  cases v with
  | string t => exact .ok _ (.oneText t)
  | array items =>
      exact (itemsAsTexts_decides path 0 items).of_iff
        ⟨.texts, fun h => by cases h with | texts h => exact h⟩
  | _ => exact .error rfl fun h => by cases h

theorem Json.asCount_decides (path : Text) (v : Json) :
    Decides (v.asCount path) (HasType plugins .count v) := by
  cases v with
  | int n =>
      have hpow : Int.pow 2 31 = 2147483648 := rfl
      rw [asCount, hpow]
      split
      · next h =>
          simp only [Bool.and_eq_true, decide_eq_true_eq] at h
          exact .ok n (.count h.1 (by omega))
      · next h =>
          refine .error rfl fun hc => h ?_
          cases hc with
          | count least most =>
              simp only [Bool.and_eq_true, decide_eq_true_eq]
              omega
  | _ => exact .error rfl fun h => by cases h

theorem Json.asCount_eq_ok {path : Text} {v : Json} {n : Int} (h : v.asCount path = .ok n) : v = .int n := by
  cases v with
  | int m =>
      rw [asCount] at h
      split at h <;> cases h
      rfl
  | _ => cases h

theorem Json.asBool_eq_ok {path : Text} {v : Json} {b : Bool} (h : v.asBool path = .ok b) : v = .bool b := by
  cases v <;> cases h
  rfl

theorem Json.asBool_decides (path : Text) (v : Json) : Decides (v.asBool path) (HasType plugins .flag v) := by
  cases v with
  | bool b => exact .ok b (.flag b)
  | _ => exact .error rfl fun h => by cases h

/-! ## Known options -/

/-- What a reader takes for a value, if it looks at one. -/
def OptionReader.type? : OptionReader → Option OptionType
  | .apart => none
  | .includes => some .includes
  | .text _ => some .text
  | .texts _ => some .texts
  | .count _ => some .count
  | .flag _ => some .flag

theorem optionReaders_declared :
    ∀ x ∈ optionReaders, Dictionary.get? x.1 declaredTypes = x.2.type? ∧
      (x.1 ∈ structuralKeys ∨ x.2.type?.isSome) := by
  decide

theorem exists_reader : ∀ key ∈ structuralKeys ++ declaredTypes.map Prod.fst,
    (Dictionary.get? key optionReaders).isSome := by
  decide

/-- Only a plugin can know a key that no reader stands for. -/
theorem no_reader {key : Text} (h : Dictionary.get? key optionReaders = none) :
    key ∉ structuralKeys ∧ Dictionary.get? key declaredTypes = none := by
  have hkey : key ∉ structuralKeys ++ declaredTypes.map Prod.fst := by
    intro hk
    have hr := exists_reader key hk
    rw [h] at hr
    cases hr
  rw [List.mem_append, not_or] at hkey
  refine ⟨hkey.1, ?_⟩
  cases ht : Dictionary.get? key declaredTypes with
  | none => rfl
  | some type => exact absurd (List.mem_map_of_mem (Dictionary.mem_of_get? ht)) hkey.2

/-! ## Levels -/

theorem Json.depth_le_of_mem_members {m : Text × Json} {members : List (Text × Json)} (h : m ∈ members) :
    m.2.depth ≤ depthOfMembers members := by
  induction members with
  | nil => cases h
  | cons w rest ih =>
      obtain ⟨key, w⟩ := w
      rw [depthOfMembers]
      rcases List.mem_cons.mp h with rfl | h
      · exact Nat.le_max_left _ _
      · exact (ih h).trans (Nat.le_max_right _ _)

/-- The patterns of values of up to `fuel` levels are loaded as they should be. -/
def LoadsWithin (plugins : List Plugin) (load : Text → Json → Except Error Pattern) (fuel : Nat) : Prop :=
  ∀ path v, v.depth ≤ fuel → Decides (load path v) (Describes plugins v)

section
variable {load : Text → Json → Except Error Pattern} {fuel : Nat} (hload : LoadsWithin plugins load fuel)
include hload

/-! ## Matchers, includes and what follows -/

theorem describedLiteral_decides (path : Text) {v : Json} (hv : v.depth ≤ fuel) :
    Decides (describedLiteral load path v) (DescribesMatcher plugins .literal v) := by
  cases v with
  | string t => exact .ok _ (.literal t)
  | object members =>
      refine ((hload path _ hv).map Matcher.nested).of_iff ⟨.nested, fun h => ?_⟩
      cases h with
      | nested h => exact h
  | array items =>
      -- only a list of one item is looked into
      obtain _ | ⟨one, _ | ⟨second, items⟩⟩ := items
      · refine .error rfl fun h => by cases h
      · have hone : one.depth ≤ fuel := by
          simp only [Json.depth, Json.depthOfItems] at hv
          omega
        cases one with
        | string t => exact .ok _ (.oneLiteral t)
        | object members =>
            refine ((hload path _ hone).map Matcher.nested).of_iff ⟨.oneNested, fun h => ?_⟩
            cases h with
            | oneNested h => exact h
        | _ => exact .error rfl fun h => by cases h
      · refine .error rfl fun h => by cases h
  | _ => exact .error rfl fun h => by cases h

theorem describedInclude_decides (path : Text) {v : Json} (hv : v.depth ≤ fuel) :
    Decides (describedInclude load path v) (DescribesInclude plugins v) := by
  cases v with
  | string t => exact .ok _ (.text t)
  | object members =>
      refine ((hload path _ hv).map Include.pattern).of_iff ⟨.pattern, fun h => ?_⟩
      cases h with
      | pattern h => exact h
  | _ => exact .error rfl fun h => by cases h

theorem describedIncludesFrom_decides (path : Text) (index : Nat) {items : List Json}
    (hi : Json.depthOfItems items ≤ fuel) :
    Decides (describedIncludesFrom load path index items) (∀ v ∈ items, DescribesInclude plugins v) := by
  induction items generalizing index with
  | nil => exact .ok _ fun v hv => by cases hv
  | cons v rest ih =>
      obtain ⟨hv, hr⟩ := Nat.max_le.mp hi
      have hd := describedInclude_decides hload (itemPath path index) hv
      refine hd.bind (fun h => h v List.mem_cons_self) fun entry he => ?_
      exact ((ih (index + 1) hr).map _).of_iff
        ⟨fun h => List.forall_mem_cons.mpr ⟨hd.of_ok he, h⟩, fun h => (List.forall_mem_cons.mp h).2⟩

theorem describedIncludes_decides (path : Text) {v : Json} (hv : v.depth ≤ fuel) :
    Decides (describedIncludes load path v) (HasType plugins .includes v) := by
  cases v with
  | array items =>
      refine (describedIncludesFrom_decides hload path 0 (Nat.le_of_succ_le hv)).of_iff
        ⟨.includes, fun h => ?_⟩
      cases h with
      | includes h => exact h
      | oneInclude h => cases h
  | _ =>
      refine ((describedInclude_decides hload path hv).map fun i => [i]).of_iff ⟨.oneInclude, fun h => ?_⟩
      cases h with
      | oneInclude h => exact h

theorem appendDescribed_decides (path : Text) (index : Nat) {items : List Json} (p : Pattern)
    (hi : Json.depthOfItems items ≤ fuel) :
    Decides (appendDescribed load path index items p) (∀ v ∈ items, Describes plugins v) := by
  induction items generalizing index p with
  | nil => exact .ok _ fun v hv => by cases hv
  | cons v rest ih =>
      obtain ⟨hv, hr⟩ := Nat.max_le.mp hi
      have hd := hload (itemPath path index) v hv
      refine hd.bind (fun h => h v List.mem_cons_self) fun next hn => ?_
      exact (ih (index + 1) (p.append next) hr).of_iff
        ⟨fun h => List.forall_mem_cons.mpr ⟨hd.of_ok hn, h⟩, fun h => (List.forall_mem_cons.mp h).2⟩

/-! ## Options -/

theorem OptionReader.read_decides {type : OptionType} {reader : OptionReader}
    (ht : reader.type? = some type) (path : Text) {v : Json} (hv : v.depth ≤ fuel) (d : AttributeDraft) :
    Decides (reader.read load path v d) (HasType plugins type v) := by
  cases reader with
  | apart => cases ht
  | includes => cases ht; exact (describedIncludes_decides hload path hv).map _
  | text put => cases ht; exact ((v.asText_decides path).map _).of_iff hasType_text_iff.symm
  | texts put => cases ht; exact (v.asTexts_decides path).map _
  | count put => cases ht; exact (v.asCount_decides path).map _
  | flag put => cases ht; exact (v.asBool_decides path).map _

theorem AttributeDraft.add_decides (path key : Text) {v : Json} (hv : v.depth ≤ fuel) (d : AttributeDraft) :
    Decides (d.add plugins load path key v)
      (IsKnown plugins key ∧
        ∀ type, Dictionary.get? key declaredTypes = some type → HasType plugins type v) := by
  unfold AttributeDraft.add
  cases hr : Dictionary.get? key optionReaders with
  | none =>
      obtain ⟨hs, hd⟩ := no_reader hr
      have hnone : ∀ type, Dictionary.get? key declaredTypes = some type → HasType plugins type v := by
        intro type ht
        rw [hd] at ht
        cases ht
      by_cases hk : recognizes plugins key
      · rw [hk]
        exact .ok _ ⟨.inr (.inr hk), hnone⟩
      · simp only [hk, Bool.false_eq_true, if_false]
        refine .error rfl fun h => ?_
        rcases h.1 with h | h | h
        · exact hs h
        · rw [hd] at h
          cases h
        · exact hk h
  | some reader =>
      obtain ⟨hd, hs⟩ := optionReaders_declared _ (Dictionary.mem_of_get? hr)
      simp only at hd hs
      cases ht : reader.type? with
      | none =>
          rw [ht] at hd hs
          have hapart : reader = .apart := by
            cases reader <;> first | rfl | cases ht
          refine hapart ▸ .ok d ⟨.inl (hs.resolve_right (by simp)), fun type h => ?_⟩
          rw [hd] at h
          cases h
      | some type =>
          rw [ht] at hd
          refine (reader.read_decides hload ht _ hv d).of_iff ⟨fun h => ⟨.inr (.inl ?_), fun other ho => ?_⟩,
            fun h => h.2 type hd⟩
          · rw [hd]
            rfl
          · rw [hd] at ho
            cases ho
            exact h

theorem addOptions_decides (path : Text) {members : Dictionary Json} (d : AttributeDraft)
    (hm : Json.depthOfMembers members ≤ fuel) :
    Decides (addOptions plugins load path members d)
      (∀ m ∈ members, IsKnown plugins m.1 ∧
        ∀ type, Dictionary.get? m.1 declaredTypes = some type → HasType plugins type m.2) := by
  induction members generalizing d with
  | nil => exact .ok _ fun m h => by cases h
  | cons m rest ih =>
      obtain ⟨key, v⟩ := m
      obtain ⟨hv, hr⟩ := Nat.max_le.mp hm
      have hd := d.add_decides hload path key hv
      refine hd.bind (fun h => h (key, v) List.mem_cons_self) fun d' hd' => ?_
      exact (ih d' hr).of_iff
        ⟨fun h => List.forall_mem_cons.mpr ⟨hd.of_ok hd', h⟩, fun h => (List.forall_mem_cons.mp h).2⟩

end

/-! ## Repetition options -/

variable {load : Text → Json → Except Error Pattern} {path : Text} {β : Type}

theorem latest?_cons (key own : Text) (v : Json) (rest : Dictionary Json) :
    latest? key ((own, v) :: rest) =
      (latest? key rest).or (if own = key then some v else none) := by
  rw [latest?, List.reverse_cons, Dictionary.get?_append]
  rfl

/-- How a view of the attributes changes when this reader puts a value there: under the key of the view it
becomes what the value means, under every other it stays. -/
def OptionReader.Shows (key : Text) (view : AttributeDraft → β) (meaning : Json → β) (own : Text) :
    OptionReader → Prop
  | .apart => own ≠ key
  | .includes => own ≠ key ∧ ∀ i d, view { d with attributes := { d.attributes with includes := i } } = view d
  | .text put => own ≠ key ∧ ∀ t d, view { d with attributes := put t d.attributes } = view d
  | .texts put => own ≠ key ∧ ∀ ts d, view { d with attributes := put ts d.attributes } = view d
  | .count put => ∀ n d, view { d with attributes := put n d.attributes } =
      if own = key then meaning (.int n) else view d
  | .flag put => ∀ b d, view (put b d) = if own = key then meaning (.bool b) else view d

/-- The view shows what stands under the key, whatever else is read. -/
structure IsView (key : Text) (view : AttributeDraft → β) (meaning : Json → β) : Prop where
  known : (Dictionary.get? key optionReaders).isSome
  shows : ∀ x ∈ optionReaders, x.2.Shows key view meaning x.1
  plugin : ∀ o d, view { d with attributes := { d.attributes with pluginOptions := o } } = view d

namespace IsView

variable {key : Text} {view : AttributeDraft → β} {meaning : Json → β} {d d' : AttributeDraft}

theorem add (hw : IsView key view meaning) {own : Text} {v : Json}
    (h : d.add plugins load path own v = .ok d') : view d' = if own = key then meaning v else view d := by
  unfold AttributeDraft.add at h
  cases hr : Dictionary.get? own optionReaders with
  | none =>
      have hne : own ≠ key := by
        rintro rfl
        have hk := hw.known
        rw [hr] at hk
        cases hk
      rw [if_neg hne]
      simp only [hr] at h
      split at h
      · cases h
        exact hw.plugin _ d
      · cases h
  | some reader =>
      have hs := hw.shows _ (Dictionary.mem_of_get? hr)
      simp only [hr] at h
      cases reader with
      | apart =>
          cases h
          rw [if_neg hs]
      | includes =>
          obtain ⟨i, -, h⟩ := Except.bind_eq_ok.mp h
          cases h
          rw [if_neg hs.1]
          exact hs.2 _ d
      | text put =>
          obtain ⟨t, -, h⟩ := Except.bind_eq_ok.mp h
          cases h
          rw [if_neg hs.1]
          exact hs.2 t d
      | texts put =>
          obtain ⟨ts, -, h⟩ := Except.bind_eq_ok.mp h
          cases h
          rw [if_neg hs.1]
          exact hs.2 ts d
      | count put =>
          obtain ⟨n, hn, h⟩ := Except.bind_eq_ok.mp h
          cases h
          rw [Json.asCount_eq_ok hn]
          exact hs n d
      | flag put =>
          obtain ⟨b, hb, h⟩ := Except.bind_eq_ok.mp h
          cases h
          rw [Json.asBool_eq_ok hb]
          exact hs b d

/-- After all members the view shows the last value under its key. -/
theorem addOptions (hw : IsView key view meaning) {members : Dictionary Json}
    (h : addOptions plugins load path members d = .ok d') :
    view d' = ((latest? key members).map meaning).getD (view d) := by
  induction members generalizing d with
  | nil =>
      cases h
      rfl
  | cons m rest ih =>
      obtain ⟨own, v⟩ := m
      obtain ⟨d₁, hd, h⟩ := Except.bind_eq_ok.mp h
      rw [ih h, hw.add hd, latest?_cons]
      cases latest? key rest with
      | some w => rfl
      | none =>
          by_cases hk : own = key
          · simp only [if_pos hk, Option.none_or, Option.map_some, Option.map_none, Option.getD_some,
              Option.getD_none]
          · simp only [if_neg hk, Option.none_or, Option.map_none, Option.getD_none]

end IsView

def Json.count? : Json → Option Int
  | .int n => some n
  | _ => none

def Json.isTrue : Json → Bool
  | .bool b => b
  | _ => false

theorem countUnder_eq (key : Text) (members : Dictionary Json) :
    countUnder key members = ((latest? key members).map Json.count?).getD none := by
  unfold countUnder
  obtain _ | v := latest? key members
  · rfl
  · cases v <;> rfl

theorem isOn_eq (key : Text) (members : Dictionary Json) :
    isOn key members = ((latest? key members).map Json.isTrue).getD false := by
  unfold isOn
  obtain _ | v := latest? key members
  · rfl
  · cases v <;> rfl

/-- The counts among the attributes, under their keys. -/
def countViews : List (Text × (AttributeDraft → Option Int)) :=
  [("at_least", (·.attributes.atLeast)), ("at_most", (·.attributes.atMost)),
    ("how_many_times", (·.attributes.howManyTimes))]

/-- The flags among the attributes and beside them, under their keys. -/
def flagViews : List (Text × (AttributeDraft → Bool)) :=
  [("dont_back_track", (·.attributes.dontBackTrack)), ("as_few_as_possible", (·.attributes.asFewAsPossible)),
    ("possessive", (·.possessive)), ("lazy", (·.lazy)), ("greedy", (·.greedy))]

theorem isView_of_mem_countViews : ∀ x ∈ countViews, IsView x.1 x.2 Json.count? ∧ x.2 {} = none := by
  rw [countViews, List.forall_mem_cons, List.forall_mem_cons, List.forall_mem_cons]
  refine ⟨⟨?_, rfl⟩, ⟨?_, rfl⟩, ⟨?_, rfl⟩, fun x hx => by cases hx⟩
  all_goals
    exact ⟨by decide, by simp +decide [optionReaders, OptionReader.Shows, OptionReader.flagOf, Json.count?],
      fun _ _ => rfl⟩

theorem isView_of_mem_flagViews : ∀ x ∈ flagViews, IsView x.1 x.2 Json.isTrue ∧ x.2 {} = false := by
  rw [flagViews, List.forall_mem_cons, List.forall_mem_cons, List.forall_mem_cons, List.forall_mem_cons,
    List.forall_mem_cons]
  refine ⟨⟨?_, rfl⟩, ⟨?_, rfl⟩, ⟨?_, rfl⟩, ⟨?_, rfl⟩, ⟨?_, rfl⟩, fun x hx => by cases hx⟩
  all_goals
    exact ⟨by decide, by simp +decide [optionReaders, OptionReader.Shows, OptionReader.flagOf, Json.isTrue],
      fun _ _ => rfl⟩

section
variable {members : Dictionary Json} {draft : AttributeDraft}
  (h : addOptions plugins load path members {} = .ok draft)
include h

theorem count_of_addOptions (x : Text × (AttributeDraft → Option Int)) (hx : x ∈ countViews) :
    x.2 draft = countUnder x.1 members := by
  obtain ⟨hw, hnone⟩ := isView_of_mem_countViews x hx
  rw [hw.addOptions h, hnone, countUnder_eq]

theorem flag_of_addOptions (x : Text × (AttributeDraft → Bool)) (hx : x ∈ flagViews) :
    x.2 draft = isOn x.1 members := by
  obtain ⟨hw, hfalse⟩ := isView_of_mem_flagViews x hx
  rw [hw.addOptions h, hfalse, isOn_eq]

/-- The options that have been read ask for the repetition that the members ask for. -/
theorem resolve_of_addOptions (allowed : Bool) :
    Quantity.resolve draft.finish.toOptions allowed = Quantity.resolve (requestedOptions members) allowed := by
  have hcount := count_of_addOptions h
  have hflag := flag_of_addOptions h
  simp only [countViews, List.forall_mem_cons] at hcount
  simp only [flagViews, List.forall_mem_cons] at hflag
  obtain ⟨hl, hm, hx, -⟩ := hcount
  obtain ⟨hd, ha, hp, hz, hg, -⟩ := hflag
  have hresolve {o o' : Options} (hl : o.atLeast = o'.atLeast) (hm : o.atMost = o'.atMost)
      (hx : o.howManyTimes = o'.howManyTimes) (hd : o.dontBackTrack = o'.dontBackTrack)
      (ha : o.asFewAsPossible = o'.asFewAsPossible) :
      Quantity.resolve o allowed = Quantity.resolve o' allowed := by
    rw [Quantity.resolve, Quantity.resolve, Quantity.requested, Quantity.requested, hl, hm, hx, hd, ha]
  refine hresolve hl hm hx ?_ ?_
  · simp only [AttributeDraft.finish, requestedOptions, hd, hp, hg]
  · simp only [AttributeDraft.finish, requestedOptions, ha, hz, hg]

end

/-! ## Matchers and kinds -/

theorem Matcher.check_decides (m : Matcher) :
    Decides m.check (∀ source, m = .fragment source → hasOwnGroup source = false) := by
  cases m with
  | literal t => exact .ok () fun _ h => by cases h
  | nested p => exact .ok () fun _ h => by cases h
  | fragment source =>
      rw [Matcher.check]
      split
      · next h => exact .error rfl fun hs => by simp [h] at hs
      · next h =>
          refine .ok () fun other ho => ?_
          cases ho
          simpa using h

theorem Pattern.create_decides (kind : Kind) (m : Matcher) (a : Attributes) :
    Decides (create kind m a) ((∀ source, m = .fragment source → hasOwnGroup source = false) ∧
      ∃ q, Quantity.resolve a.toOptions kind.isQuantifiable = .ok q) := by
  have hm := m.check_decides
  refine hm.bind And.left fun _ hc => ?_
  have hnode : Decides (Node.ofParts kind m a) (∃ q, Quantity.resolve a.toOptions kind.isQuantifiable = .ok q) := by
    unfold Node.ofParts
    cases hr : Quantity.resolve a.toOptions kind.isQuantifiable with
    | ok q => exact .ok _ ⟨q, rfl⟩
    | error fault =>
        refine .error rfl fun hq => ?_
        obtain ⟨q, hq⟩ := hq
        cases hq
  exact (hnode.map _).of_iff ⟨fun h => ⟨hm.of_ok hc, h⟩, And.right⟩

theorem describedKind?_eq_ok {members : Dictionary Json} {named : Option Kind} :
    describedKind? path members = .ok named ↔ NamesKind members named := by
  unfold describedKind?
  cases hk : Dictionary.get? "kind" members with
  | none => cases named <;> simp [NamesKind, hk]
  | some value =>
      constructor
      · intro h
        obtain ⟨name, hn, h⟩ := Except.bind_eq_ok.mp h
        cases hf : Kind.ofName? name with
        | none =>
            rw [hf] at h
            cases h
        | some kind =>
            rw [hf] at h
            cases h
            exact ⟨name, by rw [hk, Json.asText_eq_ok.mp hn], hf⟩
      · intro h
        cases named with
        | none =>
            rw [NamesKind, hk] at h
            cases h
        | some kind =>
            obtain ⟨name, hv, hf⟩ := h
            rw [hk] at hv
            cases hv
            exact Except.bind_eq_ok.mpr ⟨name, rfl, by rw [hf]; rfl⟩

theorem describedKind?_decides (path : Text) (members : Dictionary Json) :
    Decides (describedKind? path members) (∃ named, NamesKind members named) := by
  refine ⟨exists_congr fun _ => describedKind?_eq_ok, fun e h => ?_⟩
  unfold describedKind? at h
  split at h
  · cases h
  · next value hk =>
      have hv := value.asText_decides (memberPath path "kind")
      cases hx : value.asText (memberPath path "kind") with
      | error e' =>
          rw [hx] at h
          cases h
          exact hv.isConstruction e hx
      | ok name =>
          simp only [hx, bind, Except.bind] at h
          split at h <;> cases h
          rfl

/-- The matchers of an object are listed under different keys. -/
theorem nodup_present (members : Dictionary Json) :
    (MatcherKey.all.filterMap fun key =>
      (Dictionary.get? key.name members).map fun value => (key, value)).Nodup := by
  refine List.Nodup.filterMap (fun key other x hx ho => ?_) (by decide)
  obtain ⟨_, -, rfl⟩ := Option.map_eq_some_iff.mp hx
  obtain ⟨_, -, he⟩ := Option.map_eq_some_iff.mp ho
  exact (Prod.mk.inj he).1.symm

theorem mem_present {members : Dictionary Json} {key : MatcherKey} {value : Json} :
    (key, value) ∈ (MatcherKey.all.filterMap fun key =>
      (Dictionary.get? key.name members).map fun value => (key, value)) ↔
        Dictionary.get? key.name members = some value := by
  rw [List.mem_filterMap]
  constructor
  · rintro ⟨other, -, ho⟩
    obtain ⟨_, hv, he⟩ := Option.map_eq_some_iff.mp ho
    cases he
    exact hv
  · intro hv
    refine ⟨key, by cases key <;> decide, ?_⟩
    rw [hv]
    rfl

theorem onlyMatcher_eq_ok {members : Dictionary Json} {key : MatcherKey} {value : Json} :
    onlyMatcher path members = .ok (key, value) ↔ OnlyMatcher members key value := by
  have hmem := @mem_present members
  have hnodup := nodup_present members
  unfold onlyMatcher
  generalize MatcherKey.all.filterMap (fun key =>
    (Dictionary.get? key.name members).map fun value => (key, value)) = present at *
  constructor
  · intro h
    obtain _ | ⟨one, _ | ⟨second, rest⟩⟩ := present
    · cases h
    · cases h
      refine ⟨hmem.mp List.mem_cons_self, fun other ho => ?_⟩
      obtain ⟨v, hv⟩ := Option.isSome_iff_exists.mp ho
      have hx := List.mem_singleton.mp (hmem.mpr hv)
      exact (Prod.mk.inj hx).1
    · cases h
  · rintro ⟨hv, hother⟩
    have hx : (key, value) ∈ present := hmem.mpr hv
    have hall : ∀ x ∈ present, x = (key, value) := by
      rintro ⟨other, v⟩ hx
      have ho := hmem.mp hx
      obtain rfl := hother other (by rw [ho]; rfl)
      rw [hv] at ho
      cases ho
      rfl
    have hone : present = [(key, value)] := by
      rw [List.eq_replicate_of_mem hall, List.nodup_replicate] at hnodup
      have hpos := List.length_pos_of_mem hx
      rw [List.eq_replicate_of_mem hall, show present.length = 1 by omega]
      rfl
    rw [hone]

theorem onlyMatcher_decides (path : Text) (members : Dictionary Json) :
    Decides (onlyMatcher path members) (∃ x : MatcherKey × Json, OnlyMatcher members x.1 x.2) where
  ok_iff := exists_congr fun _ => onlyMatcher_eq_ok
  isConstruction e h := by
    unfold onlyMatcher at h
    dsimp only at h
    split at h <;> cases h <;> rfl

theorem MatcherKey.AgreesWith.getD_eq {key : MatcherKey} {named : Option Kind} {reference : ReferenceKind}
    (h : key.AgreesWith named) (hr : key.reference? = some reference) :
    named.getD key.defaultKind = reference.nodeKind := by
  cases named with
  | none => simp [MatcherKey.defaultKind, hr]
  | some kind => exact h reference hr kind rfl

/-- A text under a key that asks for a fragment describes a matcher if the fragment has no group. -/
theorem describesMatcher_string_iff {key : MatcherKey} {t source : Text} (hs : key.fragment? t = some source) :
    DescribesMatcher plugins key (.string t) ↔ hasOwnGroup source = false := by
  refine ⟨fun h => ?_, .fragment hs⟩
  cases h with
  | literal => cases hs
  | fragment ho hc =>
      rw [hs] at ho
      cases ho
      exact hc

theorem describedLiteral_ne_fragment {v : Json} {source : Text} :
    describedLiteral load path v ≠ .ok (.fragment source) := by
  intro h
  unfold describedLiteral at h
  dsimp only at h
  split at h
  all_goals
    obtain ⟨value, -, h⟩ := Except.bind_eq_ok.mp h
    split at h
    · cases h
    · obtain ⟨p, -, h⟩ := Except.bind_eq_ok.mp h
      cases h
    · cases h

theorem describedLiteral_eq_nested {v : Json} {p : Pattern} (h : describedLiteral load path v = .ok (.nested p)) :
    ∃ w, load path w = .ok p := by
  unfold describedLiteral at h
  dsimp only at h
  split at h
  all_goals
    obtain ⟨value, -, h⟩ := Except.bind_eq_ok.mp h
    split at h
    · cases h
    · obtain ⟨q, hq, h⟩ := Except.bind_eq_ok.mp h
      cases h
      exact ⟨_, hq⟩
    · cases h

/-- The value can be read under the key; what is made of a fragment is not looked at yet. -/
def IsReadable (plugins : List Plugin) (key : MatcherKey) (v : Json) : Prop :=
  match key with
  | .literal => DescribesMatcher plugins .literal v
  | .regex | .matchResultOf | .recursivelyMatch => ∃ t, v = .string t

theorem DescribesMatcher.isReadable {key : MatcherKey} {v : Json} (h : DescribesMatcher plugins key v) :
    IsReadable plugins key v := by
  cases key with
  | literal => exact h
  | _ =>
      cases h with
      | fragment => exact ⟨_, rfl⟩

theorem describedReference_decides (path : Text) {key : MatcherKey} {reference : ReferenceKind}
    (hr : key.reference? = some reference) (named : Option Kind) (v : Json) :
    Decides (describedReference path key reference named v) (key.AgreesWith named ∧ ∃ t, v = .string t) := by
  have hread := (v.asText_decides (memberPath path key.name)).map fun name =>
    (Matcher.fragment (placeholder reference name), reference.nodeKind)
  unfold describedReference
  cases named with
  | none => exact hread.of_iff ⟨fun h => ⟨fun _ _ _ hk => (by cases hk), h⟩, And.right⟩
  | some kind =>
      by_cases hk : kind = reference.nodeKind
      · simp only [hk, ne_eq, not_true_eq_false, if_false]
        refine hread.of_iff ⟨fun h => ⟨fun other ho _ hk => ?_, h⟩, And.right⟩
        cases hr.symm.trans ho
        cases hk
        rfl
      · simp only [ne_eq, hk, not_false_eq_true, if_true]
        exact .error rfl fun h => hk (h.1 reference hr kind rfl)

theorem describedReference_eq_ok {key : MatcherKey} {reference : ReferenceKind} {named : Option Kind} {v : Json}
    {m : Matcher} {kind : Kind} (h : describedReference path key reference named v = .ok (m, kind)) :
    ∃ t, v = .string t ∧ m = .fragment (placeholder reference t) ∧ kind = reference.nodeKind := by
  have hread (h : (v.asText (memberPath path key.name) >>= fun name =>
      pure (Matcher.fragment (placeholder reference name), reference.nodeKind)) = .ok (m, kind)) :
      ∃ t, v = .string t ∧ m = .fragment (placeholder reference t) ∧ kind = reference.nodeKind := by
    obtain ⟨t, ht, h⟩ := Except.bind_eq_ok.mp h
    cases h
    exact ⟨t, Json.asText_eq_ok.mp ht, rfl, rfl⟩
  unfold describedReference at h
  cases named with
  | none => exact hread h
  | some other =>
      by_cases hk : other = reference.nodeKind
      · simp only [hk, ne_eq, not_true_eq_false, if_false] at h
        exact hread h
      · simp only [ne_eq, hk, not_false_eq_true, if_true] at h
        cases h

section
variable {fuel : Nat} (hload : LoadsWithin plugins load fuel)
include hload

theorem MatcherKey.read_decides (path : Text) (key : MatcherKey) (named : Option Kind) {v : Json}
    (hv : v.depth ≤ fuel) :
    Decides (key.read load path named v) (key.AgreesWith named ∧ IsReadable plugins key v) := by
  have hfree (h : key.reference? = none) : key.AgreesWith named := fun reference hr => by
    rw [h] at hr
    cases hr
  cases key with
  | literal =>
      exact ((describedLiteral_decides hload _ hv).map _).of_iff ⟨fun h => ⟨hfree rfl, h⟩, And.right⟩
  | regex => exact ((v.asText_decides _).map _).of_iff ⟨fun h => ⟨hfree rfl, h⟩, And.right⟩
  | matchResultOf => exact describedReference_decides path rfl named v
  | recursivelyMatch => exact describedReference_decides path rfl named v

/-- The matcher that has been read passes the check of fragments if the value describes a matcher, and the
kind is the one that is named or else that of the key. -/
theorem MatcherKey.read_eq_ok {key : MatcherKey} {named : Option Kind} {v : Json} (hv : v.depth ≤ fuel)
    {m : Matcher} {kind : Kind} (h : key.read load path named v = .ok (m, kind)) :
    kind = named.getD key.defaultKind ∧
      ((∀ source, m = .fragment source → hasOwnGroup source = false) ↔ DescribesMatcher plugins key v) := by
  have hd := key.read_decides hload path named hv
  obtain ⟨ha, hr⟩ := hd.of_ok h
  have hfragment {t source : Text} (hs : key.fragment? t = some source) :
      (∀ other, Matcher.fragment source = .fragment other → hasOwnGroup other = false) ↔
        DescribesMatcher plugins key (.string t) :=
    ⟨fun h => (describesMatcher_string_iff hs).mpr (h source rfl), fun h other ho =>
      Matcher.fragment.inj ho ▸ (describesMatcher_string_iff hs).mp h⟩
  cases key with
  | literal =>
      obtain ⟨m', hm, h⟩ := Except.bind_eq_ok.mp h
      cases h
      refine ⟨rfl, fun _ => hr, fun _ source hs => ?_⟩
      subst hs
      exact absurd hm describedLiteral_ne_fragment
  | regex =>
      obtain ⟨t, ht, h⟩ := Except.bind_eq_ok.mp h
      cases h
      obtain rfl := Json.asText_eq_ok.mp ht
      exact ⟨rfl, hfragment rfl⟩
  | matchResultOf | recursivelyMatch =>
      obtain ⟨t, rfl, rfl, rfl⟩ := describedReference_eq_ok h
      exact ⟨(ha.getD_eq rfl).symm, hfragment rfl⟩

/-! ## Objects -/

theorem describedMatcher_decides (path : Text) {members : Dictionary Json}
    (hm : Json.depthOfMembers members ≤ fuel) :
    Decides (describedMatcher load path members) (∃ named key v, NamesKind members named ∧
      OnlyMatcher members key v ∧ key.AgreesWith named ∧ IsReadable plugins key v) := by
  refine (describedKind?_decides path members).bind ?_ fun named hn => ?_
  · rintro ⟨named, _, _, hn, -⟩
    exact ⟨named, hn⟩
  refine (onlyMatcher_decides path members).bind ?_ fun x hx => ?_
  · rintro ⟨_, key, v, -, ho, -⟩
    exact ⟨(key, v), ho⟩
  obtain ⟨key, v⟩ := x
  have ho := onlyMatcher_eq_ok.mp hx
  have hv := Nat.le_trans (Json.depth_le_of_mem_members (Dictionary.mem_of_get? ho.1)) hm
  refine (key.read_decides hload path named hv).of_iff ⟨?_, ?_⟩
  · rintro ⟨ha, hr⟩
    exact ⟨named, key, v, describedKind?_eq_ok.mp hn, ho, ha, hr⟩
  · rintro ⟨named', key', v', hn', ho', ha, hr⟩
    cases hn.symm.trans (describedKind?_eq_ok.mpr hn')
    cases hx.symm.trans (onlyMatcher_eq_ok.mpr ho')
    exact ⟨ha, hr⟩

omit hload in
theorem describedMatcher_eq_ok {members : Dictionary Json} {m : Matcher} {kind : Kind}
    (h : describedMatcher load path members = .ok (m, kind)) :
    ∃ named key v, NamesKind members named ∧ OnlyMatcher members key v ∧
      key.read load path named v = .ok (m, kind) := by
  obtain ⟨named, hn, h⟩ := Except.bind_eq_ok.mp h
  obtain ⟨x, hx, h⟩ := Except.bind_eq_ok.mp h
  exact ⟨named, x.1, x.2, describedKind?_eq_ok.mp hn, onlyMatcher_eq_ok.mp hx, h⟩

end

theorem NamesKind.unique {members : Dictionary Json} {named named' : Option Kind} (h : NamesKind members named)
    (h' : NamesKind members named') : named = named' := by
  have hn := (@describedKind?_eq_ok [] members named).mpr h
  rw [describedKind?_eq_ok.mpr h'] at hn
  exact (Except.ok.inj hn).symm

theorem OnlyMatcher.unique {members : Dictionary Json} {key key' : MatcherKey} {v v' : Json}
    (h : OnlyMatcher members key v) (h' : OnlyMatcher members key' v') : key = key' ∧ v = v' := by
  obtain rfl : key' = key := h.2 key' (by rw [h'.1]; rfl)
  exact ⟨rfl, Option.some.inj (h.1.symm.trans h'.1)⟩

/-- What it takes to describe a pattern, once the kind that is named and the matcher are known. -/
theorem describes_object_iff {members : Dictionary Json} {named : Option Kind} {key : MatcherKey} {v : Json}
    (hn : NamesKind members named) (ho : OnlyMatcher members key v) :
    Describes plugins (.object members) ↔
      key.AgreesWith named ∧ DescribesMatcher plugins key v ∧
      (∀ m ∈ members, IsKnown plugins m.1 ∧
        ∀ type, Dictionary.get? m.1 declaredTypes = some type → HasType plugins type m.2) ∧
      (∃ q, Quantity.resolve (requestedOptions members) (named.getD key.defaultKind).isQuantifiable = .ok q) ∧
      ∀ w, Dictionary.get? "then" members = some w → HasType plugins .chain w := by
  constructor
  · intro h
    cases h with
    | object only kind_eq matcher known typed repeatable chain =>
        obtain ⟨named', hn', ha, rfl⟩ := kind_eq
        obtain rfl := hn.unique hn'
        obtain ⟨rfl, rfl⟩ := ho.unique only
        exact ⟨ha, matcher, fun m h => ⟨known m h, typed m h⟩, repeatable, chain⟩
  · rintro ⟨ha, hm, hopts, hq, hc⟩
    exact .object ho ⟨named, hn, ha, rfl⟩ hm (fun m h => (hopts m h).1) (fun m h => (hopts m h).2) hq hc

section
variable {fuel : Nat} (hload : LoadsWithin plugins load fuel)
include hload

theorem describedObject_decides (path : Text) {members : Dictionary Json}
    (hm : Json.depthOfMembers members ≤ fuel) :
    Decides (describedObject plugins load path members) (Describes plugins (.object members)) := by
  refine (describedMatcher_decides hload path hm).bind ?_ fun x hx => ?_
  · intro h
    cases h with
    | object only kind_eq matcher _ _ _ _ =>
        obtain ⟨named, hn, ha, -⟩ := kind_eq
        exact ⟨named, _, _, hn, only, ha, matcher.isReadable⟩
  obtain ⟨m, kind⟩ := x
  obtain ⟨named, key, v, hn, ho, hread⟩ := describedMatcher_eq_ok hx
  have hv := Nat.le_trans (Json.depth_le_of_mem_members (Dictionary.mem_of_get? ho.1)) hm
  have ha := ((key.read_decides hload path named hv).of_ok hread).1
  obtain ⟨rfl, hmatcher⟩ := key.read_eq_ok hload hv hread
  have hiff := @describes_object_iff plugins _ _ _ _ hn ho
  have hopts := addOptions_decides hload path {} hm
  refine hopts.bind (fun h => (hiff.mp h).2.2.1) fun draft hdraft => ?_
  have hcreate := Pattern.create_decides (named.getD key.defaultKind) m draft.finish
  rw [resolve_of_addOptions hdraft, hmatcher] at hcreate
  refine hcreate.bind (fun h => ⟨(hiff.mp h).2.1, (hiff.mp h).2.2.2.1⟩) fun p hp => ?_
  obtain ⟨hd, hq⟩ := hcreate.of_ok hp
  -- all that is left to decide is what follows in the chain
  have hchain : (∀ w, Dictionary.get? "then" members = some w → HasType plugins .chain w) ↔
      Describes plugins (.object members) :=
    ⟨fun h => hiff.mpr ⟨ha, hd, hopts.of_ok hdraft, hq, h⟩, fun h => (hiff.mp h).2.2.2.2⟩
  refine .of_iff ?_ hchain
  cases hc : Dictionary.get? "then" members with
  | none => exact .ok p fun w hw => by cases hw
  | some w =>
      have hsome : HasType plugins .chain w ↔ ∀ w', some w = some w' → HasType plugins .chain w' :=
        ⟨fun h w' hw => Option.some.inj hw ▸ h, fun h => h w rfl⟩
      refine .of_iff ?_ hsome
      cases w with
      | array items =>
          have hi := Nat.le_trans (Json.depth_le_of_mem_members (Dictionary.mem_of_get? hc)) hm
          refine (appendDescribed_decides hload _ 0 p (Nat.le_of_succ_le hi)).of_iff ⟨.chain, fun h => ?_⟩
          cases h with
          | chain h => exact h
      | _ => exact .error rfl fun h => by cases h

end

/-! ## Descriptions -/

/-- Descriptions of up to so many levels are loaded as they should be. -/
theorem loadWithin_decides (plugins : List Plugin) (fuel : Nat) :
    LoadsWithin plugins (loadWithin plugins fuel) fuel := by
  induction fuel with
  | zero =>
      intro path v hv
      cases v with
      | string t => exact .ok _ (.text t)
      | object members => cases hv
      | _ => exact .error rfl fun h => by cases h
  | succ fuel ih =>
      intro path v hv
      cases v with
      | string t => exact .ok _ (.text t)
      | object members => exact describedObject_decides ih path (Nat.le_of_succ_le_succ hv)
      | _ => exact .error rfl fun h => by cases h

/-- The loader accepts exactly what describes a pattern, whatever the plugins know, and reports of everything
else that no pattern can be made of it. -/
theorem loadPattern_describes (plugins : List Plugin) (d : Json) :
    ((∃ p, loadPattern plugins d = .ok p) ↔ Describes plugins d) ∧
      ((∃ e, e.isConstruction = true ∧ loadPattern plugins d = .error e) ↔ ¬ Describes plugins d) := by
  have hd : Decides (loadPattern plugins d) (Describes plugins d) :=
    loadWithin_decides plugins d.depth "pattern" d (Nat.le_refl _)
  refine ⟨hd.ok_iff, ?_⟩
  cases hl : loadPattern plugins d with
  | ok p =>
      refine ⟨fun he => ?_, fun hn => absurd (hd.of_ok hl) hn⟩
      obtain ⟨_, -, he⟩ := he
      cases he
  | error e =>
      refine ⟨fun _ hp => ?_, fun _ => ⟨e, hd.isConstruction e hl, rfl⟩⟩
      obtain ⟨p, hp⟩ := hd.ok_iff.mpr hp
      rw [hl] at hp
      cases hp

end PatternGrammar
