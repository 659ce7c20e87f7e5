import PatternGrammar.Proofs.Faithfulness
import PatternGrammar.Proofs.Loading
import PatternGrammar.Proofs.Mapping

/-!
# Repetition options stay valid

The repetition options of a node are checked once, when the node is made. Whatever is done to a pattern
afterwards, the quantity of each of its nodes remains the one that its options and its kind are resolved to, so
that what was checked still holds, and no count is written where none is allowed.
-/

namespace PatternGrammar

/-! ## Valid options -/

/-- What has been checked of the repetition options of a node. -/
structure Node.ValidRepetition (n : Node) : Prop where
  resolved : Quantity.resolve n.options n.kind.isQuantifiable = .ok n.quantity
  oneMode : ¬ (n.options.dontBackTrack = true ∧ n.options.asFewAsPossible = true)
  quantifiable : n.quantity.isSet = true → n.kind.isQuantifiable = true
  least_nonneg : ∀ least ∈ n.quantity.atLeast, 0 ≤ least
  most_nonneg : ∀ most ∈ n.quantity.atMost, 0 ≤ most
  lower_le : ∀ most ∈ n.quantity.atMost, n.quantity.lower ≤ most

/-- The quantity of the node is the one that its options and its kind are resolved to. -/
def Node.IsResolved (n : Node) : Prop :=
  Quantity.resolve n.options n.kind.isQuantifiable = .ok n.quantity

theorem Quantity.eq_requested_of_resolve {o : Options} {allowed : Bool} {q : Quantity}
    (h : resolve o allowed = .ok q) : q = requested o := by
  unfold resolve at h
  grind

/-- Options that are resolved have one mode at most, and bounds in order where there may be bounds. -/
theorem Quantity.resolve_eq_ok {o : Options} {allowed : Bool} {q : Quantity} (h : resolve o allowed = .ok q) :
    ¬ (o.dontBackTrack = true ∧ o.asFewAsPossible = true) ∧
      (q.isSet = true → allowed = true ∧ q.hasNegative = false ∧ ∀ most ∈ q.atMost, q.lower ≤ most) := by
  unfold resolve at h
  dsimp only at h
  generalize requested o = r at h
  split at h
  · cases h
  next hmode =>
  refine ⟨by simpa using hmode, fun hs => ?_⟩
  split at h
  · next hset =>
      cases h
      simp [hs] at hset
  split at h
  · cases h
  next hallowed =>
  split at h
  · cases h
  next hneg =>
  -- only the order of the bounds is left to be checked
  have hr : r = q ∧ ∀ most ∈ r.atMost, r.lower ≤ most := by
    split at h
    · next most hm =>
        split at h
        · cases h
        next hle =>
        refine ⟨Except.ok.inj h, fun other ho => ?_⟩
        rw [hm] at ho
        cases ho
        exact Int.not_lt.mp hle
    · next hm =>
        refine ⟨Except.ok.inj h, fun other ho => ?_⟩
        rw [hm] at ho
        cases ho
  obtain ⟨rfl, hle⟩ := hr
  exact ⟨by simpa using hallowed, by simpa using hneg, hle⟩

theorem Node.IsResolved.valid {n : Node} (h : n.IsResolved) : n.ValidRepetition := by
  obtain ⟨hmode, hset⟩ := Quantity.resolve_eq_ok h
  have hisSet (x : n.quantity.atLeast.isSome = true ∨ n.quantity.atMost.isSome = true) :
      n.quantity.isSet = true := by
    simpa [Quantity.isSet] using x
  refine ⟨h, hmode, fun hs => (hset hs).1, fun least hl => ?_, fun most hm => ?_, fun most hm => ?_⟩
  · have hneg := (hset (hisSet (.inl (Option.isSome_of_mem hl)))).2.1
    rw [Option.mem_def] at hl
    simp only [Quantity.hasNegative, hl, Option.any_some, Bool.or_eq_false_iff, decide_eq_false_iff_not] at hneg
    omega
  · have hneg := (hset (hisSet (.inr (Option.isSome_of_mem hm)))).2.1
    exact (n.quantity.nonneg_of_hasNegative hneg).2 most hm
  · exact (hset (hisSet (.inr (Option.isSome_of_mem hm)))).2.2 most hm

theorem Node.ValidRepetition.hasNegative_eq_false {n : Node} (h : n.ValidRepetition) :
    n.quantity.hasNegative = false := by
  rw [Quantity.hasNegative, Bool.or_eq_false_iff]
  constructor
  · cases hl : n.quantity.atLeast with
    | none => rfl
    | some least => simpa using h.least_nonneg least hl
  · cases hm : n.quantity.atMost with
    | none => rfl
    | some most => simpa using h.most_nonneg most hm

/-! ## What is written -/

/-- The text in the group of the node, if it has one. -/
def Node.inOwnGroup (n : Node) (t : Text) : Text := if n.captures then inGroup t else t

/-- How a node writes the repetition of a text: not at all, without a way back, or as bounds in order, behind the
whole of the text, where the kind of the node may be repeated. -/
inductive WritesRepeated (kind : Kind) (body : Text) : Text → Prop where
  | once : WritesRepeated kind body body
  | atomic : WritesRepeated kind body ("(?>" ++ body ++ ")")
  | counted {unit bounds : Text} {least : Nat} {most : Option Nat} (mode : Greediness)
      (allowed : kind.isQuantifiable = true) (whole : unit = body ∨ unit = "(?:" ++ body ++ ")")
      (isBounds : IsBounds bounds least most) (ordered : ∀ m ∈ most, least ≤ m) :
      WritesRepeated kind body (unit ++ bounds ++ mode.text)

/-- What a node writes around its matcher: the group of a lookaround, which is not repeated, or the words that
are excluded and then the repetition. -/
inductive Node.Writes (n : Node) : Text → Prop where
  | lookAround {opening : Text} (look : n.kind.lookAroundOpening? = some opening) :
      n.Writes (opening ++ n.inOwnGroup n.matcher.text ++ ")")
  | repeated {t : Text} (look : n.kind.lookAroundOpening? = none) (rep : WritesRepeated n.kind n.matcher.text t) :
      n.Writes (n.inOwnGroup (Quantity.wordsAssertion n.options.wordCannotBeAnyOf ++ t))

theorem Node.ValidRepetition.writesRepeated {n : Node} (h : n.ValidRepetition) (body : Text) :
    WritesRepeated n.kind body (n.quantity.repeated n.options body) := by
  unfold Quantity.repeated
  cases hr : n.quantity.repeats with
  | false =>
      simp only [Quantity.quantifier_eq_nil hr, List.isEmpty_nil, if_true]
      split
      · exact .atomic
      · exact .once
  | true =>
      have hs : n.quantity.isSet = true := by
        simp only [Quantity.repeats, Bool.and_eq_true] at hr
        exact hr.1
      have hb := n.quantity.isBounds_boundsText (h.hasNegative_eq_false) hr
      have hne : n.quantity.boundsText ≠ [] := by
        obtain ⟨b, rest, he, -⟩ := hb.begins
        rw [he]
        exact List.cons_ne_nil b rest
      rw [n.quantity.quantifier_eq n.options hne, if_neg (by simp [hne]), ← List.append_assoc]
      refine .counted _ (h.quantifiable hs) ?_ hb fun m hm => ?_
      · split
        · exact .inl rfl
        · exact .inr rfl
      · obtain ⟨most, hmost, rfl⟩ := Option.map_eq_some_iff.mp hm
        exact Int.toNat_le_toNat (h.lower_le most hmost)

theorem Node.ValidRepetition.writes_text {n : Node} (h : n.ValidRepetition) : n.Writes n.text := by
  rw [n.text_eq, Node.wrap]
  split
  · next opening ho => exact .lookAround ho
  · next ho => exact .repeated ho (h.writesRepeated _)

/-! ## What keeps the nodes resolved -/

theorem Pattern.create_isResolved {kind : Kind} {m : Matcher} {a : Attributes} {p : Pattern}
    (hm : m.Every Node.IsResolved) (h : create kind m a = .ok p) : p.Every Node.IsResolved := by
  obtain ⟨_, -, h⟩ := Except.bind_eq_ok.mp h
  obtain ⟨n, hn, h⟩ := Except.bind_eq_ok.mp h
  cases h
  unfold Node.ofParts at hn
  split at hn
  · next q hq =>
      cases hn
      exact ⟨hq, hm⟩
  · cases hn

/-- A change of attributes that leaves the repetition options alone keeps the nodes resolved. -/
theorem Pattern.mapAttributes_isResolved {f : Attributes → Attributes} {p : Pattern}
    (hf : ∀ a allowed, Quantity.resolve (f a).toOptions allowed = Quantity.resolve a.toOptions allowed)
    (h : p.Every Node.IsResolved) : (p.mapAttributes f).Every Node.IsResolved := by
  refine Pattern.Every.mapAttributes (fun n hn => ?_) h
  rw [Node.IsResolved, n.options_mapAttributes, n.kind_mapAttributes, n.quantity_mapAttributes, hf]
  exact hn

theorem Pattern.andThen_isResolved {p q : Pattern} {m : Matcher} (hp : p.Every Node.IsResolved)
    (hm : m.Every Node.IsResolved) (h : p.andThen m = .ok q) : q.Every Node.IsResolved := by
  cases m with
  | nested next =>
      cases h
      exact every_append hp hm
  | literal t | fragment source =>
      obtain ⟨next, hn, h⟩ := Except.bind_eq_ok.mp h
      cases h
      exact every_append hp (create_isResolved hm hn)

/-! ## Loading -/

/-- The patterns that are loaded have resolved nodes. -/
def LoadsResolved (load : Text → Json → Except Error Pattern) : Prop :=
  ∀ path v p, load path v = .ok p → p.Every Node.IsResolved

section
variable {load : Text → Json → Except Error Pattern} (hload : LoadsResolved load) {path : Text}
include hload

theorem describedMatcher_isResolved {members : Dictionary Json} {m : Matcher} {kind : Kind}
    (h : describedMatcher load path members = .ok (m, kind)) : m.Every Node.IsResolved := by
  obtain ⟨named, -, h⟩ := Except.bind_eq_ok.mp h
  obtain ⟨⟨key, v⟩, -, h⟩ := Except.bind_eq_ok.mp h
  cases key with
  | literal =>
      obtain ⟨m', hm, h⟩ := Except.bind_eq_ok.mp h
      cases h
      cases m with
      | literal | fragment => trivial
      | nested p =>
          obtain ⟨w, hw⟩ := describedLiteral_eq_nested hm
          exact hload _ _ _ hw
  | regex =>
      obtain ⟨t, -, h⟩ := Except.bind_eq_ok.mp h
      cases h
      trivial
  | matchResultOf | recursivelyMatch =>
      obtain ⟨t, -, rfl, -⟩ := describedReference_eq_ok h
      trivial

theorem appendDescribed_isResolved {index : Nat} {items : List Json} {p q : Pattern}
    (hp : p.Every Node.IsResolved) (h : appendDescribed load path index items p = .ok q) :
    q.Every Node.IsResolved := by
  induction items generalizing index p with
  | nil =>
      cases h
      exact hp
  | cons v rest ih =>
      obtain ⟨next, hn, h⟩ := Except.bind_eq_ok.mp h
      exact ih (Pattern.every_append hp (hload _ _ _ hn)) h

theorem describedObject_isResolved {plugins : List Plugin} {members : Dictionary Json} {p : Pattern}
    (h : describedObject plugins load path members = .ok p) : p.Every Node.IsResolved := by
  obtain ⟨⟨m, kind⟩, hm, h⟩ := Except.bind_eq_ok.mp h
  obtain ⟨draft, -, h⟩ := Except.bind_eq_ok.mp h
  obtain ⟨first, hf, h⟩ := Except.bind_eq_ok.mp h
  have hfirst := Pattern.create_isResolved (describedMatcher_isResolved hload hm) hf
  split at h
  · cases h
    exact hfirst
  · exact appendDescribed_isResolved hload hfirst h
  · cases h

end

theorem loadWithin_isResolved (plugins : List Plugin) (fuel : Nat) :
    LoadsResolved (loadWithin plugins fuel) := by
  induction fuel with
  | zero =>
      intro path v p h
      cases v with
      | string t =>
          cases h
          exact ⟨rfl, trivial⟩
      | _ => cases h
  | succ fuel ih =>
      intro path v p h
      cases v with
      | string t =>
          cases h
          exact ⟨rfl, trivial⟩
      | object members => exact describedObject_isResolved ih h
      | _ => cases h

/-! ## Everything that can be built -/

/-- A pattern that can be had: by building it of a matcher, which may be a pattern that can be had, by putting
such patterns in a chain, by changing one as a whole, by copying the part of one that starts at some node, or by
loading a description or a document. What a pattern includes is a tree of its own. -/
inductive Built (plugins : List Plugin) : Pattern → Prop where
  | create {kind : Kind} {m : Matcher} {a : Attributes} {p : Pattern}
      (nested : ∀ q, m = .nested q → Built plugins q) : Pattern.create kind m a = .ok p → Built plugins p
  | append {p q : Pattern} : Built plugins p → Built plugins q → Built plugins (p.append q)
  | andThen {m : Matcher} {p q : Pattern} (nested : ∀ q, m = .nested q → Built plugins q) :
      Built plugins p → p.andThen m = .ok q → Built plugins q
  | andThenWith {m : Matcher} {a : Attributes} {p q : Pattern} (nested : ∀ q, m = .nested q → Built plugins q) :
      Built plugins p → p.andThenWith m a = .ok q → Built plugins q
  | orElse {m : Matcher} {a : Attributes} {p q : Pattern} (nested : ∀ q, m = .nested q → Built plugins q) :
      Built plugins p → p.orElse m a = .ok q → Built plugins q
  | maybe {m : Matcher} {a : Attributes} {p : Pattern} (nested : ∀ q, m = .nested q → Built plugins q) :
      Pattern.maybe m a = .ok p → Built plugins p
  | zeroOrMoreOf {m : Matcher} {a : Attributes} {p : Pattern} (nested : ∀ q, m = .nested q → Built plugins q) :
      Pattern.zeroOrMoreOf m a = .ok p → Built plugins p
  | oneOrMoreOf {m : Matcher} {a : Attributes} {p : Pattern} (nested : ∀ q, m = .nested q → Built plugins q) :
      Pattern.oneOrMoreOf m a = .ok p → Built plugins p
  | referringTo {kind : ReferenceKind} {name : Text} {p : Pattern} :
      Pattern.referringTo kind name = .ok p → Built plugins p
  | transformTagAs {p : Pattern} (f : Text → Text) : Built plugins p → Built plugins (p.transformTagAs f)
  | transformIncludes {p : Pattern} (f : Include → Include) :
      Built plugins p → Built plugins (p.transformIncludes f)
  | groupless {p : Pattern} : Built plugins p → Built plugins p.groupless
  | reTag {p : Pattern} (r : ReTag) : Built plugins p → Built plugins (p.reTag r)
  | part {p : Pattern} {i : NodeId} {x : NodeId × Pattern} : Built plugins p → x ∈ p.nodes i → Built plugins x.2
  | loaded {path : Text} {description : Json} {p : Pattern} :
      loadPatternAt plugins path description = .ok p → Built plugins p
  | rule {document : Json} {g : Grammar} {name : Text} {p : Pattern} :
      (loadDocument plugins document).result = .ok g → g.find? name = some p → Built plugins p

theorem Matcher.every_of_nested {P : Node → Prop} {m : Matcher} (h : ∀ q, m = .nested q → q.Every P) :
    m.Every P := by
  cases m with
  | nested q => exact h q rfl
  | _ => trivial

/-- The rules of a document are loaded one by one. -/
theorem loadRules_isLoaded {plugins : List Plugin} {members : List (Text × Json)} {log : List Text}
    {rules : List (Text × Pattern)} (h : loadRules plugins members = (log, .ok rules)) :
    ∀ rule ∈ rules, ∃ description, loadPatternAt plugins rule.1 description = .ok rule.2 := by
  induction members generalizing log rules with
  | nil =>
      cases h
      intro rule hr
      cases hr
  | cons m rest ih =>
      obtain ⟨name, description⟩ := m
      rw [loadRules] at h
      dsimp only at h
      split at h
      · cases h
      next p hp =>
      cases hrest : loadRules plugins rest with
      | mk log' result =>
          cases result with
          | error e =>
              rw [hrest] at h
              cases h
          | ok rules' =>
              rw [hrest] at h
              cases h
              exact List.forall_mem_cons.mpr ⟨⟨description, hp⟩, ih hrest⟩

theorem loadDocument_isLoaded {plugins : List Plugin} {document : Json} {g : Grammar} {name : Text} {p : Pattern}
    (h : (loadDocument plugins document).result = .ok g) (hf : g.find? name = some p) :
    ∃ path description, loadPatternAt plugins path description = .ok p := by
  unfold loadDocument at h
  split at h
  · cases h
  · next members _ =>
      split at h
      · next log rules hr =>
          cases h
          obtain ⟨rule, hrule, rfl⟩ := Option.map_eq_some_iff.mp hf
          obtain ⟨description, hd⟩ := loadRules_isLoaded hr rule (List.mem_of_find?_eq_some hrule)
          exact ⟨_, description, hd⟩
      · cases h
  · cases h

theorem Built.isResolved {plugins : List Plugin} {p : Pattern} (h : Built plugins p) :
    p.Every Node.IsResolved := by
  induction h with
  | create _ h ih | maybe _ h ih | zeroOrMoreOf _ h ih | oneOrMoreOf _ h ih =>
      exact Pattern.create_isResolved (Matcher.every_of_nested ih) h
  | append _ _ ihp ihq => exact Pattern.every_append ihp ihq
  | andThen _ _ h ihm ihp => exact Pattern.andThen_isResolved ihp (Matcher.every_of_nested ihm) h
  | andThenWith _ _ h ihm ihp | orElse _ _ h ihm ihp =>
      obtain ⟨next, hn, h⟩ := Except.bind_eq_ok.mp h
      cases h
      exact Pattern.every_append ihp (Pattern.create_isResolved (Matcher.every_of_nested ihm) hn)
  | referringTo h => exact Pattern.create_isResolved (Matcher.every_of_nested fun _ hq => by cases hq) h
  | transformTagAs f _ ih =>
      rw [Pattern.transformTagAs_eq]
      exact Pattern.mapAttributes_isResolved (fun _ _ => rfl) ih
  | transformIncludes _ _ ih | groupless _ ih | reTag _ _ ih =>
      exact Pattern.mapAttributes_isResolved (fun _ _ => rfl) ih
  | part _ hx ih => exact Pattern.Every.of_mem_nodes _ _ ih hx
  | loaded h => exact loadWithin_isResolved plugins _ _ _ _ h
  | rule h hf =>
      obtain ⟨path, description, hp⟩ := loadDocument_isLoaded h hf
      exact loadWithin_isResolved plugins _ _ _ _ hp

/-- Whatever is done to build a pattern, the repetition options are valid at every node of it: the quantity is the
one that options and kind are resolved to, there is one mode at most, and bounds stand only where the kind allows
them, are not negative and in order. So no node that is emitted writes bounds that are negative or reversed, and no
lookaround and no alternative writes bounds at all. -/
theorem Built.validRepetition {plugins : List Plugin} {p : Pattern} (h : Built plugins p) :
    ∀ x ∈ p.nodes {}, x.2.head.ValidRepetition ∧
      ∀ i self left t after, x.2.head.emit i self left = .ok (t, after) → x.2.head.Writes t := by
  intro x hx
  have hvalid := (Pattern.every_of_mem_nodes {} p h.isResolved hx).self.valid
  refine ⟨hvalid, fun i self left t after he => ?_⟩
  rw [((x.2.head.emit_eq_ok i).mp he).1]
  exact hvalid.writes_text

/-- An optional letter, or else another one. -/
def optionalOrOther : Pattern :=
  .link (.mk .plain (.literal "a") none { atLeast := some 0, atMost := some 1, tagAs := some "t" } ⟨some 0, some 1⟩)
    (.last (.mk .orElse (.literal "b") none {} {}))

theorem optionalOrOther_validRepetition :
    Built [] optionalOrOther ∧ optionalOrOther.head.ValidRepetition ∧ optionalOrOther.head.Writes "(a?)" := by
  have hnested (t : Text) (q : Pattern) (h : Matcher.literal t = .nested q) : Built [] q := by cases h
  let r : ReTag := { renames := [("s", "t")] }
  have hfirst : Built [] (.last (.mk .plain (.literal "a") none
      { atLeast := some 0, atMost := some 1, tagAs := some "s" } ⟨some 0, some 1⟩)) :=
    .maybe (m := .literal "a") (a := { tagAs := some "s" }) (hnested "a") rfl
  have hb : Built [] optionalOrOther :=
    .orElse (m := .literal "b") (a := {}) (hnested "b") (hfirst.reTag r) rfl
  have h := hb.validRepetition ({}, optionalOrOther) List.mem_cons_self
  exact ⟨hb, h.1, h.2 {} optionalOrOther optionalOrOther.groups "(a?)" [] rfl⟩

end PatternGrammar
