import PatternGrammar.Proofs.Loading

/-!
# Where the nodes of a loaded pattern come from

Every node of a loaded pattern, in whatever matcher, chain or included pattern it stands, is described by a text
or an object in the description, and every object there has a node that it describes. What the node is, what it
matches and what it includes are read off the object.
-/

namespace PatternGrammar

/-! ## Nodes at any depth -/

/-- The pattern has this node: in its chain, or in a pattern that a node of its chain matches or includes. -/
inductive Pattern.Owns : Pattern → Node → Prop where
  | chained {p : Pattern} {n : Node} : n ∈ p.chain → Owns p n
  | nested {p q : Pattern} {node n : Node} : node ∈ p.chain → node.matcher = .nested q → Owns q n → Owns p n
  | included {p q : Pattern} {node n : Node} : node ∈ p.chain → .pattern q ∈ node.includes.getD [] →
      Owns q n → Owns p n

theorem Pattern.owns_iff_exists_last {p : Pattern} {n : Node} :
    p.Owns n ↔ ∃ node ∈ p.chain, (Pattern.last node).Owns n := by
  constructor
  · rintro (hn | ⟨hm, hq, h⟩ | ⟨hm, hq, h⟩)
    · exact ⟨n, hn, .chained List.mem_cons_self⟩
    · exact ⟨_, hm, .nested List.mem_cons_self hq h⟩
    · exact ⟨_, hm, .included List.mem_cons_self hq h⟩
  · rintro ⟨node, hnode, hn | ⟨hm, hq, h⟩ | ⟨hm, hq, h⟩⟩
    · obtain rfl := List.mem_singleton.mp hn
      exact .chained hnode
    · obtain rfl := List.mem_singleton.mp hm
      exact .nested hnode hq h
    · obtain rfl := List.mem_singleton.mp hm
      exact .included hnode hq h

theorem Pattern.owns_append {p q : Pattern} {n : Node} : (p.append q).Owns n ↔ p.Owns n ∨ q.Owns n := by
  rw [owns_iff_exists_last, chain_append, @owns_iff_exists_last p, @owns_iff_exists_last q]
  simp only [List.mem_append, or_and_right, exists_or]

theorem Pattern.owns_foldl_append {p : Pattern} {qs : List Pattern} {n : Node} :
    (qs.foldl append p).Owns n ↔ p.Owns n ∨ ∃ q ∈ qs, q.Owns n := by
  induction qs generalizing p with
  | nil => simp
  | cons q qs ih => rw [List.foldl_cons, ih, owns_append, List.exists_mem_cons_iff, or_assoc]

/-! ## Descriptions within a description -/

namespace Json

/-- A list of one stands for its item. -/
def single : Json → Json
  | .array [v] => v
  | v => v

/-- A value that is no list stands for a list of one. -/
def entries : Json → List Json
  | .array items => items
  | v => [v]

end Json

/-- What follows the object in the chain. -/
def followers (members : Dictionary Json) : List Json :=
  match Dictionary.get? "then" members with
  | some (.array items) => items
  | _ => []

namespace Json

/-- The first value is a description that stands directly in the second. -/
inductive IsPart : Json → Json → Prop where
  | matched {members inner : Dictionary Json} {value : Json} : Dictionary.get? "match" members = some value →
      value.single = .object inner → IsPart (.object inner) (.object members)
  | chained {members : Dictionary Json} {w : Json} : w ∈ followers members → IsPart w (.object members)
  | included {members inner : Dictionary Json} {value : Json} : latest? "includes" members = some value →
      .object inner ∈ value.entries → IsPart (.object inner) (.object members)

/-- The first value is a description that stands in the second at some depth, or is the second. -/
inductive Within (w : Json) : Json → Prop where
  | self : Within w w
  | inside {v d : Json} : v.IsPart d → Within w v → Within w d

end Json

/-! ## What a description says of its node -/

section
variable (R : Json → Pattern → Prop)

/-- The matcher that the value under a key stands for. -/
inductive MatcherKey.Gives : MatcherKey → Json → Matcher → Prop where
  | literal {v : Json} {t : Text} : v.single = .string t → Gives .literal v (.literal t)
  | nested {v : Json} {inner : Dictionary Json} {q : Pattern} : v.single = .object inner → R (.object inner) q →
      Gives .literal v (.nested q)
  | fragment {key : MatcherKey} {t source : Text} : key.fragment? t = some source →
      Gives key (.string t) (.fragment source)

/-- The include that an entry stands for. -/
inductive IsIncludeOf : Json → Include → Prop where
  | text (t : Text) : IsIncludeOf (.string t) (Include.ofText t)
  | pattern {inner : Dictionary Json} {q : Pattern} : R (.object inner) q →
      IsIncludeOf (.object inner) (.pattern q)

/-- The includes that the value of the option stands for, if there is one. -/
def AreIncludesOf (value? : Option Json) (includes? : Option (List Include)) : Prop :=
  Option.Rel (fun value includes => List.Forall₂ (IsIncludeOf R) value.entries includes) value? includes?

/-- The description says what the node is, what it matches and what it includes. -/
inductive Node.DescribedBy (n : Node) : Json → Prop where
  | text {t : Text} : n.kind = .plain → n.matcher = .literal t → n.includes = none →
      DescribedBy n (.string t)
  | object {members : Dictionary Json} {key : MatcherKey} {value : Json} {named : Option Kind}
      (only : OnlyMatcher members key value) (names : NamesKind members named) (agrees : key.AgreesWith named)
      (kind_eq : n.kind = named.getD key.defaultKind) (gives : key.Gives R value n.matcher)
      (includes : AreIncludesOf R (latest? "includes" members) n.includes) :
      DescribedBy n (.object members)

/-- Every node is described, and every description has a node. -/
structure Json.Accounts (d : Json) (p : Pattern) : Prop where
  described : ∀ n, p.Owns n → ∃ w : Json, w.Within d ∧ n.DescribedBy R w
  owned : ∀ w : Json, w.Within d → ∃ n, p.Owns n ∧ n.DescribedBy R w

end

/-- The pattern is what some call of the loader makes of the description. -/
def LoadedBy (load : Text → Json → Except Error Pattern) (d : Json) (p : Pattern) : Prop :=
  ∃ path, load path d = .ok p

/-! ## The steps of the loader -/

section
variable {load : Text → Json → Except Error Pattern} {path : Text} {plugins : List Plugin}

theorem gives_of_describedLiteral {v : Json} {m : Matcher} (h : describedLiteral load path v = .ok m) :
    MatcherKey.literal.Gives (LoadedBy load) v m := by
  have hnested {inner : Dictionary Json} (hv : v.single = .object inner)
      (h : (do return .nested (← load path (.object inner))) = Except.ok (ε := Error) m) :
      MatcherKey.literal.Gives (LoadedBy load) v m := by
    obtain ⟨q, hq, h⟩ := Except.bind_eq_ok.mp h
    cases h
    exact .nested hv ⟨path, hq⟩
  cases v with
  | string t =>
      cases h
      exact .literal rfl
  | object inner => exact hnested rfl h
  | array items =>
      -- only a list of one item is looked into
      obtain _ | ⟨one, _ | ⟨second, items⟩⟩ := items
      · cases h
      · cases one with
        | string t =>
            cases h
            exact .literal rfl
        | object inner => exact hnested rfl h
        | _ => cases h
      · cases h
  | _ => cases h

theorem gives_of_read {key : MatcherKey} {named : Option Kind} {v : Json} {m : Matcher} {kind : Kind}
    (h : key.read load path named v = .ok (m, kind)) :
    key.AgreesWith named ∧ kind = named.getD key.defaultKind ∧ key.Gives (LoadedBy load) v m := by
  have hfree (hr : key.reference? = none) : key.AgreesWith named := fun reference ho => by
    rw [hr] at ho
    cases ho
  have hreference {reference : ReferenceKind} (hr : key.reference? = some reference)
      (hf : ∀ t, key.fragment? t = some (placeholder reference t))
      (h : describedReference path key reference named v = .ok (m, kind)) :
      key.AgreesWith named ∧ kind = named.getD key.defaultKind ∧ key.Gives (LoadedBy load) v m := by
    obtain ⟨ha, -⟩ := (describedReference_decides path hr named v).of_ok h
    obtain ⟨t, rfl, rfl, rfl⟩ := describedReference_eq_ok h
    exact ⟨ha, (ha.getD_eq hr).symm, .fragment (hf t)⟩
  cases key with
  | literal =>
      obtain ⟨m, hm, h⟩ := Except.bind_eq_ok.mp h
      cases h
      exact ⟨hfree rfl, rfl, gives_of_describedLiteral hm⟩
  | regex =>
      obtain ⟨t, ht, h⟩ := Except.bind_eq_ok.mp h
      cases h
      obtain rfl := Json.asText_eq_ok.mp ht
      exact ⟨hfree rfl, rfl, .fragment rfl⟩
  | matchResultOf => exact hreference rfl (fun _ => rfl) h
  | recursivelyMatch => exact hreference rfl (fun _ => rfl) h

theorem isIncludeOf_of_described {v : Json} {entry : Include}
    (h : describedInclude load path v = .ok entry) : IsIncludeOf (LoadedBy load) v entry := by
  cases v with
  | string t =>
      cases h
      exact .text t
  | object inner =>
      obtain ⟨q, hq, h⟩ := Except.bind_eq_ok.mp h
      cases h
      exact .pattern ⟨path, hq⟩
  | _ => cases h

theorem forall₂_of_describedIncludesFrom {index : Nat} {items : List Json} {list : List Include}
    (h : describedIncludesFrom load path index items = .ok list) :
    List.Forall₂ (IsIncludeOf (LoadedBy load)) items list := by
  induction items generalizing index list with
  | nil =>
      cases h
      exact .nil
  | cons v rest ih =>
      obtain ⟨entry, he, h⟩ := Except.bind_eq_ok.mp h
      obtain ⟨others, ho, h⟩ := Except.bind_eq_ok.mp h
      cases h
      exact .cons (isIncludeOf_of_described he) (ih ho)

theorem forall₂_of_describedIncludes {v : Json} {list : List Include}
    (h : describedIncludes load path v = .ok list) :
    List.Forall₂ (IsIncludeOf (LoadedBy load)) v.entries list := by
  have hone (h : (do return [← describedInclude load path v]) = Except.ok (ε := Error) list) :
      List.Forall₂ (IsIncludeOf (LoadedBy load)) [v] list := by
    obtain ⟨entry, he, h⟩ := Except.bind_eq_ok.mp h
    cases h
    exact .cons (isIncludeOf_of_described he) .nil
  cases v with
  | array items => exact forall₂_of_describedIncludesFrom h
  | _ => exact hone h

/-- The reader leaves the includes as they are. -/
def OptionReader.KeepsIncludes : OptionReader → Prop
  | .apart => True
  | .includes => False
  | .text put => ∀ t a, (put t a).includes = a.includes
  | .texts put => ∀ ts a, (put ts a).includes = a.includes
  | .count put => ∀ n a, (put n a).includes = a.includes
  | .flag put => ∀ b d, (put b d).attributes.includes = d.attributes.includes

theorem keepsIncludes_of_mem : ∀ x ∈ optionReaders, x.1 ≠ "includes" → x.2.KeepsIncludes := by
  simp +decide [optionReaders, OptionReader.KeepsIncludes, OptionReader.flagOf]

theorem includes_of_add {d d' : AttributeDraft} {own : Text} {v : Json}
    (h : d.add plugins load path own v = .ok d') (hne : own ≠ "includes") :
    d'.attributes.includes = d.attributes.includes := by
  unfold AttributeDraft.add at h
  cases hr : Dictionary.get? own optionReaders with
  | none =>
      simp only [hr] at h
      split at h
      · cases h
        rfl
      · cases h
  | some reader =>
      have hk := keepsIncludes_of_mem _ (Dictionary.mem_of_get? hr) hne
      simp only [hr] at h
      cases reader with
      | apart =>
          cases h
          rfl
      | includes => exact absurd hk id
      | text put =>
          obtain ⟨t, -, h⟩ := Except.bind_eq_ok.mp h
          cases h
          exact hk t _
      | texts put =>
          obtain ⟨ts, -, h⟩ := Except.bind_eq_ok.mp h
          cases h
          exact hk ts _
      | count put =>
          obtain ⟨n, -, h⟩ := Except.bind_eq_ok.mp h
          cases h
          exact hk n _
      | flag put =>
          obtain ⟨b, -, h⟩ := Except.bind_eq_ok.mp h
          cases h
          exact hk b d

/-- After all members the includes are those of the last value under their key. -/
theorem includes_of_addOptions {members : Dictionary Json} {d d' : AttributeDraft}
    (h : addOptions plugins load path members d = .ok d') :
    (latest? "includes" members = none ∧ d'.attributes.includes = d.attributes.includes) ∨
      ∃ value list, latest? "includes" members = some value ∧ d'.attributes.includes = some list ∧
        List.Forall₂ (IsIncludeOf (LoadedBy load)) value.entries list := by
  induction members generalizing d with
  | nil =>
      cases h
      exact .inl ⟨rfl, rfl⟩
  | cons m rest ih =>
      obtain ⟨own, v⟩ := m
      obtain ⟨d₁, hd, h⟩ := Except.bind_eq_ok.mp h
      rw [latest?_cons]
      rcases ih h with ⟨hn, hi⟩ | ⟨value, list, hl, hi, hf⟩
      · rw [hn, Option.none_or, hi]
        by_cases hk : own = "includes"
        · subst hk
          obtain ⟨list, hl, hd⟩ := Except.bind_eq_ok.mp hd
          cases hd
          exact .inr ⟨v, list, if_pos rfl, rfl, forall₂_of_describedIncludes hl⟩
        · exact .inl ⟨if_neg hk, includes_of_add hd hk⟩
      · rw [hl, Option.some_or]
        exact .inr ⟨value, list, rfl, hi, hf⟩

theorem areIncludesOf_of_addOptions {members : Dictionary Json} {draft : AttributeDraft}
    (h : addOptions plugins load path members {} = .ok draft) :
    AreIncludesOf (LoadedBy load) (latest? "includes" members) draft.finish.includes := by
  rcases includes_of_addOptions h with ⟨hn, hi⟩ | ⟨value, list, hl, hi, hf⟩
  · have he : draft.finish.includes = none := hi
    rw [hn, he]
    exact .none
  · have he : draft.finish.includes = some list := hi
    rw [hl, he]
    exact .some hf

/-- What is appended has been loaded of the items one by one. -/
theorem exists_of_appendDescribed {index : Nat} {items : List Json} {p q : Pattern}
    (h : appendDescribed load path index items p = .ok q) :
    ∃ qs, List.Forall₂ (LoadedBy load) items qs ∧ q = qs.foldl Pattern.append p := by
  induction items generalizing index p with
  | nil =>
      cases h
      exact ⟨[], .nil, rfl⟩
  | cons v rest ih =>
      obtain ⟨next, hn, h⟩ := Except.bind_eq_ok.mp h
      obtain ⟨qs, hqs, rfl⟩ := ih h
      exact ⟨next :: qs, .cons ⟨_, hn⟩ hqs, rfl⟩

/-- The pattern of an object is the node that the object describes and what follows it. -/
theorem exists_node_of_describedObject {members : Dictionary Json} {p : Pattern}
    (h : describedObject plugins load path members = .ok p) :
    ∃ node qs, node.DescribedBy (LoadedBy load) (.object members) ∧
      List.Forall₂ (LoadedBy load) (followers members) qs ∧ p = qs.foldl Pattern.append (.last node) := by
  obtain ⟨⟨m, kind⟩, hm, h⟩ := Except.bind_eq_ok.mp h
  obtain ⟨draft, hd, h⟩ := Except.bind_eq_ok.mp h
  obtain ⟨first, hf, h⟩ := Except.bind_eq_ok.mp h
  obtain ⟨_, -, hf⟩ := Except.bind_eq_ok.mp hf
  obtain ⟨node, hn, hf⟩ := Except.bind_eq_ok.mp hf
  cases hf
  have hnode : node.DescribedBy (LoadedBy load) (.object members) := by
    obtain ⟨named, key, v, hnames, honly, hread⟩ := describedMatcher_eq_ok hm
    obtain ⟨ha, hk, hg⟩ := gives_of_read hread
    unfold Node.ofParts at hn
    split at hn
    · cases hn
      exact .object honly hnames ha hk hg (areIncludesOf_of_addOptions hd)
    · cases hn
  refine ⟨node, ?_⟩
  unfold followers
  split at h
  · next ht =>
      cases h
      exact ⟨[], hnode, by rw [ht]; exact .nil, rfl⟩
  · next items ht =>
      obtain ⟨qs, hqs, rfl⟩ := exists_of_appendDescribed h
      exact ⟨qs, hnode, by rw [ht]; exact hqs, rfl⟩
  · cases h

end

/-! ## The whole description -/

section
variable {R S : Json → Pattern → Prop}

theorem MatcherKey.Gives.imp (hi : ∀ w q, R w q → S w q) {key : MatcherKey} {v : Json} {m : Matcher}
    (h : key.Gives R v m) : key.Gives S v m := by
  cases h with
  | literal hv => exact .literal hv
  | nested hv hq => exact .nested hv (hi _ _ hq)
  | fragment hs => exact .fragment hs

theorem IsIncludeOf.imp (hi : ∀ w q, R w q → S w q) {v : Json} {entry : Include}
    (h : IsIncludeOf R v entry) : IsIncludeOf S v entry := by
  cases h with
  | text t => exact .text t
  | pattern hq => exact .pattern (hi _ _ hq)

theorem Include.ofText_ne_pattern (t : Text) (q : Pattern) : Include.ofText t ≠ .pattern q := by
  unfold Include.ofText
  split
  · exact nofun
  · split <;> exact nofun

theorem IsIncludeOf.of_pattern {v : Json} {q : Pattern} (h : IsIncludeOf R v (.pattern q)) :
    ∃ inner, v = .object inner ∧ R (.object inner) q := by
  generalize he : Include.pattern q = entry at h
  cases h with
  | text t => exact absurd he.symm (Include.ofText_ne_pattern t q)
  | pattern hr =>
      cases he
      exact ⟨_, rfl, hr⟩

theorem Node.DescribedBy.imp (hi : ∀ w q, R w q → S w q) {n : Node} {w : Json} (h : n.DescribedBy R w) :
    n.DescribedBy S w := by
  cases h with
  | text hk hm hn => exact .text hk hm hn
  | @object members _ _ _ only names agrees kind_eq gives includes =>
      refine .object only names agrees kind_eq (gives.imp hi) ?_
      unfold AreIncludesOf at includes ⊢
      generalize latest? "includes" members = value?, n.includes = includes? at includes
      cases includes with
      | none => exact .none
      | some hf => exact .some (hf.imp fun _ _ h => h.imp hi)

variable {node : Node} {members : Dictionary Json} (h : node.DescribedBy R (.object members))
include h

theorem Node.DescribedBy.includes_of_object : AreIncludesOf R (latest? "includes" members) node.includes := by
  cases h with
  | object _ _ _ _ _ includes => exact includes

/-- What the node of an object matches has been made of a part of the object. -/
theorem Node.DescribedBy.isPart_of_nested {q : Pattern} (hq : node.matcher = .nested q) :
    ∃ w : Json, w.IsPart (.object members) ∧ R w q := by
  cases h with
  | object only _ _ _ gives _ =>
      rw [hq] at gives
      cases gives with
      | nested hv hr => exact ⟨_, .matched only.1 hv, hr⟩

/-- What the node of an object includes has been made of a part of the object. -/
theorem Node.DescribedBy.isPart_of_included {q : Pattern} (hq : .pattern q ∈ node.includes.getD []) :
    ∃ w : Json, w.IsPart (.object members) ∧ R w q := by
  have hi := h.includes_of_object
  unfold AreIncludesOf at hi
  generalize hl : latest? "includes" members = value?, node.includes = includes? at hi hq
  cases hi with
  | none => cases hq
  | some hf =>
      obtain ⟨v, hv, hr⟩ := exists_mem_of_forall₂ hf.flip hq
      obtain ⟨inner, rfl, hinner⟩ := hr.of_pattern
      exact ⟨_, .included hl hv, hinner⟩

/-- A part of an object has a pattern, which its node matches or includes, unless it follows it. -/
theorem Node.DescribedBy.exists_of_isPart {w : Json} (hw : w.IsPart (.object members)) :
    w ∈ followers members ∨
      ∃ q, R w q ∧ (node.matcher = .nested q ∨ .pattern q ∈ node.includes.getD []) := by
  cases hw with
  | chained hw => exact .inl hw
  | @matched _ inner value hm hv =>
      cases h with
      | @object _ key v _ only _ _ _ gives _ =>
          obtain rfl : MatcherKey.literal = key := only.2 .literal (by rw [MatcherKey.name, hm]; rfl)
          obtain rfl : value = v := Option.some.inj (hm.symm.trans only.1)
          generalize node.matcher = m at gives
          cases gives with
          | literal ht =>
              rw [hv] at ht
              cases ht
          | nested hi hr =>
              rw [hv] at hi
              cases hi
              exact .inr ⟨_, hr, .inl rfl⟩
          | fragment hs => cases hs
  | included hl hv =>
      have hi := h.includes_of_object
      rw [hl] at hi
      unfold AreIncludesOf at hi
      generalize node.includes = includes? at hi
      cases hi with
      | some hf =>
          obtain ⟨entry, he, hr⟩ := exists_mem_of_forall₂ hf hv
          cases hr with
          | pattern hr => exact .inr ⟨_, hr, .inr he⟩

end

section
variable {R : Json → Pattern → Prop} {load : Text → Json → Except Error Pattern} {plugins : List Plugin} {path : Text}
  (hload : ∀ w q, LoadedBy load w q → R w q ∧ w.Accounts R q)
include hload

theorem accounts_of_describedObject {members : Dictionary Json} {p : Pattern}
    (h : describedObject plugins load path members = .ok p) : (Json.object members).Accounts R p := by
  obtain ⟨node, qs, hnode, hqs, rfl⟩ := exists_node_of_describedObject h
  have hself := hnode.imp fun w q hq => (hload w q hq).1
  constructor
  · intro n hn
    -- a node that is not the node of the object stands in the pattern of a part of it
    have hpart {w : Json} {q : Pattern} (hw : w.IsPart (.object members)) (hq : LoadedBy load w q)
        (hn : q.Owns n) : ∃ w : Json, w.Within (.object members) ∧ n.DescribedBy R w := by
      obtain ⟨v, hv, hd⟩ := (hload w q hq).2.described n hn
      exact ⟨v, .inside hw hv, hd⟩
    rcases Pattern.owns_foldl_append.mp hn with hn | ⟨q, hq, hn⟩
    · rcases hn with hown | ⟨hm, hq, hown⟩ | ⟨hm, hq, hown⟩
      · obtain rfl := List.mem_singleton.mp hown
        exact ⟨_, .self, hself⟩
      · obtain rfl := List.mem_singleton.mp hm
        obtain ⟨w, hw, hr⟩ := hnode.isPart_of_nested hq
        exact hpart hw hr hown
      · obtain rfl := List.mem_singleton.mp hm
        obtain ⟨w, hw, hr⟩ := hnode.isPart_of_included hq
        exact hpart hw hr hown
    · obtain ⟨w, hw, hr⟩ := exists_mem_of_forall₂ hqs.flip hq
      exact hpart (.chained hw) hr hn
  · intro w hw
    cases hw with
    | self => exact ⟨node, Pattern.owns_foldl_append.mpr (.inl (.chained List.mem_cons_self)), hself⟩
    | @inside v _ hv hw =>
        rcases hnode.exists_of_isPart hv with hf | ⟨q, hr, hq⟩
        · obtain ⟨q, hq, hr⟩ := exists_mem_of_forall₂ hqs hf
          obtain ⟨n, hn, hd⟩ := (hload v q hr).2.owned w hw
          exact ⟨n, Pattern.owns_foldl_append.mpr (.inr ⟨q, hq, hn⟩), hd⟩
        · obtain ⟨n, hn, hd⟩ := (hload v q hr).2.owned w hw
          refine ⟨n, Pattern.owns_foldl_append.mpr (.inl ?_), hd⟩
          rcases hq with hq | hq
          · exact .nested List.mem_cons_self hq hn
          · exact .included List.mem_cons_self hq hn

omit hload in
theorem accounts_text (t : Text) :
    (Json.string t).Accounts R (.last (.mk .plain (.literal t) none {} {})) := by
  have hnode : (Node.mk .plain (.literal t) none {} {}).DescribedBy R (.string t) := .text rfl rfl rfl
  constructor
  · rintro n (hn | ⟨hm, hq, -⟩ | ⟨hm, hq, -⟩)
    · obtain rfl := List.mem_singleton.mp hn
      exact ⟨_, .self, hnode⟩
    · obtain rfl := List.mem_singleton.mp hm
      cases hq
    · obtain rfl := List.mem_singleton.mp hm
      cases hq
  · intro w hw
    cases hw with
    | self => exact ⟨_, .chained List.mem_cons_self, hnode⟩
    | inside hv _ => cases hv

end

/-- The pattern is what the loader makes of the description, with enough fuel for its levels. -/
def Loads (plugins : List Plugin) (d : Json) (p : Pattern) : Prop :=
  ∃ fuel, LoadedBy (loadWithin plugins fuel) d p

theorem loadWithin_accounts (plugins : List Plugin) (fuel : Nat) {path : Text} {d : Json} {p : Pattern}
    (h : loadWithin plugins fuel path d = .ok p) : d.Accounts (Loads plugins) p := by
  induction fuel generalizing path d p with
  | zero =>
      cases d with
      | string t =>
          cases h
          exact accounts_text t
      | _ => cases h
  | succ fuel ih =>
      cases d with
      | string t =>
          cases h
          exact accounts_text t
      | object members =>
          refine accounts_of_describedObject (fun w q hq => ⟨⟨fuel, hq⟩, ?_⟩) h
          obtain ⟨_, hq⟩ := hq
          exact ih hq
      | _ => cases h

end PatternGrammar
