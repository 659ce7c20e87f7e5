import Mathlib.Data.List.Forall2
import PatternGrammar.Proofs.Tree
import PatternGrammar.Rule

/-!
# Numbering and emission agree

The table of a pattern lists the nodes that capture in canonical order, under consecutive numbers. Emission
visits the tree in its own order, along the chain and with the text so far in its hands, and still claims
the entries of the table one by one, each for the node that writes its group. No contradiction between the
two can therefore come out of an evaluation.
-/

namespace PatternGrammar

/-! ## Results of steps in a row -/

@[simp] theorem Except.bind_eq_ok {x : Except ε α} {f : α → Except ε β} {b : β} :
    x >>= f = .ok b ↔ ∃ a, x = .ok a ∧ f a = .ok b := by
  cases x <;> simp [bind, Except.bind]

theorem Except.bind_eq_error {x : Except ε α} {f : α → Except ε β} {e : ε} :
    x >>= f = .error e ↔ x = .error e ∨ ∃ a, x = .ok a ∧ f a = .error e := by
  cases x <;> simp [bind, Except.bind]

theorem exists_mem_of_forall₂ {α β : Type} {R : α → β → Prop} {xs : List α} {ys : List β} (h : List.Forall₂ R xs ys)
    {x : α} (hx : x ∈ xs) : ∃ y ∈ ys, R x y := by
  induction h with
  | nil => cases hx
  | cons hr _ ih =>
      rcases List.mem_cons.mp hx with rfl | hx
      · exact ⟨_, List.mem_cons_self, hr⟩
      · obtain ⟨y, hy, hr⟩ := ih hx
        exact ⟨y, List.mem_cons_of_mem _ hy, hr⟩

/-! ## The table -/

mutual
/-- The table numbers the nodes that capture from `start` on, in canonical order. -/
theorem Pattern.groupsFrom_eq (i : NodeId) (start : Int) :
    (p : Pattern) → p.groupsFrom i start =
      (p.capturing i).mapIdx fun k (place, q) => q.head.group (start + k) place
  | .last node => by
      rw [Pattern.groupsFrom, node.groupsFrom_eq i start]
      cases h : node.captures <;>
        simp [Pattern.capturing, Pattern.nodes, Node.ownGroups, h, Int.add_comm,
          Int.add_left_comm]
  | .link node next => by
      rw [Pattern.groupsFrom, node.groupsFrom_eq i start, next.groupsFrom_eq i.next]
      cases h : node.captures <;>
        simp [Pattern.capturing, Pattern.nodes, Node.ownGroups, h, List.mapIdx_append,
          Int.add_comm, Int.add_left_comm]

theorem Node.groupsFrom_eq (i : NodeId) (start : Int) :
    (n : Node) → n.groupsFrom i start =
      n.ownGroups start i ++
        ((n.nestedNodes i).filter (·.2.head.captures)).mapIdx fun k (place, q) =>
          q.head.group (start + (n.ownGroups start i).length + k) place
  | .mk kind matcher includes options quantity => by
      rw [Node.groupsFrom, Node.nestedNodes, matcher.groupsFrom_eq i]

theorem Matcher.groupsFrom_eq (i : NodeId) (start : Int) :
    (m : Matcher) → m.groupsFrom i.nested start =
      ((m.nodes i).filter (·.2.head.captures)).mapIdx fun k (place, q) =>
        q.head.group (start + k) place
  | .literal _ => by simp [Matcher.groupsFrom, Matcher.nodes]
  | .fragment _ => by simp [Matcher.groupsFrom, Matcher.nodes]
  | .nested pattern => by
      rw [Matcher.groupsFrom, Matcher.nodes, pattern.groupsFrom_eq i.nested start]
      rfl
end

/-! ## Places of nodes -/

mutual
/-- The way to a node goes through the place where its tree begins. -/
theorem Pattern.path_suffix_of_mem_nodes {x : NodeId × Pattern} (i : NodeId) :
    (p : Pattern) → x ∈ p.nodes i → i.path <:+ x.1.path
  | .last node, h => by
      rcases List.mem_cons.mp h with rfl | h
      · exact List.suffix_refl _
      · exact (List.suffix_cons _ _).trans (node.path_suffix_of_mem_nestedNodes i h)
  | .link node next, h => by
      simp only [Pattern.nodes, List.cons_append, List.mem_cons, List.mem_append] at h
      rcases h with rfl | h | h
      · exact List.suffix_refl _
      · exact (List.suffix_cons _ _).trans (node.path_suffix_of_mem_nestedNodes i h)
      · exact (List.suffix_cons _ _).trans (next.path_suffix_of_mem_nodes i.next h)

theorem Node.path_suffix_of_mem_nestedNodes {x : NodeId × Pattern} (i : NodeId) :
    (n : Node) → x ∈ n.nestedNodes i → i.nested.path <:+ x.1.path
  | .mk _ matcher _ _ _, h => matcher.path_suffix_of_mem_nodes i h

theorem Matcher.path_suffix_of_mem_nodes {x : NodeId × Pattern} (i : NodeId) :
    (m : Matcher) → x ∈ m.nodes i → i.nested.path <:+ x.1.path
  | .literal _, h => by simp [Matcher.nodes] at h
  | .fragment _, h => by simp [Matcher.nodes] at h
  | .nested pattern, h => pattern.path_suffix_of_mem_nodes i.nested h
end

private theorem not_cons_suffix (step : Step) (path : List Step) : ¬ step :: path <:+ path := by
  intro h
  have hl := h.length_le
  rw [List.length_cons] at hl
  omega

private theorem step_eq_of_suffix {a b : Step} {path whole : List Step}
    (ha : a :: path <:+ whole) (hb : b :: path <:+ whole) : a = b := by
  have h : a :: path <:+ b :: path := List.suffix_of_suffix_length_le ha hb (by simp)
  have heq : a :: path = b :: path := h.eq_of_length (by simp)
  exact (List.cons.inj heq).1

mutual
/-- No two nodes of a tree have the same place. -/
theorem Pattern.nodup_places (i : NodeId) : (p : Pattern) → ((p.nodes i).map (·.1)).Nodup
  | .last node => by
      simp only [Pattern.nodes, List.map_cons, List.nodup_cons]
      refine ⟨?_, node.nodup_nestedPlaces i⟩
      intro h
      obtain ⟨x, hx, hi⟩ := List.mem_map.mp h
      have hs := node.path_suffix_of_mem_nestedNodes i hx
      rw [hi] at hs
      exact not_cons_suffix _ _ hs
  | .link node next => by
      simp only [Pattern.nodes, List.cons_append, List.map_cons, List.map_append, List.nodup_cons,
        List.mem_append]
      refine ⟨?_, List.nodup_append.mpr
        ⟨node.nodup_nestedPlaces i, next.nodup_places i.next, ?_⟩⟩
      · rintro (h | h)
        · obtain ⟨x, hx, hi⟩ := List.mem_map.mp h
          have hs := node.path_suffix_of_mem_nestedNodes i hx
          rw [hi] at hs
          exact not_cons_suffix _ _ hs
        · obtain ⟨x, hx, hi⟩ := List.mem_map.mp h
          have hs := next.path_suffix_of_mem_nodes i.next hx
          rw [hi] at hs
          exact not_cons_suffix _ _ hs
      · intro a ha b hb hab
        obtain ⟨x, hx, rfl⟩ := List.mem_map.mp ha
        obtain ⟨y, hy, rfl⟩ := List.mem_map.mp hb
        have hn := node.path_suffix_of_mem_nestedNodes i hx
        have hl := next.path_suffix_of_mem_nodes i.next hy
        rw [← hab] at hl
        exact absurd (step_eq_of_suffix hn hl) (by decide)

theorem Node.nodup_nestedPlaces (i : NodeId) : (n : Node) → ((n.nestedNodes i).map (·.1)).Nodup
  | .mk _ matcher _ _ _ => matcher.nodup_places i

theorem Matcher.nodup_places (i : NodeId) : (m : Matcher) → ((m.nodes i).map (·.1)).Nodup
  | .literal _ => by simp [Matcher.nodes]
  | .fragment _ => by simp [Matcher.nodes]
  | .nested pattern => pattern.nodup_places i.nested
end

/-! ## Emission -/

/-- The entries in front of `after` belong to these places, one entry to each place, in order. -/
def Claims (places : List NodeId) (left after : List Group) : Prop :=
  ∃ claimed, claimed.map (·.owner) = places ∧ left = claimed ++ after

@[simp] theorem claims_nil {left after : List Group} : Claims [] left after ↔ left = after := by
  simp [Claims]

theorem claims_cons {i : NodeId} {places : List NodeId} {left after : List Group} :
    Claims (i :: places) left after ↔
      ∃ g rest, left = g :: rest ∧ g.owner = i ∧ Claims places rest after := by
  constructor
  · rintro ⟨claimed, hp, rfl⟩
    obtain ⟨g, claimed, rfl, hg, hc⟩ := List.map_eq_cons_iff.mp hp
    exact ⟨g, claimed ++ after, rfl, hg, claimed, hc, rfl⟩
  · rintro ⟨g, rest, rfl, hg, claimed, hc, rfl⟩
    exact ⟨g :: claimed, by simp [hg, hc], rfl⟩

theorem claims_append {ps qs : List NodeId} {left after : List Group} :
    Claims (ps ++ qs) left after ↔ ∃ mid, Claims ps left mid ∧ Claims qs mid after := by
  induction ps generalizing left with
  | nil => simp
  | cons i ps ih =>
      simp only [List.cons_append, claims_cons, ih]
      constructor
      · rintro ⟨g, rest, hl, hg, mid, hp, hq⟩
        exact ⟨mid, ⟨g, rest, hl, hg, hp⟩, hq⟩
      · rintro ⟨mid, ⟨g, rest, hl, hg, hp⟩, hq⟩
        exact ⟨g, rest, hl, hg, mid, hp, hq⟩

/-- A claim takes the first entry that is left, and only for the node that it belongs to. -/
theorem claimGroup_eq_ok {i : NodeId} {node : Pattern} {left after : List Group} {number : Int} :
    claimGroup i node left = .ok (number, after) ↔
      ∃ g, left = g :: after ∧ g.owner = i ∧ g.number = number := by
  cases left with
  | nil => simp [claimGroup]
  | cons g rest =>
      by_cases h : g.owner = i
      · simp only [claimGroup, h, if_true, Except.ok.injEq, Prod.mk.injEq, List.cons.injEq]
        constructor
        · rintro ⟨rfl, rfl⟩
          exact ⟨g, ⟨rfl, rfl⟩, h, rfl⟩
        · rintro ⟨g', ⟨rfl, rfl⟩, -, rfl⟩
          exact ⟨rfl, rfl⟩
      · simp only [claimGroup, h, if_false, List.cons.injEq]
        constructor
        · intro hx
          cases hx
        · rintro ⟨g', ⟨rfl, rfl⟩, hg, -⟩
          exact absurd hg h

/-- The place of a node, if it captures. -/
def Node.ownPlaces (n : Node) (i : NodeId) : List NodeId := if n.captures then [i] else []

theorem Node.claim_eq_ok {n : Node} {i : NodeId} {self : Pattern} {left after : List Group} :
    n.claim i self left = .ok after ↔ Claims (n.ownPlaces i) left after := by
  cases h : n.captures with
  | false => simp [Node.claim, Node.ownPlaces, h, pure, Except.pure]
  | true =>
      simp only [Node.claim, Node.ownPlaces, h, if_true, Except.bind_eq_ok, claims_cons, claims_nil]
      constructor
      · rintro ⟨⟨number, rest⟩, hc, hr⟩
        obtain ⟨g, rfl, hg, -⟩ := claimGroup_eq_ok.mp hc
        exact ⟨g, rest, rfl, hg, Except.ok.inj hr⟩
      · rintro ⟨g, rest, rfl, hg, rfl⟩
        exact ⟨(g.number, rest), claimGroup_eq_ok.mpr ⟨g, rfl, hg, rfl⟩, rfl⟩

/-- The places of a node and of what is nested in it that capture. -/
def Node.places (n : Node) (i : NodeId) : List NodeId :=
  n.ownPlaces i ++ ((n.nestedNodes i).filter (·.2.head.captures)).map (·.1)

/-- The places of a pattern that capture, in canonical order. -/
def Pattern.places (p : Pattern) (i : NodeId) : List NodeId := (p.capturing i).map (·.1)

theorem Pattern.places_last (node : Node) (i : NodeId) :
    (Pattern.last node).places i = node.places i := by
  cases h : node.captures <;>
    simp [Pattern.places, Pattern.capturing, Pattern.nodes, Node.places, Node.ownPlaces, h]

theorem Pattern.places_link (node : Node) (next : Pattern) (i : NodeId) :
    (Pattern.link node next).places i = node.places i ++ next.places i.next := by
  cases h : node.captures <;>
    simp [Pattern.places, Pattern.capturing, Pattern.nodes, Node.places, Node.ownPlaces, h]

mutual
/-- Emission gives the text of the pattern and claims an entry for every node that captures, in canonical
order; over a table that begins otherwise it fails. -/
theorem Pattern.emit_eq_ok (i : NodeId) {left after : List Group} {t : Text} :
    (p : Pattern) → (p.emit i left = .ok (t, after) ↔ t = p.text ∧ Claims (p.places i) left after)
  | .last node => by
      rw [Pattern.emit, node.emit_eq_ok i, Pattern.places_last]
      rfl
  | .link node next => by
      simp only [Pattern.emit, Except.bind_eq_ok, Prod.exists, node.emit_eq_ok i,
        next.emitBehind_eq_ok i.next, Pattern.places_link, claims_append, Pattern.text]
      constructor
      · rintro ⟨own, mid, ⟨rfl, hn⟩, rfl, hl⟩
        exact ⟨rfl, mid, hn, hl⟩
      · rintro ⟨rfl, mid, hn, hl⟩
        exact ⟨node.text, mid, ⟨rfl, hn⟩, rfl, hl⟩

theorem Pattern.emitBehind_eq_ok (i : NodeId) {before : Text} {left after : List Group} {t : Text} :
    (p : Pattern) → (p.emitBehind i before left = .ok (t, after) ↔
      t = p.textBehind before ∧ Claims (p.places i) left after)
  | .last node => by
      simp only [Pattern.emitBehind, Except.bind_eq_ok, Prod.exists, node.emit_eq_ok i,
        Pattern.places_last, Pattern.textBehind, pure, Except.pure, Except.ok.injEq, Prod.mk.injEq]
      constructor
      · rintro ⟨own, mid, ⟨rfl, hn⟩, rfl, rfl⟩
        exact ⟨rfl, hn⟩
      · rintro ⟨rfl, hn⟩
        exact ⟨node.text, after, ⟨rfl, hn⟩, rfl, rfl⟩
  | .link node next => by
      simp only [Pattern.emitBehind, Except.bind_eq_ok, Prod.exists, node.emit_eq_ok i,
        next.emitBehind_eq_ok i.next, Pattern.places_link, claims_append, Pattern.textBehind]
      constructor
      · rintro ⟨own, mid, ⟨rfl, hn⟩, rfl, hl⟩
        exact ⟨rfl, mid, hn, hl⟩
      · rintro ⟨rfl, mid, hn, hl⟩
        exact ⟨node.text, mid, ⟨rfl, hn⟩, rfl, hl⟩

theorem Node.emit_eq_ok (i : NodeId) {self : Pattern} {left after : List Group} {t : Text} :
    (n : Node) → (n.emit i self left = .ok (t, after) ↔ t = n.text ∧ Claims (n.places i) left after)
  | .mk kind matcher includes options quantity => by
      simp only [Node.emit, Except.bind_eq_ok, Prod.exists, Node.claim_eq_ok,
        matcher.emit_eq_ok i, Node.places, claims_append, Node.text, pure, Except.pure,
        Except.ok.injEq, Prod.mk.injEq]
      constructor
      · rintro ⟨mid, ho, body, rest, ⟨rfl, hm⟩, rfl, rfl⟩
        exact ⟨rfl, mid, ho, hm⟩
      · rintro ⟨rfl, mid, ho, hm⟩
        exact ⟨mid, ho, matcher.text, after, ⟨rfl, hm⟩, rfl, rfl⟩

theorem Matcher.emit_eq_ok (i : NodeId) {left after : List Group} {t : Text} :
    (m : Matcher) → (m.emit i.nested left = .ok (t, after) ↔
      t = m.text ∧ Claims (((m.nodes i).filter (·.2.head.captures)).map (·.1)) left after)
  | .literal text => by
      simp [Matcher.emit, Matcher.text, Matcher.nodes, pure, Except.pure, eq_comm]
  | .fragment source => by
      simp [Matcher.emit, Matcher.text, Matcher.nodes, pure, Except.pure, eq_comm]
  | .nested pattern => by
      rw [Matcher.emit, pattern.emit_eq_ok i.nested]
      rfl
end

/-! ## Emission over the table of the pattern itself -/

theorem Pattern.owners_groupsFrom (p : Pattern) (i : NodeId) (start : Int) :
    (p.groupsFrom i start).map (·.owner) = p.places i := by
  rw [p.groupsFrom_eq i start, Pattern.places]
  apply List.ext_getElem
  · simp
  · intro k _ _
    simp [Node.group]

theorem Pattern.emit_groupsFrom (p : Pattern) (i : NodeId) (start : Int) (rest : List Group) :
    p.emit i (p.groupsFrom i start ++ rest) = .ok (p.text, rest) :=
  (p.emit_eq_ok i).mpr ⟨rfl, p.groupsFrom i start, p.owners_groupsFrom i start, rfl⟩

theorem inGroup_eq (t : Text) : inGroup t = Ascii.openParen :: (t ++ [Ascii.closeParen]) := rfl

/-- The whole expression before its references are filled in. -/
def Pattern.wholeText (p : Pattern) : Text := if p.liftsOuterGroup then p.head.body else p.text

theorem Node.text_eq (n : Node) : n.text = n.wrap n.matcher.text := by
  cases n
  rfl

theorem Node.wrap_of_captures {n : Node} (hc : n.captures = true)
    (hk : n.kind.isLookAround = false) : n.text = inGroup n.body := by
  have hn : n.kind.lookAroundOpening? = none := by
    simpa [Kind.isLookAround] using hk
  simp [Node.text_eq, Node.wrap, Node.body, hn, hc, hk]

theorem Pattern.unresolved_eq (p : Pattern) : p.unresolved = .ok p.wholeText := by
  have h := p.emit_groupsFrom {} p.firstNumber []
  rw [List.append_nil] at h
  rw [Pattern.unresolved, Pattern.groups, h]
  cases hl : p.liftsOuterGroup with
  | false => simp [hl, Pattern.wholeText, expectNoneLeft, bind, Except.bind, pure, Except.pure]
  | true =>
      cases p with
      | link node next => simp [Pattern.liftsOuterGroup] at hl
      | last node =>
          have hw : node.text = inGroup node.body := by
            simp only [Pattern.liftsOuterGroup, Bool.and_eq_true, Bool.not_eq_true'] at hl
            exact Node.wrap_of_captures hl.1 hl.2
          simp only [Pattern.wholeText, hl, if_true, Pattern.head_last, Pattern.text, hw]
          simp [inGroup_eq, bind, Except.bind, expectNoneLeft, pure, Except.pure]

/-! ## No contradictions -/

/-- If there is an error, it is a property of the pattern. -/
def Consistent (x : Except Error α) : Prop := ∀ e, x = .error e → e.isInternal = false

theorem Consistent.ok (a : α) : Consistent (.ok a : Except Error α) := by
  intro e h
  cases h

theorem Consistent.bind {x : Except Error α} {f : α → Except Error β} (hx : Consistent x)
    (hf : ∀ a, x = .ok a → Consistent (f a)) : Consistent (x >>= f) := by
  intro e h
  rcases Except.bind_eq_error.mp h with h | ⟨a, ha, h⟩
  · exact hx e h
  · exact hf a ha e h

theorem consistent_fillPieces (groups : List Group) (pieces : List RegexPiece) :
    Consistent (fillPieces groups pieces) := by
  induction pieces with
  | nil => exact .ok _
  | cons piece rest ih =>
      cases piece with
      | byte b => exact ih.bind fun _ _ => .ok _
      | place kind name =>
          rw [fillPieces]
          split
          · intro e h
            cases h
            rfl
          · exact ih.bind fun _ _ => .ok _

theorem consistent_fillTagPieces (groups : List Group) (own : Int) (pieces : List TagPiece) :
    Consistent (fillTagPieces groups own pieces) := by
  induction pieces with
  | nil => exact .ok _
  | cons piece rest ih =>
      cases piece with
      | byte b => exact ih.bind fun _ _ => .ok _
      | ownNumber => exact ih.bind fun _ _ => .ok _
      | numberOf name =>
          rw [fillTagPieces]
          split
          · intro e h
            cases h
            rfl
          · exact ih.bind fun _ _ => .ok _

theorem Pattern.consistent_evaluate (p : Pattern) : Consistent p.evaluate := by
  rw [Pattern.evaluate, p.unresolved_eq]
  exact consistent_fillPieces p.groups _

theorem Group.consistent_toCapture (g : Group) (groups : List Group)
    {patterns : Except Error (List RuleReference)} (hp : Consistent patterns) :
    Consistent (g.toCapture groups patterns) := by
  unfold Group.toCapture
  cases g.tagAs with
  | none => exact (Consistent.ok none).bind fun _ _ => hp.bind fun _ _ => .ok _
  | some tag =>
      exact (consistent_fillTagPieces groups g.number _).bind fun _ _ =>
        (Consistent.ok _).bind fun _ _ => hp.bind fun _ _ => .ok _

theorem consistent_capturesWith (groups : List Group)
    (entries : List (Group × Except Error (List RuleReference))) (captures : Dictionary Capture)
    (h : ∀ entry ∈ entries, Consistent entry.2) :
    Consistent (capturesWith groups entries captures) := by
  induction entries generalizing captures with
  | nil => exact .ok _
  | cons entry rest ih =>
      obtain ⟨g, patterns⟩ := entry
      have hg : Consistent (g.toCapture groups patterns) :=
        g.consistent_toCapture groups (h _ List.mem_cons_self)
      exact hg.bind fun _ _ => ih _ fun e he => h e (List.mem_cons_of_mem _ he)

theorem Pattern.consistent_ruleWith (p : Pattern)
    {patterns : List (Except Error (List RuleReference))} (h : ∀ x ∈ patterns, Consistent x) :
    Consistent (p.ruleWith patterns) := by
  unfold Pattern.ruleWith
  refine p.consistent_evaluate.bind fun _ _ => ?_
  refine (consistent_capturesWith p.groups _ [] ?_).bind fun _ _ => .ok _
  intro entry he
  exact h _ (List.of_mem_zip he).2

mutual
theorem Include.consistent_reference : (i : Include) → Consistent i.reference
  | .pattern pattern => by
      rw [Include.reference]
      exact (pattern.consistent_ruleWith pattern.consistent_includeReferences).bind
        fun _ _ => .ok _
  | .symbol name => by
      rw [Include.reference]
      exact .ok _
  | .text text => by
      rw [Include.reference]
      split
      · exact .ok _
      · exact (Pattern.consistent_ruleWith _ (by simp)).bind fun _ _ => .ok _

theorem consistent_includeListReferences :
    (list : List Include) → Consistent (includeListReferences list)
  | [] => .ok _
  | entry :: rest =>
      entry.consistent_reference.bind fun _ _ =>
        (consistent_includeListReferences rest).bind fun _ _ => .ok _

theorem Pattern.consistent_includeReferences :
    (p : Pattern) → ∀ x ∈ p.includeReferences, Consistent x
  | .last node => node.consistent_includeReferences
  | .link node next => by
      intro x hx
      rcases List.mem_append.mp hx with hx | hx
      · exact node.consistent_includeReferences x hx
      · exact next.consistent_includeReferences x hx

theorem Node.consistent_includeReferences : (n : Node) → ∀ x ∈ n.includeReferences, Consistent x
  | .mk kind matcher none options quantity => by
      intro x hx
      cases hc : (Node.mk kind matcher none options quantity).captures with
      | false =>
          simp only [Node.includeReferences, hc, Bool.false_eq_true, if_false, List.nil_append] at hx
          exact matcher.consistent_includeReferences x hx
      | true =>
          simp only [Node.includeReferences, hc, if_true, List.cons_append, List.nil_append,
            List.mem_cons] at hx
          rcases hx with rfl | hx
          · exact .ok _
          · exact matcher.consistent_includeReferences x hx
  | .mk kind matcher (some list) options quantity => by
      intro x hx
      simp only [Node.includeReferences, List.cons_append, List.nil_append, List.mem_cons] at hx
      rcases hx with rfl | hx
      · exact consistent_includeListReferences list
      · exact matcher.consistent_includeReferences x hx

theorem Matcher.consistent_includeReferences :
    (m : Matcher) → ∀ x ∈ m.includeReferences, Consistent x
  | .literal _ => by simp [Matcher.includeReferences]
  | .fragment _ => by simp [Matcher.includeReferences]
  | .nested pattern => pattern.consistent_includeReferences
end

/-- The table of a pattern numbers the nodes that capture consecutively and in canonical order, no two
nodes having one place. Emission succeeds exactly over tables whose first entries belong to these nodes in
this order, and takes those entries away, whatever the rest: every claim takes the next entry, for the node
that writes the group. Over the table itself nothing is left, and neither the expression of a pattern nor
its rule ever fails by a contradiction between the two. -/
theorem Pattern.emission_follows_numbering (p : Pattern) (i : NodeId) (start : Int) :
    p.groupsFrom i start =
        (p.capturing i).mapIdx (fun k (place, q) => q.head.group (start + k) place) ∧
      ((p.nodes i).map (·.1)).Nodup ∧
      (∀ left after t, p.emit i left = .ok (t, after) ↔
        t = p.text ∧ Claims ((p.capturing i).map (·.1)) left after) ∧
      (do
        let (t, left) ← p.emit i (p.groupsFrom i start)
        expectNoneLeft left
        return t) = Except.ok p.text ∧
      Consistent p.evaluate ∧ Consistent p.toRule := by
  refine ⟨p.groupsFrom_eq i start, p.nodup_places i, fun _ _ _ => p.emit_eq_ok i, ?_,
    p.consistent_evaluate, p.consistent_ruleWith p.consistent_includeReferences⟩
  have h := p.emit_groupsFrom i start []
  rw [List.append_nil] at h
  rw [h]
  rfl

end PatternGrammar
