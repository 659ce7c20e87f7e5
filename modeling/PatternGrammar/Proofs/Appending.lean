import PatternGrammar.Proofs.OuterGroup

/-!
# Chains piece by piece

A chain behind another makes one chain. Its groups are those of the first under their own numbers and then
those of the second under the numbers that follow, and its text is the text of the first continued node by
node. So a chain can be understood by its pieces, however it has been put together.
-/

namespace PatternGrammar

/-! ## Places -/

/-- The place behind this many nodes of the chain that starts here. -/
def NodeId.after (i : NodeId) (n : Nat) : NodeId := { i with path := List.replicate n .next ++ i.path }

@[simp] theorem NodeId.after_zero (i : NodeId) : i.after 0 = i := rfl

theorem NodeId.after_succ (i : NodeId) (n : Nat) : i.after (n + 1) = i.next.after n := by
  simp [NodeId.after, NodeId.next, List.replicate_succ']

theorem NodeId.after_eq_under (i : NodeId) (n : Nat) :
    i.after n = NodeId.under (i.after n).path { i with path := [] } := by
  simp [NodeId.under, NodeId.after]

/-! ## Groups -/

/-- The groups of the pieces follow each other, and so do their numbers. -/
theorem Pattern.groupsFrom_append (q : Pattern) (i : NodeId) (start : Int) (p : Pattern) :
    (p.append q).groupsFrom i start =
      p.groupsFrom i start ++
        q.groupsFrom (i.after p.chain.length) (start + (p.groupsFrom i start).length) := by
  induction p using Pattern.chain_induction generalizing i start with
  | last node =>
      rw [Pattern.append, Pattern.groupsFrom, Pattern.chain, List.length_singleton, i.after_succ]
      rfl
  | link node next ih =>
      rw [Pattern.append, Pattern.groupsFrom, ih, Pattern.groupsFrom,
        Pattern.chain, List.length_cons, i.after_succ, List.append_assoc, List.length_append]
      push_cast
      rw [Int.add_assoc]

/-- In a chain the groups of a piece are those that it has by itself; only the places of their nodes are
others. -/
theorem Pattern.groupsFrom_after (p : Pattern) (i : NodeId) (n : Nat) (start : Int) :
    p.groupsFrom (i.after n) start =
      (p.groupsFrom { i with path := [] } start).map (Group.moved (i.after n).path 0) := by
  have h := p.groupsFrom_moved (i.after n).path 0 { i with path := [] } start
  rw [Int.add_zero, ← i.after_eq_under] at h
  exact h

/-! ## Text -/

/-- The text so far with one more node of the chain. An alternative takes all of it into a choice. -/
def continued (t : Text) (n : Node) : Text :=
  if n.kind = .orElse then "(?:" ++ t ++ "|" ++ n.text ++ ")" else t ++ n.text

theorem Kind.join_eq_continued (t : Text) (n : Node) : n.kind.join t n.text = continued t n := by
  unfold continued
  cases n.kind <;> rfl

theorem Pattern.textBehind_eq_foldl (t : Text) (p : Pattern) :
    p.textBehind t = p.chain.foldl continued t := by
  induction p using Pattern.chain_induction generalizing t with
  | last node => exact Kind.join_eq_continued t node
  | link node next ih =>
      rw [Pattern.textBehind, ih, Kind.join_eq_continued]
      rfl

theorem Pattern.text_append (q p : Pattern) : (p.append q).text = q.textBehind p.text := by
  cases p with
  | last => rfl
  | link node next =>
      have h := Pattern.textBehind_eq_foldl node.text (next.append q)
      rw [Pattern.chain_append, List.foldl_append, ← next.textBehind_eq_foldl,
        ← q.textBehind_eq_foldl] at h
      exact h

theorem Pattern.places_append (q : Pattern) (i : NodeId) (p : Pattern) :
    (p.append q).places i = p.places i ++ q.places (i.after p.chain.length) := by
  induction p using Pattern.chain_induction generalizing i with
  | last node =>
      rw [Pattern.append, Pattern.places_link, Pattern.places_last, Pattern.chain,
        List.length_singleton, i.after_succ]
      rfl
  | link node next ih =>
      rw [Pattern.append, Pattern.places_link, ih, Pattern.places_link,
        Pattern.chain, List.length_cons, i.after_succ, List.append_assoc]

/-- Emission of a chain emits its pieces one after the other: what the first leaves of a table is what the
second is given. The text of the second continues that of the first, node by node. -/
theorem Pattern.emit_append_eq_ok {p q : Pattern} {i : NodeId} {left after : List Group} {u : Text} :
    (p.append q).emit i left = .ok (u, after) ↔
      ∃ t mid own, p.emit i left = .ok (t, mid) ∧
        q.emit (i.after p.chain.length) mid = .ok (own, after) ∧ u = q.chain.foldl continued t := by
  simp only [Pattern.emit_eq_ok, Pattern.text_append, Pattern.textBehind_eq_foldl,
    Pattern.places_append, claims_append]
  constructor
  · rintro ⟨rfl, mid, hp, hq⟩
    exact ⟨p.text, mid, q.text, ⟨rfl, hp⟩, ⟨rfl, hq⟩, rfl⟩
  · rintro ⟨t, mid, own, ⟨rfl, hp⟩, ⟨rfl, hq⟩, rfl⟩
    exact ⟨rfl, mid, hp, hq⟩

/-- A chain that has been put together has no outer group, so nothing is left out of its text. -/
theorem Pattern.unresolved_append (p q : Pattern) :
    (p.append q).unresolved = .ok (q.chain.foldl continued p.text) := by
  have hl : (p.append q).liftsOuterGroup = false := by
    cases p <;> rfl
  rw [Pattern.unresolved_eq, Pattern.wholeText, hl, Pattern.text_append,
    Pattern.textBehind_eq_foldl]
  rfl

/-- Appending is compositional. It is associative. The table of a chain is that of its first piece and then,
under the numbers that follow, that of the second, where only the places of the nodes are others. Emission,
from whatever table, emits the first piece and then the second from what is left, and its text is that of the
first piece continued by the nodes of the second from left to right: an alternative takes the text so far and
its own into a choice, every other node writes its own behind. A node writes the same text wherever it stands,
and over the table of the whole chain there is such an emission, which leaves nothing. -/
theorem Pattern.append_compositional (a b c : Pattern) (i : NodeId) (start : Int) :
    (a.append b).append c = a.append (b.append c) ∧
    (a.append b).groupsFrom i start = a.groupsFrom i start ++
      (b.groupsFrom { i with path := [] } (start + (a.groupsFrom i start).length)).map
        (Group.moved (i.after a.chain.length).path 0) ∧
    (∀ left after u, (a.append b).emit i left = .ok (u, after) ↔
      ∃ t mid own, a.emit i left = .ok (t, mid) ∧
        b.emit (i.after a.chain.length) mid = .ok (own, after) ∧ u = b.chain.foldl continued t) ∧
    (∀ (n : Node) j self left after t, n.emit j self left = .ok (t, after) → t = n.text) ∧
    (a.append b).emit i ((a.append b).groupsFrom i start) =
      .ok (b.chain.foldl continued a.text, []) ∧
    a.emit i (a.groupsFrom i start) = .ok (a.text, []) ∧
    (a.append b).unresolved = .ok (b.chain.foldl continued a.text) := by
  have hemit (p : Pattern) : p.emit i (p.groupsFrom i start) = .ok (p.text, []) := by
    have h := p.emit_groupsFrom i start []
    rwa [List.append_nil] at h
  refine ⟨a.append_assoc b c, ?_, fun _ _ _ => Pattern.emit_append_eq_ok, ?_, ?_, hemit a,
    a.unresolved_append b⟩
  · rw [Pattern.groupsFrom_append, Pattern.groupsFrom_after]
  · intro n j self left after t h
    exact ((n.emit_eq_ok j).mp h).1
  · rw [hemit, Pattern.text_append, Pattern.textBehind_eq_foldl]

end PatternGrammar
