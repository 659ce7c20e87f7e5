import PatternGrammar.Proofs.Written

/-!
# Properties that composition keeps

The pieces of a pattern are put together in a few ways only. A property of pieces that each of them keeps
holds of the pieces of every pattern. The property may speak of the nodes whose groups are among the pieces,
and of how many groups the fragments among them have.
-/

namespace PatternGrammar

/-- The pieces of the whole expression. -/
def Pattern.wholePieces (p : Pattern) : List RegexPiece :=
  if p.liftsOuterGroup then p.head.bodyPieces else p.pieces

/-- The nodes whose groups are counted: those that capture, without the one that the whole match stands
for. -/
def Pattern.counted (p : Pattern) : List (NodeId × Pattern) :=
  if p.liftsOuterGroup then (p.capturing {}).tail else p.capturing {}

/-- What emission opens a group with that does not capture. -/
def plainOpenings : List Text := ["(?:", "(?>", "(?=", "(?!", "(?<=", "(?<!"]

/-- What the raw fragment of a matcher counts for. -/
def Matcher.sourceCount (count : Text → Nat) : Matcher → Nat
  | .fragment source => count source
  | .literal _ | .nested _ => 0

/-- What the raw fragments of these nodes count for. -/
def sourceCount (count : Text → Nat) : List (NodeId × Pattern) → Nat
  | [] => 0
  | x :: xs => x.2.head.matcher.sourceCount count + sourceCount count xs

@[simp] theorem sourceCount_nil (count : Text → Nat) : sourceCount count [] = 0 := rfl

@[simp] theorem sourceCount_cons (count : Text → Nat) (x : NodeId × Pattern)
    (xs : List (NodeId × Pattern)) :
    sourceCount count (x :: xs) = x.2.head.matcher.sourceCount count + sourceCount count xs := rfl

@[simp] theorem sourceCount_append (count : Text → Nat) (xs ys : List (NodeId × Pattern)) :
    sourceCount count (xs ++ ys) = sourceCount count xs + sourceCount count ys := by
  induction xs with
  | nil => rw [List.nil_append, sourceCount_nil, Nat.zero_add]
  | cons x xs ih => rw [List.cons_append, sourceCount_cons, ih, sourceCount_cons, Nat.add_assoc]

theorem sourceCount_eq_zero_iff (count : Text → Nat) (xs : List (NodeId × Pattern)) :
    sourceCount count xs = 0 ↔ ∀ x ∈ xs, x.2.head.matcher.sourceCount count = 0 := by
  induction xs with
  | nil => simp
  | cons x xs ih => rw [sourceCount_cons, Nat.add_eq_zero_iff, ih, List.forall_mem_cons]

/-- The ways in which emission puts pieces together keep the property, for nodes that satisfy `P`. -/
structure Composes (P : Node → Prop) (count : Text → Nat)
    (Q : List (NodeId × Pattern) → Nat → List RegexPiece → Prop) : Prop where
  append : ∀ {xs ys j k a b}, Q xs j a → Q ys k b → Q (xs ++ ys) (j + k) (a ++ b)
  group : ∀ {opening xs k a}, opening ∈ plainOpenings → Q xs k a → Q xs k (groupPieces opening a)
  capture : ∀ {x xs k}, Q xs k x.2.head.bodyPieces →
    Q (x :: xs) k (groupPieces "(" x.2.head.bodyPieces)
  quantified : ∀ {xs k a}, a ≠ [] → Q xs k a → ∀ (q : Quantity) (possessive lazy : Bool),
    Q xs k (a ++ keep (q.quantifier possessive lazy))
  bar : Q [] 0 (keep "|")
  words : ∀ n, P n → Q [] 0 (keep (Quantity.wordsAssertion n.options.wordCannotBeAnyOf))
  literal : ∀ n text, P n → n.matcher = .literal text → Q [] 0 (keep (escapeRegex text))
  fragment : ∀ n source, P n → n.matcher = .fragment source →
    Q [] (count source) (regexPieces source)

namespace Composes

variable {P : Node → Prop} {count : Text → Nat}
  {Q : List (NodeId × Pattern) → Nat → List RegexPiece → Prop}
  {xs ys : List (NodeId × Pattern)} {j k : Nat} {a b : List RegexPiece}

theorem repeated (h : Composes P count Q) (q : Quantity) (o : Options) (ha : Q xs k a) :
    Q xs k (q.repeatedPieces o a) := by
  have hatomic : ("(?>" : Text) ∈ plainOpenings := by decide
  have hgroup : ("(?:" : Text) ∈ plainOpenings := by decide
  simp only [Quantity.repeatedPieces]
  split
  · split
    · exact h.group hatomic ha
    · exact ha
  · -- a quantifier binds pieces that are not empty
    split
    · next hs =>
        refine h.quantified ?_ ha q _ _
        rintro rfl
        cases hs
    · have hn : groupPieces "(?:" a ≠ [] := List.cons_ne_nil _ _
      exact h.quantified hn (h.group hgroup ha) q _ _

theorem bodyAround (h : Composes P count Q) {n : Node} (hn : P n) (ha : Q xs k a) :
    Q xs k (n.bodyAround a) := by
  unfold Node.bodyAround
  split
  · exact ha
  · have hb := h.append (h.words n hn) (h.repeated n.quantity n.options ha)
    rwa [List.nil_append, Nat.zero_add] at hb

theorem join (h : Composes P count Q) (kind : Kind) (ha : Q xs j a) (hb : Q ys k b) :
    Q (xs ++ ys) (j + k) (kind.joinPieces a b) := by
  cases kind with
  | orElse =>
      have hl := h.append ha h.bar
      rw [List.append_nil, Nat.add_zero] at hl
      exact h.group (by decide) (h.append hl hb)
  | _ => exact h.append ha hb

/-- A node around the pieces of its matcher, in front of what is nested in it. -/
theorem around (h : Composes P count Q) {n : Node} (hn : P n) (i : NodeId) (self : Pattern)
    (hs : self.head = n) (ha : Q xs k n.matcher.pieces) :
    Q ((if n.captures then [(i, self)] else []) ++ xs) k (n.around n.matcher.pieces) := by
  subst hs
  have hb := h.bodyAround hn ha
  have ho : Q ((if self.head.captures then [(i, self)] else []) ++ xs) k
      (if self.head.captures then groupPieces "(" (self.head.bodyAround self.head.matcher.pieces)
        else self.head.bodyAround self.head.matcher.pieces) := by
    split
    · exact h.capture (x := (i, self)) hb
    · exact hb
  unfold Node.around
  cases hk : self.head.kind.lookAroundOpening? with
  | none => exact ho
  | some opening =>
      have hl : ∀ opening ∈ (["(?=", "(?!", "(?<=", "(?<!"] : List Text),
          opening ∈ plainOpenings := by
        decide
      exact h.group (hl opening (Kind.mem_of_lookAroundOpening? hk)) ho

mutual
/-- The property holds of the pieces of a pattern, with the nodes that capture in it. -/
theorem pattern (h : Composes P count Q) (i : NodeId) :
    (p : Pattern) → p.Every P → Q (p.capturing i) (sourceCount count (p.nodes i)) p.pieces
  | .last n, hp => by
      have hn := h.node i (.last n) n rfl hp
      cases hc : n.captures <;>
        simpa [Pattern.capturing, Pattern.nodes, Pattern.pieces, hc] using hn
  | .link n next, hp => by
      have hn := h.node i (.link n next) n rfl hp.1
      have hl := h.patternBehind i.next hn next hp.2
      cases hc : n.captures <;>
        simpa [Pattern.capturing, Pattern.nodes, Pattern.pieces, hc, Nat.add_assoc] using hl

theorem patternBehind (h : Composes P count Q) {before : List (NodeId × Pattern)} {n : Nat}
    {pieces : List RegexPiece} (i : NodeId) (ha : Q before n pieces) :
    (p : Pattern) → p.Every P →
      Q (before ++ p.capturing i) (n + sourceCount count (p.nodes i)) (p.piecesBehind pieces)
  | .last m, hp => by
      have hn := h.node i (.last m) m rfl hp
      have hj := h.join m.kind ha hn
      cases hc : m.captures <;>
        simpa [Pattern.capturing, Pattern.nodes, Pattern.piecesBehind, hc] using hj
  | .link m next, hp => by
      have hn := h.node i (.link m next) m rfl hp.1
      have hl := h.patternBehind i.next (h.join m.kind ha hn) next hp.2
      cases hc : m.captures <;>
        simpa [Pattern.capturing, Pattern.nodes, Pattern.piecesBehind, hc, Nat.add_assoc] using hl

theorem node (h : Composes P count Q) (i : NodeId) (self : Pattern) :
    (n : Node) → self.head = n → n.Every P →
      Q ((if n.captures then [(i, self)] else []) ++
          (n.nestedNodes i).filter (·.2.head.captures))
        (n.matcher.sourceCount count + sourceCount count (n.nestedNodes i)) n.pieces
  | .mk _ matcher _ _ _, hs, hn => h.around hn.1 i self hs (h.matcher i hn.1 matcher rfl hn.2)

theorem matcher (h : Composes P count Q) (i : NodeId) {n : Node} (hn : P n) :
    (m : Matcher) → n.matcher = m → m.Every P →
      Q ((m.nodes i).filter (·.2.head.captures))
        (m.sourceCount count + sourceCount count (m.nodes i)) m.pieces
  | .literal text, hm, _ => h.literal n text hn hm
  | .fragment source, hm, _ => h.fragment n source hn hm
  | .nested p, _, hp => by
      have hq := h.pattern i.nested p hp
      rwa [Matcher.sourceCount, Nat.zero_add]
end

theorem bodyPieces (h : Composes P count Q) (i : NodeId) (n : Node) (hn : n.Every P) :
    Q ((n.nestedNodes i).filter (·.2.head.captures))
      (n.matcher.sourceCount count + sourceCount count (n.nestedNodes i)) n.bodyPieces := by
  cases n with
  | mk => exact h.bodyAround hn.1 (h.matcher i hn.1 _ rfl hn.2)

/-- The property holds of the pieces of the whole expression, with the nodes whose groups are counted. -/
theorem wholePieces (h : Composes P count Q) (p : Pattern) (hp : p.Every P) :
    Q p.counted (sourceCount count (p.nodes {})) p.wholePieces := by
  unfold Pattern.counted Pattern.wholePieces
  cases hl : p.liftsOuterGroup with
  | false => exact h.pattern {} p hp
  | true =>
      cases p with
      | link node next => cases hl
      | last node =>
          have hc : node.captures = true := by
            simp only [Pattern.liftsOuterGroup, Bool.and_eq_true] at hl
            exact hl.1
          simpa [Pattern.capturing, Pattern.nodes, hc] using h.bodyPieces {} node hp

end Composes

end PatternGrammar
