import Mathlib.Data.List.Forall2
import PatternGrammar.Proofs.Parentheses

/-!
# What the groups of an expression enclose

For the expression of a pattern the texts that its capturing parentheses enclose are, in order, the bodies
of the nodes that capture: the n-th parenthesis from the left belongs to the node under number n.
-/

namespace PatternGrammar

open Ascii

/-! ## The bodies of the nodes that capture -/

/-- A place is filled in with some text. -/
theorem fillBefore_ne_nil {groups : List Group} {digit : Bool} {pieces : List RegexPiece} {t : Text}
    (h : fillBefore groups digit pieces = .ok t) (hp : pieces ≠ []) : t ≠ [] := by
  obtain ⟨piece, rest, rfl⟩ := List.exists_cons_of_ne_nil hp
  cases piece with
  | byte b =>
      obtain ⟨u, -, rfl⟩ := fillBefore_byte.mp h
      exact List.cons_ne_nil b u
  | place kind name =>
      obtain ⟨number, u, -, -, rfl⟩ := fillBefore_place.mp h
      cases kind <;> simp [ReferenceKind.render, Text.ofInt_ne_nil]

theorem head?_render (kind : ReferenceKind) (number : Int) (digit : Bool) (t : Text) :
    (kind.render number digit ++ t).head? = some backslash := by
  cases kind <;> rfl

/-- The resolved body of a node. -/
def IsBody (groups : List Group) (x : NodeId × Pattern) (body : Text) : Prop :=
  fillPieces groups x.2.head.bodyPieces = .ok body

/-- Filled in, the pieces enclose the resolved bodies of these nodes, and do not begin with a question
mark, wherever they stand. -/
def EnclosesBodies (groups : List Group) (nodes : List (NodeId × Pattern))
    (pieces : List RegexPiece) : Prop :=
  ∀ digit t, fillBefore groups digit pieces = .ok t →
    t.head? ≠ some question ∧
      ∃ bodies, List.Forall₂ (IsBody groups) nodes bodies ∧ Encloses t bodies

section
variable {groups : List Group} {nodes : List (NodeId × Pattern)} {pieces : List RegexPiece}

theorem EnclosesBodies.append {more : List (NodeId × Pattern)} {others : List RegexPiece}
    (ha : EnclosesBodies groups nodes pieces) (hb : EnclosesBodies groups more others) :
    EnclosesBodies groups (nodes ++ more) (pieces ++ others) := by
  intro digit t h
  obtain ⟨s, u, hs, hu, rfl⟩ := fillBefore_append.mp h
  obtain ⟨hqs, bs, hbs, hes⟩ := ha _ s hs
  obtain ⟨hqu, cs, hcs, heu⟩ := hb _ u hu
  refine ⟨?_, bs ++ cs, List.rel_append hbs hcs, hes.append heu⟩
  cases s with
  | nil => exact hqu
  | cons b s => exact hqs

theorem EnclosesBodies.keep {t : Text} (ht : Encloses t []) (hq : t.head? ≠ some question) :
    EnclosesBodies groups [] (keep t) := by
  intro digit u h
  rw [fillBefore_keep] at h
  obtain rfl := Except.ok.inj h
  exact ⟨hq, [], .nil, ht⟩

theorem EnclosesBodies.place (kind : ReferenceKind) (name : Text) :
    EnclosesBodies groups [] [.place kind name] := by
  intro digit t h
  obtain ⟨number, u, -, hu, rfl⟩ := fillBefore_place.mp h
  obtain rfl := Except.ok.inj hu
  refine ⟨?_, [], .nil, (Encloses.render _ _ _).append .nil⟩
  rw [head?_render]
  decide

theorem EnclosesBodies.group {opening : Text} (ho : opensUncounted opening)
    (h : EnclosesBodies groups nodes pieces) :
    EnclosesBodies groups nodes (groupPieces opening pieces) := by
  intro digit t ht
  obtain ⟨u, hu, rfl⟩ := fillBefore_groupPieces.mp ht
  obtain ⟨-, bodies, hb, he⟩ := h _ u hu
  refine ⟨?_, bodies, hb, .group ho he⟩
  match opening, ho with
  | openParen :: question :: inner, _ => simp [openParen, question]

/-- The group of a node encloses its body as it is filled in on its own: a digit behind it would not
follow the last reference in it. -/
theorem EnclosesBodies.capture {x : NodeId × Pattern}
    (h : EnclosesBodies groups nodes x.2.head.bodyPieces) :
    EnclosesBodies groups (x :: nodes) (groupPieces "(" x.2.head.bodyPieces) := by
  intro digit t ht
  obtain ⟨u, hu, rfl⟩ := fillBefore_groupPieces.mp ht
  obtain ⟨hq, bodies, hb, he⟩ := h _ u hu
  refine ⟨?_, u :: bodies, .cons ?_ hb, .capture he hq⟩
  · change some openParen ≠ some question
    decide
  · rw [IsBody, fillPieces_eq]
    exact hu

/-- A quantifier never comes first, as it binds a text that is not empty. -/
theorem EnclosesBodies.quantified (hn : pieces ≠ []) (h : EnclosesBodies groups nodes pieces)
    (q : Quantity) (possessive lazy : Bool) :
    EnclosesBodies groups nodes (pieces ++ PatternGrammar.keep (q.quantifier possessive lazy)) := by
  intro digit t ht
  obtain ⟨s, hs, rfl⟩ := fillBefore_append_keep.mp ht
  obtain ⟨hh, bodies, hbs, he⟩ := h _ s hs
  have hq := he.append (.quantifier q possessive lazy)
  rw [List.append_nil] at hq
  refine ⟨?_, bodies, hbs, hq⟩
  rwa [List.head?_append_of_ne_nil _ (fillBefore_ne_nil hs hn)]

end

/-- A raw fragment is closed and has no group of its own, or is a place for a reference. -/
def Matcher.IsTracked : Matcher → Prop
  | .fragment source =>
      IsClosedFragment source ∨ ∃ kind name, IsPlaceName name ∧ source = placeholder kind name
  | .literal _ | .nested _ => True

theorem Matcher.IsTracked.marksPlaces {m : Matcher} (h : m.IsTracked) : m.MarksPlaces := by
  cases m with
  | fragment source => exact h.imp_left fun hc => hc.2.1
  | literal _ | nested _ => trivial

theorem escapeRegex_head? (t : Text) : (escapeRegex t).head? ≠ some question := by
  cases t with
  | nil => decide
  | cons b t =>
      rw [escapeRegex_cons]
      rcases escapeByte_cases b with ⟨c, hc⟩ | ⟨hb, hm⟩
      · rw [hc]
        change some backslash ≠ some question
        decide
      · rw [hb]
        intro h
        obtain rfl := Option.some.inj h
        exact hm (by decide)

theorem Quantity.wordsAssertion_head? (words : Option (List Text)) :
    (wordsAssertion words).head? ≠ some question := by
  match words with
  | none => decide
  | some [] => decide
  | some (w :: ws) =>
      rw [wordsAssertion_cons]
      change some openParen ≠ some question
      decide

theorem EnclosesBodies.composes (groups : List Group) :
    Composes (·.matcher.IsTracked) (fun _ => 0) fun nodes _ pieces =>
      EnclosesBodies groups nodes pieces where
  append := EnclosesBodies.append
  group ho ha := by
    have hn : ∀ opening ∈ plainOpenings, opensUncounted opening := by decide
    exact ha.group (hn _ ho)
  capture := EnclosesBodies.capture
  quantified hn ha q possessive lazy := ha.quantified hn q possessive lazy
  bar := .keep (.plain (List.all_iff_forall_prop.mp (by decide))) (by decide)
  words n _ := .keep (.wordsAssertion _) (Quantity.wordsAssertion_head? _)
  literal _ text _ _ := .keep (.escapeRegex text) (escapeRegex_head? text)
  fragment n source hn hm := by
    rw [hm] at hn
    rcases hn with h | ⟨kind, name, hp, rfl⟩
    · rw [regexPieces_of_unmarked h.2.1]
      refine .keep (.fragment h) fun hq => ?_
      have hstart := h.2.2
      rw [hq] at hstart
      exact absurd hstart (by decide)
    · rw [regexPieces_placeholder kind hp]
      exact .place kind name

/-! ## The whole expression -/

/-- The groups with a number of their own in the expression are those of the nodes that are counted, from
one on. -/
theorem Pattern.filter_groups (p : Pattern) :
    p.groups.filter (1 ≤ ·.number) =
      p.counted.mapIdx fun k (place, q) => q.head.group (1 + k) place := by
  have hall (nodes : List (NodeId × Pattern)) :
      (nodes.mapIdx fun k (place, q) => q.head.group (1 + k) place).filter (1 ≤ ·.number) =
        nodes.mapIdx fun k (place, q) => q.head.group (1 + k) place := by
    rw [List.filter_eq_self]
    intro g hg
    obtain ⟨k, hk, rfl⟩ := List.mem_mapIdx.mp hg
    have hk : (1 : Int) ≤ 1 + k := by omega
    exact decide_eq_true hk
  rw [Pattern.groups, p.groupsFrom_eq, Pattern.firstNumber, Pattern.counted]
  cases hl : p.liftsOuterGroup with
  | false => exact hall _
  | true =>
      cases p with
      | link node next => cases hl
      | last node =>
          have hc : node.captures = true := by
            simp only [Pattern.liftsOuterGroup, Bool.and_eq_true] at hl
            exact hl.1
          have hn := hall ((node.nestedNodes {}).filter (·.2.head.captures))
          simpa [Pattern.capturing, Pattern.nodes, hc, List.mapIdx_cons, Node.group, Int.add_comm]
            using hn

theorem exists_getElem?_of_forall₂ {α β : Type} {R : α → β → Prop} {as : List α} {bs : List β}
    (h : List.Forall₂ R as bs) {n : Nat} {a : α} (ha : as[n]? = some a) :
    ∃ b, bs[n]? = some b ∧ R a b := by
  obtain ⟨hn, rfl⟩ := List.getElem?_eq_some_iff.mp ha
  have hn' : n < bs.length := h.length_eq ▸ hn
  exact ⟨bs[n], List.getElem?_eq_getElem hn', h.get hn hn'⟩

/-- The group with a number of its own at place n belongs to the n-th of the nodes that are counted. -/
theorem Pattern.counted_of_getElem? {p : Pattern} {n : Nat} {g : Group}
    (h : (p.groups.filter (1 ≤ ·.number))[n]? = some g) :
    ∃ x, p.counted[n]? = some x ∧ x ∈ p.nodes {} ∧ x.2.head.captures ∧
      g = x.2.head.group (1 + n) x.1 := by
  rw [p.filter_groups, List.getElem?_mapIdx] at h
  obtain ⟨x, hx, rfl⟩ := Option.map_eq_some_iff.mp h
  have hs : p.counted ⊆ p.capturing {} := by
    unfold Pattern.counted
    split
    · exact (List.tail_sublist _).subset
    · exact List.Subset.refl _
  obtain ⟨hnode, hcaptures⟩ := List.mem_filter.mp (hs (List.mem_of_getElem? hx))
  exact ⟨x, hx, hnode, hcaptures, rfl⟩

theorem Pattern.isBody_iff {p : Pattern} (hp : p.Every (·.matcher.MarksPlaces))
    {x : NodeId × Pattern} (hx : x ∈ p.nodes {}) (groups : List Group) (body : Text) :
    IsBody groups x body ↔ resolveReferences groups x.2.head.body = .ok body := by
  rw [resolveReferences, Node.regexPieces_body _ (p.every_of_mem_nodes {} hp hx), IsBody]

/-- When every raw fragment is closed and has no group of its own, the n-th capturing parenthesis of the
expression and the one that closes it enclose the resolved body of the node whose group has number n, and
there are as many of them as groups with a number of their own. -/
theorem Pattern.captured_evaluate (p : Pattern) (hp : p.Every (·.matcher.IsTracked)) {t : Text}
    (h : p.evaluate = .ok t) :
    (capturedTexts t).length = (p.groups.filter (1 ≤ ·.number)).length ∧
      ∀ (n : Nat) (g : Group), (p.groups.filter (1 ≤ ·.number))[n]? = some g →
        g.number = n + 1 ∧
          ∃ q body, (g.owner, q) ∈ p.nodes {} ∧ q.head.captures ∧
            resolveReferences p.groups q.head.body = .ok body ∧
            (capturedTexts t)[n]? = some (some body) := by
  have hm : p.Every (·.matcher.MarksPlaces) := hp.imp fun _ h => h.marksPlaces
  rw [p.evaluate_eq hm, fillPieces_eq] at h
  obtain ⟨-, bodies, hb, he⟩ := (EnclosesBodies.composes p.groups).wholePieces p hp false t h
  have hc : capturedTexts t = bodies.map some := by
    have hc := he.captured []
    rwa [List.append_nil, capturedFrom, List.append_nil] at hc
  rw [hc, List.length_map, p.filter_groups, List.length_mapIdx, ← p.filter_groups]
  refine ⟨hb.length_eq.symm, fun n g hg => ?_⟩
  obtain ⟨x, hx, hnode, hcaptures, rfl⟩ := Pattern.counted_of_getElem? hg
  obtain ⟨body, hn, hbody⟩ := exists_getElem?_of_forall₂ hb hx
  refine ⟨Int.add_comm _ _, x.2, body, hnode, hcaptures, ?_, ?_⟩
  · exact (Pattern.isBody_iff hm hnode _ _).mp hbody
  · rw [List.getElem?_map, hn, Option.map_some]

/-- A choice between an optional lookahead, with a reference to the group in it, and a literal. -/
def referredChoice : Pattern :=
  .link
    (.mk .plain
      (.nested (.last
        (.mk .lookAheadFor (.fragment "(?:[)(]|\\()") none { reference := some "x" } {})))
      none { tagAs := some "t" } ⟨some 0, some 1⟩)
    (.link
      (.mk .backReference (.fragment (placeholder .backReference "x")) none { tagAs := some "r" } {})
      (.last (.mk .orElse (.literal "?(1") none { tagAs := some "o" } {})))

theorem referredChoice_captured :
    referredChoice.Every (·.matcher.IsTracked) ∧
      referredChoice.evaluate = .ok "(?:((?=((?:[)(]|\\()))?)(\\2)|(\\?\\(1))" ∧
      (capturedTexts "(?:((?=((?:[)(]|\\()))?)(\\2)|(\\?\\(1))").length =
        (referredChoice.groups.filter (1 ≤ ·.number)).length := by
  have hp : referredChoice.Every (·.matcher.IsTracked) := by
    refine ⟨⟨trivial, .inl ?_, trivial⟩, ⟨.inr ⟨.backReference, "x", ?_, rfl⟩, trivial⟩, trivial,
      trivial⟩
    · decide
    · decide
  have he : referredChoice.evaluate = .ok "(?:((?=((?:[)(]|\\()))?)(\\2)|(\\?\\(1))" := rfl
  exact ⟨hp, he, (referredChoice.captured_evaluate hp he).1⟩

end PatternGrammar
