import PatternGrammar.Proofs.Resolution

/-!
# References by number

Emission leaves a place for every reference, and the places are filled in once all groups have their numbers.
The outcome is the text that the tree would have written directly, had the numbers been known: the places
among its pieces are those of its nodes that refer to a group, in canonical order, and only they change.
-/

namespace PatternGrammar

open Ascii

/-! ## Nodes that refer to a group -/

/-- The name in a place for a reference of this kind, if the whole text is one. -/
def placedName? (kind : ReferenceKind) (source : Text) : Option Text :=
  (Text.afterStart? kind.opening source).bind fun rest =>
    if placeholderClosing <:+ rest then
      some (rest.take (rest.length - placeholderClosing.length))
    else none

/-- What a matcher refers to, if it is a place for a reference. -/
def Matcher.reference? : Matcher → Option (ReferenceKind × Text)
  | .fragment source =>
      match placedName? .backReference source with
      | some name => some (.backReference, name)
      | none => (placedName? .subroutine source).map fun name => (.subroutine, name)
  | .literal _ | .nested _ => none

/-- What these nodes refer to. -/
def referencesOf (nodes : List (NodeId × Pattern)) : List (ReferenceKind × Text) :=
  nodes.filterMap (·.2.head.matcher.reference?)

/-- What the nodes of the tree refer to, in canonical order. -/
def Pattern.references (p : Pattern) : List (ReferenceKind × Text) := referencesOf (p.nodes {})

theorem referencesOf_cons (x : NodeId × Pattern) (xs : List (NodeId × Pattern)) :
    referencesOf (x :: xs) = x.2.head.matcher.reference?.toList ++ referencesOf xs := by
  rw [referencesOf, List.filterMap_cons]
  cases x.2.head.matcher.reference? <;> rfl

theorem referencesOf_append (xs ys : List (NodeId × Pattern)) :
    referencesOf (xs ++ ys) = referencesOf xs ++ referencesOf ys :=
  List.filterMap_append

theorem placedName?_eq_some {kind : ReferenceKind} {source name : Text} :
    placedName? kind source = some name ↔ source = placeholder kind name := by
  simp only [placedName?, Option.bind_eq_some_iff]
  constructor
  · rintro ⟨rest, hr, hn⟩
    split at hn
    · next hs =>
        obtain ⟨body, rfl⟩ := hs
        have hb : body = name := by simpa using hn
        rw [Text.eq_append_of_afterStart? hr, hb, placeholder, List.append_assoc]
    · cases hn
  · rintro rfl
    refine ⟨name ++ placeholderClosing, ?_, ?_⟩
    · rw [placeholder, List.append_assoc, Text.afterStart?_append]
    · rw [if_pos (List.suffix_append _ _)]
      simp

theorem Matcher.reference?_eq_some {m : Matcher} {kind : ReferenceKind} {name : Text} :
    m.reference? = some (kind, name) ↔ m = .fragment (placeholder kind name) := by
  cases m with
  | literal _ | nested _ => simp [Matcher.reference?]
  | fragment source =>
      have hb (name : Text) : placedName? .backReference (placeholder .subroutine name) = none := rfl
      rw [Matcher.reference?, Matcher.fragment.injEq, ← placedName?_eq_some]
      cases hp : placedName? .backReference source with
      | none =>
          cases kind with
          | backReference => simp [hp]
          | subroutine => simp
      | some other =>
          obtain rfl := placedName?_eq_some.mp hp
          cases kind with
          | backReference => simp [hp]
          | subroutine =>
              simp only [Option.some.injEq, Prod.mk.injEq, reduceCtorEq, false_and, false_iff]
              intro hs
              rw [placedName?_eq_some.mp hs, hb] at hp
              cases hp

theorem Matcher.reference?_of_unmarked {source : Text} (h : numberSign ∉ source) :
    (Matcher.fragment source).reference? = none := by
  cases hr : (Matcher.fragment source).reference? with
  | none => rfl
  | some r =>
      have hs := Matcher.fragment.inj (Matcher.reference?_eq_some.mp hr)
      have ho : numberSign ∈ r.1.opening := by
        cases r.1 <;> decide
      exact absurd (by simp [hs, placeholder, ho]) h

/-- A raw fragment is one place, or none of it is. -/
theorem Matcher.pieces_of_marksPlaces {source : Text} (h : (Matcher.fragment source).MarksPlaces) :
    (Matcher.fragment source).pieces =
      match (Matcher.fragment source).reference? with
      | some (kind, name) => [.place kind name]
      | none => keep source := by
  rw [Matcher.pieces]
  rcases h with h | ⟨kind, name, hn, rfl⟩
  · rw [Matcher.reference?_of_unmarked h, regexPieces_of_unmarked h]
  · rw [Matcher.reference?_eq_some.mpr rfl, regexPieces_placeholder kind hn]

/-! ## Places among pieces -/

def RegexPiece.reference? : RegexPiece → Option (ReferenceKind × Text)
  | .byte _ => none
  | .place kind name => some (kind, name)

/-- What the places among these pieces refer to, from left to right. -/
def referencesIn (pieces : List RegexPiece) : List (ReferenceKind × Text) :=
  pieces.filterMap RegexPiece.reference?

@[simp] theorem referencesIn_nil : referencesIn [] = [] := rfl

@[simp] theorem referencesIn_append (a b : List RegexPiece) :
    referencesIn (a ++ b) = referencesIn a ++ referencesIn b :=
  List.filterMap_append

@[simp] theorem referencesIn_keep (t : Text) : referencesIn (keep t) = [] := by
  induction t with
  | nil => rfl
  | cons b t ih => exact ih

@[simp] theorem referencesIn_groupPieces (opening : Text) (body : List RegexPiece) :
    referencesIn (groupPieces opening body) = referencesIn body := by
  simp [groupPieces]

theorem Quantity.referencesIn_repeatedPieces (q : Quantity) (o : Options) (body : List RegexPiece) :
    referencesIn (q.repeatedPieces o body) = referencesIn body := by
  simp only [Quantity.repeatedPieces]
  split <;> split <;> simp

theorem Node.referencesIn_bodyAround (n : Node) (body : List RegexPiece) :
    referencesIn (n.bodyAround body) = referencesIn body := by
  unfold Node.bodyAround
  split
  · rfl
  · rw [referencesIn_append, referencesIn_keep, Quantity.referencesIn_repeatedPieces, List.nil_append]

theorem Node.referencesIn_around (n : Node) (body : List RegexPiece) :
    referencesIn (n.around body) = referencesIn body := by
  have hb := n.referencesIn_bodyAround body
  unfold Node.around
  cases n.kind.lookAroundOpening? <;> cases n.captures <;> simp [hb]

theorem Kind.referencesIn_joinPieces (kind : Kind) (before own : List RegexPiece) :
    referencesIn (kind.joinPieces before own) = referencesIn before ++ referencesIn own := by
  cases kind <;> simp [Kind.joinPieces]

mutual
/-- The places among the pieces of a pattern are those of its nodes, in canonical order. -/
theorem Pattern.referencesIn_pieces (i : NodeId) :
    (p : Pattern) → p.Every (·.matcher.MarksPlaces) →
      referencesIn p.pieces = referencesOf (p.nodes i)
  | .last node, h => by
      rw [Pattern.pieces, node.referencesIn_pieces i h, Pattern.nodes, referencesOf_cons]
      rfl
  | .link node next, h => by
      rw [Pattern.pieces, next.referencesIn_piecesBehind i.next h.2, node.referencesIn_pieces i h.1,
        Pattern.nodes, referencesOf_append, referencesOf_cons]
      rfl

theorem Pattern.referencesIn_piecesBehind (i : NodeId) {before : List RegexPiece} :
    (p : Pattern) → p.Every (·.matcher.MarksPlaces) →
      referencesIn (p.piecesBehind before) = referencesIn before ++ referencesOf (p.nodes i)
  | .last node, h => by
      rw [Pattern.piecesBehind, Kind.referencesIn_joinPieces, node.referencesIn_pieces i h,
        Pattern.nodes, referencesOf_cons]
      rfl
  | .link node next, h => by
      rw [Pattern.piecesBehind, next.referencesIn_piecesBehind i.next h.2, Kind.referencesIn_joinPieces,
        node.referencesIn_pieces i h.1, Pattern.nodes, referencesOf_append, referencesOf_cons,
        List.append_assoc]
      rfl

theorem Node.referencesIn_pieces (i : NodeId) :
    (n : Node) → n.Every (·.matcher.MarksPlaces) →
      referencesIn n.pieces = n.matcher.reference?.toList ++ referencesOf (n.nestedNodes i)
  | .mk _ matcher _ _ _, h => by
      rw [Node.pieces, Node.referencesIn_around, matcher.referencesIn_pieces i h.1 h.2]
      rfl

theorem Matcher.referencesIn_pieces (i : NodeId) :
    (m : Matcher) → m.MarksPlaces → m.Every (·.matcher.MarksPlaces) →
      referencesIn m.pieces = m.reference?.toList ++ referencesOf (m.nodes i)
  | .literal text, _, _ => referencesIn_keep _
  | .fragment source, h, _ => by
      rw [Matcher.pieces_of_marksPlaces h]
      cases (Matcher.fragment source).reference? with
      | none => exact referencesIn_keep _
      | some r => rfl
  | .nested pattern, _, h => pattern.referencesIn_pieces i.nested h
end

/-! ## What a name means -/

/-- Some node of the tree has the name. -/
def Pattern.HasNamed (p : Pattern) (name : Text) : Prop :=
  ∃ x ∈ p.nodes {}, x.2.head.options.reference = some name

/-- The node is the last one in canonical order that has the name, and this is the number of its group: the
first number and as many as nodes before it capture. -/
def Pattern.Means (p : Pattern) (name : Text) (x : NodeId × Pattern) (number : Int) : Prop :=
  ∃ before after, p.nodes {} = before ++ x :: after ∧ x.2.head.options.reference = some name ∧
    (∀ y ∈ after, y.2.head.options.reference ≠ some name) ∧
    number = p.firstNumber + before.countP (·.2.head.captures)

theorem Node.captures_of_reference {n : Node} {name : Text} (h : n.options.reference = some name) :
    n.captures := by
  simp [Node.captures, h]

theorem Pattern.Means.mem {p : Pattern} {name : Text} {x : NodeId × Pattern} {number : Int}
    (h : p.Means name x number) : x ∈ p.nodes {} ∧ x.2.head.options.reference = some name := by
  obtain ⟨before, after, hn, hr, -, -⟩ := h
  exact ⟨by simp [hn], hr⟩

theorem Pattern.Means.hasNamed {p : Pattern} {name : Text} {x : NodeId × Pattern} {number : Int}
    (h : p.Means name x number) : p.HasNamed name :=
  ⟨x, h.mem⟩

theorem Pattern.HasNamed.means {p : Pattern} {name : Text} (h : p.HasNamed name) :
    ∃ x number, p.Means name x number := by
  have hlast (xs : List (NodeId × Pattern))
      (h : ∃ x ∈ xs, x.2.head.options.reference = some name) :
      ∃ before x after, xs = before ++ x :: after ∧ x.2.head.options.reference = some name ∧
        ∀ y ∈ after, y.2.head.options.reference ≠ some name := by
    induction xs with
    | nil => simp at h
    | cons x xs ih =>
        by_cases hr : ∃ y ∈ xs, y.2.head.options.reference = some name
        · obtain ⟨before, y, after, rfl, hy, ha⟩ := ih hr
          exact ⟨x :: before, y, after, rfl, hy, ha⟩
        · have hx : x.2.head.options.reference = some name := by
            obtain ⟨y, hy, hn⟩ := h
            rcases List.mem_cons.mp hy with rfl | hy
            · exact hn
            · exact absurd ⟨y, hy, hn⟩ hr
          exact ⟨[], x, xs, rfl, hx, fun y hy hn => hr ⟨y, hy, hn⟩⟩
  obtain ⟨before, x, after, hn, hx, ha⟩ := hlast (p.nodes {}) h
  exact ⟨x, _, before, after, hn, hx, ha, rfl⟩

theorem numberOf?_append_cons {name : Text} {before after : List Group} {g : Group}
    (hg : g.reference = some name) (ha : ∀ h ∈ after, h.reference ≠ some name) :
    numberOf? (before ++ g :: after) name = some g.number := by
  have hnone : after.reverse.find? (fun h => h.reference = some name) = none := by
    rw [List.find?_eq_none]
    intro h hm
    simpa using ha h (List.mem_reverse.mp hm)
  rw [numberOf?, List.reverse_append, List.reverse_cons, List.append_assoc, List.find?_append, hnone,
    Option.none_or, List.singleton_append, List.find?_cons_of_pos (by simpa using hg)]
  rfl

theorem Pattern.Means.numberOf?_eq {p : Pattern} {name : Text} {x : NodeId × Pattern} {number : Int}
    (h : p.Means name x number) : numberOf? p.groups name = some number := by
  obtain ⟨before, after, hn, hr, ha, rfl⟩ := h
  have hc : x.2.head.captures = true := Node.captures_of_reference hr
  rw [Pattern.groups, p.groupsFrom_eq, Pattern.capturing, hn, List.filter_append]
  rw [List.filter_cons_of_pos (a := x) hc, List.mapIdx_append, List.mapIdx_cons, numberOf?_append_cons]
  · simp [Node.group, List.countP_eq_length_filter]
  · exact hr
  · intro g hm
    obtain ⟨k, hk, rfl⟩ := List.mem_mapIdx.mp hm
    exact ha _ (List.mem_of_mem_filter (List.getElem_mem hk))

theorem Pattern.numberOf?_eq_some {p : Pattern} {name : Text} {number : Int} :
    numberOf? p.groups name = some number ↔ ∃ x, p.Means name x number := by
  constructor
  · intro h
    obtain ⟨g, hg, rfl⟩ := Option.map_eq_some_iff.mp h
    have hm := List.mem_reverse.mp (List.mem_of_find?_eq_some hg)
    have hr : g.reference = some name := by simpa using List.find?_some hg
    rw [Pattern.groups, p.groupsFrom_eq, Pattern.capturing] at hm
    obtain ⟨k, hk, rfl⟩ := List.mem_mapIdx.mp hm
    have hnamed : p.HasNamed name := ⟨_, List.mem_of_mem_filter (List.getElem_mem hk), hr⟩
    obtain ⟨x, n, hx⟩ := hnamed.means
    have he := h.symm.trans hx.numberOf?_eq
    exact ⟨x, Option.some.inj he ▸ hx⟩
  · rintro ⟨x, h⟩
    exact h.numberOf?_eq

theorem Pattern.isSome_numberOf? {p : Pattern} {name : Text} :
    (numberOf? p.groups name).isSome ↔ p.HasNamed name := by
  rw [Option.isSome_iff_exists]
  constructor
  · rintro ⟨number, h⟩
    obtain ⟨x, hx⟩ := Pattern.numberOf?_eq_some.mp h
    exact hx.hasNamed
  · intro h
    obtain ⟨x, number, hx⟩ := h.means
    exact ⟨number, hx.numberOf?_eq⟩

/-! ## Writing references directly -/

/-- The text of pieces that are written with the numbers known: every place becomes its number, and a number
that a digit would continue is kept apart from it. -/
def written (number : Text → Int) : List RegexPiece → Text
  | [] => []
  | .byte b :: rest => b :: written number rest
  | .place .backReference name :: rest =>
      "\\" ++ Text.ofInt (number name) ++
        (if (piecesText rest).head?.any Text.isDigit then "(?:)" else "") ++ written number rest
  | .place .subroutine name :: rest =>
      "\\g<" ++ Text.ofInt (number name) ++ ">" ++ written number rest

/-- The number that a name has in a table of groups. -/
def numberIn (groups : List Group) (name : Text) : Int := (numberOf? groups name).getD 0

theorem startsWithDigit_eq (pieces : List RegexPiece) :
    startsWithDigit pieces = (piecesText pieces).head?.any Text.isDigit := by
  cases pieces with
  | nil => rfl
  | cons piece rest =>
      cases piece with
      | byte b => rfl
      | place kind name => cases kind <;> rfl

/-- Filling in fails at the first place whose name is unknown, and else writes all of the pieces. -/
theorem fillPieces_eq_written (groups : List Group) (pieces : List RegexPiece) :
    fillPieces groups pieces =
      match (referencesIn pieces).find? fun r => (numberOf? groups r.2).isNone with
      | some (kind, name) => .error (.unresolved name (.regex kind))
      | none => .ok (written (numberIn groups) pieces) := by
  induction pieces with
  | nil => rfl
  | cons piece rest ih =>
      cases piece with
      | byte b =>
          have hr : referencesIn (.byte b :: rest) = referencesIn rest := rfl
          rw [fillPieces, ih, hr]
          cases (referencesIn rest).find? fun r => (numberOf? groups r.2).isNone <;> rfl
      | place kind name =>
          have hr : referencesIn (.place kind name :: rest) = (kind, name) :: referencesIn rest := rfl
          rw [fillPieces_place, ih, hr]
          cases hn : numberOf? groups name with
          | none => simp [hn]
          | some number =>
              have hi : numberIn groups name = number := by rw [numberIn, hn, Option.getD_some]
              rw [List.find?_cons_of_neg (by simp [hn])]
              cases (referencesIn rest).find? fun r => (numberOf? groups r.2).isNone with
              | some r => rfl
              | none =>
                  cases kind <;>
                    simp [written, hi, ReferenceKind.render, startsWithDigit_eq, pure, Except.pure, bind,
                      Except.bind]

theorem written_congr {number other : Text → Int} {pieces : List RegexPiece}
    (h : ∀ r ∈ referencesIn pieces, number r.2 = other r.2) :
    written number pieces = written other pieces := by
  induction pieces with
  | nil => rfl
  | cons piece rest ih =>
      cases piece with
      | byte b => rw [written, written, ih h]
      | place kind name =>
          have hr : referencesIn (.place kind name :: rest) = (kind, name) :: referencesIn rest := rfl
          rw [hr, List.forall_mem_cons] at h
          cases kind <;> rw [written, written, ih h.2, h.1]

/-! ## The whole expression -/

theorem Pattern.referencesIn_wholePieces (p : Pattern) (h : p.Every (·.matcher.MarksPlaces)) :
    referencesIn p.wholePieces = p.references := by
  have hp := p.referencesIn_pieces {} h
  unfold Pattern.wholePieces
  split
  · next hl =>
      cases p with
      | link node next => cases hl
      | last node =>
          -- the group that is left out refers to nothing
          cases node with
          | mk kind matcher includes options quantity =>
              rw [Pattern.pieces, Node.pieces, Node.referencesIn_around] at hp
              rw [Pattern.head_last, Node.bodyPieces, Node.referencesIn_bodyAround]
              exact hp
  · exact hp

theorem Pattern.evaluate_eq_written (p : Pattern) (h : p.Every (·.matcher.MarksPlaces)) :
    p.evaluate =
      match p.references.find? fun r => (numberOf? p.groups r.2).isNone with
      | some (kind, name) => .error (.unresolved name (.regex kind))
      | none => .ok (written (numberIn p.groups) p.wholePieces) := by
  rw [p.evaluate_eq h, fillPieces_eq_written, p.referencesIn_wholePieces h]

theorem Pattern.isNone_numberOf? {p : Pattern} {name : Text} :
    (numberOf? p.groups name).isNone = false ↔ p.HasNamed name := by
  rw [← Pattern.isSome_numberOf?]
  cases numberOf? p.groups name <;> simp

theorem Pattern.HasNamed.means_numberIn {p : Pattern} {name : Text} (h : p.HasNamed name) :
    ∃ x, p.Means name x (numberIn p.groups name) := by
  obtain ⟨x, number, hx⟩ := h.means
  have hn : numberIn p.groups name = number := by rw [numberIn, hx.numberOf?_eq, Option.getD_some]
  exact ⟨x, hn ▸ hx⟩

theorem Pattern.hasNamed_of_find?_eq_none {p : Pattern}
    (h : (p.references.find? fun r => (numberOf? p.groups r.2).isNone) = none) :
    ∀ r ∈ p.references, p.HasNamed r.2 := by
  intro r hr
  rw [← Pattern.isNone_numberOf?]
  exact Bool.eq_false_iff.mpr (List.find?_eq_none.mp h r hr)

theorem Pattern.evaluate_eq_ok {p : Pattern} (h : p.Every (·.matcher.MarksPlaces)) {t : Text} :
    p.evaluate = .ok t ↔
      ∃ number : Text → Int, (∀ r ∈ p.references, ∃ x, p.Means r.2 x (number r.2)) ∧
        t = written number p.wholePieces := by
  rw [p.evaluate_eq_written h]
  cases hf : p.references.find? fun r => (numberOf? p.groups r.2).isNone with
  | some r =>
      -- the name of this reference is unknown
      have hr : ¬ p.HasNamed r.2 := by
        rw [← Pattern.isNone_numberOf?, List.find?_some hf]
        exact nofun
      constructor
      · exact nofun
      · rintro ⟨number, hm, -⟩
        obtain ⟨x, hx⟩ := hm r (List.mem_of_find?_eq_some hf)
        exact absurd hx.hasNamed hr
  | none =>
      have hall := Pattern.hasNamed_of_find?_eq_none hf
      constructor
      · intro ht
        exact ⟨_, fun r hr => (hall r hr).means_numberIn, (Except.ok.inj ht).symm⟩
      · rintro ⟨number, hm, rfl⟩
        refine congrArg Except.ok (written_congr ?_)
        rw [p.referencesIn_wholePieces h]
        intro r hr
        obtain ⟨x, hx⟩ := hm r hr
        rw [numberIn, hx.numberOf?_eq, Option.getD_some]

theorem Pattern.evaluate_eq_error {p : Pattern} (h : p.Every (·.matcher.MarksPlaces)) {e : Error} :
    p.evaluate = .error e ↔
      ∃ before kind name after, p.references = before ++ (kind, name) :: after ∧
        (∀ r ∈ before, p.HasNamed r.2) ∧ ¬ p.HasNamed name ∧ e = .unresolved name (.regex kind) := by
  have hfirst (r : ReferenceKind × Text) :
      (p.references.find? fun r => (numberOf? p.groups r.2).isNone) = some r ↔
        ¬ p.HasNamed r.2 ∧ ∃ before after, p.references = before ++ r :: after ∧
          ∀ s ∈ before, p.HasNamed s.2 := by
    simp only [List.find?_eq_some_iff_append, Bool.not_eq_true', Pattern.isNone_numberOf?]
    rw [← Bool.not_eq_false, Pattern.isNone_numberOf?]
  rw [p.evaluate_eq_written h]
  constructor
  · intro he
    cases hf : p.references.find? fun r => (numberOf? p.groups r.2).isNone with
    | none =>
        rw [hf] at he
        cases he
    | some r =>
        obtain ⟨kind, name⟩ := r
        obtain ⟨hr, before, after, hs, hb⟩ := (hfirst _).mp hf
        rw [hf] at he
        exact ⟨before, kind, name, after, hs, hb, hr, (Except.error.inj he).symm⟩
  · rintro ⟨before, kind, name, after, hs, hb, hr, rfl⟩
    rw [(hfirst (kind, name)).mpr ⟨hr, before, after, hs, hb⟩]

/-- Evaluation gives the expression as the tree would write it with the numbers known. The pieces of the
expression spell what emission leaves to resolve; a leaf of the tree is one place if it refers to a group, and
is kept byte by byte if it does not, so that the places are those of the nodes that refer to groups, in
canonical order. A place becomes the number of the last node that has its name. Evaluation fails exactly if
some name belongs to no node, with the first one of these. -/
theorem Pattern.evaluate_writes_references (p : Pattern) (hp : p.Every (·.matcher.MarksPlaces)) :
    p.unresolved = .ok (piecesText p.wholePieces) ∧
      referencesIn p.wholePieces = p.references ∧
      (∀ x ∈ p.nodes {}, ∀ m, x.2.head.matcher = m → (∀ q, m ≠ .nested q) →
        m.pieces =
          match m.reference? with
          | some (kind, name) => [.place kind name]
          | none => keep m.text) ∧
      (∀ t, p.evaluate = .ok t ↔
        ∃ number : Text → Int, (∀ r ∈ p.references, ∃ x, p.Means r.2 x (number r.2)) ∧
          t = written number p.wholePieces) ∧
      ∀ e, p.evaluate = .error e ↔
        ∃ before kind name after, p.references = before ++ (kind, name) :: after ∧
          (∀ r ∈ before, p.HasNamed r.2) ∧ ¬ p.HasNamed name ∧ e = .unresolved name (.regex kind) := by
  refine ⟨?_, p.referencesIn_wholePieces hp, ?_, fun _ => Pattern.evaluate_eq_ok hp,
    fun _ => Pattern.evaluate_eq_error hp⟩
  · rw [p.unresolved_eq, p.piecesText_wholePieces]
  · rintro x hx m rfl hleaf
    have hm := p.every_of_mem_nodes {} hp hx
    cases hk : x.2.head with
    | mk kind matcher includes options quantity =>
        rw [hk] at hm hleaf
        cases matcher with
        | literal text => rfl
        | fragment source => exact Matcher.pieces_of_marksPlaces hm.1
        | nested q => exact absurd rfl (hleaf q)

/-- Two nodes of one name, with references to it in front of a digit and in a lookahead, and a literal that
looks like a place for a reference. -/
def namedTwice : Pattern :=
  .link (.mk .plain (.literal "a") none { reference := some "x" } {})
    (.link (.mk .backReference (.fragment (placeholder .backReference "x")) none {} {})
      (.link (.mk .plain (.literal "0(?#[:subroutine:x:])") none {} {})
        (.last
          (.mk .orElse
            (.nested (.last
              (.mk .lookAheadFor (.fragment (placeholder .subroutine "x")) none {} {})))
            none { reference := some "x" } {}))))

theorem namedTwice_written :
    namedTwice.Every (·.matcher.MarksPlaces) ∧
      namedTwice.evaluate = .ok "(?:(a)\\2(?:)0\\(\\?\\#\\[:subroutine:x:\\]\\)|((?=\\g<2>)))" ∧
      ∃ number : Text → Int, (∀ r ∈ namedTwice.references, ∃ x, namedTwice.Means r.2 x (number r.2)) ∧
        "(?:(a)\\2(?:)0\\(\\?\\#\\[:subroutine:x:\\]\\)|((?=\\g<2>)))" =
          written number namedTwice.wholePieces := by
  have hx : IsPlaceName "x" := by decide
  have hp : namedTwice.Every (·.matcher.MarksPlaces) :=
    ⟨⟨trivial, trivial⟩, ⟨.inr ⟨.backReference, "x", hx, rfl⟩, trivial⟩, ⟨trivial, trivial⟩,
      trivial, .inr ⟨.subroutine, "x", hx, rfl⟩, trivial⟩
  have he : namedTwice.evaluate =
      .ok "(?:(a)\\2(?:)0\\(\\?\\#\\[:subroutine:x:\\]\\)|((?=\\g<2>)))" := rfl
  exact ⟨hp, he, ((namedTwice.evaluate_writes_references hp).2.2.2.1 _).mp he⟩

end PatternGrammar
