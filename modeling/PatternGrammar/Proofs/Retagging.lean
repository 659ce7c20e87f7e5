import Mathlib.Data.List.Forall2
import PatternGrammar.Proofs.Mapping
import PatternGrammar.Proofs.Numbering

/-!
# Tags and includes leave the expression alone

Whether a node captures depends on its tag, its name and its includes. A change of tags and includes that
neither takes a node its group nor gives it one leaves the text of the tree, the numbers of its groups and
everything else about its nodes as they were. The three transforms are changes of this kind.
-/

namespace PatternGrammar

/-! ## What a change of tags and includes does not concern -/

def Options.untagged (o : Options) : Options := { o with tagAs := none }

def Attributes.untagged (a : Attributes) : Attributes := { a with tagAs := none, includes := none }

def Group.untagged (g : Group) : Group := { g with tagAs := none, includes := none }

/-- A change of tags and includes after which the same nodes capture. -/
structure Retags (f : Attributes → Attributes) : Prop where
  untagged (a : Attributes) : (f a).untagged = a.untagged
  captures (n : Node) : (n.mapAttributes f).captures = n.captures

/-- The node at a place and the node that has come in its stead are the same but for tags and includes. -/
structure AgreesAt (x y : NodeId × Pattern) : Prop where
  place : y.1 = x.1
  kind : y.2.head.kind = x.2.head.kind
  matcher : y.2.head.matcher.mapAttributes Attributes.untagged =
    x.2.head.matcher.mapAttributes Attributes.untagged
  options : y.2.head.options.untagged = x.2.head.options.untagged
  quantity : y.2.head.quantity = x.2.head.quantity
  captures : y.2.head.captures = x.2.head.captures

/-- The two patterns have one expression, and their groups and nodes differ in tags and includes only. -/
structure Pattern.Agrees (p q : Pattern) : Prop where
  evaluate : q.evaluate = p.evaluate
  groups : q.groups.map Group.untagged = p.groups.map Group.untagged
  nodes : List.Forall₂ AgreesAt (p.nodes {}) (q.nodes {})

theorem numberOf?_untagged (groups : List Group) (name : Text) :
    numberOf? (groups.map Group.untagged) name = numberOf? groups name := by
  rw [numberOf?, numberOf?, ← List.map_reverse, List.find?_map, Option.map_map]
  rfl

theorem fillPieces_untagged (groups : List Group) (pieces : List RegexPiece) :
    fillPieces (groups.map Group.untagged) pieces = fillPieces groups pieces := by
  induction pieces with
  | nil => rfl
  | cons piece rest ih =>
      cases piece with
      | byte b => rw [fillPieces, fillPieces, ih]
      | place kind name => rw [fillPieces_place, fillPieces_place, ih, numberOf?_untagged]

theorem Quantity.applyTo_untagged (q : Quantity) (o : Options) (body : Text) :
    q.applyTo o.untagged body = q.applyTo o body := rfl

/-! ## Trees with changed tags and includes -/

section

variable {f : Attributes → Attributes}

theorem Retags.options (hf : Retags f) (a : Attributes) :
    (f a).toOptions.untagged = a.toOptions.untagged :=
  congrArg Attributes.toOptions (hf.untagged a)

theorem Retags.applyTo (hf : Retags f) (q : Quantity) (a : Attributes) (body : Text) :
    q.applyTo (f a).toOptions body = q.applyTo a.toOptions body := by
  rw [← q.applyTo_untagged, hf.options, q.applyTo_untagged]

theorem Retags.matcher (hf : Retags f) (m : Matcher) :
    (m.mapAttributes f).mapAttributes Attributes.untagged = m.mapAttributes Attributes.untagged := by
  rw [m.mapAttributes_mapAttributes]
  exact congrArg m.mapAttributes (funext hf.untagged)

theorem Retags.reference (hf : Retags f) (n : Node) :
    (n.mapAttributes f).options.reference = n.options.reference := by
  have h := congrArg Options.reference (hf.options n.attributes)
  rw [n.options_mapAttributes]
  exact h

theorem Retags.wrap (hf : Retags f) (n : Node) (body : Text) :
    (n.mapAttributes f).wrap body = n.wrap body := by
  have h : (n.mapAttributes f).quantity.applyTo (n.mapAttributes f).options body =
      n.quantity.applyTo n.options body := by
    rw [n.quantity_mapAttributes, n.options_mapAttributes, hf.applyTo]
    rfl
  rw [Node.wrap, Node.wrap, n.kind_mapAttributes, hf.captures, h]

mutual
theorem Retags.text (hf : Retags f) : (p : Pattern) → (p.mapAttributes f).text = p.text
  | .last node => hf.nodeText node
  | .link node next => by
      rw [Pattern.mapAttributes, Pattern.text, Pattern.text, hf.nodeText node, hf.textBehind _ next]

theorem Retags.textBehind (hf : Retags f) (before : Text) :
    (p : Pattern) → (p.mapAttributes f).textBehind before = p.textBehind before
  | .last node => by
      rw [Pattern.mapAttributes, Pattern.textBehind, Pattern.textBehind, hf.nodeText node,
        node.kind_mapAttributes]
  | .link node next => by
      rw [Pattern.mapAttributes, Pattern.textBehind, Pattern.textBehind, hf.nodeText node,
        node.kind_mapAttributes, hf.textBehind _ next]

theorem Retags.nodeText (hf : Retags f) : (n : Node) → (n.mapAttributes f).text = n.text
  | .mk kind matcher includes options quantity => by
      rw [Node.text_eq, hf.wrap, Node.matcher_mapAttributes, Node.matcher, hf.matcherText matcher]
      rfl

theorem Retags.matcherText (hf : Retags f) : (m : Matcher) → (m.mapAttributes f).text = m.text
  | .literal _ | .fragment _ => rfl
  | .nested pattern => hf.text pattern
end

theorem Retags.capturing (hf : Retags f) (p : Pattern) (i : NodeId) :
    (p.mapAttributes f).capturing i = (p.capturing i).map (nodesMapped f) := by
  rw [Pattern.capturing, p.nodes_mapAttributes, List.filter_map, Pattern.capturing]
  congr 2
  funext x
  rw [Function.comp_apply, nodesMapped, Pattern.head_mapAttributes, hf.captures]

theorem Retags.groupsFrom (hf : Retags f) (p : Pattern) (i : NodeId) (start : Int) :
    ((p.mapAttributes f).groupsFrom i start).map Group.untagged =
      (p.groupsFrom i start).map Group.untagged := by
  rw [Pattern.groupsFrom_eq, Pattern.groupsFrom_eq, hf.capturing]
  apply List.ext_getElem?
  intro k
  simp only [List.getElem?_map, List.getElem?_mapIdx, Option.map_map]
  congr 1
  funext x
  simp only [Function.comp_apply, nodesMapped, Pattern.head_mapAttributes, Node.group, Group.untagged,
    Node.kind_mapAttributes, hf.reference]

theorem Retags.liftsOuterGroup (hf : Retags f) (p : Pattern) :
    (p.mapAttributes f).liftsOuterGroup = p.liftsOuterGroup := by
  cases p with
  | last node =>
      rw [Pattern.mapAttributes, Pattern.liftsOuterGroup, Pattern.liftsOuterGroup, hf.captures,
        node.kind_mapAttributes]
  | link node next => rfl

theorem Retags.groups (hf : Retags f) (p : Pattern) :
    (p.mapAttributes f).groups.map Group.untagged = p.groups.map Group.untagged := by
  rw [Pattern.groups, Pattern.groups, Pattern.firstNumber, Pattern.firstNumber, hf.liftsOuterGroup,
    hf.groupsFrom]

theorem Retags.body (hf : Retags f) (n : Node) : (n.mapAttributes f).body = n.body := by
  rw [Node.body, Node.body, n.kind_mapAttributes, n.matcher_mapAttributes, hf.matcherText,
    n.quantity_mapAttributes, n.options_mapAttributes, hf.applyTo]
  rfl

theorem Retags.evaluate (hf : Retags f) (p : Pattern) : (p.mapAttributes f).evaluate = p.evaluate := by
  have hwhole : (p.mapAttributes f).wholeText = p.wholeText := by
    rw [Pattern.wholeText, Pattern.wholeText, hf.liftsOuterGroup, p.head_mapAttributes, hf.body,
      hf.text]
  rw [Pattern.evaluate, Pattern.evaluate, Pattern.unresolved_eq, Pattern.unresolved_eq, hwhole]
  change fillPieces _ _ = fillPieces _ _
  rw [← fillPieces_untagged, hf.groups, fillPieces_untagged]

theorem Retags.agreesAt (hf : Retags f) (x : NodeId × Pattern) : AgreesAt x (nodesMapped f x) where
  place := rfl
  kind := by rw [nodesMapped, Pattern.head_mapAttributes, Node.kind_mapAttributes]
  matcher := by
    rw [nodesMapped, Pattern.head_mapAttributes, Node.matcher_mapAttributes, hf.matcher]
  options := by
    rw [nodesMapped, Pattern.head_mapAttributes, Node.options_mapAttributes, hf.options]
    rfl
  quantity := by rw [nodesMapped, Pattern.head_mapAttributes, Node.quantity_mapAttributes]
  captures := by rw [nodesMapped, Pattern.head_mapAttributes, hf.captures]

theorem Retags.agrees (hf : Retags f) (p : Pattern) : p.Agrees (p.mapAttributes f) where
  evaluate := hf.evaluate p
  groups := hf.groups p
  nodes := by
    rw [p.nodes_mapAttributes, List.forall₂_map_right_iff, List.forall₂_same]
    exact fun x _ => hf.agreesAt x

end

/-! ## The transforms -/

theorem retags_withTags (f : Text → Text) : Retags (Attributes.withTags f) where
  untagged _ := rfl
  captures n := by
    cases n
    simp [Node.captures, Node.mapAttributes, Node.options, Node.includes, Attributes.withTags]

theorem retags_includes (g : Include → Include) :
    Retags fun a => { a with includes := a.includes.map (·.map g) } where
  untagged _ := rfl
  captures n := by
    cases n
    simp [Node.captures, Node.mapAttributes, Node.options, Node.includes]

/-- A rename gives a node a new tag only in place of an old one or beside a name. -/
theorem isSome_applyRenames (reference : Option Text) (renames : Dictionary Text) (tag : Option Text) :
    ((applyRenames reference renames tag).1.isSome || reference.isSome) =
      (tag.isSome || reference.isSome) := by
  induction renames generalizing tag with
  | nil => rfl
  | cons entry rest ih =>
      obtain ⟨key, new⟩ := entry
      rw [applyRenames]
      split
      · next h =>
          rw [ih]
          simp only [Bool.or_eq_true, decide_eq_true_eq] at h
          rcases h with rfl | rfl <;> simp
      · exact ih tag

theorem ReTag.isSome_newTag {r : ReTag} (h : r.keep = true ∨ r.suffix.isSome) (a : Attributes) :
    ((r.newTag a).isSome || a.reference.isSome) = (a.tagAs.isSome || a.reference.isSome) := by
  rw [← isSome_applyRenames a.reference r.renames a.tagAs, ReTag.newTag]
  cases hs : r.suffix with
  | some suffix => simp
  | none =>
      have hk : r.keep = true := by simpa [hs] using h
      simp [hk]

theorem retags_reTag {r : ReTag} (h : r.keep = true ∨ r.suffix.isSome) :
    Retags fun a => { a with tagAs := r.newTag a } where
  untagged _ := rfl
  captures n := by
    cases n with
    | mk kind matcher includes options quantity =>
        have hn := r.isSome_newTag h { options with includes }
        simp only [Node.captures, Node.mapAttributes, Node.options, Node.includes] at hn ⊢
        rw [hn]

/-- Changing every tag, changing every include, and changing tags so that those without a rename are kept
or get a suffix: each gives a tree with the same expression or the same error, with the same groups at the
same places under the same numbers, names and kinds, and with nodes that are the same but for their tags and
includes. -/
theorem Pattern.retagging_agrees (p : Pattern) :
    (∀ f, p.Agrees (p.transformTagAs f)) ∧ (∀ g, p.Agrees (p.transformIncludes g)) ∧
      ∀ r : ReTag, r.keep = true ∨ r.suffix.isSome → p.Agrees (p.reTag r) := by
  refine ⟨fun f => ?_, fun g => ?_, fun r h => ?_⟩
  · rw [p.transformTagAs_eq]
    exact (retags_withTags f).agrees p
  · exact (retags_includes g).agrees p
  · exact (retags_reTag h).agrees p

/-- A literal with a tag and a name, and a reference to it behind it. -/
def taggedThenReferred : Pattern :=
  .link (.mk .plain (.literal "a") none { tagAs := some "t", reference := some "x" } {})
    (.last (.mk .backReference (.fragment (placeholder .backReference "x")) none {} {}))

theorem taggedThenReferred_agrees :
    let r : ReTag := { keep := false, suffix := some "y", renames := [("x", "u")] }
    (r.keep = true ∨ r.suffix.isSome) ∧ taggedThenReferred.Agrees (taggedThenReferred.reTag r) ∧
      (taggedThenReferred.reTag r).head.options.tagAs = some "u.y" ∧
      (taggedThenReferred.reTag r).evaluate = .ok "(a)\\1" :=
  ⟨.inr rfl, taggedThenReferred.retagging_agrees.2.2 _ (.inr rfl), rfl, rfl⟩

end PatternGrammar
