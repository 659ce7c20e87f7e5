import PatternGrammar.Proofs.ExampleTests
import PatternGrammar.Proofs.Placeless

/-!
# References in examples

The examples of a node are searched for with the expression of its matcher by itself, and not with the whole
expression that the node stands in. So the references that are nested in the matcher have to be to nodes in it:
then all of them are filled in, and otherwise the examples cannot be checked.
-/

namespace PatternGrammar

open Ascii

/-! ## Matchers by themselves -/

/-- The expression of a matcher by itself, before its references are filled in. -/
def Matcher.unfilled : Matcher → Text
  | .literal text => escapeRegex text
  | .fragment source => source
  | .nested pattern => pattern.wholeText

/-- What the places in this expression are for. -/
def Matcher.references (m : Matcher) : List (ReferenceKind × Text) := referencesIn (regexPieces m.unfilled)

/-- Some node in the matcher has the name. -/
def Matcher.HasNamed : Matcher → Text → Prop
  | .literal _, _ | .fragment _, _ => False
  | .nested pattern, name => pattern.HasNamed name

/-- All references in the matcher are to nodes in it, and its expression does not break off within a place that a
parenthesis behind it would complete. -/
structure Matcher.IsSelfContained (m : Matcher) : Prop where
  named : ∀ r ∈ m.references, m.HasNamed r.2
  closed : regexPieces (m.unfilled ++ ")") = regexPieces m.unfilled ++ keep ")"

/-- The matcher is no reference, and what is nested in it refers to its own nodes only. -/
def Matcher.RefersInside : Matcher → Prop
  | .literal _ => True
  | .fragment source => (Matcher.fragment source).reference? = none
  | .nested pattern => ∀ r ∈ pattern.references, pattern.HasNamed r.2

theorem Pattern.evaluate_eq_filled (p : Pattern) :
    p.evaluate =
      match (Matcher.nested p).references.find? fun r => (numberOf? p.groups r.2).isNone with
      | some (kind, name) => .error (.unresolved name (.regex kind))
      | none => .ok (written (numberIn p.groups) (regexPieces p.wholeText)) := by
  rw [Pattern.evaluate, p.unresolved_eq]
  exact fillPieces_eq_written p.groups (regexPieces p.wholeText)

/-- The expression of a matcher has all references filled in if they are to nodes in the matcher. -/
theorem Matcher.source_eq_ok {m : Matcher} (h : ∀ r ∈ m.references, m.HasNamed r.2) :
    ∃ number, m.source = .ok (written number (regexPieces m.unfilled)) := by
  have hleaf (hn : ∀ name, ¬ m.HasNamed name) : written (fun _ => 0) (regexPieces m.unfilled) = m.unfilled := by
    have hr : m.references = [] := List.eq_nil_iff_forall_not_mem.mpr fun r hr => hn r.2 (h r hr)
    rw [written_of_referencesIn_eq_nil hr, piecesText_regexPieces]
  cases m with
  | literal text => exact ⟨fun _ => 0, congrArg _ (hleaf fun _ => id).symm⟩
  | fragment source => exact ⟨fun _ => 0, congrArg _ (hleaf fun _ => id).symm⟩
  | nested q =>
      refine ⟨numberIn q.groups, ?_⟩
      have hnone : ((Matcher.nested q).references.find? fun r => (numberOf? q.groups r.2).isNone) = none := by
        refine List.find?_eq_none.mpr fun r hr => ?_
        rw [Pattern.isNone_numberOf?.mpr (h r hr)]
        exact Bool.false_ne_true
      rw [Matcher.source, q.evaluate_eq_filled, hnone]
      rfl

/-- The expression of a nested pattern cannot be built if a reference in it is to none of its nodes. -/
theorem Matcher.source_eq_error {q : Pattern} (h : ∃ r ∈ (Matcher.nested q).references, ¬ q.HasNamed r.2) :
    ∃ name request, (Matcher.nested q).source = .error (.unresolved name request) := by
  obtain ⟨r, hr, hn⟩ := h
  rw [Matcher.source, q.evaluate_eq_filled]
  cases hf : (Matcher.nested q).references.find? fun r => (numberOf? q.groups r.2).isNone with
  | some r => exact ⟨r.2, .regex r.1, rfl⟩
  | none =>
      have hnone := List.find?_eq_none.mp hf r hr
      rw [← Pattern.isNone_numberOf?] at hn
      exact absurd (Bool.eq_true_of_not_eq_false hn) hnone

/-! ## Expressions in their frames -/

theorem placeless_frame {source : Text} (category : ExampleCategory) (hs : Placeless source)
    (hc : Placeless (source ++ ")")) : Placeless (category.frame source) := by
  unfold ExampleCategory.frame
  split
  · have hz : Placeless "z" := by
      intro kind name _ _ h
      obtain ⟨inner, hi⟩ := placeholder_eq kind name
      rw [hi] at h
      exact absurd (h.subset List.mem_cons_self) (by decide)
    intro kind name hn hb h
    have he : "\\A(?:" ++ source ++ ")\\z" = "\\A" ++ ("(?:" ++ ((source ++ ")") ++ "\\z")) := by
      simp only [List.append_assoc]
      rfl
    rw [he] at h
    have hg := placeholder_infix_of_append (s := "\\A") (by decide) h
    exact (hc.append_backslash hz) kind name hn hb (placeholder_infix_of_group hg)
  · exact hs

/-- The examples of this category of the node that `self` starts with are searched for with the expression. -/
def SearchedWith (self : Pattern) (category : ExampleCategory) (expression : Text) : Prop :=
  (self.head.options.examples category).isSome ∧
    ∃ source, self.head.matcher.source = .ok source ∧ expression = category.frame source

/-- The category of the node that `self` starts with cannot be checked, as this report says, because a reference is
to no node. -/
def LacksGroup (plugins : List Plugin) (self : Pattern) (category : ExampleCategory) (d : Diagnostic) : Prop :=
  ∃ examples name request, self.head.options.examples category = some examples ∧
    self.head.matcher.source = .error (.unresolved name request) ∧
    d = failureReport plugins self [] category examples (.unresolved name request)

variable {plugins : List Plugin} {self : Pattern} {category : ExampleCategory} {d : Diagnostic}

theorem LacksGroup.categoryReport (h : LacksGroup plugins self category d) :
    CategoryReport plugins self category (some d) := by
  obtain ⟨examples, name, request, hd, hs, rfl⟩ := h
  exact .unproduced hd hs

theorem not_lacksGroup_of_source {source : Text} (h : self.head.matcher.source = .ok source) :
    ¬ LacksGroup plugins self category d := by
  rintro ⟨_, _, _, _, hs, _⟩
  rw [h] at hs
  cases hs

theorem Matcher.IsSelfContained.placeless {expression : Text} (h : self.head.matcher.IsSelfContained)
    (hs : SearchedWith self category expression) : Placeless expression := by
  obtain ⟨-, source, hsource, rfl⟩ := hs
  obtain ⟨number, hw⟩ := Matcher.source_eq_ok h.named
  obtain rfl := Except.ok.inj (hsource.symm.trans hw)
  have hc := placeless_written number (self.head.matcher.unfilled ++ ")")
  rw [h.closed, written_append_closeParen] at hc
  exact placeless_frame category (placeless_written number _) hc

/-! ## The reports of a check -/

mutual
/-- Every node of a pattern is checked. -/
theorem Pattern.mem_tested_of_mem_nodes {x : NodeId × Pattern} (i : NodeId) :
    (p : Pattern) → x ∈ p.nodes i → x.2 ∈ p.tested
  | .last node, h => by
      rcases List.mem_cons.mp h with rfl | h
      · exact List.mem_cons_self
      · exact List.mem_cons_of_mem _ (List.mem_append_left _ (node.mem_nestedTested i h))
  | .link node next, h => by
      simp only [Pattern.nodes, List.cons_append, List.mem_cons, List.mem_append] at h
      simp only [Pattern.tested, List.mem_cons, List.mem_append]
      rcases h with rfl | h | h
      · exact .inl rfl
      · exact .inr (.inl (.inl (node.mem_nestedTested i h)))
      · exact .inr (.inl (.inr (next.mem_tested_of_mem_nodes i.next h)))

theorem Node.mem_nestedTested {x : NodeId × Pattern} (i : NodeId) :
    (n : Node) → x ∈ n.nestedNodes i → x.2 ∈ n.nestedTested
  | .mk _ matcher _ _ _, h => matcher.mem_tested i h

theorem Matcher.mem_tested {x : NodeId × Pattern} (i : NodeId) :
    (m : Matcher) → x ∈ m.nodes i → x.2 ∈ m.tested
  | .literal _, h | .fragment _, h => by cases h
  | .nested pattern, h => pattern.mem_tested_of_mem_nodes i.nested h
end

theorem ExampleCategory.mem_all (category : ExampleCategory) : category ∈ ExampleCategory.all := by
  cases category <;> decide

/-- What is to be reported on a category of some node is among the reports. -/
theorem CategoryReport.mem_reports {p : Pattern} {x : NodeId × Pattern} (hx : x ∈ p.nodes {})
    (h : CategoryReport plugins x.2 category (some d)) :
    ∃ run, p.runTests plugins [] = .ok run ∧ d ∈ run.reports := by
  obtain ⟨own, ht⟩ := p.exists_testsTo plugins
  refine ⟨_, ht.runTests [], ?_⟩
  obtain ⟨parts, hparts, rfl⟩ := ht.reports
  obtain ⟨part, hpart, found, hfound, rfl⟩ := exists_mem_of_forall₂ hparts (p.mem_tested_of_mem_nodes {} hx)
  obtain ⟨r, hr, hreport⟩ := exists_mem_of_forall₂ hfound category.mem_all
  obtain rfl := rightUnique_categoryReport plugins x.2 hreport h
  exact List.mem_flatten.mpr ⟨_, hpart, List.reduceOption_mem_iff.mpr hr⟩

/-! ## Examples of a node -/

theorem Matcher.read_of_unmarked {m : Matcher} {pieces : List RegexPiece} (hu : Unmarked pieces)
    (hm : piecesText pieces = m.unfilled) :
    m.references = referencesIn pieces ∧ regexPieces (m.unfilled ++ ")") = regexPieces m.unfilled ++ keep ")" := by
  have hb : Unmarked (pieces ++ keep ")") := hu.append (.of_keep (by decide))
  have he := hb.regexPieces_eq
  rw [piecesText_append, piecesText_keep] at he
  rw [Matcher.references, ← hm, hu.regexPieces_eq]
  exact ⟨rfl, he⟩

/-- Where the leaves of a tree mark their places, the places in a matcher are those of the nodes in it that refer to
a group. -/
theorem Matcher.isSelfContained_iff {n : Node} (h : n.Every (·.matcher.MarksPlaces)) :
    n.matcher.IsSelfContained ↔ n.matcher.RefersInside := by
  obtain ⟨kind, m, includes, options, quantity⟩ := n
  obtain ⟨hm, hn⟩ : m.MarksPlaces ∧ m.Every (·.matcher.MarksPlaces) := h
  change m.IsSelfContained ↔ m.RefersInside
  cases m with
  | literal text =>
      obtain ⟨hr, hc⟩ := Matcher.read_of_unmarked (m := .literal text) (.escapeRegex text) (piecesText_keep _)
      rw [referencesIn_keep] at hr
      exact ⟨fun _ => trivial, fun _ => ⟨by simp [hr], hc⟩⟩
  | fragment source =>
      rcases hm with hm | ⟨kind, name, hname, rfl⟩
      · obtain ⟨hr, hc⟩ := Matcher.read_of_unmarked (m := .fragment source) (.of_keep hm) (piecesText_keep _)
        rw [referencesIn_keep] at hr
        exact ⟨fun _ => Matcher.reference?_of_unmarked hm, fun _ => ⟨by simp [hr], hc⟩⟩
      · have hr : (Matcher.fragment (placeholder kind name)).references = [(kind, name)] := by
          rw [Matcher.references, Matcher.unfilled, regexPieces_placeholder kind hname]
          rfl
        have hsome : (Matcher.fragment (placeholder kind name)).reference? = some (kind, name) :=
          Matcher.reference?_eq_some.mpr rfl
        constructor
        · intro h
          exact absurd (h.named (kind, name) (by simp [hr])) id
        · intro h
          rw [Matcher.RefersInside, hsome] at h
          cases h
  | nested q =>
      have hu : Unmarked q.wholePieces := Unmarked.composes.wholePieces q hn
      obtain ⟨hr, hc⟩ := Matcher.read_of_unmarked (m := .nested q) hu q.piecesText_wholePieces
      rw [q.referencesIn_wholePieces hn] at hr
      exact ⟨fun h r hm => h.named r (hr ▸ hm), fun h => ⟨fun r hm => h r (hr ▸ hm), hc⟩⟩

/-- The examples of a node are searched for with the expression of its matcher by itself. If that is self-contained,
every category has such an expression, no place for a reference is left in it, and none is reported because of a
reference. If something is nested in the matcher that refers to none of its own nodes, every category is reported.
In trees whose leaves mark their places, the self-contained matchers are those that refer to their own nodes only. -/
theorem Pattern.tests_matcher_alone (plugins : List Plugin) (p : Pattern) {x : NodeId × Pattern}
    (hx : x ∈ p.nodes {}) :
    (x.2.head.matcher.IsSelfContained →
        ∀ category, (x.2.head.options.examples category).isSome →
          (∃ expression, SearchedWith x.2 category expression) ∧
            (∀ expression, SearchedWith x.2 category expression → Placeless expression) ∧
            ∀ d, ¬ LacksGroup plugins x.2 category d) ∧
      (∀ q, x.2.head.matcher = .nested q → (∃ r ∈ (Matcher.nested q).references, ¬ q.HasNamed r.2) →
        ∀ category, (x.2.head.options.examples category).isSome →
          ∃ d run, LacksGroup plugins x.2 category d ∧ p.runTests plugins [] = .ok run ∧ d ∈ run.reports) ∧
      (p.Every (·.matcher.MarksPlaces) →
        (x.2.head.matcher.IsSelfContained ↔ x.2.head.matcher.RefersInside)) := by
  refine ⟨fun h category hd => ?_, fun q hq hout category hd => ?_, fun hp => ?_⟩
  · obtain ⟨number, hs⟩ := Matcher.source_eq_ok h.named
    exact ⟨⟨_, hd, _, hs, rfl⟩, fun _ => h.placeless, fun _ => not_lacksGroup_of_source hs⟩
  · obtain ⟨examples, hd⟩ := Option.isSome_iff_exists.mp hd
    obtain ⟨name, request, hs⟩ := Matcher.source_eq_error hout
    rw [← hq] at hs
    have hlacks : LacksGroup plugins x.2 category _ := ⟨examples, name, request, hd, hs, rfl⟩
    obtain ⟨run, hrun, hmem⟩ := hlacks.categoryReport.mem_reports hx
    exact ⟨_, run, hlacks, hrun, hmem⟩
  · exact Matcher.isSelfContained_iff (p.every_of_mem_nodes {} hp hx)

/-- A letter with a name, a letter that is repeated by a reference inside of a tested matcher, and a call of the
first letter inside of another one. -/
def doubledThenCalled : Pattern :=
  .link (.mk .plain (.literal "a") none { reference := some "x" } {})
    (.link
      (.mk .plain
        (.nested (.link (.mk .plain (.literal "b") none { reference := some "y" } {})
          (.last (ReferenceKind.backReference.node "y"))))
        none { shouldFullyMatch := some ["bb"] } {})
      (.last
        (.mk .plain (.nested (.last (ReferenceKind.subroutine.node "x"))) none
          { shouldPartiallyMatch := some ["a"] } {})))

theorem doubledThenCalled_tests :
    (∃ x ∈ doubledThenCalled.nodes {},
      SearchedWith x.2 .shouldFullyMatch "\\A(?:(b)\\1)\\z" ∧ Placeless "\\A(?:(b)\\1)\\z" ∧
        ∀ d, ¬ LacksGroup [] x.2 .shouldFullyMatch d) ∧
      ∃ x ∈ doubledThenCalled.nodes {}, ∃ d run,
        LacksGroup [] x.2 .shouldPartiallyMatch d ∧ doubledThenCalled.runTests [] [] = .ok run ∧
          d ∈ run.reports := by
  have hnode {name : Text} (kind : ReferenceKind) (h : IsPlaceName name) :
      (kind.node name).Every (·.matcher.MarksPlaces) := ⟨.inr ⟨kind, name, h, rfl⟩, trivial⟩
  have hp : doubledThenCalled.Every (·.matcher.MarksPlaces) :=
    ⟨⟨trivial, trivial⟩, ⟨trivial, ⟨trivial, trivial⟩, hnode .backReference (by decide)⟩,
      trivial, hnode .subroutine (by decide)⟩
  obtain ⟨hdoubled, -, hinside⟩ :=
    doubledThenCalled.tests_matcher_alone [] (x := (_, _)) (.tail _ (.head _))
  obtain ⟨-, hcalled, -⟩ :=
    doubledThenCalled.tests_matcher_alone [] (x := (_, _)) (.tail _ (.tail _ (.tail _ (.tail _ (.head _)))))
  refine ⟨⟨_, .tail _ (.head _), ?_⟩, ⟨_, .tail _ (.tail _ (.tail _ (.tail _ (.head _)))), ?_⟩⟩
  · have hself := (hinside hp).mpr fun r hr => by
      rw [List.mem_singleton.mp hr]
      exact ⟨_, .head _, rfl⟩
    obtain ⟨-, hplaceless, hlacks⟩ := hdoubled hself .shouldFullyMatch rfl
    refine ⟨?hsearched, hplaceless _ ?hsearched, hlacks⟩
    exact ⟨rfl, "(b)\\1", rfl, rfl⟩
  · refine hcalled _ rfl ⟨(.subroutine, "x"), .head _, ?_⟩ .shouldPartiallyMatch rfl
    rintro ⟨y, hy, hr⟩
    rw [List.mem_singleton.mp hy] at hr
    cases hr

/-- Some node of the pattern is reported because a reference is to no node. -/
def Pattern.HasUnfilled (p : Pattern) : Prop :=
  ∃ x ∈ p.nodes {}, ∃ category d run,
    LacksGroup [] x.2 category d ∧ p.runTests [] [] = .ok run ∧ d ∈ run.reports

/-- The examples of some node of the pattern are searched for with a place for a reference. -/
def Pattern.SearchesPlace (p : Pattern) : Prop :=
  ∃ x ∈ p.nodes {}, ∃ category expression, SearchedWith x.2 category expression ∧ ¬ Placeless expression

/-- A letter, and a tested call of it. -/
def calledFromOutside : Pattern :=
  .link (.mk .plain (.literal "a") none { reference := some "x" } {})
    (.last
      (.mk .plain (.nested (.last (ReferenceKind.subroutine.node "x"))) none
        { shouldFullyMatch := some ["a"] } {}))

/-- Parentheses in parentheses: a tested pattern that calls itself. -/
def callingItself : Pattern :=
  .last
    (.mk .plain
      (.nested (.link (.mk .plain (.literal "(") none {} {})
        (.link
          (.mk .subroutine (.fragment (placeholder .subroutine "x")) none
            { atLeast := some 0, atMost := some 1 } ⟨some 0, some 1⟩)
          (.last (.mk .plain (.literal ")") none {} {})))))
      none { reference := some "x", shouldFullyMatch := some ["(())"] } {})

/-- A letter, and a reference to it that has examples itself. -/
def testedReference : Pattern :=
  .link (.mk .plain (.literal "a") none { reference := some "x" } {})
    (.last
      (.mk .backReference (.fragment (placeholder .backReference "x")) none
        { shouldNotPartiallyMatch := some ["b"] } {}))

/-- A letter, and fragments of a group and of a reference to the letter, one of which has examples. -/
def brokenOff : Pattern :=
  .link (.mk .plain (.literal "x") none { reference := some "x" } {})
    (.link (.mk .plain (.fragment "(?:") none {} {})
      (.link
        (.mk .plain (.fragment "a)b(?#[:backreference:x:]") none { shouldFullyMatch := some ["ab"] } {})
        (.last (.mk .plain (.fragment ")") none {} {}))))

/-- All of these patterns compile. A reference to a node outside of the tested matcher cannot be filled in, and the
tested node itself is outside of it; a reference that is tested itself, and a fragment that breaks off within a
place, are searched for as they are. -/
theorem tested_references_unfilled :
    (calledFromOutside.evaluate = .ok "(a)\\g<1>" ∧ calledFromOutside.toRegex.isOk ∧
        calledFromOutside.HasUnfilled) ∧
      (callingItself.evaluate = .ok "\\(\\g<0>?\\)" ∧ callingItself.toRegex.isOk ∧ callingItself.HasUnfilled) ∧
      (testedReference.evaluate = .ok "(a)\\1" ∧ testedReference.toRegex.isOk ∧ testedReference.SearchesPlace) ∧
      (brokenOff.evaluate = .ok "(x)(?:a)b\\1" ∧ brokenOff.toRegex.isOk ∧ brokenOff.SearchesPlace) := by
  have hcompiles : calledFromOutside.toRegex.isOk ∧ callingItself.toRegex.isOk ∧ testedReference.toRegex.isOk ∧
      brokenOff.toRegex.isOk := by
    decide +kernel
  obtain ⟨hcalled, hcalling, htested, hbroken⟩ := hcompiles
  have hx : ("x" : Text) ≠ [] ∧ backslash ∉ ("x" : Text) := by decide
  have hunfilled {p : Pattern} {x : NodeId × Pattern} {examples : List Text} (hm : x ∈ p.nodes {})
      (hd : x.2.head.options.examples .shouldFullyMatch = some examples)
      (hs : x.2.head.matcher.source = .error (.unresolved "x" (.regex .subroutine))) : p.HasUnfilled := by
    have hlacks : LacksGroup [] x.2 .shouldFullyMatch _ := ⟨examples, "x", _, hd, hs, rfl⟩
    obtain ⟨run, hrun, hmem⟩ := hlacks.categoryReport.mem_reports hm
    exact ⟨x, hm, _, _, run, hlacks, hrun, hmem⟩
  have hplace {p : Pattern} {x : NodeId × Pattern} {c : ExampleCategory} {expression : Text}
      (hm : x ∈ p.nodes {}) (hs : SearchedWith x.2 c expression)
      (hi : placeholder .backReference "x" <:+: expression) : p.SearchesPlace :=
    ⟨x, hm, c, expression, hs, fun h => h _ _ hx.1 hx.2 hi⟩
  refine ⟨⟨rfl, hcalled, hunfilled (x := (_, _)) (.tail _ (.head _)) rfl rfl⟩,
    ⟨rfl, hcalling, hunfilled (x := (_, _)) (.head _) rfl rfl⟩, ⟨rfl, htested, ?_⟩, rfl, hbroken, ?_⟩
  · exact hplace (x := (_, _)) (c := .shouldNotPartiallyMatch) (.tail _ (.head _)) ⟨rfl, _, rfl, rfl⟩
      (List.infix_refl _)
  · exact hplace (x := (_, _)) (c := .shouldFullyMatch) (.tail _ (.tail _ (.head _))) ⟨rfl, _, rfl, rfl⟩
      ⟨"\\A(?:a)b", "\\z", rfl⟩

end PatternGrammar
