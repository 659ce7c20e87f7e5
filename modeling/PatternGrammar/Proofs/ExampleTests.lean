import Mathlib.Data.List.Forall2
import Mathlib.Data.List.ReduceOption
import PatternGrammar.Pattern.Examples
import PatternGrammar.Proofs.Numbering

/-!
# What a check of examples reports

A check goes through the nodes of a pattern in a fixed order and through the categories of each node. Every
category that is declared is reported if its expression cannot be built, compiled or searched, or if a search
turns out otherwise than expected, and nothing else is. The check passes exactly if it adds no report.
-/

namespace PatternGrammar

/-! ## What is to be reported -/

/-- The report on a category of the node that `self` starts with, if there is to be one. A category that cannot
be checked is reported with all its examples, one that can be with those that are found and should not be, or the
other way round. -/
inductive CategoryReport (plugins : List Plugin) (self : Pattern) (category : ExampleCategory) :
    Option Diagnostic → Prop where
  | undeclared : self.head.options.examples category = none → CategoryReport plugins self category none
  | unproduced {examples : List Text} {e : Error} : self.head.options.examples category = some examples →
      self.head.matcher.source = .error e →
      CategoryReport plugins self category (some (failureReport plugins self [] category examples e))
  | uncompiled {examples : List Text} {source : Text} {fault : Regex.EngineFault} :
      self.head.options.examples category = some examples → self.head.matcher.source = .ok source →
      Regex.compile (category.frame source) = .error fault →
      CategoryReport plugins self category
        (some (failureReport plugins self source category examples (.engine fault)))
  | unsearched {examples before after : List Text} {source e : Text} {regex : Regex.Compiled}
      {fault : Regex.EngineFault} :
      self.head.options.examples category = some examples → self.head.matcher.source = .ok source →
      Regex.compile (category.frame source) = .ok regex → examples = before ++ e :: after →
      (∀ b ∈ before, ∃ found, regex.search b = .ok found) → regex.search e = .error fault →
      CategoryReport plugins self category
        (some (failureReport plugins self source category examples (.engine fault)))
  | asExpected {examples : List Text} {source : Text} {regex : Regex.Compiled} :
      self.head.options.examples category = some examples → self.head.matcher.source = .ok source →
      Regex.compile (category.frame source) = .ok regex →
      (∀ e ∈ examples, regex.search e = .ok category.expectsMatch) → CategoryReport plugins self category none
  | otherwise {examples : List Text} {source : Text} {regex : Regex.Compiled} {found : Text → Bool} :
      self.head.options.examples category = some examples → self.head.matcher.source = .ok source →
      Regex.compile (category.frame source) = .ok regex → (∀ e ∈ examples, regex.search e = .ok (found e)) →
      (∃ e ∈ examples, found e ≠ category.expectsMatch) →
      CategoryReport plugins self category
        (some (offenceReport plugins self source category (examples.filter fun e => found e != category.expectsMatch)))

/-- The reports on the node that `self` starts with: category by category. -/
def OwnReports (plugins : List Plugin) (self : Pattern) (reports : List Diagnostic) : Prop :=
  ∃ found : List (Option Diagnostic),
    List.Forall₂ (CategoryReport plugins self) ExampleCategory.all found ∧ reports = found.reduceOption

mutual
/-- The patterns whose first nodes are checked, in order: the pattern itself, what is nested in its first node,
the rest of the chain, and then what that node includes. -/
def Pattern.tested : Pattern → List Pattern
  | .last node => .last node :: (node.nestedTested ++ node.includedTested)
  | .link node next => .link node next :: (node.nestedTested ++ next.tested ++ node.includedTested)

def Node.nestedTested : Node → List Pattern
  | .mk _ matcher _ _ _ => matcher.tested

def Matcher.tested : Matcher → List Pattern
  | .literal _ => []
  | .fragment _ => []
  | .nested pattern => pattern.tested

def Node.includedTested : Node → List Pattern
  | .mk _ _ includes _ _ =>
      match includes with
      | none => []
      | some list => includesTested list

def includesTested : List Include → List Pattern
  | [] => []
  | entry :: rest => entry.tested ++ includesTested rest

def Include.tested : Include → List Pattern
  | .pattern pattern => pattern.tested
  | .symbol _ => []
  | .text _ => []
end

/-- The reports on these patterns, one after the other. -/
def Reports (plugins : List Plugin) (tested : List Pattern) (reports : List Diagnostic) : Prop :=
  ∃ own : List (List Diagnostic), List.Forall₂ (OwnReports plugins) tested own ∧ reports = own.flatten

variable {plugins : List Plugin} {self : Pattern}

/-! ## One category -/

section
variable {regex : Regex.Compiled} {expected : Bool}

theorem offending_of_found {found : Text → Bool} {examples : List Text}
    (h : ∀ e ∈ examples, regex.search e = .ok (found e)) :
    offending regex expected examples = .ok (examples.filter fun e => found e != expected) := by
  induction examples with
  | nil => rfl
  | cons e rest ih =>
      obtain ⟨he, hr⟩ := List.forall_mem_cons.mp h
      rw [offending, he, ih hr]
      by_cases hf : found e = expected
      · simp [hf, bind, Except.bind, pure, Except.pure]
      · simp [hf, bind, Except.bind, pure, Except.pure]

theorem offending_of_fault {before after : List Text} {e : Text} {fault : Regex.EngineFault}
    (hb : ∀ b ∈ before, ∃ found, regex.search b = .ok found) (he : regex.search e = .error fault) :
    offending regex expected (before ++ e :: after) = .error fault := by
  induction before with
  | nil =>
      rw [List.nil_append, offending, he]
      rfl
  | cons b before ih =>
      obtain ⟨⟨found, hf⟩, hr⟩ := List.forall_mem_cons.mp hb
      rw [List.cons_append, offending, hf, ih hr]
      rfl

/-- All examples can be searched for, or there is a first one that cannot. -/
theorem searched_or_fault (regex : Regex.Compiled) (examples : List Text) :
    (∃ found : Text → Bool, ∀ e ∈ examples, regex.search e = .ok (found e)) ∨
      ∃ before e after fault, examples = before ++ e :: after ∧
        (∀ b ∈ before, ∃ found, regex.search b = .ok found) ∧ regex.search e = .error fault := by
  have hall : (∀ e ∈ examples, ∃ found, regex.search e = .ok found) ∨
      ∃ before e after fault, examples = before ++ e :: after ∧
        (∀ b ∈ before, ∃ found, regex.search b = .ok found) ∧ regex.search e = .error fault := by
    induction examples with
    | nil => exact .inl fun e he => by cases he
    | cons e rest ih =>
        cases hs : regex.search e with
        | error fault => exact .inr ⟨[], e, rest, fault, rfl, fun b hb => (by cases hb), hs⟩
        | ok b =>
            rcases ih with ih | ⟨before, e', after, fault, rfl, hb, he⟩
            · exact .inl (List.forall_mem_cons.mpr ⟨⟨b, hs⟩, ih⟩)
            · exact .inr ⟨e :: before, e', after, fault, rfl, List.forall_mem_cons.mpr ⟨⟨b, hs⟩, hb⟩, he⟩
  refine hall.imp (fun h => ⟨fun e => (regex.search e).toOption.getD false, fun e he => ?_⟩) id
  obtain ⟨b, hb⟩ := h e he
  simp only [hb]
  rfl

end

theorem ExampleCategory.offending_eq {category : ExampleCategory} {source : Text} {regex : Regex.Compiled}
    (hc : Regex.compile (category.frame source) = .ok regex) (examples : List Text) :
    category.offending source examples = PatternGrammar.offending regex category.expectsMatch examples := by
  rw [ExampleCategory.offending, hc]
  rfl

/-- The one test that is run for a category of the node that `self` starts with. -/
def testCategory (plugins : List Plugin) (self : Pattern) (category : ExampleCategory) :
    Except Error (Option Diagnostic) :=
  match self.head.options.examples category with
  | none => .ok none
  | some examples => categoryReport? plugins self self.head.matcher.source category examples

theorem consistent_source (m : Matcher) : Consistent m.source := by
  cases m with
  | nested p => exact p.consistent_evaluate
  | _ => exact .ok _

/-- The test of a category gives what is to be reported. -/
theorem CategoryReport.testCategory_eq {category : ExampleCategory} {r : Option Diagnostic}
    (h : CategoryReport plugins self category r) : testCategory plugins self category = .ok r := by
  unfold testCategory
  cases h with
  | undeclared hn => rw [hn]
  | unproduced hd hs =>
      have hi := consistent_source _ _ hs
      simp only [hd, hs, categoryReport?, hi, Bool.false_eq_true, if_false]
  | uncompiled hd hs hc =>
      simp only [hd, hs, categoryReport?, ExampleCategory.offending, hc]
      rfl
  | unsearched hd hs hc he hb hf =>
      subst he
      simp only [hd, hs, categoryReport?, ExampleCategory.offending_eq hc, offending_of_fault hb hf]
  | @asExpected examples source regex hd hs hc he =>
      have hnone : examples.filter (fun _ => category.expectsMatch != category.expectsMatch) = [] := by simp
      simp only [hd, hs, categoryReport?, ExampleCategory.offending_eq hc, offending_of_found he, hnone]
  | @otherwise examples source regex found hd hs hc hf ho =>
      obtain ⟨e, he, hne⟩ := ho
      have hmem : e ∈ examples.filter fun e => found e != category.expectsMatch :=
        List.mem_filter.mpr ⟨he, bne_iff_ne.mpr hne⟩
      obtain ⟨first, rest, hfilter⟩ := List.exists_cons_of_ne_nil (List.ne_nil_of_mem hmem)
      simp only [hd, hs, categoryReport?, ExampleCategory.offending_eq hc, offending_of_found hf, hfilter]

theorem exists_categoryReport (plugins : List Plugin) (self : Pattern) (category : ExampleCategory) :
    ∃ r, CategoryReport plugins self category r := by
  cases hd : self.head.options.examples category with
  | none => exact ⟨none, .undeclared hd⟩
  | some examples =>
      cases hs : self.head.matcher.source with
      | error e => exact ⟨_, .unproduced hd hs⟩
      | ok source =>
          cases hc : Regex.compile (category.frame source) with
          | error fault => exact ⟨_, .uncompiled hd hs hc⟩
          | ok regex =>
              rcases searched_or_fault regex examples with ⟨found, hf⟩ | ⟨before, e, after, fault, he, hb, hf⟩
              · by_cases hall : ∀ e ∈ examples, found e = category.expectsMatch
                · exact ⟨none, .asExpected hd hs hc fun e he => hall e he ▸ hf e he⟩
                · simp only [not_forall] at hall
                  obtain ⟨e, he, hne⟩ := hall
                  exact ⟨_, .otherwise hd hs hc hf ⟨e, he, hne⟩⟩
              · exact ⟨_, .unsearched hd hs hc he hb hf⟩

theorem rightUnique_categoryReport (plugins : List Plugin) (self : Pattern) :
    Relator.RightUnique (CategoryReport plugins self) := by
  intro category r r' h h'
  have he := h.testCategory_eq
  rw [h'.testCategory_eq] at he
  exact (Except.ok.inj he).symm

/-! ## One node -/

/-- The check with reports added to it. -/
def TestRun.extended (run : TestRun) (own : List Diagnostic) : TestRun :=
  ⟨own.isEmpty && run.passed, run.reports ++ own⟩

theorem TestRun.extended_nil (run : TestRun) : run.extended [] = run := by
  rw [extended, List.append_nil]
  rfl

theorem TestRun.extended_extended (run : TestRun) (a b : List Diagnostic) :
    (run.extended a).extended b = run.extended (a ++ b) := by
  simp only [extended, List.append_assoc]
  congr 1
  cases a <;> cases b <;> rfl

theorem TestRun.with_extended (run : TestRun) (own : List Diagnostic) :
    run.with (TestRun.extended { reports := run.reports } own) = run.extended own := by
  rw [TestRun.with, extended, extended, Bool.and_true]

/-- The step adds these reports, to whatever check. -/
def Adds (step : TestRun → Except Error TestRun) (own : List Diagnostic) : Prop :=
  ∀ run, step run = .ok (run.extended own)

theorem Adds.nil : Adds .ok [] := fun run => congrArg _ run.extended_nil.symm

theorem Adds.bind {step next : TestRun → Except Error TestRun} {a b : List Diagnostic} (h : Adds step a)
    (hn : Adds next b) : Adds (fun run => step run >>= next) (a ++ b) := by
  intro run
  rw [← run.extended_extended]
  exact Except.bind_eq_ok.mpr ⟨_, h run, hn _⟩

theorem adds_testExamples {found : List (Option Diagnostic)} {categories : List ExampleCategory}
    (h : List.Forall₂ (CategoryReport plugins self) categories found) :
    Adds (testExamples plugins self self.head.matcher.source self.head.options categories) found.reduceOption := by
  induction h with
  | nil => exact .nil
  | @cons category r categories found hr _ ih =>
      have ht := hr.testCategory_eq
      intro run
      unfold testCategory at ht
      rw [testExamples]
      cases hd : self.head.options.examples category with
      | none =>
          rw [hd] at ht
          cases ht
          rw [List.reduceOption_cons_of_none]
          exact ih run
      | some examples =>
          rw [hd] at ht
          simp only at ht
          simp only [ht, bind, Except.bind]
          rw [ih]
          cases r with
          | none =>
              rw [List.reduceOption_cons_of_none]
              rfl
          | some d =>
              rw [List.reduceOption_cons_of_some]
              exact congrArg _ (run.extended_extended [d] found.reduceOption)

theorem ownReports_unique {own other : List Diagnostic} (h : OwnReports plugins self own)
    (h' : OwnReports plugins self other) : own = other := by
  obtain ⟨found, hf, rfl⟩ := h
  obtain ⟨found', hf', rfl⟩ := h'
  rw [List.right_unique_forall₂' (rightUnique_categoryReport plugins self) hf hf']

theorem adds_ownExamples (plugins : List Plugin) (self : Pattern) :
    ∃ own, OwnReports plugins self own ∧
      Adds (testExamples plugins self self.head.matcher.source self.head.options ExampleCategory.all) own := by
  have hall (categories : List ExampleCategory) :
      ∃ found, List.Forall₂ (CategoryReport plugins self) categories found := by
    induction categories with
    | nil => exact ⟨[], .nil⟩
    | cons category rest ih =>
        obtain ⟨r, hr⟩ := exists_categoryReport plugins self category
        obtain ⟨found, hf⟩ := ih
        exact ⟨r :: found, .cons hr hf⟩
  obtain ⟨found, hf⟩ := hall ExampleCategory.all
  exact ⟨found.reduceOption, ⟨found, hf, rfl⟩, adds_testExamples hf⟩

/-! ## Trees -/

theorem Reports.nil : Reports plugins [] [] := ⟨[], .nil, rfl⟩

theorem Reports.cons {tested : List Pattern} {own rest : List Diagnostic} (ho : OwnReports plugins self own)
    (h : Reports plugins tested rest) : Reports plugins (self :: tested) (own ++ rest) := by
  obtain ⟨parts, hp, rfl⟩ := h
  exact ⟨own :: parts, .cons ho hp, rfl⟩

theorem Reports.append {tested more : List Pattern} {a b : List Diagnostic} (h : Reports plugins tested a)
    (h' : Reports plugins more b) : Reports plugins (tested ++ more) (a ++ b) := by
  obtain ⟨parts, hp, rfl⟩ := h
  obtain ⟨parts', hp', rfl⟩ := h'
  exact ⟨parts ++ parts', List.rel_append hp hp', List.flatten_append.symm⟩

theorem Reports.unique {tested : List Pattern} {own other : List Diagnostic} (h : Reports plugins tested own)
    (h' : Reports plugins tested other) : own = other := by
  obtain ⟨parts, hp, rfl⟩ := h
  obtain ⟨parts', hp', rfl⟩ := h'
  have hu : Relator.RightUnique (OwnReports plugins) := fun _ _ _ ho ho' => ownReports_unique ho ho'
  rw [List.right_unique_forall₂' hu hp hp']

/-- The check of the pattern adds these reports, which are those on the patterns that are tested in it. -/
structure Pattern.TestsTo (plugins : List Plugin) (p : Pattern) (own : List Diagnostic) : Prop where
  reports : Reports plugins p.tested own
  runTests (reports : List Diagnostic) : p.runTests plugins reports = .ok (TestRun.extended { reports } own)

theorem Pattern.TestsTo.adds {p : Pattern} {own : List Diagnostic} (h : p.TestsTo plugins own) :
    Adds (fun run => do return run.with (← p.runTests plugins run.reports)) own := by
  intro run
  exact Except.bind_eq_ok.mpr ⟨_, h.runTests run.reports, congrArg _ (run.with_extended own)⟩

mutual
theorem Pattern.exists_testsTo (plugins : List Plugin) : (p : Pattern) → ∃ own, p.TestsTo plugins own
  | .last node => by
      obtain ⟨a, ha, hn⟩ := node.exists_runTests plugins (.last node) rfl
      obtain ⟨b, hb, hi⟩ := node.exists_runIncluded plugins
      refine ⟨a ++ b, ha.append hb, fun reports => ?_⟩
      rw [← TestRun.extended_extended]
      exact Except.bind_eq_ok.mpr ⟨_, hn reports, hi _⟩
  | .link node next => by
      obtain ⟨a, ha, hn⟩ := node.exists_runTests plugins (.link node next) rfl
      obtain ⟨b, hb⟩ := next.exists_testsTo plugins
      obtain ⟨c, hc, hi⟩ := node.exists_runIncluded plugins
      refine ⟨a ++ b ++ c, (ha.append hb.reports).append hc, fun reports => ?_⟩
      rw [← TestRun.extended_extended, ← TestRun.extended_extended]
      refine Except.bind_eq_ok.mpr ⟨_, hn reports, Except.bind_eq_ok.mpr ⟨_, hb.runTests _, ?_⟩⟩
      rw [TestRun.with_extended]
      exact hi _

theorem Node.exists_runTests (plugins : List Plugin) (self : Pattern) :
    (n : Node) → self.head = n → ∃ own, Reports plugins (self :: n.nestedTested) own ∧
      ∀ reports, n.runTests plugins self reports = .ok (TestRun.extended { reports } own)
  | .mk kind matcher includes options quantity, hs => by
      obtain ⟨a, ha, ho⟩ := adds_ownExamples plugins self
      obtain ⟨b, hb, hm⟩ := matcher.exists_runTests plugins
      rw [hs] at ho
      refine ⟨a ++ b, .cons ha hb, fun reports => ?_⟩
      exact (Adds.bind ho hm) { reports }

theorem Matcher.exists_runTests (plugins : List Plugin) :
    (m : Matcher) → ∃ own, Reports plugins m.tested own ∧ Adds (fun run => m.runTests plugins run) own
  | .literal _ | .fragment _ => ⟨[], .nil, .nil⟩
  | .nested pattern => by
      obtain ⟨own, h⟩ := pattern.exists_testsTo plugins
      exact ⟨own, h.reports, h.adds⟩

theorem Node.exists_runIncluded (plugins : List Plugin) :
    (n : Node) → ∃ own, Reports plugins n.includedTested own ∧ Adds (fun run => n.runIncluded plugins run) own
  | .mk _ _ none _ _ => ⟨[], .nil, .nil⟩
  | .mk _ _ (some list) _ _ => exists_runIncludes plugins list

theorem exists_runIncludes (plugins : List Plugin) :
    (list : List Include) → ∃ own, Reports plugins (includesTested list) own ∧ Adds (runIncludes plugins list) own
  | [] => ⟨[], .nil, .nil⟩
  | entry :: rest => by
      obtain ⟨a, ha, he⟩ := entry.exists_runTests plugins
      obtain ⟨b, hb, hr⟩ := exists_runIncludes plugins rest
      exact ⟨a ++ b, ha.append hb, he.bind hr⟩

theorem Include.exists_runTests (plugins : List Plugin) :
    (entry : Include) → ∃ own, Reports plugins entry.tested own ∧ Adds (fun run => entry.runTests plugins run) own
  | .pattern pattern => by
      obtain ⟨own, h⟩ := pattern.exists_testsTo plugins
      exact ⟨own, h.reports, h.adds⟩
  | .symbol _ | .text _ => ⟨[], .nil, .nil⟩
end

end PatternGrammar
