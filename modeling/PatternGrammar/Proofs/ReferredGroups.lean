import PatternGrammar.Proofs.Enclosure
import PatternGrammar.Proofs.References

/-!
# Referred groups

A reference is written with the number of the last node of its name. That is the number of a group that the
expression has, and the group encloses what the node matches, unless the group is the one that the whole match
takes the place of. Its number is zero then, which is no group for a back-reference.
-/

namespace PatternGrammar

open Ascii

/-! ## The place of a node among those that capture -/

theorem Pattern.nodes_eq_cons (p : Pattern) (i : NodeId) : ∃ rest, p.nodes i = (i, p) :: rest := by
  cases p <;> exact ⟨_, rfl⟩

theorem Pattern.captures_of_liftsOuterGroup {p : Pattern} (h : p.liftsOuterGroup) :
    p.head.captures := by
  cases p with
  | link node next => cases h
  | last node =>
      rw [Pattern.liftsOuterGroup, Bool.and_eq_true] at h
      exact h.1

section
variable {p : Pattern} {name : Text} {x : NodeId × Pattern} {number : Int}

/-- Only the root has nothing before it. -/
theorem Pattern.eq_nil_iff_root {before after : List (NodeId × Pattern)}
    (h : p.nodes {} = before ++ x :: after) : before = [] ↔ x = ({}, p) := by
  obtain ⟨rest, hr⟩ := p.nodes_eq_cons {}
  constructor
  · rintro rfl
    rw [hr] at h
    exact (List.cons.inj h).1.symm
  · rintro rfl
    cases before with
    | nil => rfl
    | cons y before =>
        -- the root would stand at two places
        have hy : y = ({}, p) := by
          rw [hr] at h
          exact (List.cons.inj h).1.symm
        have hn := p.nodup_places {}
        rw [h, hy] at hn
        simp at hn

theorem Pattern.Means.nonneg (h : p.Means name x number) : 0 ≤ number := by
  obtain ⟨before, after, -, -, -, rfl⟩ := h
  unfold Pattern.firstNumber
  split <;> omega

/-- Zero is the number of the group that the whole match takes the place of, and of no other. -/
theorem Pattern.Means.eq_zero_iff (h : p.Means name x number) :
    number = 0 ↔ p.liftsOuterGroup ∧ x = ({}, p) := by
  obtain ⟨before, after, hn, hr, -, rfl⟩ := h
  rw [← Pattern.eq_nil_iff_root hn, Pattern.firstNumber]
  cases hl : p.liftsOuterGroup with
  | false =>
      simp only [Bool.false_eq_true, if_false, false_and, iff_false]
      omega
  | true =>
      cases before with
      | nil => simp
      | cons y before =>
          obtain ⟨rest, hp⟩ := p.nodes_eq_cons {}
          have hy : y = ({}, p) := by
            rw [hp] at hn
            exact (List.cons.inj hn).1.symm
          have hc : y.2.head.captures = true := by
            rw [hy]
            exact Pattern.captures_of_liftsOuterGroup hl
          simp only [if_true, true_and, List.countP_cons, hc, reduceCtorEq, iff_false]
          omega

/-- Any other number counts the nodes whose groups have one of their own. -/
theorem Pattern.Means.counted (h : p.Means name x number) (hz : number ≠ 0) :
    p.counted[number.toNat - 1]? = some x := by
  have hp := h.nonneg
  have hroot := h.eq_zero_iff.not.mp hz
  obtain ⟨before, after, hn, hr, -, rfl⟩ := h
  have hx : x.2.head.captures = true := Node.captures_of_reference hr
  have hc : p.capturing {} = before.filter (·.2.head.captures) ++
      x :: after.filter (·.2.head.captures) := by
    rw [Pattern.capturing, hn, List.filter_append, List.filter_cons_of_pos (a := x) hx]
  have hlength : (before.filter (·.2.head.captures)).length = before.countP (·.2.head.captures) :=
    List.countP_eq_length_filter.symm
  unfold Pattern.counted
  unfold Pattern.firstNumber at hp hz ⊢
  cases hl : p.liftsOuterGroup with
  | false =>
      simp only [Bool.false_eq_true, if_false]
      rw [hc, List.getElem?_append_right (by omega), hlength]
      have hi : (1 + (before.countP (·.2.head.captures) : Int)).toNat - 1 -
          before.countP (·.2.head.captures) = 0 := by omega
      rw [hi]
      rfl
  | true =>
      simp only [hl, if_true, ← List.drop_one, List.getElem?_drop] at hp hz ⊢
      rw [hc, List.getElem?_append_right (by omega), hlength]
      have hi : 1 + ((0 + (before.countP (·.2.head.captures) : Int)).toNat - 1) -
          before.countP (·.2.head.captures) = 0 := by omega
      rw [hi]
      rfl

end

/-! ## Groups of the expression -/

/-- What the capturing parentheses of an expression enclose are the resolved bodies of the nodes counted. -/
theorem Pattern.capturedTexts_eq {p : Pattern} (hp : p.Every (·.matcher.IsTracked)) {t : Text}
    (h : p.evaluate = .ok t) :
    ∃ bodies, capturedTexts t = bodies.map some ∧
      List.Forall₂ (fun x body => resolveReferences p.groups x.2.head.body = .ok body) p.counted
        bodies := by
  have hm : p.Every (·.matcher.MarksPlaces) := hp.imp fun _ h => h.marksPlaces
  have he := h
  rw [p.evaluate_eq hm, fillPieces_eq] at he
  obtain ⟨-, bodies, hb, hencloses⟩ := (EnclosesBodies.composes p.groups).wholePieces p hp false t he
  refine ⟨bodies, ?_, ?_⟩
  · have hc := hencloses.captured []
    rwa [List.append_nil, capturedFrom, List.append_nil] at hc
  · have hnodes : ∀ x ∈ p.counted, x ∈ p.nodes {} := by
      intro x hx
      have hs : p.counted ⊆ p.capturing {} := by
        unfold Pattern.counted
        split
        · exact (List.tail_sublist _).subset
        · exact List.Subset.refl _
      exact List.mem_of_mem_filter (hs hx)
    rw [List.forall₂_iff_get] at hb ⊢
    refine ⟨hb.1, fun n hn hn' => ?_⟩
    exact (Pattern.isBody_iff hm (hnodes _ (List.get_mem _ _)) _ _).mp (hb.2 n hn hn')

/-- The number belongs to a group of the expression, which encloses the resolved body of the node. -/
def NumbersGroup (groups : List Group) (expression : Text) (x : NodeId × Pattern) (number : Int) : Prop :=
  1 ≤ number ∧ number ≤ (capturedTexts expression).length ∧
    ∃ body, resolveReferences groups x.2.head.body = .ok body ∧
      (capturedTexts expression)[number.toNat - 1]? = some (some body)

theorem Pattern.Means.numbersGroup {p : Pattern} (hp : p.Every (·.matcher.IsTracked)) {t : Text}
    (ht : p.evaluate = .ok t) {name : Text} {x : NodeId × Pattern} {number : Int}
    (h : p.Means name x number) (hz : number ≠ 0) : NumbersGroup p.groups t x number := by
  obtain ⟨bodies, hc, hb⟩ := Pattern.capturedTexts_eq hp ht
  obtain ⟨body, hn, hbody⟩ := exists_getElem?_of_forall₂ hb (h.counted hz)
  have hnonneg := h.nonneg
  have hlt := (List.getElem?_eq_some_iff.mp hn).1
  refine ⟨by omega, ?_, body, hbody, ?_⟩
  · rw [hc, List.length_map]
    omega
  · rw [hc, List.getElem?_map, hn, Option.map_some]

/-- When every raw fragment is closed and has no group of its own, every reference of the tree is written with
the number of the last node of its name. The number belongs to a group of the expression, which encloses the
resolved body of that node, unless the node is the root and the whole match takes the place of its group;
exactly then the number is zero. -/
theorem Pattern.references_name_groups (p : Pattern) (hp : p.Every (·.matcher.IsTracked)) {t : Text}
    (h : p.evaluate = .ok t) :
    ∃ number : Text → Int, t = written number p.wholePieces ∧
      referencesIn p.wholePieces = p.references ∧
      ∀ r ∈ p.references, ∃ x, p.Means r.2 x (number r.2) ∧
        (number r.2 = 0 ↔ p.liftsOuterGroup ∧ x = ({}, p)) ∧
        (number r.2 ≠ 0 → NumbersGroup p.groups t x (number r.2)) := by
  have hm : p.Every (·.matcher.MarksPlaces) := hp.imp fun _ h => h.marksPlaces
  obtain ⟨number, hn, ht⟩ := (Pattern.evaluate_eq_ok hm).mp h
  refine ⟨number, ht, p.referencesIn_wholePieces hm, fun r hr => ?_⟩
  obtain ⟨x, hx⟩ := hn r hr
  exact ⟨x, hx, hx.eq_zero_iff, hx.numbersGroup hp h⟩

/-- A reference within the group that it refers to, in a group that is called from within. -/
def calledWithin : Pattern :=
  .last (.mk .plain
    (.nested (.link
      (.mk .plain
        (.nested (.link (.mk .plain (.fragment "[(a]") none {} {})
          (.last (.mk .backReference (.fragment (placeholder .backReference "x")) none {} ⟨some 0, none⟩))))
        none { reference := some "x" } {})
      (.last (.mk .subroutine (.fragment (placeholder .subroutine "whole")) none {} ⟨some 0, some 1⟩))))
    none { reference := some "whole" } {})

theorem calledWithin_references :
    calledWithin.Every (·.matcher.IsTracked) ∧ calledWithin.evaluate = .ok "([(a]\\1*)\\g<0>?" ∧
      ∃ number : Text → Int, number "x" = 1 ∧ number "whole" = 0 ∧
        ∃ x, NumbersGroup calledWithin.groups "([(a]\\1*)\\g<0>?" x (number "x") := by
  have hx : IsPlaceName "x" := by decide
  have hwhole : IsPlaceName "whole" := by decide
  have hclosed : IsClosedFragment "[(a]" := by decide
  have hp : calledWithin.Every (·.matcher.IsTracked) :=
    ⟨trivial, ⟨trivial, ⟨.inl hclosed, trivial⟩, .inr ⟨.backReference, "x", hx, rfl⟩, trivial⟩,
      .inr ⟨.subroutine, "whole", hwhole, rfl⟩, trivial⟩
  have he : calledWithin.evaluate = .ok "([(a]\\1*)\\g<0>?" := rfl
  have hr : calledWithin.references =
      ([(.backReference, "x"), (.subroutine, "whole")] : List (ReferenceKind × Text)) := rfl
  obtain ⟨number, -, -, h⟩ := calledWithin.references_name_groups hp he
  obtain ⟨x, hmeans, -, hgroup⟩ := h (.backReference, "x") (by simp [hr])
  obtain ⟨y, hwhole, -, -⟩ := h (.subroutine, "whole") (by simp [hr])
  have hnx : numberOf? calledWithin.groups "x" = some 1 := rfl
  have hny : numberOf? calledWithin.groups "whole" = some 0 := rfl
  have hone : number "x" = 1 := Option.some.inj (hmeans.numberOf?_eq.symm.trans hnx)
  have hzero : number "whole" = 0 := Option.some.inj (hwhole.numberOf?_eq.symm.trans hny)
  exact ⟨hp, he, number, hone, hzero, x, hgroup (by rw [hone]; decide)⟩

/-- A back-reference within the group that the whole match takes the place of. -/
def repeatedWhole : Pattern :=
  .last (.mk .plain
    (.nested (.link (.mk .plain (.literal "a") none {} {})
      (.last (.mk .backReference (.fragment (placeholder .backReference "x")) none {} {}))))
    none { reference := some "x" } {})

/-- The expression has no group: in it the back-reference stands for a null byte, and not for what the whole
match has matched. -/
theorem repeatedWhole_backReference :
    repeatedWhole.references = ([(.backReference, "x")] : List (ReferenceKind × Text)) ∧
      repeatedWhole.evaluate = .ok "a\\0" ∧ (capturedTexts "a\\0").length = 0 ∧
      ∃ c, repeatedWhole.toRegex = .ok c ∧ c.captureCount = 0 ∧ (c.search [97, 0]).toOption = some true := by
  have hfound : (match repeatedWhole.toRegex with
      | .ok c => (c.captureCount, (c.search [97, 0]).toOption)
      | .error _ => (1, none)) = (0, some true) := by
    decide +kernel
  refine ⟨rfl, rfl, rfl, ?_⟩
  cases hc : repeatedWhole.toRegex with
  | error e => simp [hc] at hfound
  | ok c => exact ⟨c, rfl, by simpa [hc] using hfound⟩

end PatternGrammar
