import PatternGrammar.Pattern.Transform

/-!
# Changing every tag

A pattern is its tags, in canonical order and with those of included patterns, and what it is besides them. A
change of tags goes to each of them once and leaves the rest, so that changes of tags compose as functions do.
-/

namespace PatternGrammar

/-! ## The tags and the rest -/

mutual
/-- Every tag of a pattern: node by node in canonical order the tag of the node and then those of the patterns
that it includes. -/
def Pattern.tags : Pattern → List Text
  | .last node => node.tags
  | .link node next => node.tags ++ next.tags

def Node.tags : Node → List Text
  | .mk _ matcher includes options _ =>
      options.tagAs.toList ++
        (match includes with
          | none => []
          | some list => tagsOfIncludes list) ++
        matcher.tags

def Matcher.tags : Matcher → List Text
  | .literal _ => []
  | .fragment _ => []
  | .nested pattern => pattern.tags

def tagsOfIncludes : List Include → List Text
  | [] => []
  | entry :: rest => entry.tags ++ tagsOfIncludes rest

def Include.tags : Include → List Text
  | .pattern pattern => pattern.tags
  | .symbol _ => []
  | .text _ => []
end

mutual
/-- The pattern with an empty tag for every tag, those of included patterns too. Everything else about it can
still be seen. -/
def Pattern.blank : Pattern → Pattern
  | .last node => .last node.blank
  | .link node next => .link node.blank next.blank

def Node.blank : Node → Node
  | .mk kind matcher includes options quantity =>
      .mk kind matcher.blank
        (match includes with
          | none => none
          | some list => some (blankIncludes list))
        { options with tagAs := options.tagAs.map fun _ => [] } quantity

def Matcher.blank : Matcher → Matcher
  | .literal text => .literal text
  | .fragment source => .fragment source
  | .nested pattern => .nested pattern.blank

def blankIncludes : List Include → List Include
  | [] => []
  | entry :: rest => entry.blank :: blankIncludes rest

def Include.blank : Include → Include
  | .pattern pattern => .pattern pattern.blank
  | .symbol name => .symbol name
  | .text text => .text text
end

/-! ## What a change of tags does to them -/

mutual
theorem Pattern.tags_transformTagAs (f : Text → Text) : (p : Pattern) → (p.transformTagAs f).tags = p.tags.map f
  | .last node => node.tags_transformTagAs f
  | .link node next => by
      rw [Pattern.transformTagAs, Pattern.tags, node.tags_transformTagAs f, next.tags_transformTagAs f,
        Pattern.tags, List.map_append]

theorem Node.tags_transformTagAs (f : Text → Text) : (n : Node) → (n.transformTagAs f).tags = n.tags.map f
  | .mk kind matcher none options quantity => by
      rw [Node.transformTagAs, Node.tags, Node.tags, matcher.tags_transformTagAs f]
      cases options.tagAs <;> simp
  | .mk kind matcher (some list) options quantity => by
      rw [Node.transformTagAs, Node.tags, Node.tags, matcher.tags_transformTagAs f]
      simp only [tagsOfIncludes_transformTags f list]
      cases options.tagAs <;> simp

theorem Matcher.tags_transformTagAs (f : Text → Text) : (m : Matcher) → (m.transformTagAs f).tags = m.tags.map f
  | .literal _ | .fragment _ => rfl
  | .nested pattern => pattern.tags_transformTagAs f

theorem tagsOfIncludes_transformTags (f : Text → Text) :
    (list : List Include) → tagsOfIncludes (transformTagsOfIncludes f list) = (tagsOfIncludes list).map f
  | [] => rfl
  | entry :: rest => by
      rw [transformTagsOfIncludes, tagsOfIncludes, entry.tags_transformTagAs f, tagsOfIncludes_transformTags f rest,
        tagsOfIncludes, List.map_append]

theorem Include.tags_transformTagAs (f : Text → Text) : (e : Include) → (e.transformTagAs f).tags = e.tags.map f
  | .pattern pattern => pattern.tags_transformTagAs f
  | .symbol _ | .text _ => rfl
end

mutual
theorem Pattern.blank_transformTagAs (f : Text → Text) : (p : Pattern) → (p.transformTagAs f).blank = p.blank
  | .last node => congrArg Pattern.last (node.blank_transformTagAs f)
  | .link node next => by
      rw [Pattern.transformTagAs, Pattern.blank, node.blank_transformTagAs f, next.blank_transformTagAs f,
        Pattern.blank]

theorem Node.blank_transformTagAs (f : Text → Text) : (n : Node) → (n.transformTagAs f).blank = n.blank
  | .mk kind matcher none options quantity => by
      rw [Node.transformTagAs, Node.blank, Node.blank, matcher.blank_transformTagAs f]
      simp only [Option.map_map]
      rfl
  | .mk kind matcher (some list) options quantity => by
      rw [Node.transformTagAs, Node.blank, Node.blank, matcher.blank_transformTagAs f]
      simp only [Option.map_map, blankIncludes_transformTags f list]
      rfl

theorem Matcher.blank_transformTagAs (f : Text → Text) : (m : Matcher) → (m.transformTagAs f).blank = m.blank
  | .literal _ | .fragment _ => rfl
  | .nested pattern => congrArg Matcher.nested (pattern.blank_transformTagAs f)

theorem blankIncludes_transformTags (f : Text → Text) :
    (list : List Include) → blankIncludes (transformTagsOfIncludes f list) = blankIncludes list
  | [] => rfl
  | entry :: rest => by
      rw [transformTagsOfIncludes, blankIncludes, entry.blank_transformTagAs f, blankIncludes_transformTags f rest,
        blankIncludes]

theorem Include.blank_transformTagAs (f : Text → Text) : (e : Include) → (e.transformTagAs f).blank = e.blank
  | .pattern pattern => congrArg Include.pattern (pattern.blank_transformTagAs f)
  | .symbol _ | .text _ => rfl
end

/-! ## The tags and the rest are all there is -/

/-- The own tags of two nodes that have one or none alike, in front of other tags. -/
theorem Options.eq_of_blank {o o' : Options} {s t : List Text}
    (hb : { o with tagAs := o.tagAs.map fun _ => ([] : Text) } = { o' with tagAs := o'.tagAs.map fun _ => [] })
    (ht : o.tagAs.toList ++ s = o'.tagAs.toList ++ t) : o = o' ∧ s = t := by
  cases o with
  | mk tagAs =>
    cases o' with
    | mk tagAs' =>
      simp only [Options.mk.injEq] at hb ht ⊢
      cases tagAs <;> cases tagAs' <;> simp_all

mutual
/-- Two patterns that are the same but for their tags, and have the same tags in front of others, are the same. -/
theorem Pattern.eq_of_blank {s t : List Text} :
    (p q : Pattern) → p.blank = q.blank → p.tags ++ s = q.tags ++ t → p = q ∧ s = t
  | .last n, .last m, hb, ht => by
      obtain ⟨rfl, hs⟩ := n.eq_of_blank m (Pattern.last.inj hb) ht
      exact ⟨rfl, hs⟩
  | .link n p, .link m q, hb, ht => by
      obtain ⟨hn, hp⟩ := Pattern.link.inj hb
      rw [Pattern.tags, Pattern.tags, List.append_assoc, List.append_assoc] at ht
      obtain ⟨rfl, hr⟩ := n.eq_of_blank m hn ht
      obtain ⟨rfl, hs⟩ := p.eq_of_blank q hp hr
      exact ⟨rfl, hs⟩
  | .last _, .link _ _, hb, _ | .link _ _, .last _, hb, _ => by cases hb

theorem Node.eq_of_blank {s t : List Text} :
    (n m : Node) → n.blank = m.blank → n.tags ++ s = m.tags ++ t → n = m ∧ s = t
  | .mk _ matcher none options _, .mk _ matcher' none options' _, hb, ht => by
      rw [Node.blank, Node.blank, Node.mk.injEq] at hb
      obtain ⟨rfl, hm, -, ho, rfl⟩ := hb
      rw [Node.tags, Node.tags, List.append_nil, List.append_nil, List.append_assoc, List.append_assoc] at ht
      obtain ⟨rfl, hr⟩ := Options.eq_of_blank ho ht
      obtain ⟨rfl, hs⟩ := matcher.eq_of_blank matcher' hm hr
      exact ⟨rfl, hs⟩
  | .mk _ matcher (some list) options _, .mk _ matcher' (some list') options' _, hb, ht => by
      rw [Node.blank, Node.blank, Node.mk.injEq] at hb
      obtain ⟨rfl, hm, hi, ho, rfl⟩ := hb
      rw [Node.tags, Node.tags] at ht
      simp only [List.append_assoc] at ht
      obtain ⟨rfl, hl⟩ := Options.eq_of_blank ho ht
      obtain ⟨rfl, hr⟩ := eq_of_blankIncludes list list' (Option.some.inj hi) hl
      obtain ⟨rfl, hs⟩ := matcher.eq_of_blank matcher' hm hr
      exact ⟨rfl, hs⟩
  | .mk _ _ none _ _, .mk _ _ (some _) _ _, hb, _ | .mk _ _ (some _) _ _, .mk _ _ none _ _, hb, _ => by
      rw [Node.blank, Node.blank, Node.mk.injEq] at hb
      cases hb.2.2.1

theorem Matcher.eq_of_blank {s t : List Text} :
    (m m' : Matcher) → m.blank = m'.blank → m.tags ++ s = m'.tags ++ t → m = m' ∧ s = t
  | .literal _, .literal _, hb, ht | .fragment _, .fragment _, hb, ht => ⟨hb, ht⟩
  | .nested p, .nested q, hb, ht => by
      obtain ⟨rfl, hs⟩ := p.eq_of_blank q (Matcher.nested.inj hb) ht
      exact ⟨rfl, hs⟩
  | .literal _, .fragment _, hb, _ | .literal _, .nested _, hb, _
  | .fragment _, .literal _, hb, _ | .fragment _, .nested _, hb, _
  | .nested _, .literal _, hb, _ | .nested _, .fragment _, hb, _ => by cases hb

theorem eq_of_blankIncludes {s t : List Text} :
    (list list' : List Include) → blankIncludes list = blankIncludes list' →
      tagsOfIncludes list ++ s = tagsOfIncludes list' ++ t → list = list' ∧ s = t
  | [], [], _, ht => ⟨rfl, ht⟩
  | e :: rest, e' :: rest', hb, ht => by
      obtain ⟨he, hrest⟩ := List.cons.inj hb
      rw [tagsOfIncludes, tagsOfIncludes, List.append_assoc, List.append_assoc] at ht
      obtain ⟨rfl, hr⟩ := e.eq_of_blank e' he ht
      obtain ⟨rfl, hs⟩ := eq_of_blankIncludes rest rest' hrest hr
      exact ⟨rfl, hs⟩
  | [], _ :: _, hb, _ | _ :: _, [], hb, _ => by cases hb

theorem Include.eq_of_blank {s t : List Text} :
    (e e' : Include) → e.blank = e'.blank → e.tags ++ s = e'.tags ++ t → e = e' ∧ s = t
  | .pattern p, .pattern q, hb, ht => by
      obtain ⟨rfl, hs⟩ := p.eq_of_blank q (Include.pattern.inj hb) ht
      exact ⟨rfl, hs⟩
  | .symbol _, .symbol _, hb, ht | .text _, .text _, hb, ht => ⟨hb, ht⟩
  | .pattern _, .symbol _, hb, _ | .pattern _, .text _, hb, _
  | .symbol _, .pattern _, hb, _ | .symbol _, .text _, hb, _
  | .text _, .pattern _, hb, _ | .text _, .symbol _, hb, _ => by cases hb
end

/-- A pattern is what it is besides its tags, together with them. -/
theorem Pattern.eq_iff {p q : Pattern} : p = q ↔ p.blank = q.blank ∧ p.tags = q.tags := by
  refine ⟨fun h => h ▸ ⟨rfl, rfl⟩, fun ⟨hb, ht⟩ => ?_⟩
  exact (p.eq_of_blank (s := []) (t := []) q hb (congrArg (· ++ []) ht)).1

/-- A change of tags puts the new tag in place of each tag, and nothing else is changed: of all patterns it gives
the one that differs from the old one in its tags only, which are the changed ones in the same order. The change
that leaves every tag as it is gives the same pattern, and two changes one after the other are one change. -/
theorem Pattern.transformTagAs_each_once (p : Pattern) (f : Text → Text) :
    (∀ q, q = p.transformTagAs f ↔ q.blank = p.blank ∧ q.tags = p.tags.map f) ∧
      p.transformTagAs id = p ∧ ∀ g, (p.transformTagAs f).transformTagAs g = p.transformTagAs (g ∘ f) := by
  refine ⟨fun q => ?_, ?_, fun g => ?_⟩
  · rw [Pattern.eq_iff, p.blank_transformTagAs, p.tags_transformTagAs]
  · rw [Pattern.eq_iff, p.blank_transformTagAs, p.tags_transformTagAs, List.map_id]
    exact ⟨rfl, rfl⟩
  · rw [Pattern.eq_iff]
    simp only [Pattern.blank_transformTagAs, Pattern.tags_transformTagAs, List.map_map]
    exact ⟨trivial, trivial⟩

end PatternGrammar
