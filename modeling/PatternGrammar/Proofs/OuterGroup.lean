import PatternGrammar.Pattern.Construction
import PatternGrammar.Proofs.Decimal
import PatternGrammar.Proofs.References
import PatternGrammar.Proofs.RuleCaptures
import PatternGrammar.Proofs.Tags

/-!
# The group that the whole match replaces

A pattern of one capturing node has no group of its own in its expression: the whole match takes its place,
and the groups inside are numbered one lower than they would be elsewhere. Within a node that says nothing of
its own the group is written. This module says that the two differ in nothing but the numbers: in the table of
groups, in the expression, and in the captures of the rule.
-/

namespace PatternGrammar

open Ascii

/-- The pattern in a node without attributes. -/
def Pattern.wrapped (p : Pattern) : Pattern := .last (.mk .plain (.nested p) none {} {})

theorem Pattern.create_wrapped (p : Pattern) :
    Pattern.create .plain (.nested p) {} = .ok p.wrapped := rfl

theorem Pattern.liftsOuterGroup_wrapped (p : Pattern) : p.wrapped.liftsOuterGroup = false := rfl

theorem Pattern.every_wrapped {P : Node → Prop} {p : Pattern} (h : p.Every P)
    (hw : P (.mk .plain (.nested p) none {} {})) : p.wrapped.Every P :=
  ⟨hw, h⟩

/-! ## The table of groups -/

/-- The node of this place in a tree that stands at the end of the way `outer` in another. -/
def NodeId.under (outer : List Step) (i : NodeId) : NodeId := { i with path := i.path ++ outer }

/-- The group in a tree that stands within another, where `lower` groups more come before it. -/
def Group.moved (outer : List Step) (lower : Int) (g : Group) : Group :=
  { g with number := g.number + lower, owner := g.owner.under outer }

section
variable (outer : List Step) (lower : Int)

theorem Node.ownGroups_moved (i : NodeId) (start : Int) (n : Node) :
    n.ownGroups (start + lower) (i.under outer) =
      (n.ownGroups start i).map (Group.moved outer lower) := by
  unfold Node.ownGroups
  cases n.captures <;> rfl

mutual
/-- Wherever a tree stands, its groups are the same ones under other numbers. -/
theorem Pattern.groupsFrom_moved (i : NodeId) (start : Int) :
    (p : Pattern) → p.groupsFrom (i.under outer) (start + lower) =
      (p.groupsFrom i start).map (Group.moved outer lower)
  | .last node => node.groupsFrom_moved i start
  | .link node next => by
      have hn := node.groupsFrom_moved i start
      have hl := next.groupsFrom_moved i.next (start + (node.groupsFrom i start).length)
      rw [Pattern.groupsFrom, Pattern.groupsFrom, List.map_append, hn, List.length_map,
        Int.add_right_comm, ← hl]
      rfl

theorem Node.groupsFrom_moved (i : NodeId) (start : Int) :
    (n : Node) → n.groupsFrom (i.under outer) (start + lower) =
      (n.groupsFrom i start).map (Group.moved outer lower)
  | .mk kind matcher includes options quantity => by
      have ho := (Node.mk kind matcher includes options quantity).ownGroups_moved outer lower i start
      have hm := matcher.groupsFrom_moved i.nested
        (start + ((Node.mk kind matcher includes options quantity).ownGroups start i).length)
      rw [Node.groupsFrom, Node.groupsFrom, List.map_append, ho, List.length_map,
        Int.add_right_comm, ← hm]
      rfl

theorem Matcher.groupsFrom_moved (i : NodeId) (start : Int) :
    (m : Matcher) → m.groupsFrom (i.under outer) (start + lower) =
      (m.groupsFrom i start).map (Group.moved outer lower)
  | .literal _ => rfl
  | .fragment _ => rfl
  | .nested pattern => pattern.groupsFrom_moved i start
end

theorem numberOf?_moved (groups : List Group) (name : Text) :
    numberOf? (groups.map (Group.moved outer lower)) name =
      (numberOf? groups name).map (· + lower) := by
  rw [numberOf?, numberOf?, ← List.map_reverse, List.find?_map, Option.map_map, Option.map_map]
  rfl

end

theorem Pattern.groups_wrapped {p : Pattern} (h : p.liftsOuterGroup) :
    p.wrapped.groups = p.groups.map (Group.moved [.nested] 1) := by
  have hm := p.groupsFrom_moved [.nested] 1 {} 0
  have hp : p.groups = p.groupsFrom {} 0 := by
    rw [Pattern.groups, Pattern.firstNumber, if_pos h]
  rw [hp, ← hm]
  rfl

/-! ## The expression -/

theorem piecesText_head?_append_keep {t : Text} (h : t.head?.any Text.isDigit = false)
    (pieces : List RegexPiece) :
    (piecesText (pieces ++ keep t)).head?.any Text.isDigit =
      (piecesText pieces).head?.any Text.isDigit := by
  rw [piecesText_append, piecesText_keep]
  cases piecesText pieces with
  | nil => exact h
  | cons b rest => rfl

theorem written_keep_append (number : Text → Int) (t : Text) (pieces : List RegexPiece) :
    written number (keep t ++ pieces) = t ++ written number pieces := by
  induction t with
  | nil => rfl
  | cons b t ih => rw [keep_cons, List.cons_append, written, ih, List.cons_append]

theorem written_append_keep (number : Text → Int) {t : Text} (h : t.head?.any Text.isDigit = false)
    (pieces : List RegexPiece) : written number (pieces ++ keep t) = written number pieces ++ t := by
  induction pieces with
  | nil =>
      have hk := written_keep_append number t []
      rw [List.append_nil] at hk
      rw [List.nil_append, hk]
      simp [written]
  | cons piece rest ih =>
      cases piece with
      | byte b => rw [List.cons_append, written, ih, written, List.cons_append]
      | place kind name =>
          have hd := piecesText_head?_append_keep h rest
          cases kind <;> rw [List.cons_append, written, written, ih] <;> simp only [hd, List.append_assoc]

/-- What is written in a group does not depend on the group. -/
theorem written_groupPieces (number : Text → Int) (body : List RegexPiece) :
    written number (groupPieces "(" body) = "(" ++ written number body ++ ")" := by
  rw [groupPieces, written_append_keep number rfl, written_keep_append]

theorem Node.pieces_eq (n : Node) : n.pieces = n.around n.matcher.pieces := by
  cases n
  rfl

/-- The group that the whole match replaces is all that the expression of the wrapped pattern has more. -/
theorem Pattern.wholePieces_wrapped {p : Pattern} (h : p.liftsOuterGroup) :
    p.wrapped.wholePieces = groupPieces "(" p.wholePieces := by
  have hw : p.wrapped.wholePieces = p.pieces := by
    rw [Pattern.wholePieces, p.liftsOuterGroup_wrapped]
    rfl
  rw [hw, Pattern.wholePieces, if_pos h]
  cases p with
  | link node next => cases h
  | last node =>
      simp only [Pattern.liftsOuterGroup, Bool.and_eq_true, Bool.not_eq_true', Kind.isLookAround,
        Option.isSome_eq_false_iff, Option.isNone_iff_eq_none] at h
      obtain ⟨hc, hk⟩ := h
      rw [Pattern.pieces, node.pieces_eq, Node.around, hk]
      simp only [hc, if_true]
      rfl

/-- Evaluation of the two fails alike, or both write the same pieces, with numbers one apart. -/
theorem Pattern.evaluate_wrapped {p : Pattern} (h : p.liftsOuterGroup)
    (hp : p.Every (·.matcher.MarksPlaces)) :
    (∃ e, p.evaluate = .error e ∧ p.wrapped.evaluate = .error e) ∨
      ∃ number : Text → Int, (∀ r ∈ p.references, ∃ x, p.Means r.2 x (number r.2)) ∧
        p.evaluate = .ok (written number p.wholePieces) ∧
        p.wrapped.evaluate =
          .ok ("(" ++ written (fun name => number name + 1) p.wholePieces ++ ")") := by
  have hw : p.wrapped.evaluate =
      fillPieces (p.groups.map (Group.moved [.nested] 1)) (groupPieces "(" p.wholePieces) := by
    rw [p.wrapped.evaluate_eq (Pattern.every_wrapped hp trivial), Pattern.groups_wrapped h,
      Pattern.wholePieces_wrapped h]
  have hnone (name : Text) :
      (numberOf? (p.groups.map (Group.moved [.nested] 1)) name).isNone =
        (numberOf? p.groups name).isNone := by
    rw [numberOf?_moved, Option.isNone_map]
  rw [hw, fillPieces_eq_written, referencesIn_groupPieces, p.referencesIn_wholePieces hp,
    p.evaluate_eq_written hp]
  simp only [hnone]
  cases hf : p.references.find? fun r => (numberOf? p.groups r.2).isNone with
  | some r => exact .inl ⟨_, rfl, rfl⟩
  | none =>
      have hnamed := Pattern.hasNamed_of_find?_eq_none hf
      have hnumber : ∀ r ∈ referencesIn p.wholePieces,
          numberIn (p.groups.map (Group.moved [.nested] 1)) r.2 = numberIn p.groups r.2 + 1 := by
        intro r hr
        rw [p.referencesIn_wholePieces hp] at hr
        obtain ⟨x, number, hx⟩ := (hnamed r hr).means
        rw [numberIn, numberIn, numberOf?_moved, hx.numberOf?_eq]
        rfl
      refine .inr ⟨numberIn p.groups, fun r hr => (hnamed r hr).means_numberIn, rfl, ?_⟩
      have hwritten :
          written (numberIn (p.groups.map (Group.moved [.nested] 1))) p.wholePieces =
            written (fun name => numberIn p.groups name + 1) p.wholePieces :=
        written_congr hnumber
      rw [written_groupPieces, hwritten]

/-! ## Captures -/

/-- Captures by number as captures by key. -/
def keyed (entries : List (Nat × Capture)) : List (Text × Capture) :=
  entries.map fun x => (Text.ofNat x.1, x.2)

/-- The captures, each under the next number. -/
def renumbered (captures : Dictionary Capture) : Dictionary Capture :=
  Dictionary.ofList (captures.map fun x => (Text.ofNat (Text.decimalValue x.1 + 1), x.2))

/-- The captures with the name of the rule as that of group zero. -/
def nameGivenBack (name : Option Text) (captures : Dictionary Capture) : Dictionary Capture :=
  match name with
  | none => captures
  | some _ =>
      let patterns := (Dictionary.get? "0" captures).elim [] Capture.patterns
      Dictionary.insert "0" (.mk name patterns) captures

/-- What the groups of a table declare, if no tag among them asks for a number. -/
def declarations (table : List Group) : Except Error (List Capture) :=
  table.mapM fun g => g.references.map (.mk g.tagAs)

theorem declarations_moved (outer : List Step) (lower : Int) (table : List Group) :
    declarations (table.map (Group.moved outer lower)) = declarations table := by
  rw [declarations, List.mapM_map]
  rfl

theorem declarations_cons (g : Group) (table : List Group) :
    declarations (g :: table) = (do
      let patterns ← g.references
      let rest ← declarations table
      return .mk g.tagAs patterns :: rest) := by
  rw [declarations, List.mapM_cons]
  cases g.references <;> rfl

theorem length_of_declarations {table : List Group} {own : List Capture}
    (h : declarations table = .ok own) : own.length = table.length := by
  induction table generalizing own with
  | nil =>
      cases h
      rfl
  | cons g table ih =>
      rw [declarations_cons, Except.bind_eq_ok] at h
      obtain ⟨patterns, -, h⟩ := h
      rw [Except.bind_eq_ok] at h
      obtain ⟨rest, hr, h⟩ := h
      cases h
      rw [List.length_cons, List.length_cons, ih hr]

/-- A tag that asks for no number is the same under every number. -/
theorem Group.toCapture_eq {g : Group} (h : ∀ tag, g.tagAs = some tag → ¬ AsksForNumber tag)
    (groups : List Group) (patterns : Except Error (List RuleReference)) :
    g.toCapture groups patterns = patterns.map (.mk g.tagAs) := by
  unfold Group.toCapture
  cases ht : g.tagAs with
  | none => cases patterns <;> rfl
  | some tag =>
      have hr := resolveTag_eq (h tag ht) groups g.number
      simp only [hr]
      cases patterns <;> rfl

theorem capturesWith_eq {groups table : List Group}
    (h : ∀ g ∈ table, ∀ tag, g.tagAs = some tag → ¬ AsksForNumber tag) :
    capturesWith groups (table.map fun g => (g, g.references)) [] =
      (declarations table).map fun own =>
        Dictionary.ofList ((table.map fun g => Text.ofInt g.number).zip own) := by
  have hfrom (captures : Dictionary Capture) :
      capturesWith groups (table.map fun g => (g, g.references)) captures =
        (declarations table).map fun own =>
          ((table.map fun g => Text.ofInt g.number).zip own).foldl
            (fun d x => Dictionary.insert x.1 x.2 d) captures := by
    induction table generalizing captures with
    | nil => rfl
    | cons g table ih =>
        obtain ⟨hg, ht⟩ := List.forall_mem_cons.mp h
        rw [List.map_cons, capturesWith, Group.toCapture_eq hg, declarations_cons]
        cases g.references with
        | error e => rfl
        | ok patterns =>
            have hrest := ih ht (Dictionary.insert (Text.ofInt g.number) (.mk g.tagAs patterns) captures)
            change capturesWith groups _ _ = _
            rw [hrest]
            cases declarations table <;> rfl
  exact hfrom []

/-- Lifting the name of group zero out of the captures can be undone, and nothing else is left out. -/
theorem nameGivenBack_filter {found : Dictionary Capture} (h : found.Sorted) :
    nameGivenBack ((Dictionary.get? "0" found).bind (·.name))
        ((match Dictionary.get? "0" found with
          | some capture => Dictionary.insert "0" (Capture.mk none capture.patterns) found
          | none => found).filter fun (_, capture) => !capture.isEmpty) =
      found.filter fun (_, capture) => !capture.isEmpty := by
  cases hz : Dictionary.get? "0" found with
  | none => rfl
  | some capture =>
      obtain ⟨name, patterns⟩ := capture
      have hl : (Dictionary.insert "0" (Capture.mk none patterns) found).Sorted := h.insert
      cases name with
      | none =>
          -- group zero has no name, so putting it back changes nothing
          refine congrArg (List.filter _) (hl.eq_of_get? h fun key => ?_)
          rw [Dictionary.get?_insert]
          by_cases hk : key = "0"
          · rw [if_pos hk, hk, hz]
          · rw [if_neg hk]
      | some name =>
          refine (hl.filter _).insert.eq_of_get? (h.filter _) fun key => ?_
          have hf := hl.get?_filter fun (_, capture) => !capture.isEmpty
          have hzero := hf "0"
          rw [Dictionary.get?_insert] at hzero
          rw [Dictionary.get?_insert, h.get?_filter]
          by_cases hk : key = "0"
          · rw [if_pos hk, hk, hz]
            simp only [Option.bind_some, Capture.name, Capture.patterns, hzero, if_true]
            cases patterns <;> rfl
          · rw [if_neg hk, hf key, Dictionary.get?_insert, if_neg hk]

theorem Text.ofNat_injective : Function.Injective Text.ofNat :=
  Function.LeftInverse.injective Text.decimalValue_ofNat

theorem mem_keyed {entries : List (Nat × Capture)} {x : Text × Capture} :
    x ∈ keyed entries ↔ ∃ n, (n, x.2) ∈ entries ∧ x.1 = Text.ofNat n := by
  simp only [keyed, List.mem_map]
  constructor
  · intro h
    obtain ⟨y, hy, rfl⟩ := h
    exact ⟨y.1, hy, rfl⟩
  · intro h
    obtain ⟨n, hn, hx⟩ := h
    exact ⟨(n, x.2), hn, Prod.ext hx.symm rfl⟩

theorem nodup_keyed {entries : List (Nat × Capture)} (h : (entries.map (·.1)).Nodup) :
    ((keyed entries).map (·.1)).Nodup := by
  have hm : (keyed entries).map (·.1) = (entries.map (·.1)).map Text.ofNat := by
    simp [keyed]
  rw [hm]
  exact h.map Text.ofNat_injective

theorem mem_renumbered {captures : Dictionary Capture} (h : captures.Sorted)
    (hn : ∀ x ∈ captures, ∃ n, x.1 = Text.ofNat n) {x : Text × Capture} :
    x ∈ renumbered captures ↔ ∃ n, (Text.ofNat n, x.2) ∈ captures ∧ x.1 = Text.ofNat (n + 1) := by
  have hnodup : ((captures.map fun x =>
      (Text.ofNat (Text.decimalValue x.1 + 1), x.2)).map (·.1)).Nodup := by
    have hm : (captures.map fun x => (Text.ofNat (Text.decimalValue x.1 + 1), x.2)).map (·.1) =
        (captures.map (·.1)).map fun key => Text.ofNat (Text.decimalValue key + 1) := by
      simp
    rw [hm]
    refine List.Nodup.map_on ?_ h.nodup_keys
    intro a ha b hb hab
    obtain ⟨y, hy, rfl⟩ := List.mem_map.mp ha
    obtain ⟨z, hz, rfl⟩ := List.mem_map.mp hb
    obtain ⟨n, hy⟩ := hn y hy
    obtain ⟨m, hz⟩ := hn z hz
    rw [hy, hz, Text.decimalValue_ofNat, Text.decimalValue_ofNat] at hab
    rw [hy, hz, Nat.add_right_cancel (Text.ofNat_injective hab)]
  rw [renumbered, Dictionary.mem_ofList hnodup, List.mem_map]
  constructor
  · intro hx
    obtain ⟨y, hy, rfl⟩ := hx
    obtain ⟨n, hk⟩ := hn y hy
    refine ⟨n, ?_, ?_⟩
    · rw [← hk]
      exact hy
    · rw [hk, Text.decimalValue_ofNat]
  · intro hx
    obtain ⟨n, hy, hk⟩ := hx
    refine ⟨_, hy, Prod.ext ?_ rfl⟩
    rw [hk, Text.decimalValue_ofNat]

/-- Leaving captures out goes along with renumbering. -/
theorem filter_keyed_succ {entries : List (Nat × Capture)} (h : (entries.map (·.1)).Nodup)
    (stays : Capture → Bool) :
    (Dictionary.ofList (keyed (entries.map fun x => (x.1 + 1, x.2)))).filter
        (fun x => stays x.2) =
      renumbered ((Dictionary.ofList (keyed entries)).filter fun x => stays x.2) := by
  have hsucc : ((entries.map fun x => (x.1 + 1, x.2)).map (·.1)).Nodup := by
    have hm : (entries.map fun x => (x.1 + 1, x.2)).map (·.1) =
        (entries.map (·.1)).map (· + 1) := by
      simp
    rw [hm]
    exact h.map fun a b => Nat.add_right_cancel
  have hmem (x : Text × Capture) :
      x ∈ (Dictionary.ofList (keyed entries)).filter (fun x => stays x.2) ↔
        (∃ n, (n, x.2) ∈ entries ∧ x.1 = Text.ofNat n) ∧ stays x.2 := by
    rw [List.mem_filter, Dictionary.mem_ofList (nodup_keyed h), mem_keyed]
  have hsorted := (Dictionary.sorted_ofList (keyed entries)).filter fun x => stays x.2
  refine ((Dictionary.sorted_ofList _).filter _).eq_of_mem_iff (Dictionary.sorted_ofList _) ?_
  intro x
  rw [List.mem_filter, Dictionary.mem_ofList (nodup_keyed hsucc), mem_keyed, mem_renumbered hsorted]
  · simp only [hmem, List.mem_map]
    constructor
    · intro hx
      obtain ⟨⟨n, ⟨y, hy, hn⟩, hk⟩, hst⟩ := hx
      obtain ⟨rfl, hc⟩ := Prod.mk.inj hn
      rw [← hc] at hst ⊢
      exact ⟨y.1, ⟨⟨y.1, hy, rfl⟩, hst⟩, hk⟩
    · intro hx
      obtain ⟨n, ⟨⟨m, hm, hk⟩, hst⟩, hx⟩ := hx
      cases Text.ofNat_injective hk
      exact ⟨⟨n + 1, ⟨_, hm, rfl⟩, hx⟩, hst⟩
  · intro y hy
    obtain ⟨⟨n, -, hk⟩, -⟩ := (hmem y).mp hy
    exact ⟨n, hk⟩

theorem Pattern.keys_groups (p : Pattern) :
    (p.groups.map fun g => Text.ofInt g.number) =
      (List.range p.groups.length).map fun k : Nat => Text.ofInt (p.firstNumber + k) := by
  rw [Pattern.groups, p.groupsFrom_eq]
  apply List.ext_getElem
  · simp
  · intro k _ _
    simp [Node.group]

theorem Pattern.keys_of_liftsOuterGroup {p : Pattern} (h : p.liftsOuterGroup) (own : List Capture) :
    (p.groups.map fun g => Text.ofInt g.number).zip own =
        keyed ((List.range p.groups.length).zip own) ∧
      (p.wrapped.groups.map fun g => Text.ofInt g.number).zip own =
        keyed (((List.range p.groups.length).zip own).map fun x => (x.1 + 1, x.2)) := by
  have hp : p.firstNumber = 0 := if_pos h
  have hw : p.wrapped.firstNumber = 1 := rfl
  have hl : p.wrapped.groups.length = p.groups.length := by
    rw [Pattern.groups_wrapped h, List.length_map]
  rw [p.keys_groups, p.wrapped.keys_groups, hp, hw, hl, List.zip_map_left, List.zip_map_left]
  constructor
  · refine List.map_congr_left fun x _ => ?_
    simp [Prod.map, Text.ofInt]
  · rw [keyed, List.map_map]
    refine List.map_congr_left fun x _ => ?_
    rw [Prod.map, Int.add_comm]
    rfl

theorem Pattern.toRule_wrapped {p : Pattern} (h : p.liftsOuterGroup)
    (hp : p.Every (·.matcher.MarksPlaces))
    (ht : ∀ g ∈ p.groups, ∀ tag, g.tagAs = some tag → ¬ AsksForNumber tag) :
    (∃ e, p.toRule = .error e ∧ p.wrapped.toRule = .error e) ∨
      ∃ t u captures name, p.evaluate = .ok t ∧ p.wrapped.evaluate = .ok u ∧
        p.toRule = .ok (.mk t captures name) ∧
        p.wrapped.toRule = .ok (.mk u (renumbered (nameGivenBack name captures)) none) := by
  have hwt : ∀ g ∈ p.wrapped.groups, ∀ tag, g.tagAs = some tag → ¬ AsksForNumber tag := by
    intro g hg
    rw [Pattern.groups_wrapped h] at hg
    obtain ⟨original, ho, rfl⟩ := List.mem_map.mp hg
    exact ht original ho
  have hdeclared : declarations p.wrapped.groups = declarations p.groups := by
    rw [Pattern.groups_wrapped h, declarations_moved]
  simp only [Pattern.toRule, Pattern.ruleWith, Pattern.zip_includeReferences, capturesWith_eq ht,
    capturesWith_eq hwt, hdeclared, h, p.liftsOuterGroup_wrapped, if_true, Bool.false_eq_true,
    if_false]
  rcases Pattern.evaluate_wrapped h hp with he | he
  · obtain ⟨e, he, hw⟩ := he
    rw [he, hw]
    exact .inl ⟨e, rfl, rfl⟩
  · obtain ⟨number, -, he, hw⟩ := he
    rw [he, hw]
    cases hd : declarations p.groups with
    | error e => exact .inl ⟨e, rfl, rfl⟩
    | ok own =>
        obtain ⟨hk, hkw⟩ := Pattern.keys_of_liftsOuterGroup h own
        have hn : (((List.range p.groups.length).zip own).map (·.1)).Nodup := by
          rw [List.map_fst_zip (by rw [List.length_range, length_of_declarations hd])]
          exact List.nodup_range
        have hsucc := filter_keyed_succ hn fun capture => !capture.isEmpty
        have hback := nameGivenBack_filter
          (Dictionary.sorted_ofList (keyed ((List.range p.groups.length).zip own)))
        simp only [Except.map, bind, Except.bind, pure, Except.pure, hk, hkw, Option.bind_none]
        have hcaptures := hsucc.trans (congrArg renumbered hback.symm)
        refine .inr ⟨_, _, _, _, rfl, rfl, rfl, ?_⟩
        exact congrArg (fun captures => Except.ok (Rule.mk _ captures none)) hcaptures

/-- Within a node without attributes a pattern whose group the whole match replaces differs in nothing but
the numbers. Its groups are the same ones, each under the next number; evaluation fails alike, or the text is
that of the pattern in a group, with the next number for every reference; and if no tag asks for a number, the
rule fails alike, or its captures are those of the pattern's rule under the next numbers, with the name of that
rule given back to the group. -/
theorem Pattern.wrapping_renumbers (p : Pattern) (h : p.liftsOuterGroup)
    (hp : p.Every (·.matcher.MarksPlaces)) :
    ∃ w, Pattern.create .plain (.nested p) {} = .ok w ∧
      w.groups = p.groups.map (Group.moved [.nested] 1) ∧
      ((∃ e, p.evaluate = .error e ∧ w.evaluate = .error e) ∨
        ∃ number : Text → Int, (∀ r ∈ p.references, ∃ x, p.Means r.2 x (number r.2)) ∧
          p.evaluate = .ok (written number p.wholePieces) ∧
          w.evaluate = .ok ("(" ++ written (fun name => number name + 1) p.wholePieces ++ ")")) ∧
      ((∀ x ∈ p.nodes {}, ∀ tag, x.2.head.options.tagAs = some tag → ¬ AsksForNumber tag) →
        (∃ e, p.toRule = .error e ∧ w.toRule = .error e) ∨
          ∃ t u captures name, p.evaluate = .ok t ∧ w.evaluate = .ok u ∧
            p.toRule = .ok (.mk t captures name) ∧
            w.toRule = .ok (.mk u (renumbered (nameGivenBack name captures)) none)) := by
  refine ⟨p.wrapped, p.create_wrapped, Pattern.groups_wrapped h, Pattern.evaluate_wrapped h hp, ?_⟩
  intro ht
  apply Pattern.toRule_wrapped h hp
  intro g hg
  rw [Pattern.groups, p.groupsFrom_eq] at hg
  obtain ⟨k, hk, rfl⟩ := List.mem_mapIdx.mp hg
  exact ht _ (List.mem_of_mem_filter (List.getElem_mem hk))

/-- A node with a tag around a node with a tag and a name, and a reference to it. -/
def taggedWhole : Pattern :=
  .last
    (.mk .plain
      (.nested
        (.link (.mk .plain (.literal "a") none { tagAs := some "part", reference := some "x" } {})
          (.last (.mk .backReference (.fragment (placeholder .backReference "x")) none {} {}))))
      none { tagAs := some "whole" } {})

theorem taggedWhole_renumbered :
    taggedWhole.toRule = .ok (.mk "(a)\\1" [("1", .mk (some "part") [])] (some "whole")) ∧
      ∃ w, Pattern.create .plain (.nested taggedWhole) {} = .ok w ∧
        w.toRule = .ok (.mk "((a)\\2)"
          [("1", .mk (some "whole") []), ("2", .mk (some "part") [])] none) := by
  have hp : taggedWhole.Every (·.matcher.MarksPlaces) :=
    ⟨trivial, ⟨trivial, trivial⟩, .inr ⟨.backReference, "x", by decide, rfl⟩, trivial⟩
  have hr : taggedWhole.toRule =
      .ok (.mk "(a)\\1" [("1", .mk (some "part") [])] (some "whole")) := rfl
  have htags : ∀ x ∈ taggedWhole.nodes {}, ∀ tag, x.2.head.options.tagAs = some tag →
      ¬ AsksForNumber tag := by
    have hd : ∀ x ∈ taggedWhole.nodes {}, ∀ tag ∈ x.2.head.options.tagAs, dollar ∉ tag := by
      decide
    intro x hx tag ht
    exact not_asksForNumber (hd x hx tag ht)
  obtain ⟨w, hw, -, -, hrule⟩ := taggedWhole.wrapping_renumbers rfl hp
  refine ⟨hr, w, hw, ?_⟩
  rcases hrule htags with he | hok
  · obtain ⟨e, he, -⟩ := he
    rw [hr] at he
    cases he
  · obtain ⟨t, u, captures, name, -, hu, hr', hrw⟩ := hok
    rw [hr] at hr'
    cases hr'
    cases hw
    cases hu
    exact hrw

end PatternGrammar
