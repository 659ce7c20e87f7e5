import PatternGrammar.Proofs.EmptyMembers
import PatternGrammar.Proofs.Faithfulness
import PatternGrammar.Proofs.Origins

/-!
# Includes of a loaded description in the written rule

An entry of the option `includes` is sorted by the loader, stands for something when the rule is made, and is
written then. A text comes through as it was meant, and no two texts are written alike, unless it is one of the
two words for a grammar behind a number sign: these are taken for the words themselves.
-/

namespace PatternGrammar

open Ascii

/-! ## What a text is written as -/

/-- What an include given as text is to be written as: a word for a grammar as it is, the name of a rule as an
include of it, and any other text as an expression for it. -/
def includeEntry (s : Text) : Json :=
  if s = "$self" ∨ s = "$base" ∨ isExternalScope s then .string s
  else
    match s with
    | numberSign :: _ :: _ => .object [("include", .string s)]
    | s => .object [("match", .string (escapeRegex s))]

/-- A word for a grammar behind a number sign. -/
def IsMarkedWord (s : Text) : Prop := s = "#$self" ∨ s = "#$base"

theorem escapeRegex_injective {s t : Text} (h : escapeRegex s = escapeRegex t) : s = t := by
  have hparts : literalParts s = literalParts t :=
    (reads_escapeRegex s).eq (h ▸ reads_escapeRegex t)
  exact List.map_injective_iff.mpr (fun _ _ hb => Part.byte.inj hb) hparts

theorem includeEntry_injective {s t : Text} (h : includeEntry s = includeEntry t) : s = t := by
  have hcases (s : Text) : includeEntry s = .string s ∨ includeEntry s = .object [("include", .string s)] ∨
      includeEntry s = .object [("match", .string (escapeRegex s))] := by
    unfold includeEntry
    split
    · exact .inl rfl
    · split
      · exact .inr (.inl rfl)
      · exact .inr (.inr rfl)
  have hkeys : Text.ofString "include" ≠ Text.ofString "match" := by decide
  rcases hcases s with hs | hs | hs <;> rcases hcases t with ht | ht | ht <;> rw [hs, ht] at h
  · exact Json.string.inj h
  · cases h
  · cases h
  · cases h
  · simpa using h
  · simp [hkeys] at h
  · cases h
  · simp [hkeys.symm] at h
  · exact escapeRegex_injective (by simpa using h)

/-- What the loader makes of a text: a word for a grammar, the name of a rule, or the text itself. -/
theorem Include.ofText_cases (s : Text) :
    ((s = "$self" ∨ s = "$base") ∧ Include.ofText s = .symbol s) ∨
    (∃ c rest, s = numberSign :: c :: rest ∧ Include.ofText s = .symbol (c :: rest)) ∨
    (s ≠ "$self" ∧ s ≠ "$base" ∧ (∀ c rest, s ≠ numberSign :: c :: rest) ∧ Include.ofText s = .text s) := by
  by_cases hw : s = "$self" ∨ s = "$base"
  · refine .inl ⟨hw, ?_⟩
    rcases hw with rfl | rfl <;> rfl
  · have hn : ¬ (decide (s = ("$self" : Text)) || decide (s = ("$base" : Text))) = true := by simpa using hw
    refine .inr ?_
    unfold Include.ofText
    rw [if_neg hn]
    rw [not_or] at hw
    split
    · next c rest => exact .inl ⟨c, rest, rfl, rfl⟩
    · next hs => exact .inr ⟨hw.1, hw.2, hs, rfl⟩

theorem isExternalScope_numberSign (rest : Text) : isExternalScope (numberSign :: rest) = false := rfl

theorem includeEntry_of_word {s : Text} (h : s = "$self" ∨ s = "$base" ∨ isExternalScope s) :
    includeEntry s = .string s :=
  if_pos h

theorem includeEntry_of_marked (c : UInt8) (rest : Text) :
    includeEntry (numberSign :: c :: rest) = .object [("include", .string (numberSign :: c :: rest))] := by
  refine if_neg ?_
  rintro (h | h | h)
  · cases h
  · cases h
  · rw [isExternalScope_numberSign] at h
    cases h

/-- A text is written as it is to be, unless it is a marked word. -/
theorem Include.StandsFor.toJson_eq_iff {s : Text} {r : RuleReference} (h : (Include.ofText s).StandsFor r) :
    r.toJson = includeEntry s ↔ ¬ IsMarkedWord s := by
  rcases Include.ofText_cases s with ⟨hw, hs⟩ | ⟨c, rest, rfl, hs⟩ | ⟨hself, hbase, hn, hs⟩
  · rw [hs] at h
    have hm : ¬ IsMarkedWord s := by
      rcases hw with rfl | rfl <;> exact not_or.mpr ⟨by decide, by decide⟩
    refine iff_of_true ?_ hm
    rw [includeEntry_of_word (hw.elim .inl fun hb => .inr (.inl hb))]
    cases h with
    | grammar _ => rfl
    | rule hns hnb => exact absurd hw (not_or.mpr ⟨hns, hnb⟩)
  · rw [hs] at h
    rw [includeEntry_of_marked]
    have hmarked : IsMarkedWord (numberSign :: c :: rest) ↔ c :: rest = "$self" ∨ c :: rest = "$base" := by
      have hself : Text.ofString "#$self" = numberSign :: Text.ofString "$self" := rfl
      have hbase : Text.ofString "#$base" = numberSign :: Text.ofString "$base" := rfl
      rw [IsMarkedWord, hself, hbase, List.cons_inj_right, List.cons_inj_right]
    rw [hmarked]
    cases h with
    | grammar hw =>
        refine iff_of_false ?_ (not_not_intro hw)
        rw [RuleReference.toJson]
        intro he
        cases he
    | rule hns hnb => exact iff_of_true rfl (not_or.mpr ⟨hns, hnb⟩)
  · rw [hs] at h
    have hm : ¬ IsMarkedWord s := by
      rintro (rfl | rfl)
      · exact hn _ _ rfl
      · exact hn _ _ rfl
    refine iff_of_true ?_ hm
    cases h with
    | scope hx => rw [includeEntry_of_word (.inr (.inr hx)), RuleReference.toJson]
    | literal hx =>
        have hentry : includeEntry s = .object [("match", .string (escapeRegex s))] := by
          unfold includeEntry
          rw [if_neg (by simp [hself, hbase, hx])]
          split
          · next c rest => exact absurd rfl (hn c rest)
          · rfl
        rw [hentry]
        rfl

/-! ## Where the includes of an object are written -/

mutual
/-- The places of nodes apart, the nodes of a pattern are the same wherever it stands. -/
theorem Pattern.map_snd_nodes (i j : NodeId) : (p : Pattern) → (p.nodes i).map (·.2) = (p.nodes j).map (·.2)
  | .last node => by
      rw [Pattern.nodes, Pattern.nodes, List.map_cons, List.map_cons, node.map_snd_nestedNodes i j]
  | .link node next => by
      simp only [Pattern.nodes, List.cons_append, List.map_cons, List.map_append]
      rw [node.map_snd_nestedNodes i j, next.map_snd_nodes i.next j.next]

theorem Node.map_snd_nestedNodes (i j : NodeId) :
    (n : Node) → (n.nestedNodes i).map (·.2) = (n.nestedNodes j).map (·.2)
  | .mk _ matcher _ _ _ => matcher.map_snd_nodes i j

theorem Matcher.map_snd_nodes (i j : NodeId) : (m : Matcher) → (m.nodes i).map (·.2) = (m.nodes j).map (·.2)
  | .literal _ | .fragment _ => rfl
  | .nested pattern => pattern.map_snd_nodes i.nested j.nested
end

/-- The node stands somewhere in the pattern, included patterns apart. -/
def Pattern.Contains (p : Pattern) (n : Node) : Prop := ∃ q ∈ (p.nodes {}).map (·.2), q.head = n

theorem Pattern.contains_last {node n : Node} : (Pattern.last node).Contains n ↔
    n = node ∨ ∃ q, node.matcher = .nested q ∧ q.Contains n := by
  obtain ⟨kind, matcher, includes, options, quantity⟩ := node
  simp only [Contains, Pattern.nodes, Node.nestedNodes, List.map_cons, List.exists_mem_cons_iff, head_last, eq_comm]
  refine or_congr_right ?_
  cases matcher with
  | literal t | fragment t => simp [Matcher.nodes, Node.matcher]
  | nested q =>
      rw [Matcher.nodes, q.map_snd_nodes _ {}]
      simp [Node.matcher]

theorem Pattern.contains_link {node n : Node} {next : Pattern} : (Pattern.link node next).Contains n ↔
    (Pattern.last node).Contains n ∨ next.Contains n := by
  simp only [Contains, Pattern.nodes, List.cons_append, List.map_cons, List.map_append, List.exists_mem_cons_iff,
    head_last, head_link, List.mem_append, or_and_right, exists_or, or_assoc]
  rw [next.map_snd_nodes _ {}]

theorem Pattern.contains_iff {p : Pattern} {n : Node} :
    p.Contains n ↔ ∃ node ∈ p.chain, n = node ∨ ∃ q, node.matcher = .nested q ∧ q.Contains n := by
  induction p using Pattern.chain_induction with
  | last node => simp [contains_last, chain]
  | link node next ih => simp [contains_link, contains_last, ih, chain]

/-- The lists of includes that the table of groups has are those of the nodes. -/
theorem Pattern.exists_group_iff {p : Pattern} {list : List Include} :
    (∃ g ∈ p.groups, g.includes = some list) ↔ ∃ n, p.Contains n ∧ n.includes = some list := by
  rw [Pattern.groups, p.groupsFrom_eq]
  constructor
  · rintro ⟨g, hg, hi⟩
    obtain ⟨k, hk, rfl⟩ := List.mem_mapIdx.mp hg
    have hx := (List.mem_filter.mp (List.getElem_mem hk)).1
    exact ⟨_, ⟨_, List.mem_map_of_mem hx, rfl⟩, hi⟩
  · rintro ⟨_, ⟨q, hq, rfl⟩, hi⟩
    obtain ⟨x, hx, rfl⟩ := List.mem_map.mp hq
    have hc : x.2.head.captures = true := by
      rw [Node.captures, hi, Option.isSome_some, Bool.or_true]
    have hcapturing : x ∈ p.capturing {} := List.mem_filter.mpr ⟨hx, hc⟩
    obtain ⟨k, hk, hxk⟩ := List.getElem_of_mem hcapturing
    refine ⟨_, List.mem_mapIdx.mpr ⟨k, hk, rfl⟩, ?_⟩
    rw [hxk]
    exact hi

/-- A pattern that a group of `p` includes is included in `p`. -/
theorem Pattern.IncludedIn.of_contains {p q inner : Pattern} {n : Node} (hn : p.Contains n)
    (hi : .pattern inner ∈ n.includes.getD []) (h : q.IncludedIn inner) : q.IncludedIn p := by
  cases hl : n.includes with
  | none =>
      rw [hl] at hi
      cases hi
  | some list =>
      rw [hl] at hi
      obtain ⟨g, hg, hgi⟩ := Pattern.exists_group_iff.mpr ⟨n, hn, hl⟩
      exact .inside hg (hgi.symm ▸ hi) h

/-- What is included in a pattern whose nodes are among those of another is included in that, but for the pattern
itself. -/
theorem Pattern.IncludedIn.of_subset {p q r : Pattern} (hs : ∀ n, q.Contains n → p.Contains n)
    (h : r.IncludedIn q) : r = q ∨ r.IncludedIn p := by
  cases h with
  | self => exact .inl rfl
  | @inside _ inner g hg hi h =>
      cases hl : g.includes with
      | none =>
          rw [hl] at hi
          cases hi
      | some list =>
          obtain ⟨n, hn, hni⟩ := Pattern.exists_group_iff.mp ⟨g, hg, hl⟩
          rw [hl, ← hni] at hi
          exact .inr (.of_contains (hs n hn) hi h)

/-- A node that a pattern has at some depth stands in the pattern or in one that is included in it. -/
theorem Pattern.Owns.exists_contains {p : Pattern} {n : Node} (h : p.Owns n) :
    ∃ q : Pattern, q.IncludedIn p ∧ q.Contains n := by
  induction h with
  | chained hn => exact ⟨_, .self, Pattern.contains_iff.mpr ⟨_, hn, .inl rfl⟩⟩
  | @nested p q node n hm hq _ ih =>
      have hs : ∀ other, q.Contains other → p.Contains other :=
        fun other ho => Pattern.contains_iff.mpr ⟨node, hm, .inr ⟨q, hq, ho⟩⟩
      obtain ⟨r, hr, hc⟩ := ih
      rcases hr.of_subset hs with rfl | hr
      · exact ⟨p, .self, hs n hc⟩
      · exact ⟨r, hr, hc⟩
  | @included p q node n hm hq _ ih =>
      obtain ⟨r, hr, hc⟩ := ih
      exact ⟨r, .of_contains (Pattern.contains_iff.mpr ⟨node, hm, .inl rfl⟩) hq hr, hc⟩

/-- What the entries of an option `includes` are written as: texts as they are to be, marked words apart. -/
def WritesEntry (entry written : Json) : Prop :=
  ∀ s, entry = .string s → (written = includeEntry s ↔ ¬ IsMarkedWord s)

theorem IsIncludeOf.writesEntry {R : Json → Pattern → Prop} {v : Json} {entry : Include} {r : RuleReference}
    (h : IsIncludeOf R v entry) (hr : entry.StandsFor r) : WritesEntry v r.toJson := by
  rintro s rfl
  cases h with
  | text s => exact hr.toJson_eq_iff

theorem forall₂_writesEntry {R : Json → Pattern → Prop} {vs : List Json} {list : List Include}
    {rs : List RuleReference} (hv : List.Forall₂ (IsIncludeOf R) vs list)
    (hr : List.Forall₂ Include.StandsFor list rs) : List.Forall₂ WritesEntry vs (rs.map RuleReference.toJson) := by
  induction hv generalizing rs with
  | nil =>
      cases hr
      exact .nil
  | cons hi _ ih =>
      cases hr with
      | cons hs hr => exact .cons (hi.writesEntry hs) (ih hr)

section
variable {plugins : List Plugin}

/-- The includes of an object in a description belong to a group of the pattern, or of one that is included in it. The
capture of this group, in the rule of the pattern or within it, holds what the entries are written as, in order. -/
theorem Pattern.exists_written_includes {d : Json} {p : Pattern} (h : d.Accounts (Loads plugins) p)
    {members : Dictionary Json} {value : Json} (hd : (Json.object members).Within d)
    (hv : latest? "includes" members = some value) (hne : value.entries ≠ []) {rule : Rule}
    (hrule : p.toRule = .ok rule) :
    ∃ q : Pattern, q.IncludedIn p ∧ ∃ r : Rule, q.toRule = .ok r ∧ r.Within rule ∧ ∃ g ∈ q.groups, ∃ c,
      (Text.ofInt g.number, c) ∈ r.captures ∧
        rule.toJson.Holds "patterns" (.array (c.patterns.map RuleReference.toJson)) ∧
        List.Forall₂ WritesEntry value.entries (c.patterns.map RuleReference.toJson) := by
  obtain ⟨n, hn, hdescribed⟩ := h.owned _ hd
  have hi := hdescribed.includes_of_object
  rw [hv] at hi
  obtain ⟨list, hl, hf⟩ : ∃ list, n.includes = some list ∧
      List.Forall₂ (IsIncludeOf (Loads plugins)) value.entries list := by
    unfold AreIncludesOf at hi
    generalize n.includes = includes? at hi
    cases hi with
    | some hf => exact ⟨_, rfl, hf⟩
  obtain ⟨q, hq, hc⟩ := hn.exists_contains
  obtain ⟨r, hr, hw⟩ := hq.exists_within hrule
  obtain ⟨g, hg, hgi⟩ := Pattern.exists_group_iff.mpr ⟨n, hc, hl⟩
  have hmentions : q.Mentions g := by
    refine .inr ?_
    rw [hgi, Option.getD_some]
    rintro rfl
    exact hne (List.forall₂_nil_right_iff.mp hf)
  have hrules := Pattern.hasRule hr
  obtain ⟨c, hcapture⟩ := hrules.listed g hg hmentions
  obtain ⟨g', hg', hk, -, htells⟩ := (hrules.captures _ c).mp hcapture
  obtain rfl := Pattern.eq_of_key hg hg' hk
  have hstands := htells.2
  rw [hgi, Option.getD_some] at hstands
  have hwritten := forall₂_writesEntry hf hstands
  have hpatterns : c.patterns ≠ [] := by
    intro hc
    rw [hc] at hwritten
    exact hne (List.forall₂_nil_right_iff.mp hwritten)
  exact ⟨q, hq, r, hr, hw, g, hg, c, hcapture, hw.holds (.patterns hcapture hpatterns), hwritten⟩

/-- Of a loaded description, at any depth, the entries of every option `includes` are found in the written form of the
rule, in order: in the list of patterns of the capture that the group of the object has in the rule, or in the
rule of an included pattern. A text is written as it is to be exactly when it is no marked word, and two different
texts are never to be written alike. -/
theorem Pattern.loaded_includes_written {path : Text} {d : Json} {p : Pattern} {rule : Rule}
    (h : loadPatternAt plugins path d = .ok p) (hrule : p.toRule = .ok rule) :
    (∀ members value, (Json.object members).Within d → latest? "includes" members = some value →
      value.entries ≠ [] → ∃ q : Pattern, q.IncludedIn p ∧ ∃ r : Rule, q.toRule = .ok r ∧ r.Within rule ∧
        ∃ g ∈ q.groups, ∃ c, (Text.ofInt g.number, c) ∈ r.captures ∧
          rule.toJson.Holds "patterns" (.array (c.patterns.map RuleReference.toJson)) ∧
          List.Forall₂ WritesEntry value.entries (c.patterns.map RuleReference.toJson)) ∧
    ∀ s t, includeEntry s = includeEntry t ↔ s = t :=
  ⟨fun _ _ hd hv hne => exists_written_includes (loadWithin_accounts plugins d.depth h) hd hv hne hrule,
    fun _ _ => ⟨includeEntry_injective, congrArg includeEntry⟩⟩

end

/-- A letter in which two things apply that are named by texts. -/
def letterIncluding : Json :=
  .object [("includes", .array [.string "#number", .string "source.c"]), ("match", .string "b")]

/-- A letter in which that letter applies. -/
def includingLetter : Json := .object [("includes", letterIncluding), ("match", .string "a")]

theorem includingLetter_written :
    ∃ p rule, loadPatternAt [] "pattern" includingLetter = .ok p ∧ p.toRule = .ok rule ∧
      ∃ written, rule.toJson.Holds "patterns" (.array written) ∧
        List.Forall₂ WritesEntry [.string "#number", .string "source.c"] written := by
  have hwithin : letterIncluding.Within includingLetter :=
    .inside (@Json.IsPart.included _ _ letterIncluding rfl List.mem_cons_self) .self
  have h := Pattern.loaded_includes_written (rfl : loadPatternAt [] "pattern" includingLetter = _) rfl
  obtain ⟨_, _, _, _, _, _, _, c, _, hholds, hwritten⟩ := h.1 _ _ hwithin rfl (List.cons_ne_nil _ _)
  exact ⟨_, _, rfl, rfl, _, hholds, hwritten⟩

/-- A letter in which a grammar applies that is named by its word, with a number sign in front and without one. -/
def markedWordIncluded : Json :=
  .object [("includes", .array [.string "#$self", .string "$self"]), ("match", .string "a")]

theorem markedWordIncluded_written :
    ∃ p, loadPatternAt [] "pattern" markedWordIncluded = .ok p ∧
      p.toRule = .ok (.mk "a" [("0", .mk none [.scope "$self", .scope "$self"])] none) ∧
      (RuleReference.scope "$self").toJson ≠ includeEntry "#$self" := by
  have hstands : (Include.ofText "#$self").StandsFor (.scope "$self") := .grammar (.inl rfl)
  exact ⟨_, rfl, rfl, fun he => hstands.toJson_eq_iff.mp he (.inl rfl)⟩

end PatternGrammar
