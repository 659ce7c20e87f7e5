import PatternGrammar.Proofs.RuleContents

/-!
# What the written form of a rule leaves out

Of a rule and of the rules within it every member is written that says something: there is no object without
captures, no empty list of what applies inside a capture, and no empty name. A capture is listed as soon as its
group has a tag, and its name is written if the tag is not the empty text; so what is left of the capture of a
group that has an empty tag and no includes is an empty object.
-/

namespace PatternGrammar

/-! ## Members at any depth -/

/-- Some object has this member: the value itself, or one in it at any depth. -/
inductive Json.Holds : Json → Text → Json → Prop where
  | here {members : List (Text × Json)} {x : Text × Json} : x ∈ members → Holds (.object members) x.1 x.2
  | member {members : List (Text × Json)} {x : Text × Json} {key : Text} {value : Json} : x ∈ members →
      x.2.Holds key value → Holds (.object members) key value
  | item {items : List Json} {j : Json} {key : Text} {value : Json} : j ∈ items → j.Holds key value →
      Holds (.array items) key value

namespace Json

variable {key : Text} {value : Json}

theorem holds_object {members : List (Text × Json)} :
    (object members).Holds key value ↔ (key, value) ∈ members ∨ ∃ x ∈ members, x.2.Holds key value := by
  constructor
  · rintro (hx | ⟨hx, h⟩)
    · exact .inl hx
    · exact .inr ⟨_, hx, h⟩
  · rintro (hx | ⟨x, hx, h⟩)
    · exact .here hx
    · exact .member hx h

theorem holds_array {items : List Json} :
    (array items).Holds key value ↔ ∃ j ∈ items, j.Holds key value := by
  constructor
  · rintro (_ | _ | ⟨hj, h⟩)
    exact ⟨_, hj, h⟩
  · rintro ⟨j, hj, h⟩
    exact .item hj h

@[simp] theorem not_holds_string (t : Text) : ¬ (string t).Holds key value := nofun

end Json

/-! ## The members of a rule -/

theorem capturesToJson_eq_map (captures : List (Text × Capture)) :
    capturesToJson captures = captures.map fun x => (x.1, x.2.toJson) := by
  induction captures with
  | nil => rfl
  | cons x rest ih => rw [capturesToJson, ih, List.map_cons]

theorem referencesToJson_eq_map (references : List RuleReference) :
    referencesToJson references = references.map RuleReference.toJson := by
  induction references with
  | nil => rfl
  | cons r rest ih => rw [referencesToJson, ih, List.map_cons]

theorem mem_nameMember {name : Option Text} {x : Text × Json} :
    x ∈ nameMember name ↔ ∃ t, name = some t ∧ t ≠ [] ∧ x = (Text.ofString "name", .string t) := by
  cases name with
  | none => simp [nameMember]
  | some t => cases t <;> simp [nameMember]

namespace Capture

/-- The members of a capture in its written form. -/
def members (c : Capture) : List (Text × Json) :=
  nameMember c.name ++
    if c.patterns = [] then [] else [(Text.ofString "patterns", .array (c.patterns.map RuleReference.toJson))]

theorem toJson_eq (c : Capture) : c.toJson = .object c.members := by
  obtain ⟨name, patterns⟩ := c
  cases patterns with
  | nil => rw [toJson, members, Capture.name, Capture.patterns, if_pos rfl]
  | cons r rest =>
      rw [toJson, members, Capture.name, Capture.patterns, referencesToJson_eq_map,
        if_neg (List.cons_ne_nil r rest)]

theorem mem_members {c : Capture} {x : Text × Json} : x ∈ c.members ↔
    (∃ t, c.name = some t ∧ t ≠ [] ∧ x = (Text.ofString "name", .string t)) ∨
      c.patterns ≠ [] ∧ x = (Text.ofString "patterns", .array (c.patterns.map RuleReference.toJson)) := by
  rw [members, List.mem_append, mem_nameMember]
  split <;> simp_all

end Capture

namespace Rule

def captures : Rule → List (Text × Capture)
  | .mk _ captures _ => captures

def name : Rule → Option Text
  | .mk _ _ name => name

def expression : Rule → Text
  | .mk expression _ _ => expression

/-- The members of a rule in its written form. -/
def members (r : Rule) : List (Text × Json) :=
  (if r.captures = [] then [] else
      [(Text.ofString "captures", .object (r.captures.map fun x => (x.1, x.2.toJson)))]) ++
    [(Text.ofString "match", .string r.expression)] ++ nameMember r.name

theorem toJson_eq (r : Rule) : r.toJson = .object r.members := by
  obtain ⟨expression, captures, name⟩ := r
  cases captures with
  | nil => rw [toJson, members, Rule.name, Rule.captures, Rule.expression, if_pos rfl]
  | cons x rest =>
      rw [toJson, members, Rule.name, Rule.captures, Rule.expression, capturesToJson_eq_map,
        if_neg (List.cons_ne_nil x rest)]

theorem mem_members {r : Rule} {x : Text × Json} : x ∈ r.members ↔
    r.captures ≠ [] ∧ x = (Text.ofString "captures", .object (r.captures.map fun x => (x.1, x.2.toJson))) ∨
      x = (Text.ofString "match", .string r.expression) ∨
      ∃ t, r.name = some t ∧ t ≠ [] ∧ x = (Text.ofString "name", .string t) := by
  rw [members, List.mem_append, List.mem_append, mem_nameMember, List.mem_singleton]
  split <;> simp_all [or_assoc]

/-- A rule in a rule, at any depth: the rule itself, or one in what applies inside a capture. -/
inductive Within (r : Rule) : Rule → Prop where
  | self : Within r r
  | inside {rule inner : Rule} {x : Text × Capture} : x ∈ rule.captures → .inline inner ∈ x.2.patterns →
      Within r inner → Within r rule

/-- What a rule writes, the rules within it apart. -/
inductive Writes (r : Rule) : Text → Json → Prop where
  | expression : Writes r "match" (.string r.expression)
  | name {t : Text} : r.name = some t → t ≠ [] → Writes r "name" (.string t)
  | captures : r.captures ≠ [] → Writes r "captures" (.object (r.captures.map fun x => (x.1, x.2.toJson)))
  | capture {x : Text × Capture} : x ∈ r.captures → Writes r x.1 x.2.toJson
  | captureName {x : Text × Capture} {t : Text} : x ∈ r.captures → x.2.name = some t → t ≠ [] →
      Writes r "name" (.string t)
  | patterns {x : Text × Capture} : x ∈ r.captures → x.2.patterns ≠ [] →
      Writes r "patterns" (.array (x.2.patterns.map RuleReference.toJson))
  | reference {x : Text × Capture} {t : Text} : x ∈ r.captures → .rule t ∈ x.2.patterns →
      Writes r "include" (.string ("#" ++ t))

theorem writes_of_mem_members {r : Rule} {y : Text × Json} (h : y ∈ r.members) : r.Writes y.1 y.2 := by
  rcases mem_members.mp h with ⟨hc, rfl⟩ | rfl | ⟨t, hn, ht, rfl⟩
  · exact .captures hc
  · exact .expression
  · exact .name hn ht

theorem writes_of_mem_capture {r : Rule} {x : Text × Capture} (hx : x ∈ r.captures) {y : Text × Json}
    (h : y ∈ x.2.members) : r.Writes y.1 y.2 := by
  rcases Capture.mem_members.mp h with ⟨t, hn, ht, rfl⟩ | ⟨hp, rfl⟩
  · exact .captureName hx hn ht
  · exact .patterns hx hp

end Rule

section
variable {key : Text} {value : Json}

theorem RuleReference.holds_toJson {r : RuleReference} : r.toJson.Holds key value ↔
    (∃ t, r = .rule t ∧ key = "include" ∧ value = .string ("#" ++ t)) ∨
      ∃ inner, r = .inline inner ∧ inner.toJson.Holds key value := by
  cases r with
  | scope t => simp [RuleReference.toJson]
  | rule t => simp [RuleReference.toJson, Json.holds_object]
  | inline rule => simp [RuleReference.toJson]

theorem Capture.holds_toJson {c : Capture} : c.toJson.Holds key value ↔
    (key, value) ∈ c.members ∨ ∃ r ∈ c.patterns, r.toJson.Holds key value := by
  rw [c.toJson_eq, Json.holds_object]
  refine or_congr_right ?_
  constructor
  · rintro ⟨x, hx, h⟩
    rcases Capture.mem_members.mp hx with ⟨t, -, -, rfl⟩ | ⟨-, rfl⟩
    · exact absurd h (Json.not_holds_string t)
    · obtain ⟨_, hj, h⟩ := Json.holds_array.mp h
      obtain ⟨r, hr, rfl⟩ := List.mem_map.mp hj
      exact ⟨r, hr, h⟩
  · rintro ⟨r, hr, h⟩
    exact ⟨_, Capture.mem_members.mpr (.inr ⟨List.ne_nil_of_mem hr, rfl⟩), .item (List.mem_map_of_mem hr) h⟩

theorem Rule.holds_toJson {r : Rule} : r.toJson.Holds key value ↔
    r.Writes key value ∨ ∃ x ∈ r.captures, ∃ inner, .inline inner ∈ x.2.patterns ∧ inner.toJson.Holds key value := by
  rw [r.toJson_eq, Json.holds_object]
  constructor
  · rintro (hm | ⟨y, hy, h⟩)
    · exact .inl (Rule.writes_of_mem_members hm)
    · rcases Rule.mem_members.mp hy with ⟨-, rfl⟩ | rfl | ⟨t, -, -, rfl⟩
      · rcases Json.holds_object.mp h with hm | ⟨_, hz, h⟩
        · obtain ⟨x, hx, he⟩ := List.mem_map.mp hm
          cases he
          exact .inl (.capture hx)
        · obtain ⟨x, hx, rfl⟩ := List.mem_map.mp hz
          rcases Capture.holds_toJson.mp h with hm | ⟨ref, hr, h⟩
          · exact .inl (Rule.writes_of_mem_capture hx hm)
          · rcases RuleReference.holds_toJson.mp h with ⟨t, rfl, rfl, rfl⟩ | ⟨inner, rfl, h⟩
            · exact .inl (.reference hx hr)
            · exact .inr ⟨x, hx, inner, hr, h⟩
      · exact absurd h (Json.not_holds_string _)
      · exact absurd h (Json.not_holds_string t)
  · -- whatever stands in a capture stands in the member with the captures
    have hin {x : Text × Capture} (hx : x ∈ r.captures) (h : x.2.toJson.Holds key value) :
        ∃ y ∈ r.members, y.2.Holds key value :=
      ⟨_, Rule.mem_members.mpr (.inl ⟨List.ne_nil_of_mem hx, rfl⟩), .member (List.mem_map_of_mem hx) h⟩
    have hown {x : Text × Capture} (hx : x ∈ r.captures) (h : (key, value) ∈ x.2.members) :
        ∃ y ∈ r.members, y.2.Holds key value := hin hx (Capture.holds_toJson.mpr (.inl h))
    rintro (hw | ⟨x, hx, inner, hi, h⟩)
    · cases hw with
      | expression => exact .inl (Rule.mem_members.mpr (.inr (.inl rfl)))
      | name hn ht => exact .inl (Rule.mem_members.mpr (.inr (.inr ⟨_, hn, ht, rfl⟩)))
      | captures hc => exact .inl (Rule.mem_members.mpr (.inl ⟨hc, rfl⟩))
      | capture hx =>
          exact .inr ⟨_, Rule.mem_members.mpr (.inl ⟨List.ne_nil_of_mem hx, rfl⟩), .here (List.mem_map_of_mem hx)⟩
      | captureName hx hn ht => exact .inr (hown hx (Capture.mem_members.mpr (.inl ⟨_, hn, ht, rfl⟩)))
      | patterns hx hp => exact .inr (hown hx (Capture.mem_members.mpr (.inr ⟨hp, rfl⟩)))
      | reference hx ht =>
          refine .inr (hin hx (Capture.holds_toJson.mpr (.inr ⟨_, ht, ?_⟩)))
          exact RuleReference.holds_toJson.mpr (.inl ⟨_, rfl, rfl, rfl⟩)
    · have hr := RuleReference.holds_toJson.mpr (.inr ⟨inner, rfl, h⟩)
      exact .inr (hin hx (Capture.holds_toJson.mpr (.inr ⟨_, hi, hr⟩)))

/-- What applies inside a capture of a rule is smaller than the rule. -/
theorem Rule.sizeOf_lt {r inner : Rule} {x : Text × Capture} (hx : x ∈ r.captures)
    (hi : .inline inner ∈ x.2.patterns) : sizeOf inner < sizeOf r := by
  obtain ⟨expression, captures, name⟩ := r
  obtain ⟨number, own, patterns⟩ := x
  have hc := List.sizeOf_lt_of_mem hx
  have hp := List.sizeOf_lt_of_mem hi
  simp only [Rule.captures, Capture.patterns, Prod.mk.sizeOf_spec, Capture.mk.sizeOf_spec,
    RuleReference.inline.sizeOf_spec, Rule.mk.sizeOf_spec] at hc hp ⊢
  omega

theorem Rule.exists_within (rule : Rule) (h : rule.toJson.Holds key value) :
    ∃ r : Rule, r.Within rule ∧ r.Writes key value := by
  rcases Rule.holds_toJson.mp h with hw | ⟨x, hx, inner, hi, h⟩
  · exact ⟨rule, .self, hw⟩
  · have hlt := Rule.sizeOf_lt hx hi
    obtain ⟨r, hr, hw⟩ := Rule.exists_within inner h
    exact ⟨r, .inside hx hi hr, hw⟩
termination_by sizeOf rule

theorem Rule.Within.holds {r rule : Rule} (h : r.Within rule) (hw : r.Writes key value) :
    rule.toJson.Holds key value := by
  induction h with
  | self => exact Rule.holds_toJson.mpr (.inl hw)
  | inside hx hi _ ih => exact Rule.holds_toJson.mpr (.inr ⟨_, hx, _, hi, ih⟩)

/-- What the written form of a rule holds is what the rule and the rules within it write. -/
theorem Rule.holds_toJson_iff {rule : Rule} :
    rule.toJson.Holds key value ↔ ∃ r : Rule, r.Within rule ∧ r.Writes key value :=
  ⟨rule.exists_within, fun ⟨_, hr, hw⟩ => hr.holds hw⟩

end

/-! ## Rules of patterns -/

/-- A pattern that is included in a pattern at any depth, or the pattern itself. -/
inductive Pattern.IncludedIn (q : Pattern) : Pattern → Prop where
  | self : IncludedIn q q
  | inside {p inner : Pattern} {g : Group} : g ∈ p.groups → .pattern inner ∈ g.includes.getD [] →
      IncludedIn q inner → IncludedIn q p

/-- Of some group that the captures list, nothing is known but an empty tag. -/
def Pattern.ListsBlank (p : Pattern) : Prop :=
  ∃ g ∈ p.groups, p.listedTag g = some [] ∧ g.includes.getD [] = []

theorem Pattern.hasRule {p : Pattern} {rule : Rule} (h : p.toRule = .ok rule) :
    p.HasRule rule.expression rule.captures rule.name := by
  obtain ⟨expression, captures, name⟩ := rule
  exact Pattern.hasRule_of_toRule h

section
variable {p : Pattern} {g : Group} {c : Capture}

theorem Pattern.Tells.exists_include (h : p.Tells g c) {r : RuleReference} (hr : r ∈ c.patterns) :
    ∃ entry ∈ g.includes.getD [], entry.StandsFor r := by
  obtain ⟨i, hi, rfl⟩ := List.getElem_of_mem hr
  have hi' := h.2.length_eq ▸ hi
  exact ⟨_, List.getElem_mem hi', h.2.get hi' hi⟩

theorem Pattern.Tells.exists_reference (h : p.Tells g c) {entry : Include} (he : entry ∈ g.includes.getD []) :
    ∃ r ∈ c.patterns, entry.StandsFor r := by
  obtain ⟨i, hi, rfl⟩ := List.getElem_of_mem he
  have hi' := h.2.length_eq ▸ hi
  exact ⟨_, List.getElem_mem hi', h.2.get hi hi'⟩

end

/-- A rule in the rule of a pattern is the rule of an included pattern or that of a literal text. -/
theorem Rule.Within.of_toRule {r rule : Rule} (hr : r.Within rule) {p : Pattern} (h : p.toRule = .ok rule) :
    (∃ q : Pattern, q.IncludedIn p ∧ q.toRule = .ok r) ∨ r.captures = [] ∧ r.name = none := by
  induction hr generalizing p with
  | self => exact .inl ⟨p, .self, h⟩
  | @inside rule inner x hx hi hw ih =>
      obtain ⟨g, hg, -, -, ht⟩ := ((Pattern.hasRule h).captures x.1 x.2).mp hx
      obtain ⟨entry, he, hs⟩ := ht.exists_include hi
      cases hs with
      | pattern hq =>
          refine (ih hq).imp_left fun ⟨q, hin, hr⟩ => ⟨q, .inside hg he hin, hr⟩
      | literal _ =>
          cases hw with
          | self => exact .inr ⟨rfl, rfl⟩
          | inside hx => cases hx

/-- The rule of an included pattern stands in the rule of the pattern that includes it. -/
theorem Pattern.IncludedIn.exists_within {q p : Pattern} (hq : q.IncludedIn p) {rule : Rule}
    (h : p.toRule = .ok rule) : ∃ r : Rule, q.toRule = .ok r ∧ r.Within rule := by
  induction hq generalizing rule with
  | self => exact ⟨rule, h, .self⟩
  | @inside p inner g hg hi _ ih =>
      have hrule := Pattern.hasRule h
      have hm : p.Mentions g := .inr (List.ne_nil_of_mem hi)
      obtain ⟨c, hc⟩ := hrule.listed g hg hm
      obtain ⟨g', hg', hk, -, ht⟩ := (hrule.captures _ c).mp hc
      obtain rfl := Pattern.eq_of_key hg hg' hk
      obtain ⟨r, hr, hs⟩ := ht.exists_reference hi
      cases hs with
      | pattern hi =>
          obtain ⟨own, ho, hw⟩ := ih hi
          exact ⟨own, ho, .inside hc hr hw⟩

/-! ## Captures that say nothing -/

theorem tagPieces_eq_nil {tag : Text} : tagPieces tag = [] ↔ tag = [] := by
  cases tag with
  | nil => exact iff_of_true rfl rfl
  | cons b rest =>
      rw [tagPieces, tagPiecesAfter]
      split <;> simp

theorem fillTagPieces_eq_ok_nil {groups : List Group} {own : Int} {pieces : List TagPiece} :
    fillTagPieces groups own pieces = .ok [] ↔ pieces = [] := by
  cases pieces with
  | nil => exact iff_of_true rfl rfl
  | cons piece rest =>
      cases piece with
      | byte b | ownNumber => simp [fillTagPieces, pure, Except.pure]
      | numberOf name =>
          rw [fillTagPieces]
          cases numberOf? groups name <;> simp [pure, Except.pure]

/-- Filling in numbers leaves no tag empty that is not empty itself. -/
theorem resolveTag_eq_ok_nil {groups : List Group} {own : Int} {tag : Text} :
    resolveTag groups own tag = .ok [] ↔ tag = [] := by
  rw [resolveTag, fillTagPieces_eq_ok_nil, tagPieces_eq_nil]

theorem Capture.members_eq_nil {c : Capture} : c.members = [] ↔ c.name.getD [] = [] ∧ c.patterns = [] := by
  obtain ⟨name, patterns⟩ := c
  have hn : nameMember name = [] ↔ name.getD [] = [] := by
    cases name with
    | none => exact iff_of_true rfl rfl
    | some t => cases t <;> simp [nameMember]
  rw [members, List.append_eq_nil_iff, Capture.name, hn, Capture.patterns]
  cases patterns <;> simp

/-- The captures stand under decimal numbers. -/
def Rule.IsNumbered (r : Rule) : Prop := ∀ x ∈ r.captures, ∃ n : Int, x.1 = Text.ofInt n

theorem Text.ofInt_ne {n : Int} {t : Text} (h : ∃ b ∈ t, isDigit b = false ∧ b ≠ 45) : t ≠ Text.ofInt n := by
  rintro rfl
  obtain ⟨b, hb, hd, hm⟩ := h
  exact notMem_ofInt hd hm hb

namespace Rule.Writes

variable {r : Rule} {value : Json} (hr : r.IsNumbered)
include hr

theorem captures_eq (h : r.Writes "captures" value) :
    r.captures ≠ [] ∧ value = .object (r.captures.map fun x => (x.1, x.2.toJson)) := by
  generalize hk : Text.ofString "captures" = key at h
  cases h with
  | captures hc => exact ⟨hc, rfl⟩
  | capture hx =>
      obtain ⟨n, hn⟩ := hr _ hx
      exact absurd (hk.trans hn) (Text.ofInt_ne (by decide))
  | _ => exact absurd hk (by decide)

theorem patterns_ne (h : r.Writes "patterns" value) : value ≠ .array [] := by
  generalize hk : Text.ofString "patterns" = key at h
  cases h with
  | patterns _ hp => simpa using hp
  | capture hx =>
      obtain ⟨n, hn⟩ := hr _ hx
      exact absurd (hk.trans hn) (Text.ofInt_ne (by decide))
  | _ => exact absurd hk (by decide)

theorem name_ne (h : r.Writes "name" value) : value ≠ .string [] := by
  generalize hk : Text.ofString "name" = key at h
  cases h with
  | name _ ht | captureName _ _ ht => simpa using ht
  | capture hx =>
      obtain ⟨n, hn⟩ := hr _ hx
      exact absurd (hk.trans hn) (Text.ofInt_ne (by decide))
  | _ => exact absurd hk (by decide)

end Rule.Writes

theorem Pattern.HasRule.isNumbered {p : Pattern} {r : Rule} (h : p.HasRule r.expression r.captures r.name) :
    r.IsNumbered := by
  intro x hx
  obtain ⟨g, -, hk, -⟩ := (h.captures x.1 x.2).mp hx
  exact ⟨g.number, hk⟩

theorem Rule.Within.isNumbered {r rule : Rule} (hr : r.Within rule) {p : Pattern} (h : p.toRule = .ok rule) :
    r.IsNumbered := by
  rcases hr.of_toRule h with ⟨q, -, hq⟩ | ⟨hc, -⟩
  · exact (Pattern.hasRule hq).isNumbered
  · intro x hx
    rw [hc] at hx
    cases hx

/-- A capture in the rule of a pattern is written as an empty object exactly when the pattern lists a group with
an empty tag and nothing else. -/
theorem Pattern.listsBlank_iff {p : Pattern} {r : Rule} (h : p.toRule = .ok r) :
    p.ListsBlank ↔ ∃ x ∈ r.captures, x.2.members = [] := by
  have hrule := Pattern.hasRule h
  constructor
  · rintro ⟨g, hg, ht, hi⟩
    have hm : p.Mentions g := .inl (by rw [ht]; rfl)
    obtain ⟨c, hc⟩ := hrule.listed g hg hm
    obtain ⟨g', hg', hk, -, htells⟩ := (hrule.captures _ c).mp hc
    obtain rfl := Pattern.eq_of_key hg hg' hk
    refine ⟨_, hc, Capture.members_eq_nil.mpr ⟨?_, ?_⟩⟩
    · have hn := htells.1
      rw [ht] at hn
      exact congrArg (·.getD []) (Except.ok.inj hn).symm
    · have hl := htells.2.length_eq
      rw [hi] at hl
      exact List.length_eq_zero_iff.mp hl.symm
  · rintro ⟨x, hx, hmembers⟩
    obtain ⟨g, hg, -, hm, htells⟩ := (hrule.captures x.1 x.2).mp hx
    obtain ⟨hname, hpatterns⟩ := Capture.members_eq_nil.mp hmembers
    have hi : g.includes.getD [] = [] := by
      have hl := htells.2.length_eq
      rw [hpatterns] at hl
      exact List.length_eq_zero_iff.mp hl
    obtain ⟨tag, ht⟩ := Option.isSome_iff_exists.mp (hm.resolve_right fun hne => hne hi)
    refine ⟨g, hg, ?_, hi⟩
    have hn := htells.1
    rw [ht] at hn
    obtain ⟨t, hr, hs⟩ := Except.bind_eq_ok.mp hn
    rw [← Except.ok.inj hs] at hname
    obtain rfl : t = [] := hname
    rw [ht, resolveTag_eq_ok_nil.mp hr]

/-- In the written form of the rule of a pattern no object of captures is empty, no list of what applies inside a
capture and no name, in the rules of included patterns as little as in the rule itself. A capture is an empty
object exactly when the pattern, or one that it includes at some depth, lists a group of which it knows nothing
but an empty tag. -/
theorem Pattern.written_rule_members {p : Pattern} {rule : Rule} (h : p.toRule = .ok rule) :
    ¬ rule.toJson.Holds "captures" (.object []) ∧ ¬ rule.toJson.Holds "patterns" (.array []) ∧
      ¬ rule.toJson.Holds "name" (.string []) ∧
      ((∃ entries number, rule.toJson.Holds "captures" (.object entries) ∧ (number, .object []) ∈ entries) ↔
        ∃ q : Pattern, q.IncludedIn p ∧ q.ListsBlank) := by
  simp only [Rule.holds_toJson_iff]
  refine ⟨?_, ?_, ?_, ?_, ?_⟩
  · rintro ⟨r, hr, hw⟩
    obtain ⟨hc, he⟩ := hw.captures_eq (hr.isNumbered h)
    simp only [Json.object.injEq] at he
    exact hc (List.map_eq_nil_iff.mp he.symm)
  · rintro ⟨r, hr, hw⟩
    exact hw.patterns_ne (hr.isNumbered h) rfl
  · rintro ⟨r, hr, hw⟩
    exact hw.name_ne (hr.isNumbered h) rfl
  · rintro ⟨entries, number, ⟨r, hr, hw⟩, he⟩
    obtain ⟨-, hentries⟩ := hw.captures_eq (hr.isNumbered h)
    obtain rfl := Json.object.inj hentries
    obtain ⟨x, hx, hempty⟩ := List.mem_map.mp he
    have hmembers : x.2.members = [] := by
      rw [Capture.toJson_eq] at hempty
      exact Json.object.inj (Prod.mk.inj hempty).2
    rcases hr.of_toRule h with ⟨q, hin, hq⟩ | ⟨hc, -⟩
    · exact ⟨q, hin, (Pattern.listsBlank_iff hq).mpr ⟨x, hx, hmembers⟩⟩
    · rw [hc] at hx
      cases hx
  · rintro ⟨q, hin, hblank⟩
    obtain ⟨r, hq, hr⟩ := hin.exists_within h
    obtain ⟨x, hx, hmembers⟩ := (Pattern.listsBlank_iff hq).mp hblank
    refine ⟨_, x.1, ⟨r, hr, .captures (List.ne_nil_of_mem hx)⟩, List.mem_map.mpr ⟨x, hx, ?_⟩⟩
    rw [Capture.toJson_eq, hmembers]

/-- A letter with an empty tag, and another letter behind it. -/
def blankLetter : Pattern :=
  .link (.mk .plain (.literal "b") none { tagAs := some "" } {}) (.last (.mk .plain (.literal "c") none {} {}))

/-- A letter with a tag, in which the letter with the empty tag applies. -/
def aroundBlankLetter : Pattern :=
  .last (.mk .plain (.literal "a") (some [.pattern blankLetter, .symbol "$self"]) { tagAs := some "part" } {})

theorem aroundBlankLetter_members :
    ∃ rule, aroundBlankLetter.toRule = .ok rule ∧
      ¬ rule.toJson.Holds "captures" (.object []) ∧ ¬ rule.toJson.Holds "patterns" (.array []) ∧
      ¬ rule.toJson.Holds "name" (.string []) ∧
      ∃ entries number, rule.toJson.Holds "captures" (.object entries) ∧ (number, .object []) ∈ entries := by
  have hr : aroundBlankLetter.toRule = .ok (.mk "a"
      [("0", .mk none [.inline (.mk "(b)c" [("1", .mk (some "") [])] none), .scope "$self"])] (some "part")) := rfl
  obtain ⟨hcaptures, hpatterns, hname, hiff⟩ := Pattern.written_rule_members hr
  refine ⟨_, hr, hcaptures, hpatterns, hname, hiff.mpr ⟨blankLetter, ?_, ?_⟩⟩
  · exact .inside (g := aroundBlankLetter.head.group 0 {}) (List.mem_singleton_self _) List.mem_cons_self .self
  · exact ⟨_, List.mem_singleton_self _, rfl, rfl⟩

/-- The capture of a group with an empty tag is kept, and then written as an empty object. -/
theorem blankLetter_empty_capture :
    ∃ rule, blankLetter.toRule = .ok rule ∧
      rule.toJson.Holds "captures" (.object [("1", .object [])]) :=
  ⟨.mk "(b)c" [("1", .mk (some "") [])] none, rfl, .here List.mem_cons_self⟩

end PatternGrammar
