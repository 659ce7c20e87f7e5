import PatternGrammar.Proofs.Dictionary
import PatternGrammar.Proofs.Numbering
import PatternGrammar.Proofs.Paths
import PatternGrammar.Proofs.RuleContents

/-!
# Rules by themselves

The rules of a document have nothing to do with each other. Each one is loaded, and written, as if it were the
only one, and the first that fails, in the order of the names, is how the whole fails.
-/

namespace PatternGrammar

/-! ## Entry by entry -/

namespace Dictionary

variable {α β : Type} {d : Dictionary α} {e : Dictionary β} {f : Text → α → Except Error β}

/-- Every value replaced by what a step makes of it. -/
def mapEach (f : Text → α → Except Error β) : Dictionary α → Except Error (Dictionary β)
  | [] => .ok []
  | (key, v) :: rest => do
      let w ← f key v
      return (key, w) :: (← mapEach f rest)

/-- The first entry, in the order of the keys, with a property. -/
structure IsFirst (d : Dictionary α) (P : Text → α → Prop) (key : Text) (value : α) : Prop where
  mem : (key, value) ∈ d
  holds : P key value
  least : ∀ other ∈ d, P other.1 other.2 → ¬ other.1 < key

theorem IsFirst.congr {P Q : Text → α → Prop} (h : ∀ x ∈ d, P x.1 x.2 ↔ Q x.1 x.2) {key : Text} {value : α} :
    d.IsFirst P key value ↔ d.IsFirst Q key value :=
  ⟨fun hf => ⟨hf.mem, (h _ hf.mem).mp hf.holds, fun x hx hq => hf.least x hx ((h x hx).mpr hq)⟩,
    fun hf => ⟨hf.mem, (h _ hf.mem).mpr hf.holds, fun x hx hp => hf.least x hx ((h x hx).mp hp)⟩⟩

theorem mapEach_eq_ok :
    mapEach f d = .ok e ↔ List.Forall₂ (fun x y => x.1 = y.1 ∧ f x.1 x.2 = .ok y.2) d e := by
  induction d generalizing e with
  | nil =>
      rw [mapEach, List.forall₂_nil_left_iff, Except.ok.injEq, eq_comm]
  | cons x rest ih =>
      obtain ⟨key, v⟩ := x
      simp only [mapEach, Except.bind_eq_ok]
      constructor
      · rintro ⟨w, hw, tail, ht, he⟩
        cases he
        exact .cons ⟨rfl, hw⟩ (ih.mp ht)
      · intro h
        cases h with
        | @cons _ y _ tail hy ht =>
            obtain ⟨key', w⟩ := y
            obtain ⟨rfl, hw⟩ := hy
            exact ⟨w, hw, tail, ih.mpr ht, rfl⟩

theorem mapEach_eq_ok_iff_keys (hs : d.Sorted) :
    mapEach f d = .ok e ↔ e.map (·.1) = d.map (·.1) ∧
      ∀ key v, (key, v) ∈ d → ∃ w, (key, w) ∈ e ∧ f key v = .ok w := by
  rw [mapEach_eq_ok]
  constructor
  · intro h
    induction h with
    | nil => exact ⟨rfl, fun _ _ hm => by cases hm⟩
    | @cons x y rest tail hxy ht ih =>
        obtain ⟨hk, hmem⟩ := ih (List.pairwise_cons.mp hs).2
        refine ⟨?_, fun key v hm => ?_⟩
        · rw [List.map_cons, List.map_cons, hk, hxy.1]
        · rcases List.mem_cons.mp hm with rfl | hm
          · exact ⟨y.2, by rw [show key = y.1 from hxy.1]; exact List.mem_cons_self, hxy.2⟩
          · obtain ⟨w, hw, hf⟩ := hmem key v hm
            exact ⟨w, List.mem_cons_of_mem _ hw, hf⟩
  · rintro ⟨hk, hmem⟩
    have he : (e.map (·.1)).Nodup := hk ▸ hs.nodup_keys
    induction d generalizing e with
    | nil =>
        rw [List.map_nil, List.map_eq_nil_iff] at hk
        rw [hk]
        exact .nil
    | cons x rest ih =>
        obtain _ | ⟨y, tail⟩ := e
        · cases hk
        obtain ⟨hxy, htail⟩ := List.cons.inj hk
        obtain ⟨hnew, hnodup⟩ := List.nodup_cons.mp he
        -- the value under the first key can only be that of the first entry
        have hfirst {key : Text} {w : β} (hm : (key, w) ∈ y :: tail) (hkey : key = y.1) : (key, w) = y := by
          rcases List.mem_cons.mp hm with rfl | hm
          · rfl
          · exact absurd (List.mem_map_of_mem (f := (·.1)) hm) (hkey ▸ hnew)
        refine .cons ⟨hxy.symm, ?_⟩ (ih (List.pairwise_cons.mp hs).2 htail ?_ hnodup)
        · obtain ⟨w, hw, hf⟩ := hmem x.1 x.2 List.mem_cons_self
          rw [← hfirst hw hxy.symm]
          exact hf
        · intro key v hm
          obtain ⟨w, hw, hf⟩ := hmem key v (List.mem_cons_of_mem _ hm)
          rcases List.mem_cons.mp hw with hw | hw
          · have hkey : key = x.1 := (congrArg Prod.fst hw).trans hxy
            exact absurd (List.mem_map_of_mem (f := (·.1)) hm) (hkey ▸ (List.nodup_cons.mp hs.nodup_keys).1)
          · exact ⟨w, hw, hf⟩

theorem mapEach_eq_error (hs : d.Sorted) {fault : Error} :
    mapEach f d = .error fault ↔ ∃ key v, d.IsFirst (fun key v => Fails (f key v)) key v ∧ f key v = .error fault := by
  induction d with
  | nil =>
      constructor
      · intro h
        cases h
      · rintro ⟨_, _, h, -⟩
        cases h.mem
  | cons x rest ih =>
      obtain ⟨key, v⟩ := x
      obtain ⟨hlt, hr⟩ := List.pairwise_cons.mp hs
      cases hf : f key v with
      | error first =>
          have hmap : mapEach f ((key, v) :: rest) = .error first := by
            simp only [mapEach, hf, bind, Except.bind]
          have hfirst : IsFirst ((key, v) :: rest) (fun key v => Fails (f key v)) key v := by
            refine ⟨List.mem_cons_self, ⟨first, hf⟩, fun other hm _ hlt' => ?_⟩
            rcases List.mem_cons.mp hm with rfl | hm
            · exact List.lt_irrefl _ hlt'
            · exact List.lt_irrefl _ (List.lt_trans hlt' (hlt other hm))
          rw [hmap]
          constructor
          · intro h
            exact ⟨key, v, hfirst, hf.trans (congrArg _ (Except.error.inj h))⟩
          · rintro ⟨key', v', h, hfault⟩
            rcases List.mem_cons.mp h.mem with he | hm
            · cases he
              exact congrArg _ (Except.error.inj (hf.symm.trans hfault))
            · exact absurd (hlt _ hm) (h.least _ List.mem_cons_self ⟨first, hf⟩)
      | ok w =>
          have hmap : mapEach f ((key, v) :: rest) = .error fault ↔ mapEach f rest = .error fault := by
            simp only [mapEach, hf, bind, Except.bind]
            cases mapEach f rest <;> simp [pure, Except.pure]
          rw [hmap, ih hr]
          have hok : ¬ Fails (f key v) := by simp [hf]
          constructor
          · rintro ⟨key', v', h, hfault⟩
            refine ⟨key', v', ⟨List.mem_cons_of_mem _ h.mem, h.holds, fun other hm hother => ?_⟩, hfault⟩
            rcases List.mem_cons.mp hm with rfl | hm
            · exact absurd hother hok
            · exact h.least other hm hother
          · rintro ⟨key', v', h, hfault⟩
            refine ⟨key', v', ⟨?_, h.holds, fun other hm => h.least other (List.mem_cons_of_mem _ hm)⟩, hfault⟩
            rcases List.mem_cons.mp h.mem with he | hm
            · cases he
              exact absurd h.holds hok
            · exact hm

theorem Sorted.of_keys (hs : d.Sorted) (h : e.map (·.1) = d.map (·.1)) : e.Sorted := by
  have hd : (d.map (·.1)).Pairwise (· < ·) := List.pairwise_map.mpr hs
  rw [← h] at hd
  exact List.pairwise_map.mp hd

theorem keys_of_mapEach (h : mapEach f d = .ok e) : e.map (·.1) = d.map (·.1) := by
  rw [mapEach_eq_ok] at h
  induction h with
  | nil => rfl
  | cons hxy _ ih => rw [List.map_cons, List.map_cons, ih, hxy.1]

section
variable {γ : Type} {g : Text → β → Except Error γ}

/-- Two steps for every value, one after the other. -/
theorem mapEach_mapEach (h : mapEach f d = .ok e) :
    mapEach g e = mapEach (fun key v => f key v >>= g key) d := by
  rw [mapEach_eq_ok] at h
  induction h with
  | nil => rfl
  | @cons x y rest tail hxy _ ih =>
      have hx : (f x.1 x.2 >>= g x.1) = g y.1 y.2 := by
        rw [hxy.2, ← hxy.1]
        rfl
      simp only [mapEach]
      rw [hx, ih, hxy.1]

theorem exists_of_mapEach_bind {r : Dictionary γ} (h : mapEach (fun key v => f key v >>= g key) d = .ok r) :
    ∃ e, mapEach f d = .ok e := by
  rw [mapEach_eq_ok] at h
  induction h with
  | nil => exact ⟨[], rfl⟩
  | @cons x y rest tail hxy _ ih =>
      obtain ⟨e, he⟩ := ih
      obtain ⟨w, hw, -⟩ := Except.bind_eq_ok.mp hxy.2
      exact ⟨(x.1, w) :: e, by simp [mapEach, hw, he, bind, Except.bind, pure, Except.pure]⟩

end

/-- A value whose key comes behind all others is put at the end. -/
theorem insert_last {key : Text} {value : α} (h : ∀ x ∈ d, x.1 < key) :
    insert key value d = d ++ [(key, value)] := by
  induction d with
  | nil => rfl
  | cons x rest ih =>
      obtain ⟨hx, hrest⟩ := List.forall_mem_cons.mp h
      have hne : x.1 ≠ key := fun he => List.lt_irrefl key (by rwa [he] at hx)
      have hnot : ¬ Text.before key x.1 = true := fun hb =>
        List.lt_irrefl _ (List.lt_trans (Text.before_iff_lt.mp hb) hx)
      rw [insert, if_neg hne, if_neg hnot, ih hrest, List.cons_append]

end Dictionary

open Dictionary

/-! ## Loading -/

theorem loadRules_eq (plugins : List Plugin) (specs : Dictionary Json) :
    (loadRules plugins specs).2 = mapEach (loadPatternAt plugins) specs := by
  induction specs with
  | nil => rfl
  | cons x rest ih =>
      obtain ⟨name, d⟩ := x
      rw [loadRules, mapEach]
      cases loadPatternAt plugins name d with
      | error e => rfl
      | ok p =>
          dsimp only
          rw [ih]
          cases mapEach (loadPatternAt plugins) rest <;> rfl

theorem loadDocument_eq {plugins : List Plugin} {document : Json} {specs : Dictionary Json}
    (hd : document.get? "repository" = some (.object specs)) :
    (loadDocument plugins document).result = (mapEach (loadPatternAt plugins) specs).map Grammar.mk := by
  rw [← loadRules_eq]
  simp only [loadDocument, hd]
  split
  · next h => rw [h]; rfl
  · next h => rw [h]; rfl

/-- A rule at its place in a document is loaded as it is alone. -/
theorem loadPatternAt_eq_ok (plugins : List Plugin) (name : Text) {d : Json} {p : Pattern} :
    loadPatternAt plugins name d = .ok p ↔ loadPattern plugins d = .ok p :=
  (loadPatternAt_followsPath plugins d).eq_ok_iff name "pattern"

/-- A rule at its place in a document fails as it does alone, and its name stands where the path begins. -/
theorem loadPatternAt_eq_error (plugins : List Plugin) (name : Text) {d : Json} {e : Error} :
    loadPatternAt plugins name d = .error e ↔
      ∃ fault : Error, loadPattern plugins d = .error (fault.within "pattern") ∧ e = fault.within name := by
  rw [loadPattern, loadPatternAt_eq plugins name, loadPatternAt_eq plugins "pattern"]
  cases loadPatternAt plugins [] d with
  | ok p =>
      constructor
      · intro h
        cases h
      · rintro ⟨_, h, -⟩
        cases h
  | error fault =>
      constructor
      · intro h
        exact ⟨fault, rfl, (Except.error.inj h).symm⟩
      · rintro ⟨fault', h, rfl⟩
        rw [Error.within_injective _ (Except.error.inj h)]
        rfl

/-! ## Exporting -/

/-- The written form of the rule of a pattern. -/
def writtenRule (p : Pattern) : Except Error Json := do return (← p.toRule).toJson

/-- What a description comes to as a rule by itself. -/
def ruleOf (plugins : List Plugin) (spec : Json) : Except Error Json := do
  writtenRule (← loadPattern plugins spec)

theorem exportRules_eq {rules : Dictionary Pattern} (hs : rules.Sorted) {written : Dictionary Json}
    (h : ∀ x ∈ written, ∀ y ∈ rules, x.1 < y.1) :
    exportRules rules written = (mapEach (fun _ => writtenRule) rules).map (written ++ ·) := by
  induction rules generalizing written with
  | nil => simp [exportRules, mapEach, Except.map]
  | cons y rest ih =>
      obtain ⟨name, p⟩ := y
      obtain ⟨hlt, hr⟩ := List.pairwise_cons.mp hs
      rw [exportRules, mapEach, writtenRule]
      cases p.toRule with
      | error e => rfl
      | ok rule =>
          have hlast : insert name rule.toJson written = written ++ [(name, rule.toJson)] :=
            insert_last fun x hx => h x hx (name, p) List.mem_cons_self
          have hbehind : ∀ x ∈ written ++ [(name, rule.toJson)], ∀ y ∈ rest, x.1 < y.1 := by
            refine List.forall_mem_append.mpr ⟨fun x hx y hy => h x hx y (List.mem_cons_of_mem _ hy), ?_⟩
            intro x hx y hy
            rw [List.mem_singleton.mp hx]
            exact hlt y hy
          simp only [bind, Except.bind, pure, Except.pure]
          rw [hlast, ih hr hbehind]
          cases mapEach (fun _ => writtenRule) rest with
          | error e => rfl
          | ok tail => simp [Except.map]

theorem export_eq {g : Grammar} (hs : Sorted g.rules) :
    g.export = (mapEach (fun _ => writtenRule) g.rules).map fun rules =>
      .object [("repository", .object rules)] := by
  rw [Grammar.export, exportRules_eq hs (by simp)]
  cases mapEach (fun _ => writtenRule) g.rules <;> rfl

/-- The document as grammar rules. -/
def exportedDocument (plugins : List Plugin) (document : Json) : Except Error Json := do
  (← (loadDocument plugins document).result).export

section
variable {plugins : List Plugin} {document : Json} {specs : Dictionary Json}
  (hd : document.get? "repository" = some (.object specs)) (hs : specs.Sorted)
include hd

theorem loadDocument_eq_ok {g : Grammar} :
    (loadDocument plugins document).result = .ok g ↔ mapEach (loadPatternAt plugins) specs = .ok g.rules := by
  rw [loadDocument_eq hd]
  cases mapEach (loadPatternAt plugins) specs with
  | error e => simp [Except.map]
  | ok rules =>
      obtain ⟨rules'⟩ := g
      simp [Except.map]

theorem loadDocument_eq_error {e : Error} :
    (loadDocument plugins document).result = .error e ↔ mapEach (loadPatternAt plugins) specs = .error e := by
  rw [loadDocument_eq hd]
  cases mapEach (loadPatternAt plugins) specs <;> simp [Except.map]

include hs

theorem sorted_of_loadDocument {g : Grammar} (hg : (loadDocument plugins document).result = .ok g) :
    Sorted g.rules :=
  hs.of_keys (keys_of_mapEach ((loadDocument_eq_ok hd).mp hg))

theorem export_of_loadDocument {g : Grammar} (hg : (loadDocument plugins document).result = .ok g) :
    g.export = (mapEach (fun name spec => loadPatternAt plugins name spec >>= writtenRule) specs).map
      fun rules => .object [("repository", .object rules)] := by
  rw [export_eq (sorted_of_loadDocument hd hs hg), mapEach_mapEach ((loadDocument_eq_ok hd).mp hg)]

/-- A document is exported exactly if each of its rules is by itself, and then rule by rule. -/
theorem exportedDocument_eq_ok {out : Json} :
    exportedDocument plugins document = .ok out ↔ ∃ rules, out = .object [("repository", .object rules)] ∧
      rules.map (·.1) = specs.map (·.1) ∧
        ∀ name spec, (name, spec) ∈ specs → ∃ rule, (name, rule) ∈ rules ∧ ruleOf plugins spec = .ok rule := by
  have halone (name : Text) (spec rule : Json) :
      (loadPatternAt plugins name spec >>= writtenRule) = .ok rule ↔ ruleOf plugins spec = .ok rule := by
    simp only [ruleOf, Except.bind_eq_ok, loadPatternAt_eq_ok]
  have hkeys (rules : Dictionary Json) :=
    mapEach_eq_ok_iff_keys (f := fun name spec => loadPatternAt plugins name spec >>= writtenRule) (e := rules) hs
  simp only [halone] at hkeys
  simp only [exportedDocument, Except.bind_eq_ok]
  constructor
  · rintro ⟨g, hg, he⟩
    rw [export_of_loadDocument hd hs hg] at he
    cases hr : mapEach (fun name spec => loadPatternAt plugins name spec >>= writtenRule) specs with
    | error e => rw [hr] at he; cases he
    | ok rules =>
        rw [hr] at he
        exact ⟨rules, (Except.ok.inj he).symm, (hkeys rules).mp hr⟩
  · rintro ⟨rules, rfl, hr⟩
    have hr := (hkeys rules).mpr hr
    obtain ⟨loaded, hl⟩ := exists_of_mapEach_bind hr
    have hg := (loadDocument_eq_ok (g := ⟨loaded⟩) hd).mpr hl
    exact ⟨⟨loaded⟩, hg, by rw [export_of_loadDocument hd hs hg, hr]; rfl⟩

theorem get?_of_exportedDocument {rules : Dictionary Json}
    (h : exportedDocument plugins document = .ok (.object [("repository", .object rules)])) (name : Text)
    (rule : Json) :
    Dictionary.get? name rules = some rule ↔
      ∃ spec, Dictionary.get? name specs = some spec ∧ ruleOf plugins spec = .ok rule := by
  obtain ⟨rules', he, hkeys, hrules⟩ := (exportedDocument_eq_ok hd hs).mp h
  simp only [Json.object.injEq, List.cons.injEq, Prod.mk.injEq, true_and, and_true] at he
  subst he
  have hsorted := hs.of_keys hkeys
  constructor
  · intro hr
    have hmem : name ∈ specs.map (·.1) := hkeys ▸ List.mem_map_of_mem (f := (·.1)) (mem_of_get? hr)
    obtain ⟨⟨name', spec⟩, hspec, rfl⟩ := List.mem_map.mp hmem
    obtain ⟨rule', hrule', hof⟩ := hrules name' spec hspec
    rw [hsorted.get?_of_mem hrule'] at hr
    exact ⟨spec, hs.get?_of_mem hspec, by rw [hof, Option.some.inj hr]⟩
  · rintro ⟨spec, hspec, hof⟩
    obtain ⟨rule', hrule', hof'⟩ := hrules name spec (mem_of_get? hspec)
    rw [hsorted.get?_of_mem hrule', Except.ok.inj (hof'.symm.trans hof)]

end

theorem fails_iff_of_eq_ok {x y : Except Error α} (h : ∀ a, x = .ok a ↔ y = .ok a) : Fails x ↔ Fails y := by
  rw [← not_iff_not, not_fails_iff, not_fails_iff]
  exact exists_congr h

/-- The rules of a document do not influence each other. It is exported exactly if each rule can be by itself,
under the same names and each value as if its description were the only one, so that a rule is the same in every
document that describes it alike. It cannot be loaded exactly if some description cannot, and then for the reason
for which the first of these cannot be loaded alone, with its name in front of the path; a loaded one cannot be
exported exactly if some rule cannot be made, and then for the reason of the first such rule. -/
theorem exported_rule_by_rule (plugins : List Plugin) {document : Json} {specs : Dictionary Json}
    (hd : document.get? "repository" = some (.object specs)) (hs : specs.Sorted) :
    (∀ out, exportedDocument plugins document = .ok out ↔ ∃ rules, out = .object [("repository", .object rules)] ∧
      rules.map (·.1) = specs.map (·.1) ∧
        ∀ name spec, (name, spec) ∈ specs → ∃ rule, (name, rule) ∈ rules ∧ ruleOf plugins spec = .ok rule) ∧
    (∀ other specs' rules rules', other.get? "repository" = some (.object specs') → specs'.Sorted →
      exportedDocument plugins document = .ok (.object [("repository", .object rules)]) →
      exportedDocument plugins other = .ok (.object [("repository", .object rules')]) →
        ∀ name, Dictionary.get? name specs = Dictionary.get? name specs' →
          Dictionary.get? name rules = Dictionary.get? name rules') ∧
    (∀ e, (loadDocument plugins document).result = .error e ↔
      ∃ name spec, ∃ fault : Error, specs.IsFirst (fun _ spec => Fails (loadPattern plugins spec)) name spec ∧
        loadPattern plugins spec = .error (fault.within "pattern") ∧ e = fault.within name) ∧
    ∀ g e, (loadDocument plugins document).result = .ok g → (g.export = .error e ↔
      ∃ name spec p, specs.IsFirst (fun _ spec => ∃ p, loadPattern plugins spec = .ok p ∧ Fails p.toRule) name spec ∧
        loadPattern plugins spec = .ok p ∧ p.toRule = .error e) := by
  refine ⟨fun out => exportedDocument_eq_ok hd hs, ?_, ?_, ?_⟩
  · intro other specs' rules rules' hd' hs' he he' name hname
    ext rule
    rw [get?_of_exportedDocument hd hs he, get?_of_exportedDocument hd' hs' he', hname]
  · intro e
    rw [loadDocument_eq_error hd, mapEach_eq_error hs]
    have hfails (name : Text) (spec : Json) :
        Fails (loadPatternAt plugins name spec) ↔ Fails (loadPattern plugins spec) :=
      fails_iff_of_eq_ok fun _ => loadPatternAt_eq_ok plugins name
    simp only [hfails, loadPatternAt_eq_error]
    constructor
    · rintro ⟨name, spec, hfirst, fault, hfault, he⟩
      exact ⟨name, spec, fault, hfirst, hfault, he⟩
    · rintro ⟨name, spec, fault, hfirst, hfault, he⟩
      exact ⟨name, spec, hfirst, fault, hfault, he⟩
  · intro g e hg
    have hloaded : ∀ name spec, (name, spec) ∈ specs → ∃ p, loadPattern plugins spec = .ok p := by
      intro name spec hm
      obtain ⟨p, -, hp⟩ := ((mapEach_eq_ok_iff_keys hs).mp ((loadDocument_eq_ok hd).mp hg)).2 name spec hm
      exact ⟨p, (loadPatternAt_eq_ok plugins name).mp hp⟩
    have hstep {name : Text} {spec : Json} {p : Pattern} (hp : loadPattern plugins spec = .ok p) :
        (loadPatternAt plugins name spec >>= writtenRule) = writtenRule p := by
      rw [(loadPatternAt_eq_ok plugins name).mpr hp]
      rfl
    have hwritten (p : Pattern) {e : Error} : writtenRule p = .error e ↔ p.toRule = .error e := by
      unfold writtenRule
      cases p.toRule <;> simp [bind, Except.bind, pure, Except.pure]
    have hfirst {name : Text} {spec : Json} :
        specs.IsFirst (fun name spec => Fails (loadPatternAt plugins name spec >>= writtenRule)) name spec ↔
          specs.IsFirst (fun _ spec => ∃ p, loadPattern plugins spec = .ok p ∧ Fails p.toRule) name spec := by
      refine IsFirst.congr fun x hx => ?_
      obtain ⟨p, hp⟩ := hloaded x.1 x.2 hx
      simp only [hstep hp, hp, Except.ok.injEq, exists_eq_left', Fails, hwritten]
    have herror : g.export = .error e ↔
        mapEach (fun name spec => loadPatternAt plugins name spec >>= writtenRule) specs = .error e := by
      rw [export_of_loadDocument hd hs hg]
      cases mapEach (fun name spec => loadPatternAt plugins name spec >>= writtenRule) specs <;> simp [Except.map]
    rw [herror, mapEach_eq_error hs]
    simp only [hfirst]
    refine exists₂_congr fun name spec => ?_
    constructor
    · rintro ⟨hf, he⟩
      obtain ⟨p, hp, -⟩ := hf.holds
      exact ⟨p, hf, hp, (hwritten p).mp ((hstep hp).symm.trans he)⟩
    · rintro ⟨p, hf, hp, he⟩
      exact ⟨hf, (hstep hp).trans ((hwritten p).mpr he)⟩

/-- A rule with a name for its group, and a rule whose tag asks for a group of this name. -/
def crossReferring : Dictionary Json :=
  [("a", .object [("match", .string "x"), ("reference", .string "r")]),
    ("b", .object [("match", .string "y"), ("tag_as", .string "of.$reference(r)")])]

/-- A name that one rule gives to a group says nothing in another rule. -/
theorem crossReferring_unresolved : crossReferring.Sorted ∧
    ∃ g, (loadDocument [] (.object [("repository", .object crossReferring)])).result = .ok g ∧
      g.export = .error (.unresolved "r" .tag) := by
  have hs : crossReferring.Sorted := by
    rw [crossReferring, Dictionary.Sorted, List.pairwise_pair]
    exact Text.before_iff_lt.mp (by decide)
  have hrepository : Json.get? "repository" (.object [("repository", .object crossReferring)]) =
      some (.object crossReferring) := rfl
  obtain ⟨-, -, -, hexport⟩ := exported_rule_by_rule [] hrepository hs
  refine ⟨hs, _, rfl, (hexport _ _ rfl).mpr ⟨"b", _, _, ⟨List.mem_cons_of_mem _ List.mem_cons_self, ?_, ?_⟩, rfl, rfl⟩⟩
  · exact ⟨_, rfl, _, rfl⟩
  · intro other hm hother hlt
    rcases List.mem_cons.mp hm with rfl | hm
    · obtain ⟨p, hp, e, he⟩ := hother
      obtain rfl := Except.ok.inj hp
      cases he
    · rw [List.mem_singleton.mp hm] at hlt
      exact List.lt_irrefl _ hlt

end PatternGrammar
