import PatternGrammar.Proofs.Faithfulness
import PatternGrammar.Proofs.WordLooks

/-!
# Excluded words

The words that a node excludes become the alternatives of an assertion in front of its text. A bar is set where some
text stands before a word, so that empty words in front get none. Where every word has its alternative, the assertion
excludes the places at which one of the words stands by itself, whatever their order.
-/

namespace PatternGrammar

open Regex (escapedSingle escapedExtent)

/-! ## The text of the assertion -/

/-- The assertion that none of the words stands here, with an alternative for each of them. -/
def Quantity.assertionOfEach (words : List Text) : Text :=
  "(?!\\b(?:" ++ Text.join "|" (words.map escapeRegex) ++ ")\\b)"

/-- Every word is set off from the next one: the first one is not empty, or there is no other. -/
def Quantity.SetsOff (words : List Text) : Prop := words.head? ≠ some [] ∨ words.length = 1

theorem Quantity.join_escaped_cons (w v : Text) (words : List Text) :
    Text.join "|" ((w :: v :: words).map escapeRegex) =
      escapeRegex w ++ ("|" ++ Text.join "|" ((v :: words).map escapeRegex)) :=
  List.append_assoc _ _ _

theorem Quantity.foldl_addWord_of_ne_nil {s : Text} (hs : s ≠ []) (w : Text) (words : List Text) :
    (w :: words).foldl addWord s = s ++ ("|" ++ Text.join "|" ((w :: words).map escapeRegex)) := by
  have hadd (t w : Text) (ht : t ≠ []) : addWord t w = t ++ ("|" ++ escapeRegex w) := by simp [addWord, ht]
  induction words generalizing s w with
  | nil => exact hadd s w hs
  | cons v words ih =>
      rw [List.foldl_cons, hadd s w hs, ih (by simp [hs]), join_escaped_cons]
      simp only [List.append_assoc]

/-- Behind a word that is not empty every word gets a bar of its own. -/
theorem Quantity.foldl_addWord_of_setsOff {words : List Text} (h : SetsOff words) :
    words.foldl addWord [] = Text.join "|" (words.map escapeRegex) := by
  match words with
  | [] | [w] => rfl
  | w :: v :: words =>
      have hw : w ≠ [] := by simpa [SetsOff] using h
      have hfirst : addWord [] w = escapeRegex w := rfl
      rw [List.foldl_cons, hfirst, foldl_addWord_of_ne_nil (escapeRegex_ne_nil hw), join_escaped_cons]

theorem Quantity.length_foldl_addWord_le (words : List Text) :
    (words.foldl addWord []).length ≤ (Text.join "|" (words.map escapeRegex)).length := by
  induction words with
  | nil => exact Nat.le_refl 0
  | cons w words ih =>
      by_cases hw : w = []
      · subst hw
        refine ih.trans ?_
        cases words with
        | nil => exact Nat.le_refl 0
        | cons v words =>
            rw [join_escaped_cons, List.length_append, List.length_append]
            omega
      · exact (congrArg List.length (foldl_addWord_of_setsOff (.inl (by simpa using hw)))).le

/-- Behind an empty word in front there is no bar. -/
theorem Quantity.wordsAssertion_eq_iff {words : List Text} (hne : words ≠ []) :
    wordsAssertion (some words) = assertionOfEach words ↔ SetsOff words := by
  obtain ⟨w, words, rfl⟩ := List.exists_cons_of_ne_nil hne
  have hassertion : wordsAssertion (some (w :: words)) = "(?!\\b(?:" ++ (w :: words).foldl addWord [] ++ ")\\b)" := rfl
  rw [hassertion, assertionOfEach, List.append_left_inj, List.append_right_inj]
  refine ⟨fun h => ?_, foldl_addWord_of_setsOff⟩
  by_contra hs
  simp only [SetsOff, List.head?_cons, ne_eq, Option.some.injEq, List.length_cons, not_or, not_not] at hs
  obtain ⟨rfl, hlength⟩ := hs
  obtain ⟨v, words, rfl⟩ := List.exists_cons_of_length_pos (show 0 < words.length by omega)
  have hempty : ([] :: v :: words).foldl addWord [] = (v :: words).foldl addWord [] := rfl
  have hle := length_foldl_addWord_le (v :: words)
  have hbar : (Text.ofString "|").length = 1 := by decide
  rw [← hempty, h, join_escaped_cons, List.length_append, List.length_append, hbar] at hle
  omega

/-! ## What is read in it -/

open Regex (noWordSigns anySigns)

theorem Spells.join_escaped {words : List Text} (h : ∀ w ∈ words, Spells w (Text.codePoints w)) :
    Spells (Text.join "|" (words.map PatternGrammar.escapeRegex)) (anySigns (words.map Text.codePoints)) := by
  match words with
  | [] => exact .nil
  | [w] => exact (h w List.mem_cons_self).escapeRegex
  | w :: v :: words =>
      obtain ⟨hw, hwords⟩ := List.forall_mem_cons.mp h
      have hbar : Spells "|" [Regex.Sign.bar] := .ascii (List.all_iff_forall_prop.mp (by decide))
      rw [Quantity.join_escaped_cons]
      exact hw.escapeRegex.append (hbar.append (join_escaped hwords))

theorem Spells.assertionOfEach {words : List Text} (h : ∀ w ∈ words, Spells w (Text.codePoints w)) :
    Spells (Quantity.assertionOfEach words) (noWordSigns (words.map Text.codePoints)) := by
  have hopen : Spells "(?!\\b(?:" [40, 63, 33, 92, 98, 40, 63, 58] := .ascii (List.all_iff_forall_prop.mp (by decide))
  have hclose : Spells ")\\b)" [41, 92, 98, 41] := .ascii (List.all_iff_forall_prop.mp (by decide))
  have hwhole := (hopen.append (join_escaped h)).append hclose
  rwa [List.append_assoc] at hwhole

/-- What the engine reads for these words, each a chain of single items. -/
def escapedChains (words : List Text) : List (List Regex.Single) :=
  (words.map Text.codePoints).map (·.map escapedSingle)

/-- The room that a word takes up among the alternatives. -/
def wordExtent (w : Text) : Nat := 3 + ((Text.codePoints w).map escapedExtent).sum

theorem anyOfExtent_escapedChains {words : List Text} (hne : words ≠ []) :
    21 + Regex.anyOfExtent (escapedChains words) = 18 + (words.map wordExtent).sum := by
  have hchain (w : Text) : wordExtent w = 3 + Regex.onesExtent ((Text.codePoints w).map escapedSingle) := by
    rw [wordExtent, Regex.onesExtent_escapedSingles]
  have hsum : (words.map wordExtent).sum =
      3 * words.length + ((escapedChains words).map Regex.onesExtent).sum := by
    clear hne
    induction words with
    | nil => rfl
    | cons w words ih =>
        simp only [List.map_cons, List.sum_cons, hchain, escapedChains, List.length_cons] at ih ⊢
        omega
  have hpos := List.length_pos_iff.mpr hne
  have hlength : (escapedChains words).length = words.length := by rw [escapedChains, List.length_map, List.length_map]
  rw [Regex.anyOfExtent, hsum, hlength]
  omega

theorem readWhole_assertionOfEach {words : List Text} (h : ∀ w ∈ words, Spells w (Text.codePoints w)) :
    ∃ result, Regex.readWhole (Quantity.assertionOfEach words) = .ok result ∧
      result.regex = .noWordOf (escapedChains words) ∧ result.settings = {} ∧ result.groupCount = 0 := by
  have hspells := Spells.assertionOfEach h
  have hfront : Regex.frontSettingAt? (Text.codePoints (Quantity.assertionOfEach words)) = none := by
    rw [hspells.codePoints_eq]
    rfl
  obtain ⟨fuel, hfuel⟩ := Nat.exists_eq_add_of_le (length_le_encodedLength (noWordSigns (words.map Text.codePoints)))
  obtain ⟨s, hi, he, hregex, hsettings, hopened⟩ := Regex.readItems_noWordSigns
    (Text.encodedLength (noWordSigns (words.map Text.codePoints))) (fuel + 1) (words.map Text.codePoints)
  refine ⟨s.result, (readWhole_eq_ok hfront).mpr ⟨s, ?_, he, rfl⟩, ?_, ?_, hopened⟩
  · rw [hspells.codePoints_eq, hspells.length_eq, hfuel, Nat.add_assoc, ← hfuel]
    exact hi
  · exact hregex
  · rw [Regex.ReadState.result, hsettings]
    rfl

/-! ## What is excluded -/

/-- The word stands at this place of the subject, between two boundaries of words. -/
def Text.standsIn (w subject : Text) (place : Nat) : Bool :=
  let s := Regex.Subject.ofText subject {}
  s.holdsAt .wordBoundary place && s.hasWordAt ((codePoints w).map escapedSingle) place

/-- Unless it has a vertical tab in it, a word stands where the subject goes on with it, from one boundary to another. -/
theorem Text.standsIn_iff {w tail : Text} {cs ds : List Nat} (hw : Spells w cs) (ht : Spells tail ds) (h : 11 ∉ cs)
    (front : Text) :
    let s := Regex.Subject.ofText (front ++ tail) {}
    w.standsIn (front ++ tail) front.length ↔
      w <+: tail ∧ s.holdsAt .wordBoundary front.length ∧ s.holdsAt .wordBoundary (front ++ w).length := by
  intro s
  have htaken {i : Nat} : s.takeEach? (cs.map escapedSingle) front.length = some i ↔
      w <+: tail ∧ i = (front ++ w).length := by
    simp only [s, ht.eq, Regex.Subject.takeEach?_escaped front cs ht.valid, Regex.forall₂_takenFor h]
    constructor
    · rintro ⟨_, left, rfl, rfl, rfl⟩
      rw [hw.eq, ofCodePoints, ofCodePoints, List.flatMap_append]
      exact ⟨List.prefix_append _ _, rfl⟩
    · rintro ⟨⟨rest, hrest⟩, rfl⟩
      refine ⟨cs, codePoints rest, ?_, rfl, by rw [hw.eq]⟩
      rw [← hw.codePoints_append, hrest, ← ht.eq, ht.codePoints_eq]
  rw [standsIn, Bool.and_eq_true, Regex.Subject.hasWordAt, Option.any_eq_true, hw.codePoints_eq]
  constructor
  · rintro ⟨hbefore, i, hi, hbehind⟩
    obtain ⟨hbegins, rfl⟩ := htaken.mp hi
    exact ⟨hbegins, hbefore, hbehind⟩
  · rintro ⟨hbegins, hbefore, hbehind⟩
    exact ⟨hbefore, _, htaken.mpr ⟨hbegins, rfl⟩, hbehind⟩

section
variable {words : List Text} (hne : words ≠ []) (h : ∀ w ∈ words, Spells w (Text.codePoints w))
include hne h

theorem compiles_assertionOfEach :
    (∃ c, Regex.compile (Quantity.assertionOfEach words) = .ok c) ↔
      18 + (words.map wordExtent).sum ≤ Regex.maxExtent := by
  obtain ⟨result, hread, hregex, -⟩ := readWhole_assertionOfEach h
  rw [← anyOfExtent_escapedChains hne]
  constructor
  · rintro ⟨c, hc⟩
    obtain ⟨result', widths, hread', hfits, -⟩ := Regex.compile_eq_ok.mp hc
    obtain rfl := Except.ok.inj (hread.symm.trans hread')
    exact ((Regex.Reading.Result.fits_noWordOf hregex).mp hfits).2
  · intro hle
    have hfits : result.Fits (Quantity.assertionOfEach words).length [] :=
      (Regex.Reading.Result.fits_noWordOf hregex).mpr ⟨rfl, hle⟩
    exact ⟨_, Regex.compile_eq_ok.mpr ⟨result, [], hread, hfits, rfl⟩⟩

/-- The places that the assertion excludes are those at which one of the words stands. -/
theorem attemptAt_assertionOfEach {c : Regex.Compiled} (hc : Regex.compile (Quantity.assertionOfEach words) = .ok c)
    (subject : Text) (ignored place : Nat) :
    c.attemptAt subject ignored place =
      (if words.any (·.standsIn subject place) then .refused .failed else .matched, 0) := by
  obtain ⟨result, hread, hregex, hsettings, hcount⟩ := readWhole_assertionOfEach h
  obtain ⟨result', widths, hread', hfits, rfl⟩ := Regex.compile_eq_ok.mp hc
  obtain rfl := Except.ok.inj (hread.symm.trans hread')
  obtain ⟨rfl, hle⟩ := (Regex.Reading.Result.fits_noWordOf hregex).mp hfits
  let c := result.compiled (Quantity.assertionOfEach words) []
  let e : Regex.Engine := { (c.searchIn subject).engine with ignoredSkips := ignored }
  have hcode : c.program.code = .noWordOf 0 (escapedChains words) := by
    change (Regex.programOf (Regex.Groups.ofResult result) [] result.settings result.regex).code = _
    rw [hregex, hsettings, Regex.programOf_noWordOf]
  have hleave : Regex.hasItem Regex.Item.leaves result.regex = false := by
    rw [hregex]
    exact Regex.hasItem_noWordOf (fun _ => rfl) fun _ => rfl
  have hordinary : e.Ordinary := by
    obtain ⟨h₁, h₂, h₃, h₄, h₅⟩ := result.ordinary_engine (Quantity.assertionOfEach words) subject hsettings hcount
      hleave (hcode ▸ rfl)
    exact ⟨h₁, h₂, h₃, h₄, h₅⟩
  have hcrowd : 4 < e.crowd := by
    change 4 < (result.settings.limits.memory * 1024 + Regex.frameSize result.groupCount - 1) /
      Regex.frameSize result.groupCount
    rw [hsettings, hcount]
    decide
  have hlength : (escapedChains words).length ≤ 1000000 := by
    have hmax : Regex.maxExtent = 65536 := rfl
    rw [Regex.anyOfExtent] at hle
    omega
  have hchains : escapedChains words ≠ [] := by simpa [escapedChains] using hne
  have hsubject : e.subject = Regex.Subject.ofText subject {} := by
    change Regex.Subject.ofText subject result.settings = _
    rw [hsettings]
  have hany : (e.subject.holdsAt .wordBoundary place && (escapedChains words).any (e.subject.hasWordAt · place)) =
      words.any (·.standsIn subject place) := by
    rw [hsubject, escapedChains, List.map_map, List.any_map]
    cases hb : (Regex.Subject.ofText subject {}).holdsAt .wordBoundary place <;>
      simp [Text.standsIn, hb, Function.comp_def]
  rw [← hany]
  exact hordinary.attempt_noWordOf place hcrowd hcode hchains hlength

end

theorem spells_codePoints {words : List Text} (h : ∀ w ∈ words, ∃ cs, Spells w cs) :
    ∀ w ∈ words, Spells w (Text.codePoints w) := by
  intro w hw
  obtain ⟨cs, hs⟩ := h w hw
  rwa [hs.codePoints_eq]

/-- The assertion has an alternative for each word exactly if the first word is not empty or the only one. Then it
compiles if there is room for the words, and it excludes the places at which one of them stands: repeating the
words or putting them in another order makes no difference. -/
theorem Quantity.excluded_words_written (q : Quantity) (o : Options) (body : Text) {words : List Text}
    (hne : words ≠ []) :
    (q.applyTo { o with wordCannotBeAnyOf := some words } body =
        assertionOfEach words ++ q.applyTo { o with wordCannotBeAnyOf := none } body ↔ SetsOff words) ∧
      (SetsOff words → (∀ w ∈ words, ∃ cs, Spells w cs) →
        ((∃ c, Regex.compile (wordsAssertion (some words)) = .ok c) ↔
          18 + (words.map wordExtent).sum ≤ Regex.maxExtent) ∧
        ∀ c, Regex.compile (wordsAssertion (some words)) = .ok c →
          (∀ subject place, c.attemptAt subject 0 place =
            (if words.any (·.standsIn subject place) then .refused .failed else .matched, 0)) ∧
          ∀ others, SetsOff others → (∀ w, w ∈ others ↔ w ∈ words) →
            ∀ c', Regex.compile (wordsAssertion (some others)) = .ok c' →
              ∀ subject place, c'.attemptAt subject 0 place = c.attemptAt subject 0 place) := by
  have hsame (words : Option (List Text)) :
      q.applyTo { o with wordCannotBeAnyOf := words } body = wordsAssertion words ++ q.repeated o body := rfl
  refine ⟨?_, fun hset hspells => ?_⟩
  · have hnone : wordsAssertion none = [] := rfl
    rw [hsame, hsame, hnone, List.nil_append, List.append_left_inj]
    exact wordsAssertion_eq_iff hne
  · have h := spells_codePoints hspells
    rw [(wordsAssertion_eq_iff hne).mpr hset]
    refine ⟨compiles_assertionOfEach hne h, fun c hc => ?_⟩
    have hexcluded := attemptAt_assertionOfEach hne h hc
    refine ⟨fun subject place => hexcluded subject 0 place, fun others hothers hmem c' hc' subject place => ?_⟩
    have hne' : others ≠ [] := by
      obtain ⟨w, hw⟩ := List.exists_mem_of_ne_nil words hne
      exact List.ne_nil_of_mem ((hmem w).mpr hw)
    rw [(wordsAssertion_eq_iff hne').mpr hothers] at hc'
    have hany : others.any (·.standsIn subject place) = words.any (·.standsIn subject place) := by
      rw [Bool.eq_iff_iff, List.any_eq_true, List.any_eq_true]
      simp only [hmem]
    rw [attemptAt_assertionOfEach hne' (fun w hw => h w ((hmem w).mp hw)) hc', hexcluded, hany]

/-- Two words, and the same words in another order and one of them twice. -/
theorem Quantity.excluded_if_else :
    ({} : Quantity).applyTo { wordCannotBeAnyOf := some ["if", "else"] } "\\w+" = "(?!\\b(?:if|else)\\b)\\w+" ∧
      ∃ c c', Regex.compile (wordsAssertion (some ["if", "else"])) = .ok c ∧
        Regex.compile (wordsAssertion (some ["else", "if", "else"])) = .ok c' ∧
        (c.attemptAt "if" 0 0).1 = .refused .failed ∧ (c.attemptAt "iffy" 0 0).1 = .matched ∧
        ∀ subject place, c'.attemptAt subject 0 place = c.attemptAt subject 0 place := by
  have hspells : ∀ w ∈ (["if", "else"] : List Text), ∃ cs, Spells w cs := by
    have hascii : ∀ w ∈ (["if", "else"] : List Text), w.all (·.toNat < 128) := by decide
    exact fun w hw => ⟨_, .ascii (List.all_iff_forall_prop.mp (hascii w hw))⟩
  have hmem (w : Text) : w ∈ (["else", "if", "else"] : List Text) ↔ w ∈ (["if", "else"] : List Text) := by
    simp only [List.mem_cons, List.not_mem_nil, or_false]
    tauto
  obtain ⟨htext, hwords⟩ := @excluded_words_written {} {} "\\w+" ["if", "else"] (by decide)
  obtain ⟨hcompiles, hexcluded⟩ := hwords (.inl (by decide)) hspells
  obtain ⟨-, hwords'⟩ := @excluded_words_written {} {} "\\w+" ["else", "if", "else"] (by decide)
  obtain ⟨hcompiles', -⟩ := hwords' (.inl (by decide)) fun w hw => hspells w ((hmem w).mp hw)
  obtain ⟨c, hc⟩ := hcompiles.mpr (by decide)
  obtain ⟨c', hc'⟩ := hcompiles'.mpr (by decide)
  obtain ⟨hplaces, hothers⟩ := hexcluded c hc
  refine ⟨(htext.mpr (.inl (by decide))).trans (by decide), c, c', hc, hc', ?_, ?_, ?_⟩
  · rw [hplaces, if_pos (by decide)]
  · rw [hplaces, if_neg (by decide)]
  · exact hothers _ (.inl (by decide)) hmem c' hc'

/-- Behind an empty word in front there is no bar, so that it does not count; in another order it does. -/
theorem Quantity.emptyWordFirst_lost :
    ({} : Quantity).applyTo { wordCannotBeAnyOf := some ["", "a"] } "x" = "(?!\\b(?:a)\\b)x" ∧
      assertionOfEach ["", "a"] ++ ({} : Quantity).applyTo {} "x" = "(?!\\b(?:|a)\\b)x" ∧
      ("(?!\\b(?:a)\\b)x" : Text) ≠ "(?!\\b(?:|a)\\b)x" ∧
      ∃ c c', Regex.compile (wordsAssertion (some ["", "a"])) = .ok c ∧
        Regex.compile (wordsAssertion (some ["a", ""])) = .ok c' ∧
        (c.attemptAt "b" 0 0).1 = .matched ∧ (c'.attemptAt "b" 0 0).1 = .refused .failed := by
  refine ⟨by decide, by decide, by decide, ?_⟩
  have hascii {words : List Text} (h : ∀ w ∈ words, w.all (·.toNat < 128)) :
      ∀ w ∈ words, Spells w (Text.codePoints w) :=
    spells_codePoints fun w hw => ⟨_, .ascii (List.all_iff_forall_prop.mp (h w hw))⟩
  have hlost : wordsAssertion (some ["", "a"]) = assertionOfEach ["a"] := rfl
  have hkept : wordsAssertion (some ["a", ""]) = assertionOfEach ["a", ""] := rfl
  have hone : ∀ w ∈ (["a"] : List Text), Spells w (Text.codePoints w) := hascii (by decide)
  have htwo : ∀ w ∈ (["a", ""] : List Text), Spells w (Text.codePoints w) := hascii (by decide)
  obtain ⟨c, hc⟩ := (compiles_assertionOfEach (List.cons_ne_nil _ _) hone).mpr (by decide)
  obtain ⟨c', hc'⟩ := (compiles_assertionOfEach (List.cons_ne_nil _ _) htwo).mpr (by decide)
  refine ⟨c, c', hlost ▸ hc, hkept ▸ hc', ?_, ?_⟩
  · rw [attemptAt_assertionOfEach (List.cons_ne_nil _ _) hone hc, if_neg (by decide)]
  · rw [attemptAt_assertionOfEach (List.cons_ne_nil _ _) htwo hc', if_pos (by decide)]

end PatternGrammar
