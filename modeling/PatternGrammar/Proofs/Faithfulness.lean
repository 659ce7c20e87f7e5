import PatternGrammar.Proofs.Entity
import PatternGrammar.Proofs.Written

/-!
# Emission is faithful to the tree

The text of a pattern is read as the pattern means it: every quantifier repeats the whole of its matcher,
an alternative stands against everything before it in its chain, and every group encloses what it belongs
to. The tree says what should be read, the grammar says what is read, and the two are the same.
-/

namespace PatternGrammar

open Ascii

/-! ## What a tree means -/

/-- The quantity asks for something else than exactly one. -/
def Quantity.repeats (q : Quantity) : Bool :=
  q.isSet && !(q.lower = 1 && q.atMost = some 1)

/-- How the quantifier of a node chooses. -/
def Options.greediness (o : Options) : Greediness :=
  if o.dontBackTrack then .possessive else if o.asFewAsPossible then .lazy else .greedy

/-- The repetition of what a node matches; without a repetition only backtracking can be forbidden. -/
def Quantity.repetition (q : Quantity) (o : Options) (body : List Part) : List Part :=
  if q.repeats then [.repeated body q.lower.toNat (q.atMost.map Int.toNat) o.greediness]
  else if o.dontBackTrack then [.group .atomic body]
  else body

/-- Exactly this text. -/
def literalParts (t : Text) : List Part := t.map .byte

/-- One of the words, the first of them before the others. -/
def oneOf : List Text → List Part
  | [] => []
  | [word] => literalParts word
  | word :: rest => [.choice (literalParts word) (oneOf rest)]

/-- None of the words stands here as a whole word. -/
def noneOf : Option (List Text) → List Part
  | none | some [] => []
  | some words => [.group .notAhead (.wordBoundary :: (oneOf words ++ [.wordBoundary]))]

/-- What a lookaround does. -/
def Kind.lookAround? : Kind → Option GroupRole
  | .lookAheadFor => some .ahead
  | .lookAheadToAvoid => some .notAhead
  | .lookBehindFor => some .behind
  | .lookBehindToAvoid => some .notBehind
  | .plain | .backReference | .subroutine | .orElse => none

/-- What stands in the group of a node that captures. -/
def Node.capturedParts (n : Node) (body : List Part) : List Part :=
  if n.captures then [.group .capture body] else body

/-- A node around what its matcher means. -/
def Node.partsAround (n : Node) (matcher : List Part) : List Part :=
  match n.kind.lookAround? with
  | some look => [.group look (n.capturedParts matcher)]
  | none =>
      n.capturedParts
        (noneOf n.options.wordCannotBeAnyOf ++ n.quantity.repetition n.options matcher)

/-- A node behind what stands before it in its chain. -/
def Kind.joinParts (kind : Kind) (before own : List Part) : List Part :=
  match kind with
  | .orElse => [.choice before own]
  | _ => before ++ own

/-- The reference that a fragment is the place for. -/
def referenceParts (source : Text) : List Part :=
  match Text.afterStart? ReferenceKind.backReference.opening source with
  | some rest => [.reference .backReference (rest.take (rest.length - placeholderClosing.length))]
  | none =>
      match Text.afterStart? ReferenceKind.subroutine.opening source with
      | some rest => [.reference .subroutine (rest.take (rest.length - placeholderClosing.length))]
      | none => []

mutual
/-- What a pattern means. -/
def Pattern.parts : Pattern → List Part
  | .last node => node.parts
  | .link node next => next.partsBehind node.parts

/-- What the rest of a chain means, behind what stands before it. -/
def Pattern.partsBehind (before : List Part) : Pattern → List Part
  | .last node => node.kind.joinParts before node.parts
  | .link node next => next.partsBehind (node.kind.joinParts before node.parts)

def Node.parts : Node → List Part
  | .mk kind matcher includes options quantity =>
      (Node.mk kind matcher includes options quantity).partsAround matcher.parts

def Matcher.parts : Matcher → List Part
  | .literal text => literalParts text
  | .fragment source => referenceParts source
  | .nested pattern => pattern.parts
end

/-! ## Putting readings together -/

theorem Reads.of_atom {t : Text} {x : List Part} (h : Reads .atom t x) : Reads .sequence t x := by
  have hs := Reads.append (.once h) .nil
  rwa [List.append_nil, List.append_nil] at hs

theorem Reads.of_factor {t : Text} {x : List Part} (h : Reads .factor t x) :
    Reads .sequence t x := by
  have hs := Reads.append h .nil
  rwa [List.append_nil, List.append_nil] at hs

theorem Reads.concat {s t : Text} {x y : List Part} (h : Reads .sequence s x)
    (ht : Reads .sequence t y) : Reads .sequence (s ++ t) (x ++ y) := by
  generalize hl : Level.sequence = l at h
  induction h with
  | nil => exact ht
  | append hf _ _ ih =>
      rw [List.append_assoc, List.append_assoc]
      exact .append hf (ih hl)
  | _ => cases hl

theorem Reads.enclosed (kind : GroupRole) {t : Text} {x : List Part} (h : Reads .expression t x) :
    Reads .sequence (kind.opening ++ t ++ ")") (kind.around x) :=
  .of_atom (.group kind h)

/-! ## Literals -/

theorem escaped?_of_mem {b : UInt8} (h : b ∈ escapedBytes) : escaped? b = some (.byte b) := by
  have ha : ∀ b ∈ escapedBytes, isAlphanumeric b = false :=
    List.all_iff_forall_prop.mp (by decide)
  simp [escaped?, ha b h]

theorem escaped?_of_controlLetter? {b letter : UInt8} (h : controlLetter? b = some letter) :
    escaped? letter = some (.byte b) := by
  unfold controlLetter? at h
  repeat' split at h
  all_goals
    cases h
    try
      subst b
      rfl

theorem reads_escapeByte (b : UInt8) : Reads .atom (escapeByte b) [.byte b] := by
  unfold escapeByte
  split
  · next letter h => exact .escape (escaped?_of_controlLetter? h)
  · split
    · next h => exact .escape (escaped?_of_mem h)
    · next h =>
        have hm : ∀ b ∈ metaBytes, b ∈ escapedBytes :=
          List.all_iff_forall_prop.mp (by decide)
        exact .literal fun hb => h (hm b hb)

theorem reads_escapeRegex (t : Text) : Reads .sequence (escapeRegex t) (literalParts t) := by
  induction t with
  | nil => exact .nil
  | cons b t ih => exact .append (.once (reads_escapeByte b)) ih

/-! ## Excluded words -/

/-- The first of several words is set off by a bar, the others follow. -/
theorem Quantity.foldl_addWord_append {s t : Text} (h : t ≠ []) (words : List Text) :
    words.foldl addWord (s ++ t) = s ++ words.foldl addWord t := by
  induction words generalizing t with
  | nil => rfl
  | cons w words ih =>
      have hadd (u : Text) (hu : u ≠ []) : addWord u w = u ++ "|" ++ escapeRegex w := by
        simp [addWord, hu]
      have hst : s ++ t ≠ [] := by simp [h]
      rw [List.foldl_cons, List.foldl_cons, hadd _ hst, hadd _ h, List.append_assoc, List.append_assoc]
      rw [ih]
      · rw [List.append_assoc]
      · simp [h]

theorem escapeRegex_ne_nil {t : Text} (h : t ≠ []) : escapeRegex t ≠ [] := by
  obtain ⟨b, t, rfl⟩ := List.exists_cons_of_ne_nil h
  rw [escapeRegex_cons]
  obtain ⟨c, rest, hb, -⟩ := (reads_escapeByte b).begins
  rw [hb]
  exact List.cons_ne_nil c _

theorem Quantity.foldl_addWord_cons (w v : Text) (words : List Text) (hw : w ≠ []) (hv : v ≠ []) :
    (w :: v :: words).foldl addWord [] =
      escapeRegex w ++ "|" ++ (v :: words).foldl addWord [] := by
  have hadd : addWord (escapeRegex w) v = escapeRegex w ++ "|" ++ escapeRegex v := by
    simp [addWord, escapeRegex_ne_nil hw]
  have hfirst (u : Text) : addWord [] u = escapeRegex u := rfl
  rw [List.foldl_cons, List.foldl_cons, List.foldl_cons, hfirst, hfirst, hadd,
    foldl_addWord_append (escapeRegex_ne_nil hv)]

theorem reads_oneOf (words : List Text) (h : [] ∉ words) :
    Reads .expression (words.foldl Quantity.addWord []) (oneOf words) := by
  match words with
  | [] => exact .sequence .nil
  | [w] => exact .sequence (reads_escapeRegex w)
  | w :: v :: words =>
      have hw : w ≠ [] := fun hw => h (hw ▸ List.mem_cons_self)
      have hv : v ≠ [] := fun hv => h (hv ▸ List.mem_cons_of_mem _ List.mem_cons_self)
      rw [Quantity.foldl_addWord_cons w v words hw hv]
      exact .choice (reads_escapeRegex w)
        (reads_oneOf (v :: words) fun hm => h (List.mem_cons_of_mem _ hm))

theorem reads_wordsAssertion (words : Option (List Text)) (h : ∀ list ∈ words, [] ∉ list) :
    Reads .sequence (Quantity.wordsAssertion words) (noneOf words) := by
  match words with
  | none | some [] => exact .nil
  | some (w :: ws) =>
      have hb : Reads .sequence "\\b" [.wordBoundary] := .of_atom (.escape rfl)
      have hw := Reads.enclosed .plain (reads_oneOf (w :: ws) (h _ rfl))
      rw [Quantity.wordsAssertion_cons]
      exact .enclosed .notAhead (.sequence ((hb.concat hw).concat hb))

/-! ## Quantifiers -/

theorem isDigits_ofNat (n : Nat) : IsDigits (Text.ofNat n) :=
  ⟨Text.ofNat_ne_nil n, fun _ hb => Text.isDigit_of_mem_ofNat hb⟩

theorem Text.ofInt_of_nonneg {n : Int} (h : 0 ≤ n) : Text.ofInt n = Text.ofNat n.toNat := by
  obtain ⟨m, rfl⟩ := Int.eq_ofNat_of_zero_le h
  rfl

theorem Quantity.nonneg_of_hasNegative (q : Quantity) (h : q.hasNegative = false) :
    0 ≤ q.lower ∧ ∀ most ∈ q.atMost, 0 ≤ most := by
  simp only [hasNegative, Bool.or_eq_false_iff] at h
  constructor
  · cases hq : q.atLeast <;> simp_all [lower]
  · intro most hm
    have hq : q.atMost = some most := hm
    simpa [hq] using h.2

theorem Quantity.boundsText_eq_nil {q : Quantity} (h : q.repeats = false) : q.boundsText = [] := by
  unfold boundsText
  cases hs : q.isSet with
  | false => rfl
  | true =>
      have hone : q.lower = 1 ∧ q.atMost = some 1 := by simpa [repeats, hs] using h
      simp only [hone, Bool.not_true, Bool.false_eq_true, if_false, decide_true, Bool.and_self,
        if_true]
      rfl

theorem Quantity.quantifier_eq_nil {q : Quantity} (h : q.repeats = false) (dontBackTrack asFewAsPossible : Bool) :
    q.quantifier dontBackTrack asFewAsPossible = [] := by
  simp [quantifier, boundsText_eq_nil h]

theorem Quantity.isBounds_boundsText {q : Quantity} (hn : q.hasNegative = false)
    (h : q.repeats) : IsBounds q.boundsText q.lower.toNat (q.atMost.map Int.toNat) := by
  obtain ⟨hl, hm⟩ := q.nonneg_of_hasNegative hn
  simp only [repeats, Bool.and_eq_true, Bool.not_eq_true'] at h
  obtain ⟨hs, hone⟩ := h
  have hbraces {upper : Text} {most : Option Nat} (hu : IsUpper q.lower.toNat upper most) :
      IsBounds ("\x7b" ++ Text.ofInt q.lower ++ upper) q.lower.toNat most := by
    have hv := Text.decimalValue_ofNat q.lower.toNat
    have hb := IsBounds.braces (isDigits_ofNat q.lower.toNat) (hv.symm ▸ hu)
    rwa [hv, ← Text.ofInt_of_nonneg hl] at hb
  rw [boundsText, hs]
  cases hq : q.atMost with
  | none =>
      simp only [Bool.not_true, Bool.false_eq_true, if_false, Option.map_none]
      split
      · next h => exact h ▸ .star
      · split
        · next h => exact h ▸ .plus
        · exact hbraces .unbounded
  | some most =>
      have hmost := hm most hq
      simp only [Bool.not_true, Bool.false_eq_true, if_false, Option.map_some]
      split
      · next h =>
          simp only [hq, Option.some.injEq] at hone
          rw [hone] at h
          cases h
      · split
        · next h =>
            simp only [Bool.and_eq_true, decide_eq_true_eq] at h
            rw [h.1, h.2]
            exact .optional
        · split
          · next h =>
              subst h
              exact hbraces .same
          · have hv := Text.decimalValue_ofNat most.toNat
            have hu : IsUpper q.lower.toNat _ _ := .upTo (isDigits_ofNat most.toNat)
            rw [hv, ← Text.ofInt_of_nonneg hmost] at hu
            have hb := hbraces hu
            simpa only [List.append_assoc] using hb

theorem Quantity.quantifier_eq (q : Quantity) (o : Options) (h : q.boundsText ≠ []) :
    q.quantifier o.dontBackTrack o.asFewAsPossible = q.boundsText ++ o.greediness.text := by
  have he : q.boundsText.isEmpty = false := List.isEmpty_eq_false_iff.mpr h
  simp only [quantifier, he, Options.greediness]
  cases o.dontBackTrack <;> cases o.asFewAsPossible <;> rfl

/-- A quantifier repeats the whole of the matcher, which is put in a group unless it is one atom. -/
theorem reads_repeated {q : Quantity} (hn : q.hasNegative = false) (o : Options) {t : Text}
    {x : List Part} (h : Reads .sequence t x) :
    Reads .sequence (q.repeated o t) (q.repetition o x) := by
  unfold Quantity.repeated Quantity.repetition
  cases hr : q.repeats with
  | false =>
      simp only [Quantity.quantifier_eq_nil hr, List.isEmpty_nil, if_true, Bool.false_eq_true, if_false]
      cases o.dontBackTrack with
      | false => exact h
      | true => exact .enclosed .atomic (.sequence h)
  | true =>
      have hb := q.isBounds_boundsText hn hr
      have hne : q.boundsText ≠ [] := by
        obtain ⟨b, rest, he, -⟩ := hb.begins
        rw [he]
        exact List.cons_ne_nil b rest
      have ha : Reads .atom (if isSingleEntity t then t else "(?:" ++ t ++ ")") x := by
        split
        · next hs => exact h.atom_of_isSingleEntity hs
        · exact .group .plain (.sequence h)
      have hf := Reads.of_factor (.repeated o.greediness ha hb)
      rw [q.quantifier_eq o hne]
      simpa [hne] using hf

/-! ## The tree -/

theorem Kind.lookAround?_eq (kind : Kind) :
    kind.lookAroundOpening? = kind.lookAround?.map GroupRole.opening := by
  cases kind <;> rfl

theorem Kind.lookAround?_ne_plain (kind : Kind) : kind.lookAround? ≠ some .plain := by
  cases kind <;> simp [Kind.lookAround?]

theorem referenceParts_placeholder (kind : ReferenceKind) (name : Text) :
    referenceParts (placeholder kind name) = [.reference kind name] := by
  have hp (kind : ReferenceKind) : Text.afterStart? kind.opening (placeholder kind name) =
      some (name ++ placeholderClosing) := by
    rw [placeholder, List.append_assoc, Text.afterStart?_append]
  have hname : (name ++ placeholderClosing).take
      ((name ++ placeholderClosing).length - placeholderClosing.length) = name := by
    rw [List.length_append, Nat.add_sub_cancel, List.take_left]
  cases kind with
  | backReference => simp only [referenceParts, hp, hname]
  | subroutine =>
      have hn : Text.afterStart? ReferenceKind.backReference.opening
          (placeholder .subroutine name) = none := rfl
      simp only [referenceParts, hn, hp, hname]

/-- A fragment is a place for a reference, with a name that ends where the place does. -/
def Matcher.IsReference : Matcher → Prop
  | .fragment source => ∃ kind name, closeParen ∉ name ∧ source = placeholder kind name
  | .literal _ | .nested _ => True

/-- What faithful emission asks of a node: references as its only fragments, no empty word among those
that are excluded, and no negative bounds, which construction refuses. -/
structure Node.IsReadable (n : Node) : Prop where
  reference : n.matcher.IsReference
  words : ∀ words ∈ n.options.wordCannotBeAnyOf, [] ∉ words
  bounds : n.quantity.hasNegative = false

theorem Node.IsReadable.reads_wrap {n : Node} (hn : n.IsReadable) {t : Text} {x : List Part}
    (h : Reads .sequence t x) : Reads .sequence (n.wrap t) (n.partsAround x) := by
  have hcaptured {t : Text} {x : List Part} (h : Reads .sequence t x) :
      Reads .sequence (if n.captures then inGroup t else t) (n.capturedParts x) := by
    unfold Node.capturedParts
    split
    · exact .enclosed .capture (.sequence h)
    · exact h
  unfold Node.wrap Node.partsAround
  rw [n.kind.lookAround?_eq]
  cases hk : n.kind.lookAround? with
  | none => exact hcaptured ((reads_wordsAssertion _ hn.words).concat (reads_repeated hn.bounds _ h))
  | some look =>
      have ha : look.around (n.capturedParts x) = [.group look (n.capturedParts x)] := by
        cases look with
        | plain => exact absurd hk n.kind.lookAround?_ne_plain
        | _ => rfl
      have hl := Reads.enclosed look (.sequence (hcaptured h))
      rw [ha] at hl
      exact hl

theorem Kind.reads_join (kind : Kind) {before own : Text} {x y : List Part}
    (hb : Reads .sequence before x) (ho : Reads .sequence own y) :
    Reads .sequence (kind.join before own) (kind.joinParts x y) := by
  cases kind with
  | orElse =>
      have hc := Reads.enclosed .plain (.choice hb (.sequence ho))
      simp only [← List.append_assoc] at hc
      exact hc
  | _ => exact hb.concat ho

mutual
/-- The text of a pattern is read as what the pattern means. -/
theorem Pattern.reads_text :
    (p : Pattern) → p.Every Node.IsReadable → Reads .sequence p.text p.parts
  | .last node, h => node.reads_text h
  | .link node next, h => next.reads_textBehind (node.reads_text h.1) h.2

theorem Pattern.reads_textBehind {before : Text} {x : List Part} (hb : Reads .sequence before x) :
    (p : Pattern) → p.Every Node.IsReadable →
      Reads .sequence (p.textBehind before) (p.partsBehind x)
  | .last node, h => node.kind.reads_join hb (node.reads_text h)
  | .link node next, h => next.reads_textBehind (node.kind.reads_join hb (node.reads_text h.1)) h.2

theorem Node.reads_text : (n : Node) → n.Every Node.IsReadable → Reads .sequence n.text n.parts
  | .mk _ matcher _ _ _, h => h.1.reads_wrap (matcher.reads_text h.1.reference h.2)

theorem Matcher.reads_text :
    (m : Matcher) → m.IsReference → m.Every Node.IsReadable → Reads .sequence m.text m.parts
  | .literal text, _, _ => reads_escapeRegex text
  | .fragment _, ⟨kind, name, hn, hs⟩, _ => by
      rw [Matcher.text, Matcher.parts, hs, referenceParts_placeholder]
      exact .of_atom (.place kind hn)
  | .nested pattern, _, h => pattern.reads_text h
end

/-- The text that a pattern emits, inside whatever tree and over whatever table of groups, can be read in
exactly one way, and that is what the pattern means. -/
theorem Pattern.reads_emit_iff (p : Pattern) (hp : p.Every Node.IsReadable) {i : NodeId}
    {left after : List Group} {t : Text} (h : p.emit i left = .ok (t, after)) (x : List Part) :
    Reads .expression t x ↔ x = p.parts := by
  obtain ⟨rfl, -⟩ := (p.emit_eq_ok i).mp h
  have hr : Reads .expression p.text p.parts := .sequence (p.reads_text hp)
  constructor
  · intro hx
    exact hx.eq hr
  · rintro rfl
    exact hr

/-- A choice with both modes of repetition, excluded words and an atomic group. -/
def wordOrReference : Pattern :=
  .link
    (.mk .plain (.literal "a|") none { tagAs := some "t", asFewAsPossible := true } ⟨some 2, none⟩)
    (.link
      (.mk .backReference (.fragment (placeholder .backReference "x")) none
        { dontBackTrack := true } ⟨some 0, some 12⟩)
      (.last
        (.mk .orElse
          (.nested (.last
            (.mk .lookBehindToAvoid (.literal "\n") none { reference := some "x" } {})))
          none { dontBackTrack := true, wordCannotBeAnyOf := some ["if", "or"] } {})))

theorem wordOrReference_read :
    wordOrReference.Every Node.IsReadable ∧
      wordOrReference.emit {} (wordOrReference.groupsFrom {} 1) =
        .ok ("(?:((?:a\\|)\x7b2,\x7d?)(?#[:backreference:x:])\x7b0,12\x7d+" ++
          "|(?!\\b(?:if|or)\\b)(?>(?<!(\\n))))", []) ∧
      Reads .expression
        ("(?:((?:a\\|)\x7b2,\x7d?)(?#[:backreference:x:])\x7b0,12\x7d+" ++
          "|(?!\\b(?:if|or)\\b)(?>(?<!(\\n))))")
        [.choice
          [.group .capture [.repeated [.byte 97, .byte 124] 2 none .lazy],
            .repeated [.reference .backReference "x"] 0 (some 12) .possessive]
          [.group .notAhead
              [.wordBoundary, .choice [.byte 105, .byte 102] [.byte 111, .byte 114],
                .wordBoundary],
            .group .atomic [.group .notBehind [.group .capture [.byte 10]]]]] := by
  have hp : wordOrReference.Every Node.IsReadable := by
    refine ⟨⟨⟨trivial, nofun, by decide⟩, trivial⟩,
      ⟨⟨⟨.backReference, "x", by decide, rfl⟩, nofun, by decide⟩, trivial⟩,
      ⟨trivial, ?_, by decide⟩, ⟨trivial, nofun, by decide⟩, trivial⟩
    rintro words ⟨⟩
    decide
  have he : wordOrReference.emit {} (wordOrReference.groupsFrom {} 1) =
      .ok ("(?:((?:a\\|)\x7b2,\x7d?)(?#[:backreference:x:])\x7b0,12\x7d+" ++
        "|(?!\\b(?:if|or)\\b)(?>(?<!(\\n))))", []) := rfl
  exact ⟨hp, he, (wordOrReference.reads_emit_iff hp he _).mpr rfl⟩

end PatternGrammar
