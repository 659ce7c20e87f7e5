import PatternGrammar.Proofs.CaptureCount
import PatternGrammar.Proofs.References

/-!
# No reference is dropped

A place for a reference is a comment to the engine, so one that is left over would silently match nothing.
The name in it passes three readers: the engine reads the comment when it looks for groups in the fragment,
the resolver looks for the closing, and the table of groups is asked for the name. For a name of at least one
byte without a backslash or a closing parenthesis they agree, and no comment is left.
-/

namespace PatternGrammar

open Ascii

/-! ## The engine on a place -/

namespace Regex

section
variable {comment rest : List Nat} {s s' : ReadState}

theorem readNext_comment (hq : s.quoted = false) (hx : s.flags.extended = false)
    (hd : s.depth ≤ maxDepth) (hc : Sign.closeParen ∉ comment) :
    readNext Sign.openParen
        (Sign.question :: Sign.numberSign :: (comment ++ Sign.closeParen :: rest)) s =
      Reading.skipTo rest s := by
  have hdrop : (comment ++ Sign.closeParen :: rest).dropWhile (· ≠ Sign.closeParen) =
      Sign.closeParen :: rest := by
    rw [List.dropWhile_append_of_pos]
    · rfl
    · intro c hm
      have hne : c ≠ Sign.closeParen := fun h => hc (h ▸ hm)
      simpa using hne
  have hd' : ¬ maxDepth < s.depth := by omega
  simp only [readNext, Reading.get_bind, if_neg hd', hq, hx, hdrop, Bool.false_and,
    Bool.false_eq_true, if_false]

theorem readItems_eq {fuel c : Nat} (hr : s.rest = c :: rest)
    (h : readNext c rest s = .ok ((), s')) : readItems (fuel + 1) s = readItems fuel s' := by
  rw [readItems, Reading.rest_bind, hr]
  change (readNext c rest >>= fun _ => readItems fuel) s = _
  simp only [bind, StateT.bind, h]
  rfl

/-- What is asked about a comment to see whether it has a group: a group around it, and a reference to the
first numbered group behind. -/
def commentProbe (comment : List Nat) : List Nat :=
  Sign.openParen :: Sign.question :: Sign.colon ::
    (Sign.openParen :: Sign.question :: Sign.numberSign ::
      (comment ++ [Sign.closeParen, Sign.closeParen, Sign.backslash, 49]))

/-- Of the comment nothing is left but the empty group around it. -/
theorem readItems_commentProbe (hc : Sign.closeParen ∉ comment) (size fuel : Nat) :
    ∃ s offset,
      readItems (fuel + 5) { size, rest := commentProbe comment } = .ok ((), s) ∧ s.opened = 0 ∧
        ofPieces s.pieces =
          .group .plain .stop {} (.item (.backReference ⟨.number 1, offset⟩ false) {} .stop) := by
  let after : List Nat := [Sign.closeParen, Sign.backslash, 49]
  let behind : List Nat := Sign.question :: Sign.numberSign :: (comment ++ Sign.closeParen :: after)
  let s₀ : ReadState := { size, rest := commentProbe comment }
  let s₁ : ReadState :=
    { size, rest := Sign.openParen :: behind, depth := 1
      enclosing := [{ kind := .plain, before := [], flags := {} }] }
  let s₃ : ReadState :=
    { size, rest := [Sign.backslash, 49], pieces := [.group .plain .stop {}],
      preceding := .repeatable }
  have h₀ : readNext Sign.openParen (Sign.question :: Sign.colon :: s₁.rest) s₀ = .ok ((), s₁) := rfl
  have hd : s₁.depth ≤ maxDepth := Nat.le_of_ble_eq_true rfl
  have h₁ : readNext Sign.openParen behind s₁ = .ok ((), { s₁ with rest := after }) :=
    readNext_comment rfl rfl hd hc
  have h₂ : readNext Sign.closeParen [Sign.backslash, 49] { s₁ with rest := after } = .ok ((), s₃) := rfl
  have h₃ : ∃ offset s₄, readNext Sign.backslash [49] s₃ = .ok ((), s₄) ∧ s₄.rest = [] ∧
      s₄.opened = 0 ∧ ofPieces s₄.pieces =
        .group .plain .stop {} (.item (.backReference ⟨.number 1, offset⟩ false) {} .stop) :=
    ⟨_, _, rfl, rfl, rfl, rfl⟩
  obtain ⟨offset, s₄, h₃, hr, ho, hp⟩ := h₃
  refine ⟨s₄, offset, ?_, ho, hp⟩
  rw [readItems_eq rfl h₀, readItems_eq rfl h₁, readItems_eq rfl h₂, readItems_eq rfl h₃,
    (readItems_of_rest_eq_nil _ hr).1]

end

/-- A reference to a numbered group does not compile where no group has a number. -/
theorem checkExtent_missing {v : Surveyor} (h : v.groups.count = 0) (offset : Nat) :
    checkExtent v
      (.group .plain .stop {} (.item (.backReference ⟨.number 1, offset⟩ false) {} .stop)) ≠ .ok () := by
  have ht : v.target ⟨.number 1, offset⟩ 3 5 = missing offset := by
    simp [Surveyor.target, Groups.number?, h]
  intro hr
  simp only [checkExtent, Except.bind_eq_ok] at hr
  obtain ⟨total, hs, -⟩ := hr
  simp only [Surveyor.survey, Surveyor.item, isFailure, ht, missing, Bool.false_eq_true, if_false,
    Except.bind_eq_ok, reduceCtorEq, false_and, and_false, exists_false] at hs

theorem compiles_commentProbe {t : Text} {comment : List Nat} (hc : Sign.closeParen ∉ comment)
    (ht : Text.codePoints t = commentProbe comment) (hl : 4 ≤ t.length) : compiles t = false := by
  have hfront : frontSettingAt? (Text.codePoints t) = none := by
    rw [ht]
    rfl
  obtain ⟨fuel, hfuel⟩ : ∃ fuel, t.length + 1 = fuel + 5 := ⟨t.length - 4, by omega⟩
  obtain ⟨s, offset, hi, ho, hp⟩ := readItems_commentProbe hc t.length fuel
  unfold compiles
  split
  · next result hr =>
    exfalso
    simp only [checked, Except.bind_eq_ok] at hr
    obtain ⟨result, hw, widths, -, u, he, -⟩ := hr
    obtain ⟨s', hi', hcount, hregex⟩ := readItems_of_readWhole hfront hw
    rw [ht, hfuel, hi] at hi'
    obtain rfl : s = s' := congrArg Prod.snd (Except.ok.inj hi')
    rw [hregex, hp] at he
    exact checkExtent_missing (hcount.trans ho) offset he
  · rfl

end Regex

theorem Spells.mem_text {t : Text} {cs : List Nat} (h : Spells t cs) {c : Nat} (hc : c < 128)
    (hm : c ∈ cs) : UInt8.ofNat c ∈ t := by
  obtain ⟨before, after, rfl⟩ := List.append_of_mem hm
  have he : Text.encode c = [UInt8.ofNat c] := if_pos hc
  rw [h.eq, Text.ofCodePoints, List.flatMap_append, List.flatMap_cons, he]
  simp

/-- The place for a name without a closing parenthesis has no group that the engine would find. -/
theorem hasOwnGroup_placeholder (kind : ReferenceKind) {name : Text} {cs : List Nat}
    (hs : Spells name cs) (hn : closeParen ∉ name) : hasOwnGroup (placeholder kind name) = false := by
  let inner : Text := kind.opening.drop 3
  have hopen : kind.opening = "(?#" ++ inner ∧ ∀ b ∈ inner, b.toNat < 128 ∧ b ≠ closeParen := by
    cases kind <;> exact ⟨rfl, List.all_iff_forall_prop.mp (by decide)⟩
  obtain ⟨ho, hi⟩ := hopen
  let comment : List Nat := inner.map (·.toNat) ++ cs ++ [Regex.Sign.colon, Regex.Sign.closeBracket]
  have hc : Regex.Sign.closeParen ∉ comment := by
    simp only [comment, List.mem_append, List.mem_map, not_or]
    refine ⟨⟨?_, ?_⟩, by decide⟩
    · rintro ⟨b, hb, he⟩
      exact (hi b hb).2 (UInt8.toNat_inj.mp he)
    · exact fun hm => hn (hs.mem_text (by decide) hm)
  have hfront : Spells "(?:(?#" [40, 63, 58, 40, 63, 35] :=
    .ascii (List.all_iff_forall_prop.mp (by decide))
  have hback : Spells ":]))\\1" [58, 93, 41, 41, 92, 49] :=
    .ascii (List.all_iff_forall_prop.mp (by decide))
  have ht : "(?:" ++ placeholder kind name ++ ")\\1" = "(?:(?#" ++ inner ++ name ++ ":]))\\1" := by
    rw [placeholder, ho]
    simp only [List.append_assoc]
    rfl
  have hall := ((hfront.append (.ascii fun b hb => (hi b hb).1)).append hs).append hback
  rw [hasOwnGroup, ht]
  refine Regex.compiles_commentProbe hc ?_ ?_
  · rw [hall.codePoints_eq]
    simp [Regex.commentProbe, comment]
  · have hl : ("(?:(?#" : Text).length = 6 := rfl
    simp only [List.length_append]
    omega

/-- The node that refers to the group of this name. -/
def ReferenceKind.node (kind : ReferenceKind) (name : Text) : Node :=
  .mk kind.nodeKind (.fragment (placeholder kind name)) none {} {}

theorem Pattern.referringTo_eq (kind : ReferenceKind) {name : Text} {cs : List Nat}
    (hs : Spells name cs) (hn : closeParen ∉ name) :
    Pattern.referringTo kind name = .ok (.last (kind.node name)) := by
  simp only [Pattern.referringTo, Pattern.create, Matcher.check, hasOwnGroup_placeholder kind hs hn]
  cases kind <;> rfl

theorem isPlaceName_of_closeParen {name : Text} (hne : name ≠ []) (hb : backslash ∉ name)
    (hc : closeParen ∉ name) : IsPlaceName name := by
  refine ⟨hne, hb, fun h => hc (h.subset ?_)⟩
  rw [placeholderClosing_eq]
  simp

/-! ## The text that is left -/

theorem written_place (number : Text → Int) (kind : ReferenceKind) (name : Text)
    (rest : List RegexPiece) :
    written number (.place kind name :: rest) =
      kind.render (number name) (startsWithDigit rest) ++ written number rest := by
  cases kind <;> simp [written, ReferenceKind.render, startsWithDigit_eq]

theorem numberSign_notMem_render (kind : ReferenceKind) (number : Int) (digit : Bool) :
    numberSign ∉ kind.render number digit := by
  have hn : numberSign ∉ Text.ofInt number := Text.notMem_ofInt (by decide) (by decide)
  have hsigns : ∀ t ∈ (["\\", "(?:)", "", "\\g<", ">"] : List Text), numberSign ∉ t := by decide
  simp only [List.forall_mem_cons] at hsigns
  obtain ⟨h₁, h₂, h₃, h₄, h₅, -⟩ := hsigns
  cases kind <;> cases digit <;> simp [ReferenceKind.render, h₁, h₂, h₃, h₄, h₅, hn]

/-- Writing the references keeps every number sign behind its backslash. -/
theorem isChain_keep_written (number : Text → Int) {pieces : List RegexPiece}
    (h : pieces.IsChain KeepsApart) :
    (keep (written number pieces)).IsChain KeepsApart ∧
      ((written number pieces).head? = some numberSign → pieces.head? = some (.byte numberSign)) := by
  induction pieces with
  | nil => exact ⟨.nil, fun h => absurd h (by simp [written])⟩
  | cons piece rest ih =>
      obtain ⟨hchain, hhead⟩ := ih h.tail
      -- a number sign that follows the piece now followed it before
      have hnext : ∀ y ∈ (keep (written number rest)).head?, y = .byte numberSign →
          KeepsApart piece (.byte numberSign) := by
        intro y hy hs
        have hw : (written number rest).head? = some numberSign := by
          simpa [keep, hs] using hy
        have hr := hhead hw
        cases rest with
        | nil => cases hr
        | cons second rest =>
            cases hr
            exact (List.isChain_cons_cons.mp h).1
      cases piece with
      | byte b =>
          refine ⟨?_, fun hb => by simpa [written] using hb⟩
          rw [written, keep_cons, List.isChain_cons]
          exact ⟨fun y hy hs => hnext y hy hs rfl, hchain⟩
      | place kind name =>
          have hs := numberSign_notMem_render kind (number name) (startsWithDigit rest)
          rw [written_place, keep_append]
          refine ⟨List.isChain_append.mpr ⟨(Unmarked.of_keep hs).chain, hchain, ?_⟩, ?_⟩
          · intro x _ y hy he
            cases hnext y hy he rfl
          · intro hh
            cases hr : kind.render (number name) (startsWithDigit rest) with
            | nil => cases kind <;> cases hr
            | cons b t =>
                rw [hr] at hh hs
                cases hh
                exact absurd List.mem_cons_self hs

theorem not_comment_of_isChain {t : Text} (h : (keep t).IsChain KeepsApart) :
    ¬ ("(?#" : Text) <:+: t := by
  rintro ⟨before, after, rfl⟩
  have hk : keep (before ++ "(?#" ++ after) =
      (keep before ++ [.byte openParen]) ++ .byte question :: .byte numberSign :: keep after := by
    simp only [keep_append, List.append_assoc]
    rfl
  rw [hk, List.isChain_append] at h
  have hq := (List.isChain_cons_cons.mp h.2.1).1 rfl
  exact absurd hq (by decide)

/-! ## Every reference -/

/-- A reference to any name without a closing parenthesis can be built, and a name of at least one byte
without a backslash is told from what surrounds it. In every tree of such references each one becomes the
number of the last node that has its name, and no comment is left in the text. Evaluation succeeds if all the
names are those of nodes; otherwise it fails with the first one that is not. -/
theorem Pattern.no_reference_dropped (kind : ReferenceKind) (name : Text)
    (hs : ∃ cs, Spells name cs) (hc : closeParen ∉ name) (p : Pattern)
    (hp : p.Every (·.matcher.MarksPlaces)) :
    (∃ n, Pattern.referringTo kind name = .ok (.last n) ∧
        n.matcher.reference? = some (kind, name) ∧
        (name ≠ [] → backslash ∉ name → n.Every (·.matcher.MarksPlaces))) ∧
      (∀ t, p.evaluate = .ok t →
        ¬ ("(?#" : Text) <:+: t ∧
          ∃ number : Text → Int, (∀ r ∈ p.references, ∃ x, p.Means r.2 x (number r.2)) ∧
            referencesIn p.wholePieces = p.references ∧ t = written number p.wholePieces) ∧
      ((∀ r ∈ p.references, p.HasNamed r.2) → ∃ t, p.evaluate = .ok t) ∧
      ((∃ r ∈ p.references, ¬ p.HasNamed r.2) →
        ∃ before r after, p.references = before ++ r :: after ∧ (∀ s ∈ before, p.HasNamed s.2) ∧
          ¬ p.HasNamed r.2 ∧ p.evaluate = .error (.unresolved r.2 (.regex r.1))) := by
  refine ⟨?_, ?_, ?_, ?_⟩
  · obtain ⟨cs, hs⟩ := hs
    refine ⟨kind.node name, Pattern.referringTo_eq kind hs hc, ?_, ?_⟩
    · exact Matcher.reference?_eq_some.mpr rfl
    · intro hne hb
      exact ⟨.inr ⟨kind, name, isPlaceName_of_closeParen hne hb hc, rfl⟩, trivial⟩
  · intro t ht
    have hunmarked : Unmarked p.wholePieces := Unmarked.composes.wholePieces p hp
    obtain ⟨number, hm, rfl⟩ := (Pattern.evaluate_eq_ok hp).mp ht
    refine ⟨?_, number, hm, p.referencesIn_wholePieces hp, rfl⟩
    exact not_comment_of_isChain (isChain_keep_written number hunmarked.chain).1
  · intro hall
    have hm : ∀ r ∈ p.references, ∃ x, p.Means r.2 x (numberIn p.groups r.2) :=
      fun r hr => (hall r hr).means_numberIn
    exact ⟨_, (Pattern.evaluate_eq_ok hp).mpr ⟨_, hm, rfl⟩⟩
  · intro hmissing
    cases he : p.evaluate with
    | ok t =>
        obtain ⟨number, hm, -⟩ := (Pattern.evaluate_eq_ok hp).mp he
        obtain ⟨r, hr, hnone⟩ := hmissing
        obtain ⟨x, hx⟩ := hm r hr
        exact absurd hx.hasNamed hnone
    | error e =>
        obtain ⟨before, kind, name, after, hr, hb, hn, rfl⟩ := (Pattern.evaluate_eq_error hp).mp he
        exact ⟨before, (kind, name), after, hr, hb, hn, rfl⟩

/-- A node of the name `x`, a reference to it, and a call of a group. -/
def calledBehind (name : Text) : Pattern :=
  .link (.mk .plain (.literal "a") none { reference := some "x" } {})
    (.link (ReferenceKind.backReference.node "x") (.last (ReferenceKind.subroutine.node name)))

theorem calledBehind_replaced :
    (∃ n, Pattern.referringTo .subroutine "y" = .ok (.last n) ∧
        n.Every (·.matcher.MarksPlaces)) ∧
      (calledBehind "x").evaluate = .ok "(a)\\1\\g<1>" ∧
      ¬ ("(?#" : Text) <:+: ("(a)\\1\\g<1>" : Text) ∧
      (calledBehind "y").evaluate = .error (.unresolved "y" (.regex .subroutine)) := by
  have hs {name : Text} (h : name.all (·.toNat < 128)) : ∃ cs, Spells name cs :=
    ⟨_, .ascii (List.all_iff_forall_prop.mp h)⟩
  have hx : IsPlaceName "x" := by decide
  have hp {name : Text} (h : IsPlaceName name) : (calledBehind name).Every (·.matcher.MarksPlaces) :=
    ⟨⟨trivial, trivial⟩, ⟨.inr ⟨.backReference, "x", hx, rfl⟩, trivial⟩,
      .inr ⟨.subroutine, name, h, rfl⟩, trivial⟩
  obtain ⟨-, hresolved, -⟩ :=
    Pattern.no_reference_dropped .backReference "x" (hs (by decide)) (by decide) (calledBehind "x") (hp hx)
  obtain ⟨⟨n, hn, -, hm⟩, -, -, hunresolved⟩ :=
    Pattern.no_reference_dropped .subroutine "y" (hs (by decide)) (by decide) (calledBehind "y")
      (hp (by decide))
  have he : (calledBehind "x").evaluate = .ok "(a)\\1\\g<1>" := rfl
  have hnamed (name : Text) : (calledBehind "y").HasNamed name ↔ ("x" : Text) = name := by
    simp [Pattern.HasNamed, calledBehind, Pattern.nodes, Node.nestedNodes, Matcher.nodes,
      ReferenceKind.node, Node.options]
  have hrefs : (calledBehind "y").references =
      [(ReferenceKind.backReference, ("x" : Text)), (ReferenceKind.subroutine, ("y" : Text))] := rfl
  have hy : ¬ (calledBehind "y").HasNamed "y" := fun h => absurd ((hnamed _).mp h) (by decide)
  refine ⟨⟨n, hn, hm (by decide) (by decide)⟩, he, (hresolved _ he).1, ?_⟩
  obtain ⟨before, r, after, hr, -, hm, he⟩ :=
    hunresolved ⟨(ReferenceKind.subroutine, ("y" : Text)), by simp [hrefs], hy⟩
  have hmem : r ∈ (calledBehind "y").references := by simp [hr]
  rw [hrefs] at hmem
  simp only [List.mem_cons, List.not_mem_nil, or_false] at hmem
  rcases hmem with rfl | rfl
  · exact absurd ((hnamed _).mpr rfl) hm
  · exact he

/-! ## Names that are not told -/

theorem afterStart?_closing_of_backslash {name : Text} (hb : backslash ∈ name)
    (hc : closeParen ∉ name) (after : Text) :
    Text.afterStart? placeholderClosing (name ++ after) = none := by
  cases h : Text.afterStart? placeholderClosing (name ++ after) with
  | none => rfl
  | some rest =>
      exfalso
      have he := Text.eq_append_of_afterStart? h
      rw [placeholderClosing_eq] at he
      match name with
      | [] => cases hb
      | [a] =>
          simp only [List.cons_append, List.nil_append, List.cons.injEq] at he
          obtain ⟨rfl, -⟩ := he
          exact absurd hb (by decide)
      | [a, b] =>
          simp only [List.cons_append, List.nil_append, List.cons.injEq] at he
          obtain ⟨rfl, rfl, -⟩ := he
          exact absurd hb (by decide)
      | a :: b :: c :: inner =>
          simp only [List.cons_append, List.nil_append, List.cons.injEq] at he
          obtain ⟨rfl, rfl, rfl, -⟩ := he
          exact hc (by simp)

theorem untilClosing?_of_backslash {name : Text} (hb : backslash ∈ name) (hc : closeParen ∉ name)
    (after : Text) : untilClosing? (name ++ after) = none := by
  induction name with
  | nil => cases hb
  | cons b rest ih =>
      have hclosing := afterStart?_closing_of_backslash hb hc after
      rw [List.cons_append] at hclosing ⊢
      rw [untilClosing?, hclosing]
      by_cases hbs : b = backslash
      · simp [hbs]
      · have hr : backslash ∈ rest := (List.mem_cons.mp hb).resolve_left (Ne.symm hbs)
        simp [hbs, ih hr fun hm => hc (List.mem_cons_of_mem _ hm)]

theorem placeName?_eq_none {name : Text} (hb : name = [] ∨ backslash ∈ name)
    (hc : closeParen ∉ name) : placeName? (name ++ placeholderClosing) = none := by
  cases name with
  | nil => rfl
  | cons b rest =>
      rw [List.cons_append, placeName?]
      by_cases hbs : b = backslash
      · simp [hbs]
      · have hr : backslash ∈ rest := by
          simpa [Ne.symm hbs] using hb
        have hu := untilClosing?_of_backslash hr (fun hm => hc (List.mem_cons_of_mem _ hm))
          placeholderClosing
        simp [hbs, hu]

theorem startingPlace?_placeholder_of_backslash (kind : ReferenceKind) {name : Text}
    (hb : name = [] ∨ backslash ∈ name) (hc : closeParen ∉ name) :
    startingPlace? (placeholder kind name) = none := by
  have hp : placeOf? kind (placeholder kind name) = none := by
    rw [placeOf?, placeholder, List.append_assoc, Text.afterStart?_append]
    exact placeName?_eq_none hb hc
  rw [startingPlace?]
  cases kind with
  | backReference =>
      rw [hp]
      rfl
  | subroutine =>
      have hne := placeOf?_backReference_subroutine name []
      rw [List.append_nil] at hne
      rw [hne, hp]
      rfl

/-- A lone reference to a name that is empty or has a backslash is not resolved and not refused: its place
is left as it stands, and the engine takes it for a comment. -/
theorem Pattern.evaluate_reference_of_backslash (kind : ReferenceKind) {name : Text}
    (hb : name = [] ∨ backslash ∈ name) (hc : closeParen ∉ name) (hn : numberSign ∉ name) :
    (Pattern.last (kind.node name)).evaluate = .ok (placeholder kind name) := by
  have hwhole : (Pattern.last (kind.node name)).wholeText = placeholder kind name := by
    cases kind <;> rfl
  have hpieces : regexPieces (placeholder kind name) = keep (placeholder kind name) := by
    have hstart := startingPlace?_placeholder_of_backslash kind hb hc
    obtain ⟨inner, hi, ho⟩ : ∃ inner, numberSign ∉ inner ∧
        kind.opening = openParen :: question :: numberSign :: inner := by
      cases kind <;> exact ⟨_, by decide, rfl⟩
    have hm : placeholder kind name =
        openParen :: question :: numberSign :: (inner ++ name ++ placeholderClosing) := by
      rw [placeholder, ho]
      rfl
    have hs : numberSign ∉ inner ++ name ++ placeholderClosing := by
      simp only [List.mem_append, not_or]
      exact ⟨⟨hi, hn⟩, by decide⟩
    rw [hm] at hstart ⊢
    rw [regexPieces, regexPiecesAfter, hstart]
    change _ :: .byte question :: .byte numberSign :: regexPieces (inner ++ name ++ placeholderClosing) = _
    rw [regexPieces_of_unmarked hs]
    rfl
  rw [Pattern.evaluate, Pattern.unresolved_eq, hwhole]
  change fillPieces _ (regexPieces (placeholder kind name)) = _
  rw [hpieces, fillPieces_eq, fillBefore_keep]

/-- A node with a name, and a reference to that name. -/
def referredBehind (name : Text) : Pattern :=
  .link (.mk .plain (.literal "a") none { reference := some name } {})
    (.last (ReferenceKind.backReference.node name))

/-- Behind a node of the same name, a name with a backslash and the empty name are left as comments, a name with
a closing in it is taken for another, and one that ends the comment and opens a group is refused. -/
theorem referredBehind_dropped :
    ((referredBehind "x\\y").HasNamed "x\\y" ∧
      Pattern.referringTo .backReference "x\\y" = .ok (.last (ReferenceKind.backReference.node "x\\y")) ∧
      (referredBehind "x\\y").evaluate = .ok "(a)(?#[:backreference:x\\y:])") ∧
      (referredBehind "").evaluate = .ok "(a)(?#[:backreference::])" ∧
      (referredBehind "x:])y").evaluate = .error (.unresolved "x" (.regex .backReference)) ∧
      Pattern.referringTo .backReference "x)(y" =
        .error (.construction (.capturingFragment (placeholder .backReference "x)(y"))) := by
  refine ⟨⟨?_, ?_, rfl⟩, rfl, rfl, ?_⟩
  · exact ⟨_, List.mem_cons_self, rfl⟩
  · exact Pattern.referringTo_eq _ (.ascii (List.all_iff_forall_prop.mp (by decide))) (by decide)
  · have hg : hasOwnGroup (placeholder .backReference "x)(y") = true := by decide +kernel
    simp only [Pattern.referringTo, Pattern.create, Matcher.check, hg]
    rfl

end PatternGrammar
