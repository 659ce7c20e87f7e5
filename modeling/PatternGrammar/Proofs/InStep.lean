import PatternGrammar.Proofs.Passage
import PatternGrammar.Proofs.Places

/-!
# Readers in step

Some passages say the same wherever they stand between items: two readers that come to one with the same groups,
names and settings read the same pieces in it and are behind it between their own parentheses again. They may
have read different things before, and different things may follow.
-/

namespace PatternGrammar.Regex

/-! ## Two readers -/

/-- What a reader takes along besides its place and the pieces that it has read. -/
def ReadState.carried (s : ReadState) : ReadState :=
  { s with
    size := 0, rest := [], pieces := [], preceding := .other, enclosing := [], depth := 0,
    firstReferences := [] }

/-- Two readers between items that carry the same along. -/
structure Paired (s s' : ReadState) : Prop where
  steady : s.Steady
  numbers : s'.enclosing.head?.bind (·.restart) = none
  flags : s.flags = {}
  carried : s'.carried = s.carried
  depth : s'.depth ≤ s.depth

/-- Behind `base` the second of two readers has read what the first has read in its group, and `f` takes the
offsets of the second to those of the first. Where the first may repeat its last piece, so may the second. -/
structure InStep (f : Nat → Nat) (base : List Piece) (s s' : ReadState) : Prop extends Paired s s' where
  preceding : s.preceding = .other ∨ s'.preceding = s.preceding ∧ s.pieces ≠ []
  pieces : ∃ top, s'.pieces = top ++ base ∧ top.map (Piece.placed f) = s.pieces.map (Piece.placed id)

/-- The reader has gone on to `rest` between the same parentheses. -/
structure Advanced (s : ReadState) (rest : List Nat) (t : ReadState) : Prop where
  rest : t.rest = rest
  size : t.size = s.size
  enclosing : t.enclosing = s.enclosing
  depth : t.depth = s.depth

/-- In front of `r` and `r'` the offsets of the characters in texts of these sizes are those that `f` relates. -/
def Aligned (f : Nat → Nat) (size size' : Nat) (cs r r' : List Nat) : Prop :=
  ∀ v, v ≠ [] → v <:+ cs → f (size' - Text.encodedLength (v ++ r')) = size - Text.encodedLength (v ++ r)

/-- Two readers in step read the same in these characters, whatever follows. -/
def ReadAlike (cs : List Nat) : Prop :=
  ∀ (f : Nat → Nat) (base : List Piece) (s s' t : ReadState) (r r' : List Nat) (fuel : Nat),
    InStep f base s s' → Aligned f s.size s'.size cs r r' → s.rest = cs ++ r → s'.rest = cs ++ r' →
    readItems (cs.length + fuel) s = .ok ((), t) →
      ∃ u u' spare, InStep f base u u' ∧ Advanced s r u ∧ Advanced s' r' u' ∧
        readItems (fuel + spare) u = .ok ((), t) ∧
        ∀ fuel', readItems (cs.length + fuel') s' = readItems (fuel' + spare) u'

namespace Paired

variable {s s' : ReadState}

theorem steady' (h : Paired s s') : s'.Steady where
  quoted := (congrArg ReadState.quoted h.carried).trans h.steady.quoted
  expects := (congrArg ReadState.expects h.carried).trans h.steady.expects
  extended := (congrArg (·.flags.extended) h.carried).trans h.steady.extended
  plainGroups := (congrArg (·.flags.plainGroups) h.carried).trans h.steady.plainGroups
  numbers := h.numbers
  highest := (congrArg ReadState.highest h.carried).trans
    (h.steady.highest.trans (congrArg ReadState.opened h.carried).symm)

theorem flags' (h : Paired s s') : s'.flags = {} :=
  (congrArg ReadState.flags h.carried).trans h.flags

theorem settings_eq (h : Paired s s') : s'.settings = s.settings := by
  have hc := congrArg ReadState.settings h.carried
  exact hc

end Paired

namespace InStep

variable {f : Nat → Nat} {base : List Piece} {s s' : ReadState}

/-- The last pieces differ in their offsets only. -/
theorem last (h : InStep f base s s') (hp : s.pieces ≠ []) :
    ∃ last before last' top, s.pieces = last :: before ∧ s'.pieces = last' :: (top ++ base) ∧
      last'.placed f = last.placed id ∧
      top.map (Piece.placed f) = before.map (Piece.placed id) := by
  obtain ⟨last, before, hs⟩ := List.exists_cons_of_ne_nil hp
  obtain ⟨top, hs', hmap⟩ := h.pieces
  rw [hs, List.map_cons] at hmap
  obtain ⟨last', top, rfl, hlast, htop⟩ := List.map_eq_cons_iff.mp hmap
  exact ⟨last, before, last', top, hs, hs', hlast, htop⟩

theorem pieces_ne_nil (h : InStep f base s s') (hp : s.pieces ≠ []) : s'.pieces ≠ [] := by
  obtain ⟨_, _, _, _, _, hs', -⟩ := h.last hp
  exact hs' ▸ List.cons_ne_nil _ _

end InStep

namespace Advanced

variable {s t u : ReadState} {r r' : List Nat}

theorem trans (h : Advanced s r t) (h' : Advanced t r' u) : Advanced s r' u :=
  ⟨h'.rest, h'.size.trans h.size, h'.enclosing.trans h.enclosing, h'.depth.trans h.depth⟩

end Advanced

namespace Aligned

variable {f : Nat → Nat} {size size' : Nat} {u v r r' : List Nat}

theorem left (h : Aligned f size size' (u ++ v) r r') : Aligned f size size' u (v ++ r) (v ++ r') := by
  intro w hw hs
  obtain ⟨front, rfl⟩ := hs
  have hw' := h (w ++ v) (by simp [hw]) ⟨front, by rw [List.append_assoc]⟩
  rwa [List.append_assoc, List.append_assoc] at hw'

theorem right (h : Aligned f size size' (u ++ v) r r') : Aligned f size size' v r r' :=
  fun w hw hs => h w hw (hs.trans (List.suffix_append u v))

end Aligned

/-! ## Steps -/

section
variable {c : Nat} {rest : List Nat} {s s' t : ReadState}

theorem depth_le_of_readNext {x : PUnit × ReadState} (h : readNext c rest s = .ok x) : s.depth ≤ maxDepth := by
  by_contra hd
  simp only [readNext, Reading.get_bind, if_pos (Nat.lt_of_not_le hd)] at h
  cases h

/-- Unless a quotation or a comment begins, the next thing is an item. -/
theorem readNext_eq (hs : s.Steady) (hd : s.depth ≤ maxDepth)
    (hb : c = Sign.backslash → rest.head? ≠ some Sign.upperQ ∧ rest.head? ≠ some Sign.upperE)
    (hp : c = Sign.openParen → ¬ [Sign.question, Sign.numberSign] <+: rest) :
    readNext c rest s = readItem c rest s := by
  simp only [readNext, Reading.get_bind, hs.quoted, hs.extended, Bool.false_and,
    Bool.false_eq_true, if_false, if_neg (Nat.not_lt.mpr hd)]
  split
  · exact absurd rfl (hb rfl).1
  · exact absurd rfl (hb rfl).2
  · split
    · next comment _ _ => exact absurd ⟨comment, rfl⟩ (hp rfl)
    · rfl

theorem readItems_cons {fuel : Nat} (hr : s.rest = c :: rest) (hn : readNext c rest s = .ok ((), t)) :
    readItems (fuel + 1) s = readItems fuel t := by
  simp only [readItems, Reading.rest_bind, hr]
  change Except.bind (readNext c rest s) _ = _
  rw [hn]
  rfl

end

namespace ReadAlike

variable {u v : List Nat}

theorem nil : ReadAlike [] := by
  intro f base s s' t r r' fuel hs _ hr hr' h
  rw [List.length_nil, Nat.zero_add] at h
  refine ⟨s, s', 0, hs, ⟨hr, rfl, rfl, rfl⟩, ⟨hr', rfl, rfl, rfl⟩, h, fun fuel' => ?_⟩
  rw [List.length_nil, Nat.zero_add, Nat.add_zero]

theorem append (hu : ReadAlike u) (hv : ReadAlike v) : ReadAlike (u ++ v) := by
  intro f base s s' t r r' fuel hs ha hr hr' h
  have hl (n : Nat) : (u ++ v).length + n = u.length + (v.length + n) := by
    rw [List.length_append, Nat.add_assoc]
  rw [List.append_assoc] at hr hr'
  rw [hl] at h
  obtain ⟨s₁, s₁', k, hs₁, hp₁, hp₁', h₁, he₁⟩ := hu f base s s' t _ _ _ hs ha.left hr hr' h
  rw [Nat.add_assoc] at h₁
  have hav : Aligned f s₁.size s₁'.size v r r' := by
    rw [hp₁.size, hp₁'.size]
    exact ha.right
  obtain ⟨s₂, s₂', l, hs₂, hp₂, hp₂', h₂, he₂⟩ := hv f base s₁ s₁' t r r' _ hs₁ hav hp₁.rest hp₁'.rest h₁
  rw [Nat.add_assoc] at h₂
  refine ⟨s₂, s₂', k + l, hs₂, hp₁.trans hp₂, hp₁'.trans hp₂', h₂, fun fuel' => ?_⟩
  rw [hl, he₁, Nat.add_assoc, he₂, Nat.add_assoc]

/-- One step goes over the first character, and what it leaves is read alike. -/
theorem of_step {c : Nat} (h : ∀ (f : Nat → Nat) (base : List Piece) (s s' t : ReadState) (r r' : List Nat),
    InStep f base s s' → readNext c (u ++ r) s = .ok ((), t) →
      ∃ w t', w <:+ u ∧ ReadAlike w ∧ InStep f base t t' ∧ Advanced s (w ++ r) t ∧
        Advanced s' (w ++ r') t' ∧ readNext c (u ++ r') s' = .ok ((), t')) :
    ReadAlike (c :: u) := by
  intro f base s s' t r r' fuel hs ha hr hr' hi
  have hl (n : Nat) : (c :: u).length + n = u.length + n + 1 := by
    rw [List.length_cons]
    omega
  rw [hl] at hi
  obtain ⟨s₁, hn, h₁, -⟩ := readItems_succ hr hi
  obtain ⟨w, s₁', hw, hwa, hs₁, hp₁, hp₁', hn'⟩ := h f base s s' s₁ r r' hs hn
  have hle := hw.length_le
  have hk (n : Nat) : u.length + n = w.length + (n + (u.length - w.length)) := by omega
  have haw : Aligned f s₁.size s₁'.size w r r' := by
    obtain ⟨front, rfl⟩ := hw
    rw [hp₁.size, hp₁'.size]
    rw [← List.cons_append] at ha
    exact ha.right
  rw [hk] at h₁
  obtain ⟨s₂, s₂', k, hs₂, hp₂, hp₂', h₂, he⟩ :=
    hwa f base s₁ s₁' t r r' _ hs₁ haw hp₁.rest hp₁'.rest h₁
  rw [Nat.add_assoc] at h₂
  refine ⟨s₂, s₂', _, hs₂, hp₁.trans hp₂, hp₁'.trans hp₂', h₂, fun fuel' => ?_⟩
  rw [hl, readItems_cons hr' hn', hk, he, Nat.add_assoc]

end ReadAlike

/-! ## Items -/

/-- The reader with one more piece. -/
def ReadState.pushed (s : ReadState) (rest : List Nat) (p : Piece) (preceding : Preceding) (breaks : Bool) :
    ReadState :=
  { s with rest, pieces := p :: s.pieces, preceding, namesBreak := s.namesBreak || breaks }

theorem ReadState.advanced_pushed (s : ReadState) (rest : List Nat) (p : Piece) (preceding : Preceding)
    (breaks : Bool) : Advanced s rest (s.pushed rest p preceding breaks) :=
  ⟨rfl, rfl, rfl, rfl⟩

section
variable {f : Nat → Nat} {base : List Piece} {s s' : ReadState} {p p' : Piece}

theorem Paired.pushed (h : Paired s s') (rest rest' : List Nat) (preceding : Preceding) (breaks : Bool) :
    Paired (s.pushed rest p preceding breaks) (s'.pushed rest' p' preceding breaks) where
  steady := ⟨h.steady.quoted, h.steady.expects, h.steady.extended, h.steady.plainGroups, h.steady.numbers,
    h.steady.highest⟩
  numbers := h.numbers
  flags := h.flags
  carried := by
    change { s'.carried with namesBreak := s'.carried.namesBreak || breaks } =
      { s.carried with namesBreak := s.carried.namesBreak || breaks }
    rw [h.carried]
  depth := h.depth

theorem InStep.pushed (h : InStep f base s s') (hp : p'.placed f = p.placed id) (rest rest' : List Nat)
    (preceding : Preceding) (breaks : Bool) :
    InStep f base (s.pushed rest p preceding breaks) (s'.pushed rest' p' preceding breaks) where
  toPaired := h.toPaired.pushed rest rest' preceding breaks
  preceding := .inr ⟨rfl, List.cons_ne_nil _ _⟩
  pieces := by
    obtain ⟨top, hs', hmap⟩ := h.pieces
    refine ⟨p' :: top, by rw [ReadState.pushed, hs', List.cons_append], ?_⟩
    rw [List.map_cons, hp, hmap]
    rfl

end

/-- The signs are one item, wherever they stand. -/
def IsItem (c : Nat) (u : List Nat) : Prop :=
  ∃ (p : Settings → Piece) (preceding : Preceding) (breaks : Bool), (∀ g f, (p g).placed f = p g) ∧
    ∀ (s : ReadState) (rest : List Nat), s.Steady → s.flags = {} →
      readUnit 0 c (u ++ rest) { s with rest := u ++ rest } =
        .ok ((), s.pushed rest (p s.settings) preceding breaks)

theorem ReadAlike.item {c : Nat} {u : List Nat} (h : IsItem c u)
    (hc : c ∉ [Sign.star, Sign.plus, Sign.question, Sign.openBrace, Sign.openParen])
    (hb : c = Sign.backslash → ∃ d v, u = d :: v ∧ d ≠ Sign.upperQ ∧ d ≠ Sign.upperE) :
    ReadAlike (c :: u) := by
  obtain ⟨p, preceding, breaks, hp, h⟩ := h
  refine of_step fun f base s s' t r r' hs hn =>
    ⟨[], s'.pushed r' (p s'.settings) preceding breaks, List.nil_suffix, nil, ?_⟩
  simp only [List.mem_cons, List.not_mem_nil, or_false, not_or] at hc
  have hstep (x : ReadState) (rest : List Nat) (hx : x.Steady) (hf : x.flags = {}) (hd : x.depth ≤ maxDepth) :
      readNext c (u ++ rest) x = .ok ((), x.pushed rest (p x.settings) preceding breaks) := by
    rw [readNext_eq hx hd ?_ fun ho => absurd ho hc.2.2.2.2, readItem_eq_readUnit hx (by simp [hc]),
      h x rest hx hf]
    intro hcb
    obtain ⟨d, v, rfl, hd⟩ := hb hcb
    simpa using hd
  have hd := depth_le_of_readNext hn
  rw [hstep s r hs.steady hs.flags hd] at hn
  obtain rfl := (Prod.mk.inj (Except.ok.inj hn)).2
  have hsettings := hs.settings_eq
  rw [hsettings]
  exact ⟨hs.pushed ((hp _ f).trans (hp _ id).symm) r r' preceding breaks, s.advanced_pushed _ _ _ _,
    s'.advanced_pushed _ _ _ _, hsettings ▸ hstep s' r' hs.steady' hs.flags' (hs.depth.trans hd)⟩

section
variable {c : Nat} {u : List Nat}

theorem isItem_of_pushItem (i : Settings → Item) (repeatable : Bool) (hi : ∀ g, (i g).bare = i g)
    (h : ∀ (s : ReadState) (rest : List Nat), s.flags = {} →
      readUnit 0 c (u ++ rest) { s with rest := u ++ rest } =
        Reading.pushItem (i s.settings) repeatable { s with rest }) : IsItem c u := by
  refine ⟨fun g => .item (i g) {}, if repeatable then .repeatable else .other, false, fun g _ => ?_,
    fun s rest _ hf => (h s rest hf).trans ?_⟩
  · rw [Piece.placed, hi]
  · rw [ReadState.pushed, Bool.or_false]
    rfl

theorem pushLiteral_eq {s : ReadState} (hf : s.flags = {}) (c : Nat) (rest : List Nat) :
    pushLiteral c { s with rest } = .ok ((), s.pushed rest (.item (.single (.ofLiteral c false)) {}) .repeatable
      (c = Sign.carriageReturn || c = Sign.lineFeed)) := by
  obtain ⟨⟩ := s
  simp only at hf
  subst hf
  unfold pushLiteral
  split
  · next hb =>
      rw [hb, ReadState.pushed, Bool.or_true]
      rfl
  · next hb =>
      rw [Bool.not_eq_true] at hb
      rw [hb, ReadState.pushed, Bool.or_false]
      rfl

theorem isItem_of_pushLiteral (d : Nat) (h : ∀ (s : ReadState) (rest : List Nat),
    readUnit 0 c (u ++ rest) { s with rest := u ++ rest } = pushLiteral d { s with rest }) : IsItem c u :=
  ⟨fun _ => .item (.single (.ofLiteral d false)) {}, .repeatable,
    d = Sign.carriageReturn || d = Sign.lineFeed, fun _ _ => rfl,
    fun s rest _ hf => (h s rest).trans (pushLiteral_eq hf d rest)⟩

theorem isItem_bar : IsItem Sign.bar [] := by
  refine ⟨fun _ => .bar, .other, false, fun _ _ => rfl, fun s rest hs _ => Reading.modify_eq_ok.mpr ?_⟩
  have hn := hs.numbers
  cases he : s.enclosing with
  | nil => simp [ReadState.pushed, he]
  | cons g outer =>
      have hg : g.restart = none := by simpa [he] using hn
      simp [ReadState.pushed, he, hg]

theorem isItem_anchor (hc : c ∈ [Sign.caret, Sign.dollar, Sign.dot]) : IsItem c [] := by
  simp only [List.mem_cons, List.not_mem_nil, or_false] at hc
  rcases hc with rfl | rfl | rfl
  · refine isItem_of_pushItem (fun _ => .anchor .textStart) false (fun _ => rfl) fun s rest hf => ?_
    change Reading.pushItem (.anchor (if s.flags.multiline then _ else _)) false _ = _
    rw [hf]
    rfl
  · refine isItem_of_pushItem (fun _ => .anchor .textEnd) false (fun _ => rfl) fun s rest hf => ?_
    change Reading.pushItem (.anchor (if s.flags.multiline then _ else _)) false _ = _
    rw [hf]
    rfl
  · refine isItem_of_pushItem (fun _ => .single .notNewline) true (fun _ => rfl) fun s rest hf => ?_
    change Reading.pushItem (.single (if s.flags.dotAll then _ else _)) true _ = _
    rw [hf]
    rfl

theorem readUnit_literal (hc : c ∉ [Sign.openParen, Sign.closeParen, Sign.openBracket, Sign.backslash,
    Sign.openBrace, Sign.bar, Sign.caret, Sign.dollar, Sign.dot]) (rest : List Nat) :
    readUnit 0 c rest = pushLiteral c := by
  simp only [List.mem_cons, List.not_mem_nil, or_false, not_or] at hc
  obtain ⟨ho, hcl, hbr, hbs, hbc, hbar, hca, hdo, hdt⟩ := hc
  unfold readUnit
  split
  · exact absurd rfl hbar
  · exact absurd rfl hcl
  · exact absurd rfl ho
  · exact absurd rfl hbs
  · exact absurd rfl hbr
  · exact absurd rfl hca
  · exact absurd rfl hdo
  · exact absurd rfl hdt
  · exact absurd rfl hbc
  · rfl

theorem isItem_literal (hc : c ∉ [Sign.openParen, Sign.closeParen, Sign.openBracket, Sign.backslash,
    Sign.openBrace, Sign.bar, Sign.caret, Sign.dollar, Sign.dot]) : IsItem c [] :=
  isItem_of_pushLiteral c fun _ rest => by rw [List.nil_append, readUnit_literal hc]

/-- Every character is an item of its own but those that begin something else. -/
theorem isItem_single (hc : c ∉ [Sign.openParen, Sign.closeParen, Sign.openBracket, Sign.backslash,
    Sign.openBrace]) : IsItem c [] := by
  by_cases hbar : c = Sign.bar
  · exact hbar ▸ isItem_bar
  · by_cases ha : c ∈ [Sign.caret, Sign.dollar, Sign.dot]
    · exact isItem_anchor ha
    · refine isItem_literal ?_
      simp only [List.mem_cons, List.not_mem_nil, or_false, not_or] at hc ha ⊢
      exact ⟨hc.1, hc.2.1, hc.2.2.1, hc.2.2.2.1, hc.2.2.2.2, hbar, ha⟩

theorem readEscapeItem_literal {d : Nat} {s s₁ : ReadState} (h : readEscape false s = .ok (.literal d, s₁)) :
    readEscapeItem s = pushLiteral d s₁ := by
  change Except.bind (readEscape false s) _ = _
  rw [h]
  rfl

theorem isItem_escapedSign (hc : CharClass.alnum.holds c = false) : IsItem Sign.backslash [c] :=
  isItem_of_pushLiteral c fun _ _ => readEscapeItem_literal (readEscape_sign hc rfl)

/-- The letters that stand for a control character, for a kind of characters or for the boundary of a word. -/
theorem isItem_escapedLetter (hc : c ∈ [98, 102, 110, 114, 116, 118]) : IsItem Sign.backslash [c] := by
  simp only [List.mem_cons, List.not_mem_nil, or_false] at hc
  rcases hc with rfl | rfl | rfl | rfl | rfl | rfl
  · exact isItem_of_pushItem (fun _ => .anchor .wordBoundary) false (fun _ => rfl) fun _ _ _ => rfl
  · exact isItem_of_pushLiteral 12 fun _ _ => rfl
  · exact isItem_of_pushLiteral 10 fun _ _ => rfl
  · exact isItem_of_pushLiteral 13 fun _ _ => rfl
  · exact isItem_of_pushLiteral 9 fun _ _ => rfl
  · exact isItem_of_pushItem (fun g => .single (Member.ofKind g.wideClasses .vertical false).toSingle) true
      (fun _ => rfl) fun _ _ _ => rfl

end

/-! ## Quantifiers -/

theorem Piece.placed_quantified (f : Nat → Nat) (times : Times) (p : Piece) :
    (p.quantified times).placed f = (p.placed f).quantified times := by
  cases p with
  | item i once =>
      cases i with
      | verb v => cases v <;> rfl
      | _ => rfl
  | _ => rfl

theorem Piece.placed_inMode (f : Nat → Nat) (mode : RepeatMode) (p : Piece) :
    (p.inMode mode).placed f = (p.placed f).inMode mode := by
  cases p <;> rfl

/-- The reader with its last piece changed. -/
def ReadState.mended (s : ReadState) (rest : List Nat) (change : Piece → Piece) (preceding : Preceding) :
    ReadState :=
  { s with rest, pieces := s.pieces.modifyHead change, preceding }

theorem ReadState.advanced_mended (s : ReadState) (rest : List Nat) (change : Piece → Piece)
    (preceding : Preceding) : Advanced s rest (s.mended rest change preceding) :=
  ⟨rfl, rfl, rfl, rfl⟩

theorem InStep.mended {f : Nat → Nat} {base : List Piece} {s s' : ReadState} (h : InStep f base s s')
    (hp : s.pieces ≠ []) {change : Piece → Piece} (hc : ∀ f p, (change p).placed f = change (p.placed f))
    (rest rest' : List Nat) (preceding : Preceding) :
    InStep f base (s.mended rest change preceding) (s'.mended rest' change preceding) := by
  obtain ⟨last, before, last', top, hs, hs', hlast, htop⟩ := h.last hp
  have hsteady : (s.mended rest change preceding).Steady :=
    ⟨h.steady.quoted, h.steady.expects, h.steady.extended, h.steady.plainGroups, h.steady.numbers,
      h.steady.highest⟩
  refine ⟨⟨hsteady, h.numbers, h.flags, h.carried, h.depth⟩, .inr ⟨rfl, ?_⟩, change last' :: top, ?_, ?_⟩
  · rw [ReadState.mended, hs]
    exact List.cons_ne_nil _ _
  · rw [ReadState.mended, hs']
    rfl
  · rw [ReadState.mended, hs, List.modifyHead, List.map_cons, List.map_cons, hc, hc, hlast, htop]

section
variable {s : ReadState} {c : Nat} {rest after : List Nat} {least : Nat} {most : Option Nat}

theorem setMode_eq {mode : RepeatMode} (hp : s.pieces ≠ []) :
    setMode mode { s with rest } = .ok ((), s.mended rest (Piece.inMode mode) .other) := by
  obtain ⟨last, before, h⟩ := List.exists_cons_of_ne_nil hp
  refine Reading.modify_eq_ok.mpr ?_
  simp only [ReadState.mended, h, List.modifyHead]

/-- After a quantifier a sign may set its mode. -/
theorem readItem_mode {mode : RepeatMode} (hs : s.Steady) (hp : s.pieces ≠ []) (hq : s.preceding = .quantifier)
    (hm : modeAt? s.flags.ungreedy c = some mode) :
    readItem c rest s = .ok ((), s.mended rest (Piece.inMode mode) .other) := by
  rw [readItem_eq hs, if_pos hq, hm]
  exact setMode_eq hp

theorem readItem_quantifier (hs : s.Steady) (hq : quantifierAt? c rest = some (least, most, after))
    (hm : s.preceding = .quantifier → modeAt? s.flags.ungreedy c = none) :
    readItem c rest s = readQuantifier least most after { s with rest } := by
  have hnone : (if s.preceding = .quantifier then modeAt? s.flags.ungreedy c else none) = none := by
    split
    · next hp => exact hm hp
    · rfl
  rw [readItem_eq hs, hnone, hq]

theorem readQuantifier_eq (hp : s.pieces ≠ []) (hr : s.preceding = .repeatable) :
    readQuantifier least most after { s with rest } = .ok ((), s.mended after
      (Piece.quantified { least, most, mode := plainMode s.flags.ungreedy }) .quantifier) := by
  obtain ⟨last, before, h⟩ := List.exists_cons_of_ne_nil hp
  simp only [readQuantifier, Reading.skipTo, Reading.modify_bind, Reading.get_bind, hr, h, Reading.set_eq_ok,
    ReadState.mended, List.modifyHead]

theorem repeatable_of_readQuantifier {t : ReadState} (h : readQuantifier least most after s = .ok ((), t)) :
    s.preceding = .repeatable := by
  simp only [readQuantifier, Reading.skipTo, Reading.modify_bind, Reading.get_bind] at h
  cases hp : s.preceding with
  | repeatable => rfl
  | other | quantifier =>
      rw [hp] at h
      exact absurd h Reading.failBefore_ne_ok

/-- What can set a mode goes on with what follows it. -/
theorem after_eq_of_modeAt? {ungreedy : Bool} {mode : RepeatMode} (hm : modeAt? ungreedy c = some mode)
    (hq : quantifierAt? c rest = some (least, most, after)) : after = rest := by
  unfold modeAt? at hm
  split at hm
  · cases hq
    rfl
  · cases hq
    rfl
  · cases hm

end

/-- If the first reader can read the quantifier, so can the second. -/
theorem InStep.quantifier {f : Nat → Nat} {base : List Piece} {s s' t : ReadState}
    (h : InStep f base s s') {c : Nat} {rest after rest' after' : List Nat} {least : Nat} {most : Option Nat}
    (hq : quantifierAt? c rest = some (least, most, after))
    (hq' : quantifierAt? c rest' = some (least, most, after')) (hr : readItem c rest s = .ok ((), t)) :
    ∃ t', InStep f base t t' ∧ Advanced s after t ∧ Advanced s' after' t' ∧
      readItem c rest' s' = .ok ((), t') := by
  have hflags : s'.flags = s.flags := h.flags'.trans h.flags.symm
  by_cases hm : s.preceding = .quantifier ∧ ∃ mode, modeAt? s.flags.ungreedy c = some mode
  · obtain ⟨hp, mode, hm⟩ := hm
    obtain ⟨hp', hne⟩ := h.preceding.resolve_left (by rw [hp]; nofun)
    obtain rfl := after_eq_of_modeAt? hm hq
    obtain rfl := after_eq_of_modeAt? hm hq'
    rw [readItem_mode h.steady hne hp hm] at hr
    obtain rfl := (Prod.mk.inj (Except.ok.inj hr)).2
    exact ⟨_, h.mended hne (Piece.placed_inMode · mode) _ _ _, s.advanced_mended _ _ _, s'.advanced_mended _ _ _,
      readItem_mode h.steady' (h.pieces_ne_nil hne) (hp'.trans hp) (hflags ▸ hm)⟩
  · have hnone (hp : s.preceding = .quantifier) : modeAt? s.flags.ungreedy c = none :=
      Option.eq_none_iff_forall_ne_some.mpr fun mode hmode => hm ⟨hp, mode, hmode⟩
    rw [readItem_quantifier h.steady hq hnone] at hr
    have hp : s.preceding = .repeatable := repeatable_of_readQuantifier hr
    obtain ⟨hp', hne⟩ := h.preceding.resolve_left (by rw [hp]; nofun)
    have hp' := hp'.trans hp
    rw [readQuantifier_eq hne hp] at hr
    obtain rfl := (Prod.mk.inj (Except.ok.inj hr)).2
    refine ⟨_, h.mended hne (Piece.placed_quantified · _) _ after' _, s.advanced_mended _ _ _,
      s'.advanced_mended _ _ _, ?_⟩
    rw [readItem_quantifier h.steady' hq' (by rw [hp']; nofun), readQuantifier_eq (h.pieces_ne_nil hne) hp',
      hflags]

namespace ReadAlike

theorem repeating {c : Nat} (hc : c ∈ [Sign.star, Sign.plus, Sign.question]) : ReadAlike [c] := by
  refine of_step fun f base s s' t r r' hs hn => ?_
  have hd := depth_le_of_readNext hn
  have hstep (x : ReadState) (rest : List Nat) (hx : x.Steady) (hd : x.depth ≤ maxDepth) :
      readNext c rest x = readItem c rest x := by
    refine readNext_eq hx hd ?_ ?_ <;> rintro rfl <;> exact absurd hc (by decide)
  have hq : ∃ least most, ∀ rest, quantifierAt? c rest = some (least, most, rest) := by
    simp only [List.mem_cons, List.not_mem_nil, or_false] at hc
    rcases hc with rfl | rfl | rfl <;> exact ⟨_, _, fun _ => rfl⟩
  obtain ⟨least, most, hq⟩ := hq
  rw [List.nil_append, hstep s r hs.steady hd] at hn
  obtain ⟨t', ht, ha, ha', hn'⟩ := hs.quantifier (hq r) (hq r') hn
  exact ⟨[], t', List.nil_suffix, nil, ht, ha, ha', (hstep s' r' hs.steady' (hs.depth.trans hd)).trans hn'⟩

/-- Every character but a bracket, a brace, a parenthesis and a backslash is read on its own. -/
theorem single {c : Nat} (hc : c ∉ [Sign.openParen, Sign.closeParen, Sign.openBracket, Sign.backslash,
    Sign.openBrace]) : ReadAlike [c] := by
  by_cases hr : c ∈ [Sign.star, Sign.plus, Sign.question]
  · exact repeating hr
  · refine item (isItem_single hc) ?_ ?_
    · simp only [List.mem_cons, List.not_mem_nil, or_false, not_or] at hc hr ⊢
      exact ⟨hr.1, hr.2.1, hr.2.2, hc.2.2.2.2, hc.1⟩
    · simp only [List.mem_cons, List.not_mem_nil, or_false, not_or] at hc
      exact fun hb => absurd hb hc.2.2.2.1

theorem escapedSign {c : Nat} (hc : CharClass.alnum.holds c = false) : ReadAlike [Sign.backslash, c] := by
  refine item (isItem_escapedSign hc) (by decide) fun _ => ⟨c, [], rfl, ?_, ?_⟩ <;> rintro rfl <;> cases hc

theorem escapedLetter {c : Nat} (hc : c ∈ [98, 102, 110, 114, 116, 118]) : ReadAlike [Sign.backslash, c] := by
  refine item (isItem_escapedLetter hc) (by decide) fun _ => ⟨c, [], rfl, ?_, ?_⟩ <;> rintro rfl <;>
    exact absurd hc (by decide)

end ReadAlike

end PatternGrammar.Regex
