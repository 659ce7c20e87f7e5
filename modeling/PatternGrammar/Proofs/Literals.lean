import PatternGrammar.Proofs.Chains

/-!
# Literals in an expression

The expression that stands for a literal is read character by character, each with its backslash if it has one.
Searched for in a group that takes the whole subject, it finds the literal itself and nothing else, but for one
character: the escape of a vertical tab is the one of all vertical space.
-/

namespace PatternGrammar.Regex

/-! ## Reading -/

/-- The characters that stand for a character of a literal. -/
def escapedSigns (c : Nat) : List Nat :=
  if c < 128 then (escapeByte (UInt8.ofNat c)).map (·.toNat) else [c]

/-- What the engine reads in the characters that stand for a character of a literal. -/
def escapedSingle (c : Nat) : Single := if c = 11 then .kind .vertical false else .literal c false

/-- How a character of a literal is written: by a letter behind a backslash, behind a backslash itself, or bare. -/
inductive Escaping : Nat → List Nat → Prop where
  | letter {c l : Nat} : (l, c) ∈ [(110, 10), (116, 9), (114, 13), (102, 12)] → Escaping c [Sign.backslash, l]
  | vertical : Escaping 11 [Sign.backslash, 118]
  | sign {c : Nat} : c ≠ 11 → CharClass.alnum.holds c = false → Escaping c [Sign.backslash, c]
  | bare {c : Nat} : c ≠ 11 → c ∉ [Sign.openParen, Sign.closeParen, Sign.openBracket, Sign.backslash, Sign.openBrace,
      Sign.bar, Sign.caret, Sign.dollar, Sign.dot, Sign.star, Sign.plus, Sign.question] → Escaping c [c]

theorem escaping_escapedSigns (c : Nat) : Escaping c (escapedSigns c) := by
  by_cases hc : c < 128
  · have hcases : ∀ c < 128,
        (∃ l ∈ [110, 116, 114, 102], escapedSigns c = [Sign.backslash, l] ∧
            (l, c) ∈ [(110, 10), (116, 9), (114, 13), (102, 12)]) ∨
          (c = 11 ∧ escapedSigns c = [Sign.backslash, 118]) ∨
          (c ≠ 11 ∧ escapedSigns c = [Sign.backslash, c] ∧ CharClass.alnum.holds c = false) ∨
          (c ≠ 11 ∧ escapedSigns c = [c] ∧ c ∉ [Sign.openParen, Sign.closeParen, Sign.openBracket, Sign.backslash,
            Sign.openBrace, Sign.bar, Sign.caret, Sign.dollar, Sign.dot, Sign.star, Sign.plus, Sign.question]) := by
      decide +kernel
    rcases hcases c hc with ⟨l, -, h, hl⟩ | ⟨rfl, h⟩ | ⟨hne, h, hs⟩ | ⟨hne, h, hs⟩
    · exact h ▸ .letter hl
    · exact h ▸ .vertical
    · exact h ▸ .sign hne hs
    · exact h ▸ .bare hne hs
  · rw [escapedSigns, if_neg hc]
    have hs : ∀ d ∈ [Sign.openParen, Sign.closeParen, Sign.openBracket, Sign.backslash, Sign.openBrace, Sign.bar,
        Sign.caret, Sign.dollar, Sign.dot, Sign.star, Sign.plus, Sign.question], d < 128 := by decide
    exact .bare (by omega) fun h => hc (hs c h)

/-- Every character takes up one sign at least. -/
theorem length_le_escapedSigns (word : List Nat) : word.length ≤ (word.flatMap escapedSigns).length := by
  rw [List.length_flatMap, ← List.length_map (f := fun c => (escapedSigns c).length)]
  refine List.length_le_sum_of_one_le _ fun n hn => ?_
  obtain ⟨c, -, rfl⟩ := List.mem_map.mp hn
  have he := escaping_escapedSigns c
  generalize escapedSigns c = signs at he ⊢
  cases he <;> simp

/-- A reader between items with no settings of its own, not too deep in groups. -/
structure ReadState.Ready (s : ReadState) : Prop where
  steady : s.Steady
  flags : s.flags = {}
  depth : s.depth ≤ maxDepth

theorem ReadState.Ready.pushed {s : ReadState} (h : s.Ready) (rest : List Nat) (p : Piece) (preceding : Preceding)
    (breaks : Bool) : (s.pushed rest p preceding breaks).Ready :=
  ⟨⟨h.steady.quoted, h.steady.expects, h.steady.extended, h.steady.plainGroups, h.steady.numbers, h.steady.highest⟩,
    h.flags, h.depth⟩

section
variable {s : ReadState} {rest : List Nat}

theorem readNext_bare {c : Nat} (hs : s.Ready)
    (hc : c ∉ [Sign.openParen, Sign.closeParen, Sign.openBracket, Sign.backslash, Sign.openBrace, Sign.bar, Sign.caret,
      Sign.dollar, Sign.dot, Sign.star, Sign.plus, Sign.question]) :
    readNext c rest s = .ok ((), s.pushed rest (.item (.single (.literal c false)) {}) .repeatable
      (c = Sign.carriageReturn || c = Sign.lineFeed)) := by
  have hunit : readUnit 0 c rest = pushLiteral c := readUnit_literal (by simp_all) rest
  have hnext : readNext c rest s = readItem c rest s := by
    refine readNext_eq hs.steady hs.depth ?_ ?_ <;> rintro rfl <;> exact absurd hc (by decide)
  rw [hnext, readItem_eq_readUnit hs.steady (by simp_all), hunit, pushLiteral_eq hs.flags]
  rfl

theorem readNext_escaped {c : Nat} {p : Piece} {breaks : Bool} (hs : s.Ready)
    (hc : c ≠ Sign.upperQ ∧ c ≠ Sign.upperE)
    (h : readUnit 0 Sign.backslash (c :: rest) { s with rest := c :: rest } =
      .ok ((), s.pushed rest p .repeatable breaks)) :
    readNext Sign.backslash (c :: rest) s = .ok ((), s.pushed rest p .repeatable breaks) := by
  rw [readNext_eq hs.steady hs.depth (fun _ => by simpa using hc) fun h => absurd h (by decide),
    readItem_eq_readUnit hs.steady (by decide), h]

/-- The characters that stand for a character of a literal are read as one item. -/
theorem readItems_escapedSigns {c : Nat} (hs : s.Ready) (hr : s.rest = escapedSigns c ++ rest) (fuel : Nat) :
    ∃ breaks, readItems (fuel + 1) s =
      readItems fuel (s.pushed rest (.item (.single (escapedSingle c)) {}) .repeatable breaks) := by
  have he := escaping_escapedSigns c
  generalize escapedSigns c = signs at he hr
  cases he with
  | @letter _ l hl =>
      have hpush : readUnit 0 Sign.backslash (l :: rest) { s with rest := l :: rest } = pushLiteral c { s with rest } ∧
          c ≠ 11 ∧ l ≠ Sign.upperQ ∧ l ≠ Sign.upperE := by
        simp only [List.mem_cons, Prod.mk.injEq, List.not_mem_nil, or_false] at hl
        rcases hl with ⟨rfl, rfl⟩ | ⟨rfl, rfl⟩ | ⟨rfl, rfl⟩ | ⟨rfl, rfl⟩ <;> exact ⟨rfl, by decide⟩
      obtain ⟨hpush, hne, hl⟩ := hpush
      rw [escapedSingle, if_neg hne]
      exact ⟨_, readItems_cons hr (readNext_escaped hs hl (hpush.trans (pushLiteral_eq hs.flags c rest)))⟩
  | vertical =>
      have hkind (wide : Bool) : Member.ofKind wide .vertical false = .kind .vertical false := by cases wide <;> rfl
      have hread : readUnit 0 Sign.backslash (118 :: rest) { s with rest := 118 :: rest } =
          Reading.pushItem (.single (Member.ofKind s.settings.wideClasses .vertical false).toSingle) true
            { s with rest } := rfl
      refine ⟨false, readItems_cons hr (readNext_escaped hs (by decide) (hread.trans ?_))⟩
      rw [hkind, ReadState.pushed, Bool.or_false]
      rfl
  | sign hne hc =>
      have hpush : readUnit 0 Sign.backslash (c :: rest) { s with rest := c :: rest } = pushLiteral c { s with rest } :=
        readEscapeItem_literal (readEscape_sign hc rfl)
      rw [escapedSingle, if_neg hne]
      refine ⟨_, readItems_cons hr (readNext_escaped hs ?_ (hpush.trans (pushLiteral_eq hs.flags c rest)))⟩
      constructor <;> rintro rfl <;> cases hc
  | bare hne hc =>
      rw [escapedSingle, if_neg hne]
      exact ⟨_, readItems_cons hr (readNext_bare hs hc)⟩

end

/-- What the engine reads for a character of a literal. -/
def escapedPiece (c : Nat) : Piece := .item (.single (escapedSingle c)) {}

/-- A literal is read character by character; nothing else happens to the reader. -/
theorem readItems_escaped {s : ReadState} {rest : List Nat} (hs : s.Ready) (cs : List Nat)
    (hr : s.rest = cs.flatMap escapedSigns ++ rest) (fuel : Nat) :
    ∃ u, u.Ready ∧ Advanced s rest u ∧ { u.carried with namesBreak := false } = { s.carried with namesBreak := false } ∧
      u.pieces = (cs.map escapedPiece).reverse ++ s.pieces ∧ readItems (cs.length + fuel) s = readItems fuel u := by
  induction cs generalizing s with
  | nil => exact ⟨s, hs, ⟨hr, rfl, rfl, rfl⟩, rfl, rfl, by rw [List.length_nil, Nat.zero_add]⟩
  | cons c cs ih =>
      rw [List.flatMap_cons, List.append_assoc] at hr
      obtain ⟨breaks, hc⟩ := readItems_escapedSigns hs hr (cs.length + fuel)
      obtain ⟨u, hu, ha, hcarried, hpieces, hcs⟩ :=
        ih (hs.pushed (cs.flatMap escapedSigns ++ rest) (escapedPiece c) .repeatable breaks) rfl
      refine ⟨u, hu, (s.advanced_pushed _ _ _ _).trans ha, hcarried, ?_, ?_⟩
      · rw [hpieces, List.map_cons, List.reverse_cons, List.append_assoc]
        rfl
      · rw [List.length_cons, Nat.add_right_comm, hc]
        exact hcs

theorem ofPieces_escapedPieces (cs : List Nat) :
    ofPieces (cs.map escapedPiece).reverse = ones (cs.map escapedSingle) := by
  rw [ofPieces, ones, List.foldl_reverse, List.foldr_map, List.foldr_map]
  rfl

/-- A literal in a group that takes the whole subject. -/
theorem readItems_framedLiteral (size fuel : Nat) (cs : List Nat) :
    ∃ s, readItems (cs.length + (fuel + 4))
        { size, rest := framedSigns true (cs.flatMap escapedSigns) } = .ok ((), s) ∧
      s.enclosing = [] ∧ ofPieces s.pieces = framed true (ones (cs.map escapedSingle)) ∧ s.settings = {} ∧ s.opened = 0 ∧
      s.names = [] ∧ s.sharesNumbers = false := by
  let start := atGroup size (cs.flatMap escapedSigns)
  have hstart : start.Steady := ⟨rfl, rfl, rfl, rfl, rfl, rfl⟩
  have hinner : (start.within (cs.flatMap escapedSigns ++ [Sign.closeParen, Sign.backslash, 122]) .plain).Ready :=
    ⟨⟨rfl, rfl, rfl, rfl, rfl, rfl⟩, rfl, Nat.one_le_iff_ne_zero.mpr (by decide)⟩
  obtain ⟨u, hu, ha, hcarried, hpieces, hi⟩ := readItems_escaped hinner cs rfl (fuel + 1 + 1)
  have hfuel : cs.length + (fuel + 4) = cs.length + (fuel + 1 + 1) + 1 + 1 := rfl
  rw [hfuel, readItems_framedSigns, hi, readItems_tail hstart hu.steady hu.depth ha]
  refine ⟨_, rfl, rfl, ?_, congrArg ReadState.settings hcarried, congrArg ReadState.opened hcarried,
    congrArg ReadState.names hcarried, congrArg ReadState.sharesNumbers hcarried⟩
  have hbody : ofPieces u.pieces = ones (cs.map escapedSingle) := by
    rw [hpieces, ← ofPieces_escapedPieces]
    exact congrArg ofPieces (List.append_nil _)
  rw [← hbody]
  rfl

/-! ## Matching -/

/-- The expression of a literal with the character `c` takes `d` there. -/
def TakenFor (c d : Nat) : Prop := if c = 11 then isVerticalSpace d = true else d = c

instance (c d : Nat) : Decidable (TakenFor c d) :=
  inferInstanceAs (Decidable (if c = 11 then isVerticalSpace d = true else d = c))

theorem Subject.take_escapedSingle {front rest : Text} {settings : Settings} (c : Nat) {d : Nat} (hd : d < 0x110000) :
    (ofText (front ++ (Text.encode d ++ rest)) settings).take (escapedSingle c) front.length =
      if TakenFor c d then (front ++ Text.encode d).length else front.length := by
  unfold escapedSingle TakenFor
  by_cases hc : c = 11
  · have hv : ∀ x, (CharKind.vertical.holds x != false) = isVerticalSpace x := fun x => Bool.bne_false _
    simp only [hc, if_true, take, hv, takeIf_encode hd]
  · simp only [hc, if_false, take, takeIf_encode hd, decide_eq_true_eq]

/-- A literal's expression takes characters one by one. -/
theorem Subject.takeEach?_escaped {settings : Settings} (front : Text) (cs : List Nat) {ds : List Nat}
    (hds : ∀ d ∈ ds, d < 0x110000) {i : Nat} :
    (ofText (front ++ Text.ofCodePoints ds) settings).takeEach? (cs.map escapedSingle) front.length = some i ↔
      ∃ taken left, ds = taken ++ left ∧ List.Forall₂ TakenFor cs taken ∧
        i = (front ++ Text.ofCodePoints taken).length := by
  induction cs generalizing front ds with
  | nil =>
      simp only [List.map_nil, takeEach?, Option.some.injEq, List.forall₂_nil_left_iff]
      constructor
      · rintro rfl
        exact ⟨[], ds, rfl, rfl, by rw [Text.ofCodePoints, List.flatMap_nil, List.append_nil]⟩
      · rintro ⟨_, _, -, rfl, rfl⟩
        rw [Text.ofCodePoints, List.flatMap_nil, List.append_nil]
  | cons c cs ih =>
      simp only [List.map_cons, takeEach?, List.forall₂_cons_left_iff]
      cases ds with
      | nil =>
          have htake : (ofText (front ++ Text.ofCodePoints []) settings).take (escapedSingle c) front.length =
              front.length := by
            have hsize : (ofText (front ++ Text.ofCodePoints []) settings).size ≤ front.length := by
              rw [size_ofText, Text.ofCodePoints, List.flatMap_nil, List.append_nil]
            unfold escapedSingle
            split <;> simp only [take, takeIf, if_pos hsize]
          rw [if_pos htake]
          refine ⟨fun h => absurd h (Option.some_ne_none _).symm, ?_⟩
          rintro ⟨_, _, h, ⟨_, _, -, -, rfl⟩, -⟩
          cases h
      | cons d ds =>
          obtain ⟨hd, hds⟩ := List.forall_mem_cons.mp hds
          have hpos := List.length_pos_iff.mpr (Text.encode_ne_nil d)
          have hsplit (ds : List Nat) : Text.ofCodePoints (d :: ds) = Text.encode d ++ Text.ofCodePoints ds :=
            List.flatMap_cons
          rw [hsplit, take_escapedSingle c hd]
          by_cases ht : TakenFor c d
          · have hne : (front ++ Text.encode d).length ≠ front.length := by
              rw [List.length_append]
              omega
            have hrest := ih (front ++ Text.encode d) hds
            rw [List.append_assoc] at hrest
            rw [if_pos ht, if_neg hne, hrest]
            constructor
            · rintro ⟨taken, left, rfl, htaken, rfl⟩
              exact ⟨d :: taken, left, rfl, ⟨d, taken, ht, htaken, rfl⟩, by rw [hsplit, List.append_assoc]⟩
            · rintro ⟨_, left, h, ⟨_, taken, -, htaken, rfl⟩, rfl⟩
              obtain ⟨rfl, rfl⟩ := List.cons.inj h
              exact ⟨taken, left, rfl, htaken, by rw [hsplit, List.append_assoc]⟩
          · rw [if_neg ht, if_pos rfl]
            refine ⟨fun h => absurd h (Option.some_ne_none _).symm, ?_⟩
            rintro ⟨_, _, h, ⟨_, _, ht', -, rfl⟩, -⟩
            obtain ⟨rfl, -⟩ := List.cons.inj h
            exact absurd ht' ht

/-- It takes the whole of a subject exactly if that has such characters and no more. -/
theorem Subject.takeEach?_escaped_whole (settings : Settings) (front : Text) (cs : List Nat) {ds : List Nat}
    (hds : ∀ d ∈ ds, d < 0x110000) :
    let s := ofText (front ++ Text.ofCodePoints ds) settings
    (s.takeEach? (cs.map escapedSingle) front.length).any (s.size ≤ ·) = decide (List.Forall₂ TakenFor cs ds) := by
  intro s
  rw [Bool.eq_iff_iff, Option.any_eq_true, decide_eq_true_iff]
  constructor
  · rintro ⟨i, hi, hsize⟩
    obtain ⟨taken, left, rfl, htaken, rfl⟩ := (takeEach?_escaped front cs hds).mp hi
    have hleft : left = [] := by
      cases left with
      | nil => rfl
      | cons d left =>
          have hpos := List.length_pos_iff.mpr (Text.encode_ne_nil d)
          simp only [s, size_ofText, Text.ofCodePoints, List.flatMap_append, List.flatMap_cons, List.length_append,
            decide_eq_true_eq] at hsize
          omega
    rwa [hleft, List.append_nil]
  · intro h
    refine ⟨_, (takeEach?_escaped front cs hds).mpr ⟨ds, [], (List.append_nil ds).symm, h, rfl⟩, ?_⟩
    rw [decide_eq_true_iff, size_ofText]

/-- Characters other than the vertical tab are taken for themselves. -/
theorem forall₂_takenFor {cs ds : List Nat} (h : 11 ∉ cs) : List.Forall₂ TakenFor cs ds ↔ ds = cs := by
  induction cs generalizing ds with
  | nil => exact List.forall₂_nil_left_iff
  | cons c cs ih =>
      rw [List.mem_cons, not_or] at h
      rw [List.forall₂_cons_left_iff]
      constructor
      · rintro ⟨d, ds, hd, hds, rfl⟩
        rw [TakenFor, if_neg (Ne.symm h.1)] at hd
        rw [hd, (ih h.2).mp hds]
      · rintro rfl
        exact ⟨c, cs, by rw [TakenFor, if_neg (Ne.symm h.1)], (ih h.2).mpr rfl, rfl⟩

theorem admits_escapedSingles {cs ds : List Nat} (h : List.Forall₂ TakenFor cs ds) :
    (((cs.map escapedSingle).head?).elim .undecided Single.firstByte).admits
      (Subject.ofText (Text.ofCodePoints ds) {}) := by
  cases h with
  | nil => rfl
  | @cons c d cs ds hc _ =>
      rw [List.map_cons, List.head?_cons, Option.elim_some]
      unfold TakenFor at hc
      unfold escapedSingle
      split at hc
      · rw [if_pos ‹_›]
        rfl
      · subst hc
        obtain ⟨b, bytes, hb⟩ := List.exists_cons_of_ne_nil (Text.encode_ne_nil d)
        have hsplit : Text.ofCodePoints (d :: ds) = b :: (bytes ++ Text.ofCodePoints ds) := by
          rw [Text.ofCodePoints, List.flatMap_cons, hb]
          rfl
        have hfirst : (Subject.ofText (Text.ofCodePoints (d :: ds)) {}).byteAt 0 = b.toNat := by
          rw [Subject.byteAt_ofText, hsplit]
          rfl
        have hsize : 0 < (Subject.ofText (Text.ofCodePoints (d :: ds)) {}).size := by
          rw [Subject.size_ofText, hsplit]
          exact Nat.succ_pos _
        simp [‹¬ d = 11›, Single.firstByte, FirstByte.admits, NeededByte.accepts, hb, hfirst, hsize]

/-- The extent of the expression for a character of a literal. -/
def escapedExtent (c : Nat) : Nat := if c = 11 then 1 else 1 + Text.encodedSize c

theorem onesExtent_escapedSingles (cs : List Nat) :
    onesExtent (cs.map escapedSingle) = (cs.map escapedExtent).sum := by
  have hextent (c : Nat) : (escapedSingle c).extent {} = escapedExtent c := by
    unfold escapedSingle escapedExtent
    split <;> rfl
  rw [onesExtent, List.map_map]
  exact congrArg List.sum (List.map_congr_left fun c _ => hextent c)

end PatternGrammar.Regex

namespace PatternGrammar

theorem Spells.escapeRegex {t : Text} {cs : List Nat} (h : Spells t cs) :
    Spells (escapeRegex t) (cs.flatMap Regex.escapedSigns) := by
  obtain ⟨hv, rfl⟩ := h
  induction cs with
  | nil => exact .nil
  | cons c cs ih =>
      obtain ⟨hc, hcs⟩ := List.forall_mem_cons.mp hv
      rw [Text.ofCodePoints, List.flatMap_cons, ← Text.ofCodePoints, escapeRegex_append, List.flatMap_cons]
      refine .append ?_ (ih hcs)
      by_cases ha : c < 128
      · have he : Text.encode c = [UInt8.ofNat c] := if_pos ha
        have hascii : ∀ b < 128, (escapeByte (UInt8.ofNat b)).all (·.toNat < 128) := by decide +kernel
        rw [he, escapeRegex_cons, escapeRegex_nil, List.append_nil, Regex.escapedSigns, if_pos ha]
        exact .ascii (List.all_iff_forall_prop.mp (hascii c ha))
      · rw [escapeRegex_of_ge fun b hb => Text.le_toNat_of_mem_encode (by omega) hc hb, Regex.escapedSigns, if_neg ha]
        exact ⟨by simpa using hc, by simp [Text.ofCodePoints]⟩

/-- The expression for a literal in a group that takes the whole subject. -/
theorem readWhole_framedLiteral {t : Text} {cs : List Nat} (h : Spells t cs) :
    ∃ result, Regex.readWhole (framedText true (escapeRegex t)) = .ok result ∧
      result.regex = .framed true (.ones (cs.map Regex.escapedSingle)) ∧ result.settings = {} ∧ result.groupCount = 0 ∧
      result.names = [] ∧ result.sharesNumbers = false := by
  have hframed := h.escapeRegex.framed true
  have hfront : Regex.frontSettingAt? (Text.codePoints (framedText true (escapeRegex t))) = none := by
    rw [hframed.codePoints_eq]
    rfl
  have hlength : cs.length ≤ Text.encodedLength (cs.flatMap Regex.escapedSigns) :=
    (Regex.length_le_escapedSigns cs).trans (length_le_encodedLength _)
  have hclosing : Text.encodedLength (Regex.closingSigns true) = 3 := by decide
  obtain ⟨fuel, hfuel⟩ : ∃ fuel, Text.encodedLength (Regex.framedSigns true (cs.flatMap Regex.escapedSigns)) + 1 =
      cs.length + (fuel + 4) := by
    rw [Regex.encodedLength_framedSigns, hclosing, if_pos rfl]
    exact ⟨Text.encodedLength (cs.flatMap Regex.escapedSigns) - cs.length + 5, by omega⟩
  obtain ⟨s, hi, he, hregex, hsettings, hopened, hnames, hshares⟩ := Regex.readItems_framedLiteral
    (Text.encodedLength (Regex.framedSigns true (cs.flatMap Regex.escapedSigns))) fuel cs
  refine ⟨s.result, (readWhole_eq_ok hfront).mpr ⟨s, ?_, he, rfl⟩, hregex, ?_, hopened, ?_, hshares⟩
  · rw [hframed.codePoints_eq, hframed.length_eq, hfuel]
    exact hi
  · rw [Regex.ReadState.result, hsettings]
    rfl
  · rw [Regex.ReadState.result, hnames]
    rfl

section
variable {t : Text} {cs : List Nat}

/-- The expression for a literal compiles in a group that takes the whole subject if there is room for it. -/
theorem compiles_framedLiteral (h : Spells t cs) :
    (∃ c, Regex.compile (framedText true (escapeRegex t)) = .ok c) ↔
      15 + (cs.map Regex.escapedExtent).sum ≤ Regex.maxExtent := by
  obtain ⟨result, hread, hregex, -⟩ := readWhole_framedLiteral h
  rw [← Regex.onesExtent_escapedSingles]
  constructor
  · rintro ⟨c, hc⟩
    obtain ⟨result', widths, hread', hfits, -⟩ := Regex.compile_eq_ok.mp hc
    obtain rfl := Except.ok.inj (hread.symm.trans hread')
    exact ((Regex.fits_framed_ones hregex).mp hfits).2
  · intro hle
    exact ⟨_, Regex.compile_eq_ok.mpr ⟨result, [], hread, (Regex.fits_framed_ones hregex).mpr ⟨rfl, hle⟩, rfl⟩⟩

/-- The expression for a literal takes the characters of the subject one by one, and all of them. -/
theorem search_framedLiteral (h : Spells t cs) {c : Regex.Compiled}
    (hc : Regex.compile (framedText true (escapeRegex t)) = .ok c) {subject : Text} {ds : List Nat} (hs : Spells subject ds) :
    c.search subject = .ok (decide (List.Forall₂ Regex.TakenFor cs ds)) := by
  obtain ⟨result, hread, hregex, hsettings, hcount, -⟩ := readWhole_framedLiteral h
  obtain ⟨result', widths, hread', hfits, rfl⟩ := Regex.compile_eq_ok.mp hc
  obtain rfl := Except.ok.inj (hread.symm.trans hread')
  obtain ⟨rfl, -⟩ := (Regex.fits_framed_ones hregex).mp hfits
  have hvalid : ∀ c ignoreCase, .literal c ignoreCase ∈ cs.map Regex.escapedSingle → c < 0x110000 := by
    intro c ignoreCase hm
    obtain ⟨d, hd, he⟩ := List.mem_map.mp hm
    unfold Regex.escapedSingle at he
    split at he
    · cases he
    · cases he
      exact h.valid c hd
  have htake := Regex.Subject.takeEach?_escaped_whole {} [] cs hs.valid
  simp only [List.nil_append, ← hs.eq, Regex.Subject.size_ofText, List.length_nil] at htake
  refine Regex.search_framed_ones hregex hsettings hcount hvalid _ subject htake fun hm => ?_
  have hall := of_decide_eq_true hm
  refine ⟨?_, ?_⟩
  · rw [hs.eq]
    exact Regex.admits_escapedSingles hall
  · rw [List.length_map, hall.length_eq, hs.length_eq]
    exact length_le_encodedLength ds

end

/-- A pattern of one literal. -/
def literalPattern (t : Text) : Pattern := .last (.mk .plain (.literal t) none {} {})

theorem evaluate_literalPattern (t : Text) : (literalPattern t).evaluate = .ok (escapeRegex t) := by
  have hm : (literalPattern t).Every (·.matcher.MarksPlaces) := ⟨trivial, trivial⟩
  have hw := written_keep_append (numberIn []) (escapeRegex t) []
  rw [List.append_nil, written, List.append_nil] at hw
  rw [Pattern.evaluate_eq_written _ hm]
  exact congrArg Except.ok hw

/-- In a group that takes the whole subject, the expression of a literal compiles exactly if there is room for it.
It matches a text character by character: a vertical tab stands for all vertical space, and every other character
for itself. So a literal without a vertical tab matches itself and nothing else. -/
theorem Pattern.literal_matches_itself {s : Text} {cs : List Nat} (hs : Spells s cs) :
    ∃ x, (literalPattern s).evaluate = .ok x ∧
      ((∃ c, Regex.compile (framedText true x) = .ok c) ↔ 15 + (cs.map Regex.escapedExtent).sum ≤ Regex.maxExtent) ∧
      ∀ c, Regex.compile (framedText true x) = .ok c → ∀ t ds, Spells t ds →
        c.search t = .ok (decide (List.Forall₂ Regex.TakenFor cs ds)) ∧ (11 ∉ cs → c.search t = .ok (decide (t = s))) := by
  refine ⟨_, evaluate_literalPattern s, compiles_framedLiteral hs, fun c hc t ds ht => ?_⟩
  have hsearch := search_framedLiteral hs hc ht
  refine ⟨hsearch, fun h11 => ?_⟩
  rw [hsearch, decide_eq_decide.mpr]
  rw [Regex.forall₂_takenFor h11]
  constructor
  · rintro rfl
    rw [hs.eq, ht.eq]
  · rintro rfl
    rw [← hs.codePoints_eq, ← ht.codePoints_eq]

/-- A literal with signs of the syntax, and a subject that they would match. -/
theorem literal_signs_match_themselves :
    ∃ x c, (literalPattern "a.b").evaluate = .ok x ∧ Regex.compile (framedText true x) = .ok c ∧
      c.search "a.b" = .ok true ∧ c.search "axb" = .ok false := by
  have hspells {t : Text} (h : ∀ b ∈ t, b.toNat < 128) := Spells.ascii h
  have hs : Spells "a.b" [97, 46, 98] := hspells (List.all_iff_forall_prop.mp (by decide))
  have ht : Spells "axb" [97, 120, 98] := hspells (List.all_iff_forall_prop.mp (by decide))
  obtain ⟨x, hx, hcompiles, hsearch⟩ := Pattern.literal_matches_itself hs
  obtain ⟨c, hc⟩ := hcompiles.mpr (by decide)
  exact ⟨x, c, hx, hc, (hsearch c hc _ _ hs).2 (by decide), (hsearch c hc _ _ ht).2 (by decide)⟩

/-- The escape for a vertical tab takes a line feed, too. -/
theorem verticalTab_matches_lineFeed :
    (literalPattern [11]).evaluate = .ok "\\v" ∧ Spells [11] [11] ∧ Spells [10] [10] ∧ ([10] : Text) ≠ [11] ∧
      foundIn? (framedText true "\\v") [10] = some true := by
  refine ⟨rfl, ⟨by decide, rfl⟩, ⟨by decide, rfl⟩, by decide, ?_⟩
  decide +kernel

end PatternGrammar
