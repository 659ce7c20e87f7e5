import PatternGrammar.Proofs.ReadQuantifiers
import PatternGrammar.Proofs.Unwrapping

/-!
# Units under a quantifier

Some texts are read as one piece that may be repeated, wherever they stand. A quantifier behind such a text repeats
the piece, and a quantifier behind a group around it repeats the group with the same piece in it. Both readers take the
same along.
-/

namespace PatternGrammar.Regex

/-! ## One piece -/

/-- The reader in front of the characters within two groups, when what stands before them takes up as many bytes as
the beginning of the whole subject and the two parentheses do. -/
def ReadState.inFrontOf (cs : List Nat) : ReadState := { size := Text.encodedLength cs + 8, rest := cs, depth := 2 }

/-- From `s` the reader has come to `t` in front of `r`. It has read one more piece, and takes along what `u` does. -/
structure Reached (u s : ReadState) (r : List Nat) (p : Piece) (t : ReadState) : Prop where
  paired : Paired u t
  advanced : Advanced s r t
  pieces : t.pieces = p :: s.pieces

/-- The engine reads the characters as this piece wherever they stand, `k` bytes before the place that the offsets are
from, and may repeat the piece. What the reader takes along then does not depend on the place. -/
def IsReadAs (cs : List Nat) (p : Piece) : Prop :=
  ∃ u : ReadState, ∀ {s : ReadState} {r : List Nat} {k : Nat}, Paired (.inFrontOf cs) s → s.rest = cs ++ r →
    s.size + k = Text.encodedLength s.rest + 8 → k ≤ 8 →
      ∃ (t : ReadState) (p' : Piece) (spare : Nat), Reached u s r p' t ∧ p'.placed (· + k) = p.placed id ∧
        t.preceding = .repeatable ∧ ∀ fuel, readItems (cs.length + fuel) s = readItems (fuel + spare) t

/-- The characters themselves, or in a group. -/
def groupedIf (wraps : Bool) (cs : List Nat) : List Nat := if wraps then inGroup cs [] else cs

/-- The piece itself, or in a group. -/
def Piece.groupedIf (wraps : Bool) (p : Piece) : Piece := if wraps then .group .plain (ofPieces [p]) {} else p

theorem Piece.placed_groupedIf (f : Nat → Nat) (wraps : Bool) (p : Piece) :
    (p.groupedIf wraps).placed f = (p.placed f).groupedIf wraps := by
  cases wraps with
  | false => rfl
  | true =>
      change Piece.group .plain ((ofPieces [p]).placed f) {} = .group .plain (ofPieces [p.placed f]) {}
      rw [← ofPieces_map_placed]
      rfl

section
variable {cs r : List Nat} {p : Piece} {s u : ReadState} {k : Nat}

theorem IsReadAs.ne_nil (h : IsReadAs cs p) : cs ≠ [] := by
  rintro rfl
  obtain ⟨u, hread⟩ := h
  let s : ReadState := .inFrontOf []
  obtain ⟨t, p', spare, ht, -, -, he⟩ := hread (s := s) (r := []) (k := 0)
    ⟨⟨rfl, rfl, rfl, rfl, rfl, rfl⟩, rfl, rfl, rfl, Nat.le_refl _⟩ rfl rfl (Nat.zero_le 8)
  have hsame := he 0
  rw [(readItems_of_rest_eq_nil _ (s := s) rfl).1, (readItems_of_rest_eq_nil _ ht.advanced.rest).1] at hsame
  obtain rfl := (Prod.mk.inj (Except.ok.inj hsame)).2
  cases ht.pieces

theorem Paired.intoGroup (h : Paired u s) (hd : s.depth + 1 ≤ u.depth) (rest : List Nat) (kind : GroupKind) :
    Paired u (s.within rest kind) :=
  ⟨h.steady, rfl, h.flags, h.carried, hd⟩

/-- Behind the group the reader takes along what it has learned in it. -/
theorem Reached.outOfGroup {t : ReadState} {rest : List Nat}
    (h : Reached u (s.within rest .plain) (Sign.closeParen :: r) p t)
    (hn : s.enclosing.head?.bind (·.restart) = none) (hf : s.flags = {}) :
    Reached u s r (p.groupedIf true) (t.closed s r .plain) where
  paired := by
    refine ⟨h.paired.steady, hn, h.paired.flags, ?_, ?_⟩
    · change { t.carried with flags := s.flags } = u.carried
      rw [h.paired.carried, hf, ← h.paired.flags]
      rfl
    · exact (Nat.le_succ s.depth).trans (h.advanced.depth.symm.trans_le h.paired.depth)
  advanced := ⟨rfl, h.advanced.size, rfl, rfl⟩
  pieces := by
    rw [ReadState.closed, h.pieces]
    rfl

/-- What is read alike is read as one piece everywhere if it is read so in front of nothing else. -/
theorem IsReadAs.of_readAlike (hc : ReadAlike cs) (h : readItems (cs.length + 1) (.inFrontOf cs) = .ok ((), u))
    (hp : u.pieces = [p]) (hr : u.preceding = .repeatable) : IsReadAs cs p := by
  refine ⟨u, fun {s r k} hs hrest hsize hk => ?_⟩
  have haligned : Aligned (· + k) (ReadState.inFrontOf cs).size s.size cs [] r := by
    intro v hv hsuffix
    obtain ⟨-, hle⟩ := encodedLength_suffix hv hsuffix
    rw [hrest] at hsize
    simp only [ReadState.inFrontOf, encodedLength_append, List.append_nil] at hsize ⊢
    omega
  obtain ⟨v, t, spare, ht, hav, hat, hv, he⟩ := hc (· + k) s.pieces (.inFrontOf cs) s u [] r 1
    ⟨hs, .inl rfl, [], rfl, rfl⟩ haligned (List.append_nil cs).symm hrest h
  rw [(readItems_of_rest_eq_nil _ hav.rest).1] at hv
  obtain rfl := (Prod.mk.inj (Except.ok.inj hv)).2
  obtain ⟨top, htop, hmap⟩ := ht.pieces
  rw [hp] at hmap
  obtain ⟨p', hp', hplaced⟩ := List.map_eq_singleton_iff.mp hmap
  refine ⟨t, p', spare, ⟨ht.toPaired, hat, ?_⟩, hplaced, ?_, he⟩
  · rw [htop, hp', List.singleton_append]
  · exact ((ht.preceding.resolve_left (by rw [hr]; nofun)).1).trans hr

/-- The number of bytes in front of the characters in their group. -/
def openingSize (wraps : Bool) : Nat := if wraps then 3 else 0

/-- So it is in a group of their own. -/
theorem IsReadAs.exists_reached_groupedIf (h : IsReadAs cs p) : ∃ u : ReadState,
    ∀ (wraps : Bool) {s r k}, Paired (.inFrontOf cs) s → s.depth ≤ 1 → s.rest = groupedIf wraps cs ++ r →
      s.size + k + openingSize wraps = Text.encodedLength s.rest + 8 → k ≤ 8 →
        ∃ (t : ReadState) (p' : Piece) (spare : Nat), Reached u s r (p'.groupedIf wraps) t ∧
          p'.placed (· + k) = p.placed id ∧ t.preceding = .repeatable ∧
            ∀ fuel, readItems ((groupedIf wraps cs).length + fuel) s = readItems (fuel + spare) t := by
  obtain ⟨u, hread⟩ := h
  refine ⟨u, fun wraps s r k hp hd hr hs hk => ?_⟩
  cases wraps with
  | false => exact hread hp hr hs hk
  | true =>
      have hopen : s.rest = inGroup cs r := by
        rw [hr]
        simp [groupedIf, inGroup]
      have hmax : s.depth ≤ maxDepth := hd.trans (by decide)
      have hinner : Paired (.inFrontOf cs) (s.within (cs ++ Sign.closeParen :: r) .plain) :=
        hp.intoGroup (by simp only [ReadState.inFrontOf]; omega) _ _
      have hsize : s.size + k = Text.encodedLength (cs ++ Sign.closeParen :: r) + 8 := by
        rw [hopen, encodedLength_inGroup] at hs
        rw [encodedLength_append, encodedLength_closeParen]
        simp only [openingSize, if_true] at hs
        omega
      obtain ⟨t, p', spare, ht, hplaced, -, he⟩ := hread hinner rfl hsize hk
      have hdepth : t.depth ≤ maxDepth :=
        ht.advanced.depth.trans_le ((Nat.succ_le_succ hd).trans (show 2 ≤ maxDepth by decide))
      have hclosing := readNext_closed ht.paired.steady' hdepth ht.advanced
      refine ⟨_, p', spare + 2, ht.outOfGroup hp.numbers hp.flags', hplaced, rfl, fun fuel => ?_⟩
      have hlength : (groupedIf true cs).length + fuel = cs.length + (fuel + 2 + 1) + 1 := by
        simp only [groupedIf, if_true, inGroup, List.length_cons, List.length_append, List.length_nil]
        omega
      have hspare : fuel + 2 + 1 + spare = fuel + (spare + 2) + 1 := by omega
      rw [hlength, readItems_cons hopen (readNext_group hp.steady' hmax), he, hspare,
        readItems_cons ht.advanced.rest hclosing]

/-- A quantifier behind it repeats the piece, or the group. -/
theorem IsReadAs.exists_reached_quantified (h : IsReadAs cs p) : ∃ u : ReadState,
    ∀ {ks : List Nat} {times : Times}, Quantifies ks times → ∀ (wraps : Bool) {s r k}, Paired (.inFrontOf cs) s →
      s.depth ≤ 1 → s.rest = groupedIf wraps cs ++ (ks ++ r) →
        s.size + k + openingSize wraps = Text.encodedLength s.rest + 8 → k ≤ 8 →
          ∃ (t : ReadState) (p' : Piece) (spare : Nat), Reached u s r ((p'.groupedIf wraps).quantified times) t ∧
            p'.placed (· + k) = p.placed id ∧
              ∀ fuel, readItems ((groupedIf wraps cs ++ ks).length + fuel) s = readItems (fuel + spare) t := by
  obtain ⟨u, hread⟩ := h.exists_reached_groupedIf
  refine ⟨u, fun {ks times} hq wraps s r k hp hd hr hs hk => ?_⟩
  obtain ⟨t, p', spare, ht, hplaced, hrep, he⟩ := hread wraps hp hd hr hs hk
  have hdt : t.depth ≤ maxDepth := ht.advanced.depth.trans_le (hd.trans (by decide))
  obtain ⟨preceding, spare', hquantified⟩ := hq t r ht.paired.steady' ht.paired.flags' hdt
    (ht.pieces ▸ List.cons_ne_nil _ _) hrep ht.advanced.rest
  have hpaired : Paired u (t.mended r (Piece.quantified times) preceding) :=
    ⟨ht.paired.steady, ht.paired.numbers, ht.paired.flags, ht.paired.carried, ht.paired.depth⟩
  have hadvanced : Advanced s r (t.mended r (Piece.quantified times) preceding) :=
    ⟨rfl, ht.advanced.size, ht.advanced.enclosing, ht.advanced.depth⟩
  refine ⟨_, p', spare + spare', ⟨hpaired, hadvanced, ?_⟩, hplaced, fun fuel => ?_⟩
  · rw [ReadState.mended, ht.pieces]
    rfl
  · rw [List.length_append, Nat.add_assoc, he, Nat.add_assoc, hquantified, Nat.add_assoc]

end

/-! ## Whole expressions -/

section
variable {cs ks : List Nat} {p : Piece} {times : Times}

/-- The expression of a repeated piece, or of a repeated group with the piece in it. -/
def Piece.repeatedIn (anchored wraps : Bool) (times : Times) (p : Piece) : Regex :=
  framed anchored (ofPieces [(p.groupedIf wraps).quantified times])

theorem Piece.placed_repeatedIn (f : Nat → Nat) (anchored wraps : Bool) (times : Times) (p : Piece) :
    (p.repeatedIn anchored wraps times).placed f = (p.placed f).repeatedIn anchored wraps times := by
  have hpiece : (ofPieces [(p.groupedIf wraps).quantified times]).placed f =
      ofPieces [((p.placed f).groupedIf wraps).quantified times] := by
    rw [← ofPieces_map_placed, List.map_singleton, placed_quantified, placed_groupedIf]
  cases anchored with
  | false => exact hpiece
  | true =>
      change framed true ((ofPieces [(p.groupedIf wraps).quantified times]).placed f) = _
      rw [hpiece]
      rfl

/-- With a quantifier behind it, the piece is read to the end of the expression, in a group or not. -/
theorem IsReadAs.exists_readItems (h : IsReadAs cs p) : ∃ u : ReadState,
    ∀ {ks : List Nat} {times : Times}, Quantifies ks times → ∀ (anchored wraps : Bool),
      let signs := framedSigns anchored (groupedIf wraps cs ++ ks)
      ∃ (t : ReadState) (p' : Piece) (k : Nat),
        readItems (Text.encodedLength signs + 1) { size := Text.encodedLength signs, rest := signs } = .ok ((), t) ∧
          t.enclosing = [] ∧ t.carried = u.carried ∧ ofPieces t.pieces = p'.repeatedIn anchored wraps times ∧
            p'.placed (· + k) = p.placed id := by
  obtain ⟨u, hread⟩ := h.exists_reached_quantified
  refine ⟨u, fun {ks times} hq anchored wraps => ?_⟩
  have hopening : openingSize wraps ≤ 3 := by cases wraps <;> decide
  have hlength := length_le_encodedLength (groupedIf wraps cs ++ ks)
  intro signs
  cases anchored with
  | false =>
      have hp : Paired (.inFrontOf cs) { size := Text.encodedLength signs, rest := signs } :=
        ⟨⟨rfl, rfl, rfl, rfl, rfl, rfl⟩, rfl, rfl, rfl, Nat.zero_le _⟩
      obtain ⟨t, p', spare, ht, hplaced, he⟩ := hread hq wraps (r := []) (k := 8 - openingSize wraps) hp (Nat.zero_le 1)
        (by rw [List.append_nil]; rfl) (by dsimp only; omega) (Nat.sub_le 8 _)
      refine ⟨t, p', _, ?_, ht.advanced.enclosing, ht.paired.carried, congrArg ofPieces ht.pieces, hplaced⟩
      obtain ⟨fuel, hfuel⟩ : ∃ fuel, Text.encodedLength signs + 1 = (groupedIf wraps cs ++ ks).length + fuel :=
        ⟨Text.encodedLength signs + 1 - (groupedIf wraps cs ++ ks).length,
          (Nat.add_sub_cancel' (hlength.trans (Nat.le_succ _))).symm⟩
      rw [hfuel, he]
      exact (readItems_of_rest_eq_nil _ ht.advanced.rest).1
  | true =>
      let s : ReadState := atGroup (Text.encodedLength signs) (groupedIf wraps cs ++ ks)
      have hs : s.Steady := ⟨rfl, rfl, rfl, rfl, rfl, rfl⟩
      have hp : Paired (.inFrontOf cs)
          (s.within ((groupedIf wraps cs ++ ks) ++ [Sign.closeParen, Sign.backslash, 122]) .plain) :=
        ⟨⟨rfl, rfl, rfl, rfl, rfl, rfl⟩, rfl, rfl, rfl, show 1 ≤ 2 by decide⟩
      have hclosing : Text.encodedLength (closingSigns true) = 3 := by decide
      have hsize : Text.encodedLength signs = 5 + Text.encodedLength (groupedIf wraps cs ++ ks) + 3 := by
        rw [encodedLength_framedSigns, hclosing]
        rfl
      have hrest : Text.encodedLength ((groupedIf wraps cs ++ ks) ++ [Sign.closeParen, Sign.backslash, 122]) =
          Text.encodedLength (groupedIf wraps cs ++ ks) + 3 := by
        rw [encodedLength_append]
        rfl
      obtain ⟨t, p', spare, ht, hplaced, he⟩ := hread hq wraps (k := 3 - openingSize wraps) hp (Nat.le_refl 1)
        (List.append_assoc _ _ _) (by simp only [s, ReadState.within, atGroup, ReadState.pushed]; omega) (by omega)
      obtain ⟨fuel, hfuel⟩ : ∃ fuel, Text.encodedLength signs + 1 =
          (groupedIf wraps cs ++ ks).length + (fuel + 1 + 1) + 1 + 1 :=
        ⟨Text.encodedLength signs + 1 - (groupedIf wraps cs ++ ks).length - 4, by omega⟩
      have hspare : fuel + 1 + 1 + spare = fuel + spare + 1 + 1 := by omega
      have hdt : t.depth ≤ maxDepth := ht.advanced.depth.trans_le (show 1 ≤ maxDepth by decide)
      let v : ReadState :=
        (t.closed s [Sign.backslash, 122] .plain).pushed [] (.item (.anchor .subjectEnd) {}) .other false
      refine ⟨v, p', _, ?_, rfl, ?_, ?_, hplaced⟩
      · rw [hfuel, readItems_framedSigns]
        exact (he _).trans (hspare ▸ readItems_tail hs ht.paired.steady' hdt ht.advanced)
      · have hcarried : v.carried = { t.carried with flags := {}, namesBreak := t.namesBreak || false } := rfl
        rw [hcarried, Bool.or_false]
        change { t.carried with flags := {} } = u.carried
        rw [ht.paired.carried, ← ht.paired.flags]
        rfl
      · change framed true (ofPieces t.pieces) = _
        rw [ht.pieces]
        rfl

end

end PatternGrammar.Regex

namespace PatternGrammar

/-! ## Texts -/

/-- The engine reads the text as this piece wherever it stands between items, and may repeat the piece. -/
structure ReadsAs (t : Text) (p : Regex.Piece) : Prop where
  begins : beginsItem t
  spelled : Spelled (Regex.IsReadAs · p) t

/-- The text itself, or in a group. -/
def groupedTextIf (wraps : Bool) (t : Text) : Text := if wraps then groupText t else t

theorem Spells.groupedIf {t : Text} {cs : List Nat} (wraps : Bool) (h : Spells t cs) :
    Spells (groupedTextIf wraps t) (Regex.groupedIf wraps cs) := by
  cases wraps with
  | false => exact h
  | true => exact h.inGroup

/-- With a quantifier behind it, in a group or not, the text is read as the repeated piece. -/
theorem ReadsAs.exists_readWhole {t : Text} {p : Regex.Piece} (h : ReadsAs t p) : ∃ base : Regex.Reading.Result,
    ∀ {k : Text} {ks : List Nat} {times : Regex.Times}, Spells k ks → Regex.Quantifies ks times →
      ∀ (anchored wraps : Bool), ∃ (result : Regex.Reading.Result) (j : Nat),
        Regex.readWhole (framedText anchored (groupedTextIf wraps t ++ k)) = .ok result ∧
          result.Alike (· + j) id { base with regex := p.repeatedIn anchored wraps times } ∧
            result.settings = base.settings ∧ result.namesBreak = base.namesBreak := by
  obtain ⟨hbegins, cs, hcs, hread⟩ := h
  obtain ⟨u, hu⟩ := hread.exists_readItems
  refine ⟨u.result, fun {k ks times} hk hq anchored wraps => ?_⟩
  obtain ⟨s, p', j, hi, he, hcarried, hregex, hplaced⟩ := hu hq anchored wraps
  have hsigns := ((hcs.groupedIf wraps).append hk).framed anchored
  have hfront : Regex.frontSettingAt? (Text.codePoints (framedText anchored (groupedTextIf wraps t ++ k))) = none := by
    rw [hsigns.codePoints_eq]
    cases anchored with
    | true => rfl
    | false =>
        cases wraps with
        | true => rfl
        | false =>
            refine frontSettingAt?_of_beginsItem (beginsItem_append hbegins ?_) (hcs.append hk)
            rintro rfl
            exact absurd hcs.codePoints_eq.symm hread.ne_nil
  refine ⟨s.result, j, ?_, ?_, ?_, ?_⟩
  · rw [readWhole_eq_ok hfront, hsigns.codePoints_eq, hsigns.length_eq]
    exact ⟨s, hi, he, rfl⟩
  · have hopened := congrArg Regex.ReadState.opened hcarried
    have hnames := congrArg (·.names.reverse) hcarried
    have hshares := congrArg Regex.ReadState.sharesNumbers hcarried
    refine ⟨?_, hopened, hnames, hshares⟩
    change (Regex.ofPieces s.pieces).placed _ = _
    rw [hregex, Regex.Piece.placed_repeatedIn, hplaced, Regex.Piece.placed_repeatedIn]
  · have hsettings := congrArg (fun s : Regex.ReadState => { s.settings with limits := s.settings.limits.lowered {} })
      hcarried
    exact hsettings
  · have hbreaks := congrArg Regex.ReadState.namesBreak hcarried
    exact hbreaks

end PatternGrammar
