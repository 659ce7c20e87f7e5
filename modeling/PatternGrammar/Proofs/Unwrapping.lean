import PatternGrammar.Proofs.CaptureCount
import PatternGrammar.Proofs.ReadAlike
import PatternGrammar.Proofs.Sequence

/-!
# Reading with and without the groups

Two texts that are read alike stand one behind the other, in one expression with a group around each of them and
in another without. What the engine reads in the groups of the first it reads in the second, too.
-/

namespace PatternGrammar.Regex

/-! ## One group -/

section
variable {s s' u u' t : ReadState} {f : Nat → Nat} {cs r r' rest : List Nat} {kind : GroupKind} {fuel : Nat}

/-- The first reader goes into a group, and the second one stays where it is. -/
theorem Paired.aside (h : Paired s s') : InStep f s'.pieces (s.within rest kind) s' where
  steady := ⟨h.steady.quoted, h.steady.expects, h.steady.extended, h.steady.plainGroups, rfl, h.steady.highest⟩
  numbers := h.numbers
  flags := h.flags
  carried := h.carried
  depth := h.depth.trans (Nat.le_succ _)
  preceding := .inl rfl
  pieces := ⟨[], rfl, rfl⟩

/-- The first reader comes out of the group again. -/
theorem Paired.rejoin (h : Paired s s') (hu : Paired u u') (hd : u'.depth = s'.depth) :
    Paired (u.closed s rest kind) u' where
  steady := ⟨hu.steady.quoted, hu.steady.expects, h.steady.extended, h.steady.plainGroups, h.steady.numbers,
    hu.steady.highest⟩
  numbers := hu.numbers
  flags := h.flags
  carried := by
    change u'.carried = { u.carried with flags := s.flags }
    rw [hu.carried, h.flags, ← hu.flags]
    rfl
  depth := hd.trans_le h.depth

theorem readNext_group {cs : List Nat} (hs : s.Steady) (hd : s.depth ≤ maxDepth) :
    readNext Sign.openParen (Sign.question :: Sign.colon :: cs) s = .ok ((), s.within cs .plain) := by
  have hopen : readNext Sign.openParen (Sign.question :: ([Sign.colon] ++ cs)) s = .ok ((), s.within cs .plain) :=
    readNext_opening hs hd rfl
  exact hopen

theorem readItems_group {cs : List Nat} (hs : s.Steady)
    (hr : s.rest = Sign.openParen :: Sign.question :: Sign.colon :: cs)
    (hi : readItems (fuel + 1) s = .ok ((), t)) : readItems fuel (s.within cs .plain) = .ok ((), t) := by
  obtain ⟨s₁, hn, h₁, -⟩ := readItems_succ hr hi
  rw [readNext_group hs (depth_le_of_readNext hn)] at hn
  obtain rfl := (Prod.mk.inj (Except.ok.inj hn)).2
  exact h₁

/-- The parentheses of a group that does not capture. -/
def inGroup (cs r : List Nat) : List Nat :=
  Sign.openParen :: Sign.question :: Sign.colon :: (cs ++ Sign.closeParen :: r)

/-- What the first of two readers reads in a group, the second one reads in the open. -/
theorem Paired.unwrap (h : Paired s s') (hc : ReadAlike cs)
    (ha : Aligned f s.size s'.size cs (Sign.closeParen :: r) r') (hr : s.rest = inGroup cs r)
    (hr' : s'.rest = cs ++ r') (hi : readItems (cs.length + (fuel + 1) + 1) s = .ok ((), t)) :
    ∃ u u' x x' spare, Paired u u' ∧ Advanced s r u ∧ Advanced s' r' u' ∧
      u.pieces = .group .plain (ofPieces x) {} :: s.pieces ∧ u'.pieces = x' ++ s'.pieces ∧
      x'.map (Piece.placed f) = x.map (Piece.placed id) ∧ readItems (fuel + spare) u = .ok ((), t) ∧
      ∀ fuel', readItems (cs.length + fuel') s' = readItems (fuel' + spare) u' := by
  have h₁ := readItems_group h.steady hr hi
  obtain ⟨u, u', k, hu, hau, hau', h₂, he⟩ := hc f s'.pieces _ s' t _ r' _ h.aside ha rfl hr' h₁
  rw [Nat.add_right_comm] at h₂
  obtain ⟨s₃, hn₃, h₃, -⟩ := readItems_succ hau.rest h₂
  rw [readNext_closed hu.steady (depth_le_of_readNext hn₃) hau] at hn₃
  obtain rfl := (Prod.mk.inj (Except.ok.inj hn₃)).2
  obtain ⟨x', hx', hmap⟩ := hu.pieces
  exact ⟨_, u', u.pieces, x', k, h.rejoin hu.toPaired hau'.depth, ⟨rfl, hau.size, rfl, rfl⟩, hau', rfl, hx', hmap,
    h₃, he⟩

/-- Two groups that the first reader reads one after the other. -/
theorem Paired.unwrap_pair {ds : List Nat} (h : Paired s s') (hc : ReadAlike cs) (hd : ReadAlike ds)
    (ha : Aligned f s.size s'.size cs (Sign.closeParen :: inGroup ds r) (ds ++ r'))
    (hb : Aligned f s.size s'.size ds (Sign.closeParen :: r) r')
    (hr : s.rest = inGroup cs (inGroup ds r)) (hr' : s'.rest = cs ++ (ds ++ r'))
    (hi : readItems (cs.length + (ds.length + (fuel + 1) + 1 + 1) + 1) s = .ok ((), t)) :
    ∃ u u' x y z spare, Paired u u' ∧ Advanced s r u ∧ Advanced s' r' u' ∧
      u.pieces = .group .plain (ofPieces y) {} :: .group .plain (ofPieces x) {} :: s.pieces ∧
      u'.pieces = z ++ s'.pieces ∧ z.map (Piece.placed f) = (y ++ x).map (Piece.placed id) ∧
      readItems (fuel + spare) u = .ok ((), t) ∧
      ∀ fuel', readItems (cs.length + (ds.length + fuel')) s' = readItems (fuel' + spare) u' := by
  obtain ⟨s₁, s₁', x, x', k, h₁, ha₁, ha₁', hx, hx', hmap, hi₁, he₁⟩ := h.unwrap hc ha hr hr' hi
  have hk : ds.length + (fuel + 1) + 1 + k = ds.length + (fuel + k + 1) + 1 := by omega
  rw [hk] at hi₁
  have hb₁ : Aligned f s₁.size s₁'.size ds (Sign.closeParen :: r) r' := by
    rw [ha₁.size, ha₁'.size]
    exact hb
  obtain ⟨u, u', y, y', l, h₂, ha₂, ha₂', hy, hy', hmap', hi₂, he₂⟩ :=
    h₁.unwrap hd hb₁ ha₁.rest ha₁'.rest hi₁
  rw [Nat.add_assoc] at hi₂
  refine ⟨u, u', x, y, y' ++ x', k + l, h₂, ha₁.trans ha₂, ha₁'.trans ha₂', by rw [hy, hx],
    by rw [hy', hx', List.append_assoc], by rw [List.map_append, List.map_append, hmap, hmap'], hi₂,
    fun fuel' => ?_⟩
  rw [he₁, Nat.add_assoc, he₂, Nat.add_assoc]

end

/-! ## The whole expression -/

/-- The characters themselves, or in a group that takes the whole subject. -/
def framedSigns (anchored : Bool) (cs : List Nat) : List Nat :=
  if anchored then Sign.backslash :: 65 :: inGroup cs [Sign.backslash, 122] else cs

/-- The first reader has read two expressions in groups, and the second one has read them without. -/
structure Unwrapped (f : Nat → Nat) (anchored : Bool) (t t' : ReadState) : Prop where
  carried : t'.carried = t.carried
  enclosing : t.enclosing = []
  enclosing' : t'.enclosing = []
  regex : ∃ a b, ofPieces t.pieces = framed anchored (pair a b) ∧
    (ofPieces t'.pieces).placed f = (framed anchored (a.append b)).placed id

section
variable {s t : ReadState} {f : Nat → Nat} {cs ds rest : List Nat} {fuel fuel' : Nat}

theorem readNext_anchor {d : Nat} {a : Anchor} (hs : s.Steady) (hd : s.depth ≤ maxDepth)
    (h : d = 65 ∧ a = .subjectStart ∨ d = 122 ∧ a = .subjectEnd) :
    readNext Sign.backslash (d :: rest) s = .ok ((), s.pushed rest (.item (.anchor a) {}) .other false) := by
  have hnext : readNext Sign.backslash (d :: rest) s = readItem Sign.backslash (d :: rest) s := by
    refine readNext_eq hs hd (fun _ => ?_) nofun
    simp only [List.head?_cons, ne_eq, Option.some.injEq]
    rcases h with ⟨rfl, -⟩ | ⟨rfl, -⟩ <;> decide
  rw [hnext, readItem_eq_readUnit hs (by decide), ReadState.pushed, Bool.or_false]
  rcases h with ⟨rfl, rfl⟩ | ⟨rfl, rfl⟩ <;> rfl

/-- The expression of pieces that two readers have read in groups and without. -/
theorem placed_ofPieces {x y z : List Piece} (h : z.map (Piece.placed f) = (y ++ x).map (Piece.placed id)) :
    (ofPieces z).placed f = ((ofPieces x).append (ofPieces y)).placed id := by
  rw [← ofPieces_append, ← ofPieces_map_placed, ← ofPieces_map_placed, h]

/-- Without groups. -/
theorem unwrap_open {n n' : Nat} (hc : ReadAlike cs) (hd : ReadAlike ds)
    (ha : Aligned f n n' cs (Sign.closeParen :: inGroup ds []) (ds ++ []))
    (hb : Aligned f n n' ds [Sign.closeParen] [])
    (hle : cs.length + ds.length + 4 ≤ fuel) (hle' : cs.length + ds.length ≤ fuel')
    (hi : readItems fuel { size := n, rest := inGroup cs (inGroup ds []) } = .ok ((), t)) :
    ∃ t', readItems fuel' { size := n', rest := cs ++ ds } = .ok ((), t') ∧ Unwrapped f false t t' := by
  obtain ⟨k, rfl⟩ : ∃ k, fuel = cs.length + (ds.length + (k + 1) + 1 + 1) + 1 :=
    ⟨fuel - cs.length - ds.length - 4, by omega⟩
  obtain ⟨k', rfl⟩ : ∃ k', fuel' = cs.length + (ds.length + k') := ⟨fuel' - cs.length - ds.length, by omega⟩
  have hs (m : Nat) (rest : List Nat) : ReadState.Steady { size := m, rest } := ⟨rfl, rfl, rfl, rfl, rfl, rfl⟩
  have hp : Paired { size := n, rest := inGroup cs (inGroup ds []) } { size := n', rest := cs ++ ds } :=
    ⟨hs _ _, rfl, rfl, rfl, Nat.le_refl _⟩
  have hrest : cs ++ ds = cs ++ (ds ++ []) := by rw [List.append_nil]
  obtain ⟨u, u', x, y, z, spare, hu, hau, hau', hx, hz, hmap, h₂, he⟩ :=
    hp.unwrap_pair hc hd ha hb rfl hrest hi
  rw [(readItems_of_rest_eq_nil _ hau.rest).1] at h₂
  obtain rfl := (Prod.mk.inj (Except.ok.inj h₂)).2
  refine ⟨u', (he k').trans (readItems_of_rest_eq_nil _ hau'.rest).1, hu.carried, hau.enclosing, hau'.enclosing,
    ofPieces x, ofPieces y, ?_, ?_⟩
  · rw [hx]
    rfl
  · rw [hz, List.append_nil]
    exact placed_ofPieces hmap

/-- The reader behind the anchor in front of the group that takes the whole subject. -/
def atGroup (size : Nat) (cs : List Nat) : ReadState :=
  ReadState.pushed { size, rest := framedSigns true cs } (inGroup cs [Sign.backslash, 122])
    (.item (.anchor .subjectStart) {}) .other false

theorem readItems_framedSigns (size fuel : Nat) (cs : List Nat) :
    readItems (fuel + 1 + 1) { size, rest := framedSigns true cs } =
      readItems fuel
        ((atGroup size cs).within (cs ++ [Sign.closeParen, Sign.backslash, 122]) .plain) := by
  have hs : ReadState.Steady { size, rest := framedSigns true cs } := ⟨rfl, rfl, rfl, rfl, rfl, rfl⟩
  have hs₁ : (atGroup size cs).Steady := ⟨rfl, rfl, rfl, rfl, rfl, rfl⟩
  rw [readItems_cons rfl (readNext_anchor hs (Nat.zero_le _) (.inl ⟨rfl, rfl⟩))]
  exact readItems_cons rfl (readNext_group hs₁ (Nat.zero_le _))

/-- The reader behind the group that takes the whole subject. -/
theorem readItems_tail {u : ReadState} (hs : s.Steady) (hu : u.Steady) (hd : u.depth ≤ maxDepth)
    (ha : Advanced (s.within rest .plain) [Sign.closeParen, Sign.backslash, 122] u) :
    readItems (fuel + 1 + 1) u = .ok ((), (u.closed s [Sign.backslash, 122] .plain).pushed []
      (.item (.anchor .subjectEnd) {}) .other false) := by
  have hclosed : (u.closed s [Sign.backslash, 122] .plain).Steady :=
    ⟨hu.quoted, hu.expects, hs.extended, hs.plainGroups, hs.numbers, hu.highest⟩
  have hle : s.depth ≤ u.depth := by
    rw [ha.depth]
    exact Nat.le_succ _
  rw [readItems_cons ha.rest (readNext_closed hu hd ha),
    readItems_cons rfl (readNext_anchor hclosed (hle.trans hd) (.inr ⟨rfl, rfl⟩))]
  exact (readItems_of_rest_eq_nil fuel rfl).1

/-- In a group that takes the whole subject. -/
theorem unwrap_anchored {n n' : Nat} (hc : ReadAlike cs) (hd : ReadAlike ds)
    (ha : Aligned f n n' cs (Sign.closeParen :: inGroup ds [Sign.closeParen, Sign.backslash, 122])
      (ds ++ [Sign.closeParen, Sign.backslash, 122]))
    (hb : Aligned f n n' ds [Sign.closeParen, Sign.closeParen, Sign.backslash, 122]
      [Sign.closeParen, Sign.backslash, 122])
    (hle : cs.length + ds.length + 8 ≤ fuel) (hle' : cs.length + ds.length + 4 ≤ fuel')
    (hi : readItems fuel { size := n, rest := framedSigns true (inGroup cs (inGroup ds [])) } = .ok ((), t)) :
    ∃ t', readItems fuel' { size := n', rest := framedSigns true (cs ++ ds) } = .ok ((), t') ∧
      Unwrapped f true t t' := by
  obtain ⟨k, rfl⟩ : ∃ k, fuel = cs.length + (ds.length + (k + 1 + 1 + 1) + 1 + 1) + 1 + 1 + 1 :=
    ⟨fuel - cs.length - ds.length - 8, by omega⟩
  obtain ⟨k', rfl⟩ : ∃ k', fuel' = cs.length + (ds.length + (k' + 1 + 1)) + 1 + 1 :=
    ⟨fuel' - cs.length - ds.length - 4, by omega⟩
  have hs (n : Nat) (cs : List Nat) : (atGroup n cs).Steady := ⟨rfl, rfl, rfl, rfl, rfl, rfl⟩
  have hp : Paired (atGroup n (inGroup cs (inGroup ds []))) (atGroup n' (cs ++ ds)) :=
    ⟨hs _ _, rfl, rfl, rfl, Nat.le_refl _⟩
  have hrest : inGroup cs (inGroup ds []) ++ [Sign.closeParen, Sign.backslash, 122] =
      inGroup cs (inGroup ds [Sign.closeParen, Sign.backslash, 122]) := by
    simp [inGroup]
  rw [readItems_framedSigns] at hi
  obtain ⟨u, u', x, y, z, spare, hu, hau, hau', hx, hz, hmap, h₂, he⟩ :=
    (hp.within f _ _ .plain .plain).unwrap_pair hc hd ha hb hrest (List.append_assoc _ _ _) hi
  have hk (m : Nat) : m + 1 + 1 + spare = m + spare + 1 + 1 := by omega
  obtain ⟨_, hn, -⟩ := readItems_succ hau.rest ((congrArg (readItems · u) (hk k)).symm.trans h₂)
  have hdu := depth_le_of_readNext hn
  rw [hk, readItems_tail (hs _ _) hu.steady hdu hau] at h₂
  obtain rfl := (Prod.mk.inj (Except.ok.inj h₂)).2
  have hpaired : Paired
      ((u.closed (atGroup n (inGroup cs (inGroup ds []))) [Sign.backslash, 122] .plain).pushed []
        (.item (.anchor .subjectEnd) {}) .other false)
      ((u'.closed (atGroup n' (cs ++ ds)) [Sign.backslash, 122] .plain).pushed []
        (.item (.anchor .subjectEnd) {}) .other false) :=
    (hp.closed hu _ _ .plain .plain).pushed _ _ .other false
  have hframed (v : ReadState) (m : Nat) (es : List Nat) :
      ofPieces ((v.closed (atGroup m es) [Sign.backslash, 122] .plain).pushed []
        (.item (.anchor .subjectEnd) {}) .other false).pieces = framed true (ofPieces v.pieces) := rfl
  refine ⟨_, ?_, hpaired.carried, rfl, rfl, ofPieces x, ofPieces y, ?_, ?_⟩
  · rw [readItems_framedSigns, he, hk]
    exact readItems_tail (hs _ _) hu.steady' (hu.depth.trans hdu) hau'
  · rw [hframed, hx]
    rfl
  · rw [hframed, hz]
    change (framed true (ofPieces (z ++ []))).placed f = _
    rw [List.append_nil]
    change framed true ((ofPieces z).placed f) = _
    rw [placed_ofPieces hmap]
    rfl

end

/-! ## Offsets -/

theorem encodedLength_append (cs ds : List Nat) :
    Text.encodedLength (cs ++ ds) = Text.encodedLength cs + Text.encodedLength ds := by
  induction cs with
  | nil => rw [List.nil_append, Text.encodedLength, Nat.zero_add]
  | cons c cs ih => rw [List.cons_append, Text.encodedLength, ih, Text.encodedLength, Nat.add_assoc]

theorem encodedLength_inGroup (cs r : List Nat) :
    Text.encodedLength (inGroup cs r) = Text.encodedLength cs + Text.encodedLength r + 4 := by
  have hsize : Text.encodedSize Sign.openParen = 1 ∧ Text.encodedSize Sign.question = 1 ∧
      Text.encodedSize Sign.colon = 1 ∧ Text.encodedSize Sign.closeParen = 1 := by
    decide
  simp only [inGroup, Text.encodedLength, encodedLength_append, hsize]
  omega

/-- Where a character stands when there are groups around the texts, of which the second begins at `middle`. -/
def regrouped (middle offset : Nat) : Nat := if offset < middle then offset + 3 else offset + 7

theorem regrouped_injective (middle : Nat) : Function.Injective (regrouped middle) := by
  intro i j h
  unfold regrouped at h
  split at h <;> split at h <;> omega

section
variable {cs ds r : List Nat} {before : Nat}

/-- The sizes of the parts of a text that ends in `cs` are bounded by that of `cs`. -/
theorem encodedLength_suffix {v : List Nat} (hv : v ≠ []) (h : v <:+ cs) :
    0 < Text.encodedLength v ∧ Text.encodedLength v ≤ Text.encodedLength cs := by
  obtain ⟨front, rfl⟩ := h
  have hle := length_le_encodedLength v
  have hpos := List.length_pos_iff.mpr hv
  rw [encodedLength_append]
  omega

theorem encodedLength_closeParen (r : List Nat) :
    Text.encodedLength (Sign.closeParen :: r) = Text.encodedLength r + 1 := by
  have hsize : Text.encodedSize Sign.closeParen = 1 := by decide
  rw [Text.encodedLength, hsize, Nat.add_comm]

theorem aligned_first :
    Aligned (regrouped (before + Text.encodedLength cs))
      (before + Text.encodedLength cs + Text.encodedLength ds + 8 + Text.encodedLength r)
      (before + Text.encodedLength cs + Text.encodedLength ds + Text.encodedLength r) cs
      (Sign.closeParen :: inGroup ds r) (ds ++ r) := by
  intro v hv hs
  obtain ⟨hpos, hle⟩ := encodedLength_suffix hv hs
  simp only [encodedLength_append, encodedLength_closeParen, encodedLength_inGroup, regrouped]
  split <;> omega

theorem aligned_second :
    Aligned (regrouped (before + Text.encodedLength cs))
      (before + Text.encodedLength cs + Text.encodedLength ds + 8 + Text.encodedLength r)
      (before + Text.encodedLength cs + Text.encodedLength ds + Text.encodedLength r) ds
      (Sign.closeParen :: r) r := by
  intro v hv hs
  obtain ⟨hpos, hle⟩ := encodedLength_suffix hv hs
  simp only [encodedLength_append, encodedLength_closeParen, regrouped]
  split <;> omega

end

/-- What stands behind the characters in the group that takes the whole subject. -/
def closingSigns (anchored : Bool) : List Nat :=
  if anchored then [Sign.closeParen, Sign.backslash, 122] else []

theorem encodedLength_framedSigns (anchored : Bool) (cs : List Nat) :
    Text.encodedLength (framedSigns anchored cs) =
      (if anchored then 5 else 0) + Text.encodedLength cs + Text.encodedLength (closingSigns anchored) := by
  have hsize : Text.encodedSize Sign.backslash = 1 ∧ Text.encodedSize 65 = 1 ∧ Text.encodedSize 122 = 1 := by
    decide
  cases anchored with
  | false => simp [framedSigns, closingSigns, Text.encodedLength]
  | true =>
      simp only [framedSigns, closingSigns, if_true, encodedLength_closeParen, Text.encodedLength,
        encodedLength_inGroup, hsize]
      omega

/-- What is read in the groups up to the end of the text is also read without them. -/
theorem readItems_unwrapped {cs ds : List Nat} {t : ReadState} (hc : ReadAlike cs) (hd : ReadAlike ds)
    (anchored : Bool)
    (hi : readItems (Text.encodedLength (framedSigns anchored (inGroup cs (inGroup ds []))) + 1)
      { size := Text.encodedLength (framedSigns anchored (inGroup cs (inGroup ds [])))
        rest := framedSigns anchored (inGroup cs (inGroup ds [])) } = .ok ((), t)) :
    ∃ middle t', readItems (Text.encodedLength (framedSigns anchored (cs ++ ds)) + 1)
        { size := Text.encodedLength (framedSigns anchored (cs ++ ds)), rest := framedSigns anchored (cs ++ ds) } =
          .ok ((), t') ∧
      Unwrapped (regrouped middle) anchored t t' := by
  have hcs := length_le_encodedLength cs
  have hds := length_le_encodedLength ds
  have hsize : Text.encodedLength (framedSigns anchored (inGroup cs (inGroup ds []))) =
      (if anchored then 5 else 0) + Text.encodedLength cs + Text.encodedLength ds + 8 +
        Text.encodedLength (closingSigns anchored) := by
    rw [encodedLength_framedSigns, encodedLength_inGroup, encodedLength_inGroup, Text.encodedLength]
    omega
  have hsize' : Text.encodedLength (framedSigns anchored (cs ++ ds)) =
      (if anchored then 5 else 0) + Text.encodedLength cs + Text.encodedLength ds +
        Text.encodedLength (closingSigns anchored) := by
    rw [encodedLength_framedSigns, encodedLength_append]
    omega
  rw [hsize] at hi
  rw [hsize']
  cases anchored with
  | false => exact ⟨_, unwrap_open hc hd aligned_first aligned_second (by simp; omega) (by simp; omega) hi⟩
  | true => exact ⟨_, unwrap_anchored hc hd aligned_first aligned_second (by simp; omega) (by simp; omega) hi⟩

/-- Two readers at the end of texts with and without the groups have read the same. -/
theorem Unwrapped.alike {f : Nat → Nat} {anchored : Bool} {s s' : ReadState} (h : Unwrapped f anchored s s') :
    ∃ a b, s.result.regex = framed anchored (pair a b) ∧
      Reading.Result.Alike id f { s.result with regex := framed anchored (a.append b) } s'.result ∧
      s'.result.settings = s.result.settings ∧ s'.result.namesBreak = s.result.namesBreak := by
  obtain ⟨a, b, hab, happend⟩ := h.regex
  have hopened := congrArg ReadState.opened h.carried
  have hnames := congrArg (·.names.reverse) h.carried
  have hshares := congrArg ReadState.sharesNumbers h.carried
  have hsettings := congrArg (fun s : ReadState => { s.settings with limits := s.settings.limits.lowered {} })
    h.carried
  have hbreaks := congrArg ReadState.namesBreak h.carried
  exact ⟨a, b, hab, ⟨happend.symm, hopened.symm, hnames.symm, hshares.symm⟩, hsettings, hbreaks⟩

end PatternGrammar.Regex

namespace PatternGrammar

/-! ## Texts -/

/-- The text in a group that does not capture. -/
def groupText (t : Text) : Text := "(?:" ++ t ++ ")"

/-- The text itself, or in a group that takes the whole subject. -/
def framedText (anchored : Bool) (t : Text) : Text := if anchored then "\\A" ++ groupText t ++ "\\z" else t

section
variable {t u : Text} {cs ds : List Nat}

theorem Spells.inGroup (h : Spells t cs) : Spells (groupText t) (Regex.inGroup cs []) := by
  have hopening : Spells "(?:" [40, 63, 58] := Spells.ascii (List.all_iff_forall_prop.mp (by decide))
  have hgroup := (hopening.append h).append .closeParen
  rwa [List.append_assoc] at hgroup

theorem Spells.groups (ht : Spells t cs) (hu : Spells u ds) :
    Spells (groupText t ++ groupText u) (Regex.inGroup cs (Regex.inGroup ds [])) := by
  have h := ht.inGroup.append hu.inGroup
  simpa [Regex.inGroup] using h

theorem Spells.framed (anchored : Bool) (h : Spells t cs) :
    Spells (framedText anchored t) (Regex.framedSigns anchored cs) := by
  cases anchored with
  | false => exact h
  | true =>
      have hstart : Spells "\\A" [92, 65] := Spells.ascii (List.all_iff_forall_prop.mp (by decide))
      have hend : Spells "\\z" [92, 122] := Spells.ascii (List.all_iff_forall_prop.mp (by decide))
      have hwhole := (hstart.append h.inGroup).append hend
      simpa [Regex.inGroup, Regex.framedSigns, framedText] using hwhole

theorem Spells.length_eq (h : Spells t cs) : t.length = Text.encodedLength cs := by
  rw [h.eq, Text.length_ofCodePoints]

theorem frontSettingAt?_inGroup (anchored : Bool) (cs r : List Nat) :
    Regex.frontSettingAt? (Regex.framedSigns anchored (Regex.inGroup cs r)) = none := by
  cases anchored <;> rfl

/-- What the engine reads in the groups it also reads without them. -/
theorem readWhole_unwrapped (ht : Spelled Regex.ReadAlike t) (hu : Spelled Regex.ReadAlike u) (anchored : Bool)
    (hf : Regex.frontSettingAt? (Text.codePoints (framedText anchored (t ++ u))) = none)
    {result : Regex.Reading.Result}
    (h : Regex.readWhole (framedText anchored (groupText t ++ groupText u)) = .ok result) :
    ∃ f a b result', Function.Injective f ∧ result.regex = .framed anchored (.pair a b) ∧
      Regex.readWhole (framedText anchored (t ++ u)) = .ok result' ∧
      Regex.Reading.Result.Alike id f { result with regex := .framed anchored (a.append b) } result' ∧
      result'.settings = result.settings ∧ result'.namesBreak = result.namesBreak := by
  obtain ⟨cs, hcs, hc⟩ := ht
  obtain ⟨ds, hds, hd⟩ := hu
  have hgroups := (hcs.groups hds).framed anchored
  have hopen := (hcs.append hds).framed anchored
  have hfront : Regex.frontSettingAt? (Text.codePoints
      (framedText anchored (groupText t ++ groupText u))) = none := by
    rw [hgroups.codePoints_eq]
    exact frontSettingAt?_inGroup _ _ _
  obtain ⟨s, hi, he, rfl⟩ := (readWhole_eq_ok hfront).mp h
  rw [hgroups.codePoints_eq, hgroups.length_eq] at hi
  obtain ⟨middle, s', hi', hs⟩ := Regex.readItems_unwrapped hc hd anchored hi
  obtain ⟨a, b, hab, halike, hsettings, hbreaks⟩ := hs.alike
  refine ⟨_, a, b, s'.result, Regex.regrouped_injective middle, hab, ?_, halike, hsettings, hbreaks⟩
  rw [readWhole_eq_ok hf, hopen.codePoints_eq, hopen.length_eq]
  exact ⟨s', hi', hs.enclosing', rfl⟩

end

end PatternGrammar
