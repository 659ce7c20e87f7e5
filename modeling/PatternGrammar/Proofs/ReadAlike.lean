import PatternGrammar.Proofs.InStep

/-!
# What is read alike

Quantifiers in braces and groups that do not capture are read alike if what stands in them is. So every text
without captures that is put together from items says the same wherever it stands.
-/

namespace PatternGrammar.Regex

/-! ## Counts -/

/-- The outcome when `r` follows. -/
def Bounded.behind (r : List Nat) : Bounded → Bounded
  | .value n t => .value n (t ++ r)
  | .tooBig t => .tooBig (t ++ r)

/-- The outcome when `r` follows. -/
def Counts.behind (r : List Nat) : Counts → Counts
  | .none => .none
  | .counts least most t => .counts least most (t ++ r)
  | .fault reason t => .fault reason (t ++ r)

section
variable {t r : List Nat}

theorem mem_dropWhile_isDigit (ht : Sign.closeBrace ∈ t) : Sign.closeBrace ∈ t.dropWhile isDigit := by
  have hsplit : Sign.closeBrace ∈ t.takeWhile isDigit ++ t.dropWhile isDigit := by
    rwa [List.takeWhile_append_dropWhile]
  exact (List.mem_append.mp hsplit).resolve_left (notMem_takeWhile_isDigit rfl t)

theorem dropWhile_isDigit_append (ht : Sign.closeBrace ∈ t) :
    (t ++ r).dropWhile isDigit = t.dropWhile isDigit ++ r := by
  rw [List.dropWhile_append, if_neg]
  simpa using List.ne_nil_of_mem (mem_dropWhile_isDigit ht)

theorem readBounded_append (ht : Sign.closeBrace ∈ t) (limit n : Nat) :
    readBounded limit n (t ++ r) = (readBounded limit n t).behind r := by
  induction t generalizing n with
  | nil => cases ht
  | cons c t ih =>
      rw [List.cons_append, readBounded, readBounded]
      split
      · next hc =>
          have hmem : Sign.closeBrace ∈ t := (List.mem_cons.mp ht).resolve_left (by rintro rfl; cases hc)
          dsimp only
          split
          · rfl
          · exact ih hmem _
      · rfl

theorem head?_append_of_mem {c : Nat} (ht : c ∈ t) : (t ++ r).head? = t.head? := by
  cases t with
  | nil => cases ht
  | cons d t => rfl

theorem beginsWithCounts_append (ht : Sign.closeBrace ∈ t) : beginsWithCounts (t ++ r) = beginsWithCounts t := by
  rw [beginsWithCounts, beginsWithCounts, startsWithDigit, startsWithDigit, head?_append_of_mem ht,
    dropWhile_isDigit_append ht]
  have hmem := mem_dropWhile_isDigit ht
  congr 1
  generalize t.dropWhile isDigit = d at hmem
  cases d with
  | nil => cases hmem
  | cons c d =>
      by_cases hclose : c = Sign.closeBrace
      · subst hclose
        rfl
      · by_cases hcomma : c = Sign.comma
        · subst hcomma
          have hd : Sign.closeBrace ∈ d := (List.mem_cons.mp hmem).resolve_left (by decide)
          change decide (((d ++ r).dropWhile isDigit).head? = some Sign.closeBrace) =
            decide ((d.dropWhile isDigit).head? = some Sign.closeBrace)
          rw [dropWhile_isDigit_append hd, head?_append_of_mem (mem_dropWhile_isDigit hd)]
        · grind

theorem readCounts_append (ht : Sign.closeBrace ∈ t) : readCounts (t ++ r) = (readCounts t).behind r := by
  rw [readCounts, readCounts, beginsWithCounts_append ht]
  split
  · rfl
  · next hb =>
      rw [readBounded_append ht]
      cases hv : readBounded maxCount 0 t with
      | tooBig u => rfl
      | value least u =>
          have hu := mem_dropWhile_isDigit ht
          rw [← readBounded_rest hv] at hu
          obtain ⟨c, w, rfl⟩ := List.exists_cons_of_ne_nil (List.ne_nil_of_mem hu)
          by_cases hc : c = Sign.closeBrace
          · subst hc
            rfl
          · have hw : Sign.closeBrace ∈ w := (List.mem_cons.mp hu).resolve_left (Ne.symm hc)
            obtain ⟨d, w, rfl⟩ := List.exists_cons_of_ne_nil (List.ne_nil_of_mem hw)
            by_cases hcd : c = Sign.comma ∧ d = Sign.closeBrace
            · obtain ⟨rfl, rfl⟩ := hcd
              rfl
            · have hread := readBounded_append (r := r) hw maxCount 0
              have hrest (m : Nat) (v : List Nat) (h : readBounded maxCount 0 (d :: w) = .value m v) : v ≠ [] :=
                readBounded_rest h ▸ List.ne_nil_of_mem (mem_dropWhile_isDigit hw)
              simp only [Bounded.behind, List.cons_append, List.drop_one] at hread ⊢
              grind [Bounded.behind, Counts.behind]

end

theorem readItem_openBrace {s : ReadState} (hs : s.Steady)
    (h : ∀ least most after, readCounts t ≠ .counts least most after) :
    readItem Sign.openBrace t s =
      (match readCounts t with
      | .fault reason rest => Reading.failAt reason rest
      | _ => pushLiteral Sign.openBrace) { s with rest := t } := by
  have hq : quantifierAt? Sign.openBrace t = none := by
    cases hc : readCounts t with
    | counts least most after => exact absurd hc (h least most after)
    | none | fault => simp only [quantifierAt?, hc]
  have hm : modeAt? s.flags.ungreedy Sign.openBrace = none := rfl
  rw [readItem_eq hs, hm, ite_self, hq]
  rfl

/-- A quantifier in braces, or the same characters one by one if they cannot be one. -/
theorem ReadAlike.counts {inner : List Nat} (hb : Sign.closeBrace ∉ inner)
    (hi : ReadAlike (inner ++ [Sign.closeBrace])) :
    ReadAlike (Sign.openBrace :: (inner ++ [Sign.closeBrace])) := by
  have hclose : Sign.closeBrace ∈ inner ++ [Sign.closeBrace] := by simp
  refine of_step fun f base s s' t r r' hs hn => ?_
  have hd := depth_le_of_readNext hn
  have hstep (x : ReadState) (rest : List Nat) (hx : x.Steady) (hd : x.depth ≤ maxDepth) :
      readNext Sign.openBrace rest x = readItem Sign.openBrace rest x :=
    readNext_eq hx hd (fun h => absurd h (by decide)) fun h => absurd h (by decide)
  have hd' := hs.depth.trans hd
  rw [hstep s _ hs.steady hd] at hn
  cases hc : readCounts (inner ++ [Sign.closeBrace]) with
  | counts least most after =>
      obtain ⟨front, hf, he⟩ := readCounts_counts hc
      obtain ⟨-, rfl⟩ := eq_of_append_cons_eq hb hf he
      have hq (rest : List Nat) : quantifierAt? Sign.openBrace (inner ++ [Sign.closeBrace] ++ rest) =
          some (least, most, rest) := by
        simp only [quantifierAt?, readCounts_append hclose, hc]
        rfl
      obtain ⟨t', ht, ha, ha', hn'⟩ := hs.quantifier (hq r) (hq r') hn
      exact ⟨[], t', List.nil_suffix, nil, ht, ha, ha', (hstep s' _ hs.steady' hd').trans hn'⟩
  | none =>
      have hitem (x : ReadState) (rest : List Nat) (hx : x.Steady) (hf : x.flags = {}) :
          readItem Sign.openBrace (inner ++ [Sign.closeBrace] ++ rest) x =
            .ok ((), x.pushed (inner ++ [Sign.closeBrace] ++ rest)
              (.item (.single (.ofLiteral Sign.openBrace false)) {}) .repeatable false) := by
        have hnone : readCounts (inner ++ [Sign.closeBrace] ++ rest) = .none := by
          rw [readCounts_append hclose, hc]
          rfl
        rw [readItem_openBrace hx (by rw [hnone]; intro _ _ _ h; cases h), hnone]
        exact pushLiteral_eq hf _ _
      rw [hitem s r hs.steady hs.flags] at hn
      obtain rfl := (Prod.mk.inj (Except.ok.inj hn)).2
      exact ⟨_, _, List.suffix_refl _, hi, hs.pushed rfl _ _ _ _, s.advanced_pushed _ _ _ _,
        s'.advanced_pushed _ _ _ _, (hstep s' _ hs.steady' hd').trans (hitem s' r' hs.steady' hs.flags')⟩
  | fault reason after =>
      have hfault : readCounts (inner ++ [Sign.closeBrace] ++ r) = .fault reason (after ++ r) := by
        rw [readCounts_append hclose, hc]
        rfl
      rw [readItem_openBrace hs.steady (by rw [hfault]; intro _ _ _ h; cases h), hfault] at hn
      exact absurd hn Reading.failAt_ne_ok

/-! ## Groups -/

/-- The reader in a group of this kind. -/
def ReadState.within (s : ReadState) (rest : List Nat) (kind : GroupKind) : ReadState :=
  { s with
    rest, pieces := [], preceding := .other, depth := s.depth + 1
    enclosing := { kind, before := s.pieces, flags := s.flags } :: s.enclosing }

section
variable {s s' u u' : ReadState}

theorem Paired.within (h : Paired s s') (f : Nat → Nat) (rest rest' : List Nat) (kind kind' : GroupKind) :
    InStep f [] (s.within rest kind) (s'.within rest' kind') where
  steady := ⟨h.steady.quoted, h.steady.expects, h.steady.extended, h.steady.plainGroups, rfl, h.steady.highest⟩
  numbers := rfl
  flags := h.flags
  carried := h.carried
  depth := Nat.succ_le_succ h.depth
  preceding := .inl rfl
  pieces := ⟨[], rfl, rfl⟩

end

/-- What the group is, by the signs behind its question mark and the offset of its parenthesis. -/
def kindOf? (offset : Nat) : List Nat → Option GroupKind
  | [Sign.colon] => some .plain
  | [Sign.greater] => some .atomic
  | [Sign.equals] => some (.look { behind := false, negated := false } 0)
  | [Sign.exclamation] => some (.look { behind := false, negated := true } 0)
  | [Sign.less, Sign.equals] => some (.look { behind := true, negated := false } offset)
  | [Sign.less, Sign.exclamation] => some (.look { behind := true, negated := true } offset)
  | _ => none

theorem offsetOf_opening (s : ReadState) (rest : List Nat) :
    s.offsetOf (Sign.openParen :: Sign.question :: rest) = s.offsetOf rest - 2 := by
  have hsize : Text.encodedSize Sign.openParen = 1 ∧ Text.encodedSize Sign.question = 1 := by decide
  rw [ReadState.offsetOf, ReadState.offsetOf, Text.encodedLength, Text.encodedLength, hsize.1, hsize.2]
  omega

theorem readNext_opening {s : ReadState} {signs rest : List Nat} {kind : GroupKind} (hs : s.Steady)
    (hd : s.depth ≤ maxDepth)
    (hk : kindOf? (s.offsetOf (Sign.openParen :: Sign.question :: (signs ++ rest))) signs = some kind) :
    readNext Sign.openParen (Sign.question :: (signs ++ rest)) s = .ok ((), s.within rest kind) := by
  have hitem : readNext Sign.openParen (Sign.question :: (signs ++ rest)) s =
      readQuestion 0 (signs ++ rest) { s with rest := Sign.question :: (signs ++ rest) } := by
    have hnext : readNext Sign.openParen (Sign.question :: (signs ++ rest)) s =
        readItem Sign.openParen (Sign.question :: (signs ++ rest)) s := by
      refine readNext_eq hs hd nofun ?_
      rintro - ⟨after, ha⟩
      have hhead := (List.cons.inj ha).2
      unfold kindOf? at hk
      split at hk <;> cases hk <;> exact absurd (List.cons.inj hhead).1 (by decide)
    exact hnext.trans (readItem_eq_readUnit hs (by decide))
  rw [offsetOf_opening] at hk
  rw [hitem]
  unfold kindOf? at hk
  split at hk
  all_goals cases hk
  · change readSettings (Sign.colon :: rest) _ = _
    simp [readSettings, readFlagChange, FlagChange.apply_none, Reading.skipTo]
    rfl
  · rfl
  · rfl
  · rfl
  · rfl
  · rfl

theorem readNext_closing {s : ReadState} {rest : List Nat} {g : OpenGroup} {outer : List OpenGroup}
    (hs : s.Steady) (hd : s.depth ≤ maxDepth) (he : s.enclosing = g :: outer) (hr : g.restart = none)
    (hw : g.within = none) (hg : g.repeatable) :
    readNext Sign.closeParen rest s = .ok ((), { s with
      rest, pieces := .group g.kind (ofPieces s.pieces) {} :: g.before, enclosing := outer, depth := s.depth - 1,
      flags := g.flags, preceding := .repeatable }) := by
  have hnext : readNext Sign.closeParen rest s = readItem Sign.closeParen rest s :=
    readNext_eq hs hd nofun nofun
  rw [hnext, readItem_eq_readUnit hs (by decide)]
  change closeGroup { s with rest } = _
  simp only [closeGroup, Reading.get_bind, he, Reading.set_eq_ok, hr, hw, hg]
  rfl

/-- The same signs begin the same group, but for its offset. -/
theorem kindOf?_placed {f : Nat → Nat} {offset offset' : Nat} {signs : List Nat} {kind : GroupKind}
    (hk : kindOf? offset signs = some kind) (ho : f offset' = offset) :
    ∃ kind', kindOf? offset' signs = some kind' ∧ kind'.placed f = kind.placed id := by
  unfold kindOf? at hk
  split at hk
  all_goals cases hk
  · exact ⟨_, rfl, rfl⟩
  · exact ⟨_, rfl, rfl⟩
  · exact ⟨_, rfl, rfl⟩
  · exact ⟨_, rfl, rfl⟩
  · exact ⟨_, rfl, congrArg _ ho⟩
  · exact ⟨_, rfl, congrArg _ ho⟩

theorem kindOf?_isSome {signs : List Nat} (h : signs ∈ [Sign.colon] :: [Sign.greater] :: lookSigns)
    (offset : Nat) : ∃ kind, kindOf? offset signs = some kind := by
  simp only [lookSigns, List.mem_cons, List.not_mem_nil, or_false] at h
  rcases h with rfl | rfl | rfl | rfl | rfl | rfl <;> exact ⟨_, rfl⟩

/-- The reader `u` at the end of a group, behind it; `s` is the reader in front of the group. -/
def ReadState.closed (u s : ReadState) (rest : List Nat) (kind : GroupKind) : ReadState :=
  { u with
    rest, pieces := .group kind (ofPieces u.pieces) {} :: s.pieces, flags := s.flags
    preceding := .repeatable, enclosing := s.enclosing, depth := s.depth }

section
variable {s s' u u' : ReadState}

theorem Paired.closed (h : Paired s s') (hu : Paired u u') (rest rest' : List Nat) (kind kind' : GroupKind) :
    Paired (u.closed s rest kind) (u'.closed s' rest' kind') where
  steady := ⟨hu.steady.quoted, hu.steady.expects, h.steady.extended, h.steady.plainGroups, h.steady.numbers,
    hu.steady.highest⟩
  numbers := h.numbers
  flags := h.flags
  carried := by
    change { u'.carried with flags := s'.flags } = { u.carried with flags := s.flags }
    rw [hu.carried, h.flags, h.flags']
  depth := h.depth

theorem InStep.closed {f : Nat → Nat} {base : List Piece} {kind kind' : GroupKind} (h : InStep f base s s')
    (hu : InStep f [] u u') (hk : kind'.placed f = kind.placed id) (rest rest' : List Nat) :
    InStep f base (u.closed s rest kind) (u'.closed s' rest' kind') where
  toPaired := h.toPaired.closed hu.toPaired rest rest' kind kind'
  preceding := .inr ⟨rfl, List.cons_ne_nil _ _⟩
  pieces := by
    obtain ⟨top, hs', hmap⟩ := h.pieces
    obtain ⟨inner, hu', hinner⟩ := hu.pieces
    refine ⟨.group kind' (ofPieces inner) {} :: top, ?_, ?_⟩
    · rw [ReadState.closed, hs', hu', List.append_nil, List.cons_append]
    · rw [ReadState.closed, List.map_cons, List.map_cons, hmap, Piece.placed, Piece.placed, hk,
        ← ofPieces_map_placed, ← ofPieces_map_placed, hinner]

end

/-- The group that has been opened last is closed. -/
theorem readNext_closed {s u : ReadState} {rest r : List Nat} {kind : GroupKind} (hu : u.Steady)
    (hd : u.depth ≤ maxDepth) (ha : Advanced (s.within rest kind) (Sign.closeParen :: r) u) :
    readNext Sign.closeParen r u = .ok ((), u.closed s r kind) := by
  rw [readNext_closing hu hd ha.enclosing rfl rfl rfl, ha.depth]
  rfl

/-- A group that does not capture. -/
theorem ReadAlike.plainGroup {signs body : List Nat} (hg : signs ∈ [Sign.colon] :: [Sign.greater] :: lookSigns)
    (hb : ReadAlike body) :
    ReadAlike (Sign.openParen :: (Sign.question :: signs ++ body ++ [Sign.closeParen])) := by
  intro f base s s' t r r' fuel hs ha hr hr' hi
  have hl (n : Nat) : (Sign.openParen :: (Sign.question :: signs ++ body ++ [Sign.closeParen])).length + n =
      body.length + (n + signs.length + 1 + 1) + 1 := by
    simp only [List.length_cons, List.length_append, List.length_nil]
    omega
  have hcs (rest : List Nat) : Sign.openParen :: (Sign.question :: signs ++ body ++ [Sign.closeParen]) ++ rest =
      Sign.openParen :: Sign.question :: (signs ++ (body ++ Sign.closeParen :: rest)) := by
    simp
  have hoffset := ha _ (List.cons_ne_nil _ _) (List.suffix_refl _)
  rw [hcs] at hr hr' hoffset
  rw [hcs] at hoffset
  rw [hl] at hi
  obtain ⟨s₁, hn₁, h₁, -⟩ := readItems_succ hr hi
  have hd := depth_le_of_readNext hn₁
  obtain ⟨kind, hk⟩ := kindOf?_isSome hg
    (s.offsetOf (Sign.openParen :: Sign.question :: (signs ++ (body ++ Sign.closeParen :: r))))
  obtain ⟨kind', hk', hplaced⟩ := kindOf?_placed hk hoffset
  rw [readNext_opening hs.steady hd hk] at hn₁
  obtain rfl := (Prod.mk.inj (Except.ok.inj hn₁)).2
  have hinner : Aligned f s.size s'.size body (Sign.closeParen :: r) (Sign.closeParen :: r') := by
    have hsplit : Sign.openParen :: (Sign.question :: signs ++ body ++ [Sign.closeParen]) =
        (Sign.openParen :: Sign.question :: signs) ++ (body ++ [Sign.closeParen]) := by
      simp
    rw [hsplit] at ha
    exact ha.right.left
  obtain ⟨u, u', k, hu, hau, hau', h₂, he⟩ :=
    hb f [] _ _ t _ _ _ (hs.toPaired.within f _ _ kind kind') hinner rfl rfl h₁
  have hk₂ (n : Nat) : n + signs.length + 1 + 1 + k = n + (signs.length + 1 + k) + 1 := by omega
  rw [hk₂] at h₂
  obtain ⟨s₃, hn₃, h₃, -⟩ := readItems_succ hau.rest h₂
  have hdu := depth_le_of_readNext hn₃
  rw [readNext_closed hu.steady hdu hau] at hn₃
  obtain rfl := (Prod.mk.inj (Except.ok.inj hn₃)).2
  refine ⟨_, _, _, hs.closed hu hplaced r r', ⟨rfl, hau.size, rfl, rfl⟩, ⟨rfl, hau'.size, rfl, rfl⟩, h₃,
    fun fuel' => ?_⟩
  rw [hl, readItems_cons hr' (readNext_opening hs.steady' (hs.depth.trans hd) hk'), he, hk₂,
    readItems_cons hau'.rest (readNext_closed hu.steady' (hu.depth.trans hdu) hau')]

theorem ReadAlike.isPassable : IsPassable ReadAlike where
  nil := .nil
  append := .append
  single := .single
  escapedSign := .escapedSign
  escapedLetter := .escapedLetter
  counts := .counts
  plainGroup := .plainGroup

end PatternGrammar.Regex
