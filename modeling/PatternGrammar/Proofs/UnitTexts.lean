import PatternGrammar.Proofs.RepeatedUnits

/-!
# Texts that are units

A character that has no meaning of its own, an escaped sign, an escape for a kind of characters, a class of characters
that neither are brackets nor begin escapes, and a group whose alternatives are read alike everywhere: the engine reads
each of them as one unit wherever it stands.
-/

namespace PatternGrammar.Regex

/-! ## Single items -/

section
variable {c : Nat} {u : List Nat} {x : Single}

/-- What is read as one item by itself is read so everywhere. -/
theorem IsReadAs.of_readUnit (breaks : Bool)
    (h : ∀ (s : ReadState) (rest : List Nat), s.flags = {} → s.settings = {} → u.length + rest.length < s.size →
      readUnit 0 c (u ++ rest) { s with rest := u ++ rest } =
        .ok ((), s.pushed rest (.item (.single x) {}) .repeatable breaks))
    (hc : c ∉ [Sign.star, Sign.plus, Sign.question, Sign.openBrace, Sign.openParen])
    (hb : c = Sign.backslash → ∃ d v, u = d :: v ∧ d ≠ Sign.upperQ ∧ d ≠ Sign.upperE) :
    IsReadAs (c :: u) (.item (.single x) {}) := by
  let front : ReadState := .inFrontOf (c :: u)
  refine ⟨front.pushed [] (.item (.single x) {}) .repeatable breaks, fun {s r k} hs hr hsize hk => ?_⟩
  have hlength : u.length + r.length < s.size := by
    have hle := length_le_encodedLength s.rest
    rw [hr] at hle hsize
    simp only [List.cons_append, List.length_cons, List.length_append] at hle hsize
    omega
  have hunit := h s r hs.flags' hs.settings_eq hlength
  simp only [List.mem_cons, List.not_mem_nil, or_false, not_or] at hc
  have hnext : readNext c (u ++ r) s = .ok ((), s.pushed r (.item (.single x) {}) .repeatable breaks) := by
    rw [readNext_eq hs.steady' (hs.depth.trans (show 2 ≤ maxDepth by decide)) ?_ fun ho => absurd ho hc.2.2.2.2,
      readItem_eq_readUnit hs.steady' (by simp [hc]), hunit]
    intro hcb
    obtain ⟨d, v, rfl, hd⟩ := hb hcb
    simpa using hd
  refine ⟨_, .item (.single x) {}, u.length, ⟨hs.pushed [] r .repeatable breaks, s.advanced_pushed _ _ _ _, rfl⟩, rfl,
    rfl, fun fuel => ?_⟩
  rw [List.length_cons, Nat.add_right_comm, readItems_cons hr hnext, Nat.add_comm]

theorem IsReadAs.literal (hc : c ∉ [Sign.openParen, Sign.closeParen, Sign.openBracket, Sign.backslash, Sign.openBrace,
    Sign.bar, Sign.caret, Sign.dollar, Sign.dot, Sign.star, Sign.plus, Sign.question]) :
    IsReadAs [c] (.item (.single (.ofLiteral c false)) {}) := by
  simp only [List.mem_cons, List.not_mem_nil, or_false, not_or] at hc
  refine .of_readUnit (c = Sign.carriageReturn || c = Sign.lineFeed) (fun s rest hf _ _ => ?_) (by simp [hc])
    (fun hb => absurd hb hc.2.2.2.1)
  rw [List.nil_append, readUnit_literal (by simp [hc]), pushLiteral_eq hf]

theorem IsReadAs.dot : IsReadAs [Sign.dot] (.item (.single .notNewline) {}) := by
  refine .of_readUnit false (fun s rest hf _ _ => ?_) (by decide) nofun
  rw [ReadState.pushed, Bool.or_false]
  obtain ⟨⟩ := s
  simp only at hf
  subst hf
  rfl

theorem IsReadAs.escapedSign (hc : CharClass.alnum.holds c = false) :
    IsReadAs [Sign.backslash, c] (.item (.single (.ofLiteral c false)) {}) := by
  refine .of_readUnit (c = Sign.carriageReturn || c = Sign.lineFeed) (fun s rest hf _ _ => ?_) (by decide)
    fun _ => ⟨c, [], rfl, ?_, ?_⟩
  · have hitem : readUnit 0 Sign.backslash ([c] ++ rest) { s with rest := [c] ++ rest } =
        pushLiteral c { s with rest } :=
      readEscapeItem_literal (readEscape_sign hc rfl)
    rw [hitem, pushLiteral_eq hf]
  all_goals
    rintro rfl
    cases hc

/-- The letters that stand for a kind of characters, for a line break or for a cluster behind a backslash. -/
theorem IsReadAs.escapedLetter (hc : c ∈ [68, 72, 82, 83, 86, 87, 88, 100, 104, 115, 118, 119]) :
    ∃ x, x ≠ .byte ∧ IsReadAs [Sign.backslash, c] (.item (.single x) {}) := by
  have hread (wide : Settings → Single) (hw : wide {} ≠ .byte) (h : ∀ (s : ReadState) (rest : List Nat),
      readUnit 0 Sign.backslash (c :: rest) { s with rest := c :: rest } =
        Reading.pushItem (.single (wide s.settings)) true { s with rest }) :
      ∃ x, x ≠ .byte ∧ IsReadAs [Sign.backslash, c] (.item (.single x) {}) := by
    refine ⟨wide {}, hw, .of_readUnit false (fun s rest _ hs _ => ?_) (by decide) fun _ => ⟨c, [], rfl, ?_, ?_⟩⟩
    · rw [List.singleton_append, h, congrArg wide hs, ReadState.pushed, Bool.or_false]
      rfl
    all_goals
      rintro rfl
      exact absurd hc (by decide)
  have hkind (k : CharKind) (negated : Bool) (h : ∀ (s : ReadState) (rest : List Nat),
      readUnit 0 Sign.backslash (c :: rest) { s with rest := c :: rest } =
        Reading.pushItem (.single (Member.ofKind s.settings.wideClasses k negated).toSingle) true { s with rest }) :
      ∃ x, x ≠ .byte ∧ IsReadAs [Sign.backslash, c] (.item (.single x) {}) :=
    hread (fun g => (Member.ofKind g.wideClasses k negated).toSingle) (by rintro ⟨⟩) h
  simp only [List.mem_cons, List.not_mem_nil, or_false] at hc
  rcases hc with rfl | rfl | rfl | rfl | rfl | rfl | rfl | rfl | rfl | rfl | rfl | rfl
  · exact hkind .digit true fun _ _ => rfl
  · exact hkind .horizontal true fun _ _ => rfl
  · exact hread (fun _ => .newline) (by simp) fun _ _ => rfl
  · exact hkind .space true fun _ _ => rfl
  · exact hkind .vertical true fun _ _ => rfl
  · exact hkind .word true fun _ _ => rfl
  · exact hread (fun _ => .cluster) (by simp) fun _ _ => rfl
  · exact hkind .digit false fun _ _ => rfl
  · exact hkind .horizontal false fun _ _ => rfl
  · exact hkind .space false fun _ _ => rfl
  · exact hkind .vertical false fun _ _ => rfl
  · exact hkind .word false fun _ _ => rfl

end

/-! ## Classes -/

/-- The members so far with one character more that is no bracket and begins no escape. -/
def ClassState.with? (k : ClassState) (c : Nat) : Option ClassState :=
  match k.range with
  | .none => some { k with members := .range c c :: k.members, range := .possible c }
  | .possible low =>
      if c = Sign.hyphen then some { k with range := .started low }
      else some { k with members := .range c c :: k.members, range := .possible c }
  | .started low =>
      if c < low then none else some { k with members := .range low c :: k.members.drop 1, range := .none }

/-- The members at the closing bracket. -/
def ClassState.finished (k : ClassState) : List Member :=
  match k.range with
  | .started _ => (.range Sign.hyphen Sign.hyphen :: k.members).reverse
  | _ => k.members.reverse

/-- The members of a class of such characters, behind those so far. -/
def ClassState.membersOf? (k : ClassState) : List Nat → Option (List Member)
  | [] => some k.finished
  | c :: cs => (k.with? c).bind fun k => membersOf? k cs

section
variable {c : Nat} {cs r : List Nat} {k : ClassState} {s : ReadState}

theorem ClassState.quoted_with? {k' : ClassState} (h : k.with? c = some k') : k'.quoted = k.quoted := by
  unfold with? at h
  split at h
  · cases h
    rfl
  · split at h <;> cases h <;> rfl
  · split at h <;> cases h
    rfl

theorem readMember_plain {k' : ClassState} (hc : c ≠ Sign.openBracket ∧ c ≠ Sign.backslash) (hq : k.quoted = false)
    (hf : s.flags = {}) (h : k.with? c = some k') : readMember k c r s = .ok (k', { s with rest := r }) := by
  obtain ⟨members, range, quoted⟩ := k
  obtain rfl : quoted = false := hq
  have hblank : s.flags.blankInClass = false := by rw [hf]
  -- a hyphen behind a character starts a range; any other character stands for itself
  have hitself (hrange : ∀ low, range = .possible low → c ≠ Sign.hyphen) :
      readMember ⟨members, range, false⟩ c r s =
        ClassState.addChar ⟨members, range, false⟩ c (Text.encodedSize c) { s with rest := r } := by
    simp only [readMember, Reading.skipTo, Reading.modify_bind, Bool.false_eq_true, if_false, Reading.get_bind, hblank,
      Bool.false_and]
    split
    · cases range with
      | possible low => exact absurd rfl (hrange low rfl)
      | _ => rfl
    · exact absurd rfl hc.2
    · exact absurd rfl hc.2
    · exact absurd rfl hc.2
    · exact absurd rfl hc.1
    · rfl
  cases range with
  | none =>
      cases h
      rw [hitself (by rintro _ ⟨⟩)]
      rfl
  | possible low =>
      simp only [ClassState.with?] at h
      split at h <;> cases h
      · next hh =>
          subst hh
          simp only [readMember, Reading.skipTo, Reading.modify_bind, Bool.false_eq_true, if_false, Reading.get_bind,
            hblank, Bool.false_and]
          rfl
      · next hh =>
          rw [hitself fun _ _ => hh]
          rfl
  | started low =>
      simp only [ClassState.with?] at h
      split at h <;> cases h
      next hlow =>
        rw [hitself (by rintro _ ⟨⟩)]
        simp only [ClassState.addChar, if_neg hlow]
        rfl

/-- The members of a class are read in the same way whatever follows its closing bracket. -/
theorem readMembers_plain {members : List Member}
    (hcs : ∀ c ∈ cs, c ∉ [Sign.openBracket, Sign.closeBracket, Sign.backslash]) (hq : k.quoted = false)
    (hf : s.flags = {}) (hr : s.rest = cs ++ Sign.closeBracket :: r) {fuel : Nat} (hfuel : cs.length < fuel)
    (h : k.membersOf? cs = some members) : readMembers fuel k s = .ok (members, { s with rest := r }) := by
  obtain ⟨fuel, rfl⟩ : ∃ n, fuel = n + 1 := ⟨fuel - 1, by omega⟩
  induction cs generalizing k s fuel with
  | nil =>
      obtain rfl := Option.some.inj h
      simp only [readMembers, Reading.rest_bind, hr, List.nil_append, hq]
      unfold ClassState.finished
      cases k.range <;> rfl
  | cons c cs ih =>
      obtain ⟨fuel, rfl⟩ : ∃ n, fuel = n + 1 := ⟨fuel - 1, by simp at hfuel; omega⟩
      obtain ⟨hc, hcs⟩ := List.forall_mem_cons.mp hcs
      simp only [List.mem_cons, List.not_mem_nil, or_false, not_or] at hc
      obtain ⟨k', hwith, hrest⟩ := Option.bind_eq_some_iff.mp h
      have hstep := readMember_plain (r := cs ++ Sign.closeBracket :: r) ⟨hc.1, hc.2.2⟩ hq hf hwith
      simp only [readMembers, Reading.rest_bind, hr, List.cons_append, hc.2.1, decide_false, Bool.false_and,
        Bool.false_eq_true, if_false]
      change (readMember k c (cs ++ Sign.closeBracket :: r) s >>= fun x => readMembers (fuel + 1) x.1 x.2) = _
      rw [hstep]
      exact ih (s := { s with rest := cs ++ Sign.closeBracket :: r }) hcs ((ClassState.quoted_with? hwith).trans hq) hf
        rfl hrest fuel (by simpa using hfuel)

/-- The caret in front of the members of a negated class. -/
def classFront (negated : Bool) : List Nat := if negated then [Sign.caret] else []

theorem skipClassFront_plain {negated : Bool} (hc : c ≠ Sign.backslash) (hn : negated = false → c ≠ Sign.caret) :
    skipClassFront false false (classFront negated ++ c :: r) = (negated, c :: r) := by
  have hfront (negated : Bool) (hn : negated = false → c ≠ Sign.caret) :
      skipClassFront false negated (c :: r) = (negated, c :: r) := by
    have hcaret : (!negated && decide (c = Sign.caret)) = false := by
      cases negated with
      | true => rfl
      | false => simpa using hn rfl
    rw [skipClassFront, Bool.false_and, if_neg Bool.false_ne_true, hcaret, if_neg Bool.false_ne_true]
    · rintro rest rfl
      exact absurd rfl hc
    · rintro rest rfl
      exact absurd rfl hc
  cases negated with
  | true => exact hfront true nofun
  | false => exact hfront false hn

/-- A class is read in the same way whatever follows its closing bracket. -/
theorem readClass_plain {negated : Bool} {members : List Member}
    (hcs : ∀ d ∈ c :: cs, d ∉ [Sign.openBracket, Sign.closeBracket, Sign.backslash])
    (hn : negated = false → c ≠ Sign.caret ∧ opensName c = false)
    (hm : ClassState.membersOf? {} (c :: cs) = some members) (hf : s.flags = {})
    (hr : s.rest = classFront negated ++ c :: cs ++ Sign.closeBracket :: r) (hsize : cs.length ≤ s.size) :
    readClass s = .ok (.ofMembers members negated false s.settings.wideClasses,
      { s with rest := r, namesBreak := s.namesBreak || namesBreakIn members negated }) := by
  obtain ⟨hc, hcs⟩ := List.forall_mem_cons.mp hcs
  simp only [List.mem_cons, List.not_mem_nil, or_false, not_or] at hc
  obtain ⟨k, hwith, hmembers⟩ := Option.bind_eq_some_iff.mp hm
  let t : ReadState := { s with rest := cs ++ Sign.closeBracket :: r }
  have hstep : readMember {} c (cs ++ Sign.closeBracket :: r) { s with rest := c :: (cs ++ Sign.closeBracket :: r) } =
      .ok (k, t) := readMember_plain ⟨hc.1, hc.2.2⟩ rfl hf hwith
  have hrun : readMembers (s.size + 1) k t = .ok (members, { s with rest := r }) :=
    readMembers_plain (s := t) hcs (ClassState.quoted_with? hwith) hf rfl (Nat.lt_succ_of_le hsize) hmembers
  have hblank : s.flags.blankInClass = false := by rw [hf]
  have hcase : s.flags.ignoreCase = false := by rw [hf]
  -- no name in brackets begins the class
  have hname : ∃ d v, s.rest = d :: v ∧ opensName d = false := by
    cases negated with
    | true => exact ⟨_, _, hr, by decide⟩
    | false => exact ⟨_, _, hr, (hn rfl).2⟩
  obtain ⟨d, v, hd, hopens⟩ := hname
  have hfront : skipClassFront false false (d :: v) = (negated, c :: (cs ++ Sign.closeBracket :: r)) := by
    rw [← hd, hr, List.append_assoc]
    exact skipClassFront_plain hc.2.2 fun h => (hn h).1
  simp only [readClass, Reading.get_bind, hd, hopens, Bool.false_and, Bool.false_eq_true, if_false, hblank, hcase,
    hfront]
  change (readMember {} c (cs ++ Sign.closeBracket :: r) { s with rest := c :: (cs ++ Sign.closeBracket :: r) } >>=
    fun x => _) = _
  rw [hstep]
  change (readMembers (s.size + 1) k t >>= fun x => _) = _
  rw [hrun]
  change ((if namesBreakIn members negated then _ else _ : Reading Single) _) = _
  cases namesBreakIn members negated with
  | true =>
      rw [Bool.or_true]
      rfl
  | false =>
      rw [Bool.or_false]
      rfl

theorem Single.ofMembers_ne_byte (members : List Member) (negated : Bool) :
    Single.ofMembers members negated false false ≠ .byte := by
  unfold Single.ofMembers
  dsimp only
  split
  all_goals first
    | split <;> nofun
    | nofun

theorem IsReadAs.ofClass {negated : Bool} {members : List Member}
    (hcs : ∀ d ∈ c :: cs, d ∉ [Sign.openBracket, Sign.closeBracket, Sign.backslash])
    (hn : negated = false → c ≠ Sign.caret ∧ opensName c = false)
    (hm : ClassState.membersOf? {} (c :: cs) = some members) :
    IsReadAs (Sign.openBracket :: (classFront negated ++ c :: cs ++ [Sign.closeBracket]))
      (.item (.single (.ofMembers members negated false false)) {}) := by
  refine .of_readUnit (namesBreakIn members negated) (fun s rest hf hs hsize => ?_) (by decide) nofun
  have hfront : ∃ d v, classFront negated ++ c :: cs ++ [Sign.closeBracket] ++ rest = d :: v ∧
      d ≠ Sign.openBracket := by
    cases negated with
    | true => exact ⟨_, _, rfl, by decide⟩
    | false => exact ⟨_, _, rfl, fun hd => hcs c List.mem_cons_self (by simp [hd])⟩
  obtain ⟨d, v, hd, hopen⟩ := hfront
  have hread := readClass_plain (r := rest) (s := { s with rest := d :: v }) hcs hn hm hf (by rw [← hd]; simp) (by
    simp at hsize ⊢; omega)
  have hunit : readUnit 0 Sign.openBracket (d :: v) { s with rest := d :: v } =
      (readClass >>= fun x => Reading.pushItem (.single x) true) { s with rest := d :: v } := by
    unfold readUnit
    split <;> simp_all
  have hwide : s.settings.wideClasses = false := by rw [hs]
  rw [hd, hunit, Reading.bind_eq_ok]
  exact ⟨_, _, hwide ▸ hread, rfl⟩

end

/-! ## Groups -/

theorem isRegular_placed (f : Nat → Nat) (r : Regex) : (r.placed f).isRegular = r.isRegular := by
  induction r with
  | stop => rfl
  | bar next ih => rw [placed, isRegular, isRegular, ih]
  | item i times next ih =>
      have hi : i.bare.isRegular = i.isRegular := by cases i <;> rfl
      rw [placed, isRegular, isRegular, ih, hi]
  | group kind body times next ihb ih =>
      have hkind : (kind.placed f).isRegular = kind.isRegular := by cases kind <;> rfl
      rw [placed, isRegular, isRegular, ihb, ih, hkind]

/-- What is read in step with what stands in the group is read as the group. -/
theorem IsReadAs.exists_group {cs r : List Nat} {f : Nat → Nat} {s t : ReadState} {fuel : Nat} (hc : ReadAlike cs)
    (hin : InStep f [] s ((ReadState.inFrontOf (inGroup cs [])).within (cs ++ [Sign.closeParen]) .plain))
    (haligned : Aligned f s.size (Text.encodedLength cs + 12) cs r [Sign.closeParen]) (hr : s.rest = cs ++ r)
    (h : readItems (cs.length + fuel) s = .ok ((), t)) :
    ∃ (v : ReadState) (body : Regex) (spare : Nat), Advanced s r v ∧ v.Steady ∧
      readItems (fuel + spare) v = .ok ((), t) ∧ body.placed f = (ofPieces v.pieces).placed id ∧
        IsReadAs (inGroup cs []) (.group .plain body {}) := by
  have hsize : ((ReadState.inFrontOf (inGroup cs [])).within (cs ++ [Sign.closeParen]) .plain).size =
      Text.encodedLength cs + 12 := by
    change Text.encodedLength (inGroup cs []) + 8 = _
    rw [encodedLength_inGroup]
    rfl
  obtain ⟨v, w, spare, hvw, hav, haw, hv, he⟩ := hc f [] s _ t r [Sign.closeParen] fuel hin (hsize ▸ haligned) hr rfl h
  refine ⟨v, ofPieces w.pieces, spare, hav, hvw.steady, hv, ?_,
    .of_readAlike (u := w.closed (.inFrontOf (inGroup cs [])) [] .plain) ?_ ?_ rfl rfl⟩
  · obtain ⟨top, hw, hmap⟩ := hvw.pieces
    rw [hw, List.append_nil, ← ofPieces_map_placed, hmap, ofPieces_map_placed]
  · have hgroup : inGroup cs [] = Sign.openParen :: (Sign.question :: [Sign.colon] ++ cs ++ [Sign.closeParen]) := by
      simp [inGroup]
    exact hgroup ▸ .plainGroup List.mem_cons_self hc
  · have hlength : (inGroup cs []).length + 1 = cs.length + (3 + 1) + 1 := by simp [inGroup]
    have hone : 3 + 1 + spare = 3 + spare + 1 := Nat.add_right_comm 3 1 spare
    have hdw : w.depth ≤ maxDepth := haw.depth.trans_le (show 3 ≤ maxDepth by decide)
    have hsteady : (ReadState.inFrontOf (inGroup cs [])).Steady := ⟨rfl, rfl, rfl, rfl, rfl, rfl⟩
    rw [hlength, readItems_cons rfl (readNext_group hsteady (show 2 ≤ maxDepth by decide)), he, hone,
      readItems_cons haw.rest (readNext_closed hvw.steady' hdw haw), (readItems_of_rest_eq_nil _ rfl).1]

/-- A group is read as one piece everywhere if what is in it is read alike, and can be read in three groups. -/
theorem IsReadAs.group {cs : List Nat} {t : ReadState} (hc : ReadAlike cs)
    (h : readItems (Text.encodedLength cs + 13)
      { size := Text.encodedLength cs + 12, rest := inGroup (inGroup (inGroup cs []) []) [] } = .ok ((), t))
    (hregular : (ofPieces t.pieces).isRegular) :
    ∃ body, body.isRegular ∧ IsReadAs (inGroup cs []) (.group .plain body {}) := by
  have hlength := length_le_encodedLength cs
  obtain ⟨fuel, hfuel⟩ : ∃ fuel, Text.encodedLength cs + 13 = cs.length + (fuel + 1 + 1 + 1) + 1 + 1 + 1 :=
    ⟨Text.encodedLength cs + 7 - cs.length, by omega⟩
  let signs₂ := inGroup cs [Sign.closeParen, Sign.closeParen]
  let signs₁ := Sign.openParen :: Sign.question :: Sign.colon :: signs₂
  have hsigns : inGroup (inGroup (inGroup cs []) []) [] = Sign.openParen :: Sign.question :: Sign.colon :: signs₁ := by
    simp [signs₁, signs₂, inGroup]
  rw [hfuel, hsigns] at h
  -- three groups down
  let s₀ : ReadState :=
    { size := Text.encodedLength cs + 12, rest := Sign.openParen :: Sign.question :: Sign.colon :: signs₁ }
  let s₁ := s₀.within signs₁ .plain
  let s₂ := s₁.within signs₂ .plain
  let s₃ := s₂.within (cs ++ [Sign.closeParen, Sign.closeParen, Sign.closeParen]) .plain
  have h₁ : readItems _ s₁ = .ok ((), t) := readItems_group (s := s₀) ⟨rfl, rfl, rfl, rfl, rfl, rfl⟩ rfl h
  have h₂ : readItems _ s₂ = .ok ((), t) := readItems_group ⟨rfl, rfl, rfl, rfl, rfl, rfl⟩ rfl h₁
  have h₃ : readItems _ s₃ = .ok ((), t) := readItems_group ⟨rfl, rfl, rfl, rfl, rfl, rfl⟩ rfl h₂
  have hin : InStep (· - 2) [] s₃ ((ReadState.inFrontOf (inGroup cs [])).within (cs ++ [Sign.closeParen]) .plain) :=
    ⟨⟨⟨rfl, rfl, rfl, rfl, rfl, rfl⟩, rfl, rfl, rfl, Nat.le_refl _⟩, .inl rfl, [], rfl, rfl⟩
  have haligned : Aligned (· - 2) s₃.size (Text.encodedLength cs + 12) cs
      [Sign.closeParen, Sign.closeParen, Sign.closeParen] [Sign.closeParen] := by
    intro v hv hs
    have hnil : Text.encodedLength [] = 0 := rfl
    simp only [s₃, s₂, s₁, s₀, ReadState.within, encodedLength_append, encodedLength_closeParen, hnil]
    omega
  obtain ⟨v, body, spare, hav, hsteady, hv, hplaced, hread⟩ := IsReadAs.exists_group hc hin haligned rfl h₃
  -- and up again
  have hspare : fuel + 1 + 1 + 1 + spare = fuel + spare + 1 + 1 + 1 := by omega
  have hdv : v.depth ≤ maxDepth := hav.depth.trans_le (show 3 ≤ maxDepth by decide)
  let v₂ := v.closed s₂ [Sign.closeParen, Sign.closeParen] .plain
  have hv₂ : v₂.Steady := ⟨hsteady.quoted, hsteady.expects, rfl, rfl, rfl, hsteady.highest⟩
  have hav₂ : Advanced s₂ [Sign.closeParen, Sign.closeParen] v₂ := ⟨rfl, hav.size, rfl, rfl⟩
  let v₁ := v₂.closed s₁ [Sign.closeParen] .plain
  have hv₁ : v₁.Steady := ⟨hsteady.quoted, hsteady.expects, rfl, rfl, rfl, hsteady.highest⟩
  have hav₁ : Advanced s₁ [Sign.closeParen] v₁ := ⟨rfl, hav.size, rfl, rfl⟩
  rw [hspare, readItems_cons hav.rest (readNext_closed hsteady hdv hav),
    readItems_cons rfl (readNext_closed hv₂ (show 2 ≤ maxDepth by decide) hav₂),
    readItems_cons rfl (readNext_closed hv₁ (show 1 ≤ maxDepth by decide) hav₁),
    (readItems_of_rest_eq_nil _ rfl).1] at hv
  obtain rfl := (Prod.mk.inj (Except.ok.inj hv)).2
  refine ⟨body, ?_, hread⟩
  have hgroups : (Regex.group .plain (.group .plain (.group .plain (ofPieces v.pieces) {} .stop) {} .stop) {}
      .stop).isRegular := hregular
  rw [← isRegular_placed, hplaced, isRegular_placed]
  simpa [isRegular, GroupKind.isRegular, Times.isOrdered] using hgroups

end PatternGrammar.Regex

namespace PatternGrammar

/-! ## Texts -/

section
variable {t : Text} {c : Nat} {cs : List Nat}

theorem beginsItem_of_spells (h : Spells t (c :: cs))
    (hc : c ∉ [Regex.Sign.question, Regex.Sign.star, Regex.Sign.openParen]) : beginsItem t := by
  simp only [List.mem_cons, List.not_mem_nil, or_false, not_or] at hc
  have hvalid := h.valid c List.mem_cons_self
  obtain ⟨b, front, hb⟩ : ∃ b front, Text.encode c = b :: front := List.exists_cons_of_ne_nil (Text.encode_ne_nil c)
  have ht : t.head? = some b := by
    rw [h.eq, Text.ofCodePoints, List.flatMap_cons, hb]
    rfl
  have hsign (sign : UInt8) (hs : sign.toNat < 128) (hne : c ≠ sign.toNat) : b ≠ sign := by
    rintro rfl
    by_cases hlow : c < 128
    · rw [Text.encode, if_pos hlow] at hb
      obtain rfl := (List.cons.inj hb).1
      exact hne (by simp; omega)
    · have hle := Text.le_toNat_of_mem_encode (Nat.le_of_not_lt hlow) hvalid (hb ▸ List.mem_cons_self)
      omega
  exact beginsItem_of_head? ht (hsign _ (by decide) hc.1) (hsign _ (by decide) hc.2.1) (hsign _ (by decide) hc.2.2)

namespace ReadsAsUnit

theorem of_isReadAs {x : Regex.Single} (hread : Regex.IsReadAs (c :: cs) (.item (.single x) {})) (hx : x ≠ .byte)
    (h : Spells t (c :: cs)) (hc : c ∉ [Regex.Sign.question, Regex.Sign.star, Regex.Sign.openParen]) : ReadsAsUnit t :=
  ⟨_, .single hx, beginsItem_of_spells h hc, _, h, hread⟩

/-- A character that has no meaning of its own. -/
theorem literal (h : Spells t [c]) (hc : c ∉ [Regex.Sign.openParen, Regex.Sign.closeParen, Regex.Sign.openBracket,
    Regex.Sign.backslash, Regex.Sign.openBrace, Regex.Sign.bar, Regex.Sign.caret, Regex.Sign.dollar, Regex.Sign.dot,
    Regex.Sign.star, Regex.Sign.plus, Regex.Sign.question]) : ReadsAsUnit t := by
  refine of_isReadAs (.literal hc) nofun h ?_
  simp only [List.mem_cons, List.not_mem_nil, or_false, not_or] at hc ⊢
  exact ⟨hc.2.2.2.2.2.2.2.2.2.2.2, hc.2.2.2.2.2.2.2.2.2.1, hc.1⟩

theorem dot : ReadsAsUnit "." :=
  of_isReadAs .dot nofun (.ascii (List.all_iff_forall_prop.mp (by decide))) (by decide)

section
variable {b : UInt8}

theorem spells_escape (hb : b.toNat < 128) : Spells ("\\" ++ [b]) [Regex.Sign.backslash, b.toNat] :=
  .ascii fun d hd => by
    rcases List.mem_cons.mp hd with rfl | hd
    · decide
    · exact List.mem_singleton.mp hd ▸ hb

/-- Behind a backslash signs stand for themselves. -/
theorem escapedSign (hb : b.toNat < 128) (hc : Regex.CharClass.alnum.holds b.toNat = false) :
    ReadsAsUnit ("\\" ++ [b]) :=
  of_isReadAs (.escapedSign hc) nofun (spells_escape hb) (by decide)

theorem escapedLetter (hb : b ∈ ("DHRSVWXdhsvw" : Text)) : ReadsAsUnit ("\\" ++ [b]) := by
  have hletters : ∀ b ∈ ("DHRSVWXdhsvw" : Text), b.toNat < 128 ∧
      b.toNat ∈ [68, 72, 82, 83, 86, 87, 88, 100, 104, 115, 118, 119] := by decide +kernel
  obtain ⟨hlow, hletter⟩ := hletters b hb
  obtain ⟨x, hx, hread⟩ := Regex.IsReadAs.escapedLetter hletter
  exact of_isReadAs hread hx (spells_escape hlow) (by decide)

end

/-- A class of characters that neither are brackets nor begin escapes, if its ranges are in order. -/
theorem ofClass {negated : Bool} {members : List Regex.Member} (h : Spells t (c :: cs))
    (hcs : ∀ d ∈ c :: cs, d ∉ [Regex.Sign.openBracket, Regex.Sign.closeBracket, Regex.Sign.backslash])
    (hn : negated = false → c ≠ Regex.Sign.caret ∧ Regex.opensName c = false)
    (hm : Regex.ClassState.membersOf? {} (c :: cs) = some members) :
    ReadsAsUnit ("[" ++ ((if negated then ("^" : Text) else []) ++ t ++ "]")) := by
  have hfront : Spells (if negated then ("^" : Text) else []) (Regex.classFront negated) := by
    cases negated with
    | true => exact .ascii (List.all_iff_forall_prop.mp (by decide))
    | false => exact .nil
  have hopen : Spells "[" [Regex.Sign.openBracket] := .ascii (List.all_iff_forall_prop.mp (by decide))
  have hclose : Spells "]" [Regex.Sign.closeBracket] := .ascii (List.all_iff_forall_prop.mp (by decide))
  exact of_isReadAs (.ofClass hcs hn hm) (Regex.Single.ofMembers_ne_byte members negated)
    (hopen.append ((hfront.append h).append hclose)) (by decide)

/-- A group of what is read alike everywhere, without references, calls and verbs. -/
theorem group (h : Spelled Regex.ReadAlike t)
    (hr : (Regex.readWhole (groupText (groupText (groupText t)))).toOption.any (·.regex.isRegular)) :
    ReadsAsUnit (groupText t) := by
  obtain ⟨cs, hcs, hc⟩ := h
  obtain ⟨whole, hw, hr⟩ := (Option.any_eq_true _ _).mp hr
  rw [Regex.Except.toOption_eq_some] at hw
  have hsigns := hcs.inGroup.inGroup.inGroup
  have hfront : Regex.frontSettingAt? (Text.codePoints (groupText (groupText (groupText t)))) = none := by
    rw [hsigns.codePoints_eq]
    rfl
  obtain ⟨s, hi, -, rfl⟩ := (readWhole_eq_ok hfront).mp hw
  have hlength : Text.encodedLength (Regex.inGroup (Regex.inGroup (Regex.inGroup cs []) []) []) =
      Text.encodedLength cs + 12 := by
    rw [Regex.encodedLength_inGroup, Regex.encodedLength_inGroup, Regex.encodedLength_inGroup]
    rfl
  rw [hsigns.codePoints_eq, hsigns.length_eq, hlength] at hi
  obtain ⟨body, hbody, hread⟩ := Regex.IsReadAs.group hc hi hr
  exact ⟨_, .group hbody, beginsItem_openParen nofun (List.cons_ne_nil _ _), _, hcs.inGroup, hread⟩

end ReadsAsUnit

end

end PatternGrammar
