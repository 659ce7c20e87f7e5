import PatternGrammar.Proofs.Escapes

/-!
# Passages

Some texts are read in the same way wherever they stand between items: reading goes over them to their end,
leaves the parentheses around them alone, and begins the same groups in them. Such passages can be put one
behind the other and between parentheses.
-/

namespace PatternGrammar.Regex

/-! ## What passages have in common -/

/-- A property of characters that can be put together from items without groups that capture. -/
structure IsPassable (Q : List Nat → Prop) : Prop where
  nil : Q []
  append : ∀ {u v}, Q u → Q v → Q (u ++ v)
  single : ∀ {c}, c ∉ [Sign.openParen, Sign.closeParen, Sign.openBracket, Sign.backslash,
    Sign.openBrace] → Q [c]
  escapedSign : ∀ {c}, CharClass.alnum.holds c = false → Q [Sign.backslash, c]
  escapedLetter : ∀ {c}, c ∈ [98, 102, 110, 114, 116, 118] → Q [Sign.backslash, c]
  counts : ∀ {inner}, Sign.closeBrace ∉ inner → Q (inner ++ [Sign.closeBrace]) →
    Q (Sign.openBrace :: (inner ++ [Sign.closeBrace]))
  plainGroup : ∀ {signs body}, signs ∈ [Sign.colon] :: [Sign.greater] :: lookSigns → Q body →
    Q (Sign.openParen :: (Sign.question :: signs ++ body ++ [Sign.closeParen]))

theorem IsPassable.singles {Q : List Nat → Prop} (hQ : IsPassable Q) {cs : List Nat}
    (h : ∀ c ∈ cs, c ∉ [Sign.openParen, Sign.closeParen, Sign.openBracket, Sign.backslash,
      Sign.openBrace]) : Q cs := by
  induction cs with
  | nil => exact hQ.nil
  | cons c cs ih =>
      obtain ⟨hc, hcs⟩ := List.forall_mem_cons.mp h
      exact hQ.append (hQ.single hc) (ih hcs)

/-! ## Passing over characters -/

/-- What follows each parenthesis at which a group with a new number begins. -/
def openings : (fuel : Nat) → ReadState → List (List Nat)
  | 0, _ => []
  | fuel + 1, s =>
      match s.rest with
      | [] => []
      | c :: rest =>
          match readNext c rest s with
          | .error _ => []
          | .ok (_, s') => (if s.highest < s'.highest then [rest] else []) ++ openings fuel s'

theorem readItems_succ {fuel c : Nat} {rest : List Nat} {s t : ReadState} (hr : s.rest = c :: rest)
    (h : readItems (fuel + 1) s = .ok ((), t)) :
    ∃ s', readNext c rest s = .ok ((), s') ∧ readItems fuel s' = .ok ((), t) ∧
      openings (fuel + 1) s = (if s.highest < s'.highest then [rest] else []) ++ openings fuel s' := by
  simp only [readItems, Reading.rest_bind, hr, Reading.bind_eq_ok] at h
  obtain ⟨_, s', hn, hi⟩ := h
  exact ⟨s', hn, hi, by simp only [openings, hr, hn]⟩

/-- Between items reading goes over these characters, wherever they stand, and groups with new numbers begin
in front of `opens`. Behind them a digit may follow if `digit` says so. -/
def Passes (digit : Bool) (cs : List Nat) (opens : List (List Nat)) : Prop :=
  ∀ (s t : ReadState) (rest : List Nat) (fuel : Nat), s.Steady → s.rest = cs ++ rest →
    (startsWithDigit rest → digit) → readItems (cs.length + fuel) s = .ok ((), t) →
      ∃ s' spare, After s rest opens.length s' ∧ readItems (fuel + spare) s' = .ok ((), t) ∧
        openings (cs.length + fuel) s = opens.map (· ++ rest) ++ openings (fuel + spare) s'

namespace Passes

variable {digit : Bool} {u v : List Nat} {a b : List (List Nat)}

theorem nil : Passes digit [] [] := by
  intro s t rest fuel hs hr _ h
  have hl : ([] : List Nat).length + fuel = fuel + 0 := Nat.add_comm _ _
  rw [hl] at h ⊢
  exact ⟨s, 0, ⟨hr, hs, rfl, rfl⟩, h, rfl⟩

theorem mono {d : Bool} (h : Passes d u a) (hd : digit → d) : Passes digit u a :=
  fun s t rest fuel hs hr hf => h s t rest fuel hs hr fun hstart => hd (hf hstart)

theorem append {d : Bool} (hu : Passes d u a) (hv : Passes digit v b) (hd : startsWithDigit v → d)
    (hn : v = [] → digit → d) : Passes digit (u ++ v) (a.map (· ++ v) ++ b) := by
  intro s t rest fuel hs hr hf h
  have hf' : startsWithDigit (v ++ rest) → d := by
    cases v with
    | nil => exact fun hstart => hn rfl (hf hstart)
    | cons c v => exact hd
  have hl : (u ++ v).length + fuel = u.length + (v.length + fuel) := by
    rw [List.length_append, Nat.add_assoc]
  rw [List.append_assoc] at hr
  rw [hl] at h ⊢
  obtain ⟨s₁, k, ha₁, h₁, ho₁⟩ := hu s t _ _ hs hr hf' h
  rw [Nat.add_assoc] at h₁ ho₁
  obtain ⟨s₂, l, ha₂, h₂, ho₂⟩ := hv s₁ t _ _ ha₁.steady ha₁.rest hf h₁
  rw [Nat.add_assoc] at h₂ ho₂
  refine ⟨s₂, k + l, ⟨ha₂.rest, ha₂.steady, ha₂.enclosing.trans ha₁.enclosing, ?_⟩, h₂, ?_⟩
  · rw [ha₂.opened, ha₁.opened, List.length_append, List.length_map, Nat.add_assoc]
  · rw [ho₁, ho₂, List.map_append, List.map_map, List.append_assoc]
    simp only [Function.comp_def, List.append_assoc]

/-- One step goes over the first character, and what it leaves can be passed. -/
theorem of_step {c : Nat} (h : ∀ (s s' : ReadState) (rest : List Nat), s.Steady →
    (startsWithDigit rest → digit) → readNext c (u ++ rest) s = .ok ((), s') →
      ∃ w, w.length ≤ u.length ∧ Passes digit w [] ∧ After s (w ++ rest) 0 s') :
    Passes digit (c :: u) [] := by
  intro s t rest fuel hs hr hf hi
  rw [List.length_cons, Nat.add_right_comm] at hi ⊢
  obtain ⟨s₁, hn, h₁, ho₁⟩ := readItems_succ hr hi
  obtain ⟨w, hl, hw, ha⟩ := h s s₁ rest hs hf hn
  have hh : ¬ s.highest < s₁.highest := by
    rw [hs.highest, ha.steady.highest, ha.opened]
    exact Nat.lt_irrefl _
  rw [if_neg hh, List.nil_append] at ho₁
  have hk : u.length + fuel = w.length + (fuel + (u.length - w.length)) := by omega
  rw [hk] at h₁
  obtain ⟨s₂, k, ha₂, h₂, ho₂⟩ := hw s₁ t rest _ ha.steady ha.rest hf h₁
  rw [Nat.add_assoc] at h₂ ho₂
  refine ⟨s₂, _, ⟨ha₂.rest, ha₂.steady, ha₂.enclosing.trans ha.enclosing, ?_⟩, h₂, ?_⟩
  · rw [ha₂.opened, ha.opened]
    rfl
  · rw [ho₁, hk, ho₂]

/-! ## Items -/

theorem single {c : Nat} (hc : c ∉ [Sign.openParen, Sign.closeParen, Sign.openBracket,
    Sign.backslash, Sign.openBrace]) : Passes digit [c] [] := by
  refine of_step fun s s' rest hs _ h => ⟨[], Nat.le_refl _, nil, ?_⟩
  simp only [List.mem_cons, not_or] at hc
  exact after_single hs (by simpa using hc)
    (readItem_of_readNext hs h (fun hb => absurd hb hc.2.2.2.1) fun ho => absurd ho hc.1)

theorem escapedSign {c : Nat} (hc : CharClass.alnum.holds c = false) :
    Passes digit [Sign.backslash, c] [] := by
  refine of_step fun s s' rest hs _ h => ⟨[], Nat.zero_le _, nil, ?_⟩
  refine after_escapedSign hs hc (readItem_of_readNext hs h (fun _ => ?_) nofun)
  constructor <;> rintro ⟨⟩ <;> cases hc

theorem escapedLetter {c : Nat} (hc : c ∈ [98, 102, 110, 114, 116, 118]) :
    Passes digit [Sign.backslash, c] [] := by
  refine of_step fun s s' rest hs _ h => ⟨[], Nat.zero_le _, nil, ?_⟩
  refine after_escapedLetter hs hc (readItem_of_readNext hs h (fun _ => ?_) nofun)
  constructor <;> rintro ⟨⟩ <;> exact absurd hc (by decide)

/-- A quantifier in braces, or the same characters one by one if they cannot be one. -/
theorem counts {inner : List Nat} (hb : Sign.closeBrace ∉ inner)
    (hi : Passes digit (inner ++ [Sign.closeBrace]) []) :
    Passes digit (Sign.openBrace :: (inner ++ [Sign.closeBrace])) [] := by
  refine of_step fun s s' rest hs _ h => ?_
  rcases after_openBrace hs (readItem_of_readNext hs h nofun nofun) with ha | ⟨_, _, after, hc, ha⟩
  · exact ⟨_, Nat.le_refl _, hi, ha⟩
  · obtain ⟨w, hw, he⟩ := readCounts_counts hc
    rw [List.append_assoc] at he
    obtain ⟨rfl, rfl⟩ := eq_of_append_cons_eq hb hw he
    exact ⟨[], Nat.zero_le _, nil, ha⟩

/-! ## Groups -/

/-- A group whose opening ends with `signs`. -/
theorem group {signs body : List Nat} {opens : List (List Nat)} (captures : Bool)
    (ho : ∀ (s s' : ReadState) (rest : List Nat), s.Steady →
      readNext Sign.openParen (signs ++ (body ++ Sign.closeParen :: rest)) s = .ok ((), s') →
        Entered s (body ++ Sign.closeParen :: rest) captures.toNat s')
    (hb : Passes false body opens) :
    Passes digit (Sign.openParen :: (signs ++ body ++ [Sign.closeParen]))
      ((if captures then [signs ++ body ++ [Sign.closeParen]] else []) ++
        opens.map (· ++ [Sign.closeParen])) := by
  intro s t rest fuel hs hr _ h
  have hl : (Sign.openParen :: (signs ++ body ++ [Sign.closeParen])).length + fuel =
      body.length + (fuel + signs.length + 1) + 1 := by
    simp only [List.length_cons, List.length_append, List.length_nil]
    omega
  have hr : s.rest = Sign.openParen :: (signs ++ (body ++ Sign.closeParen :: rest)) := by
    simpa using hr
  rw [hl] at h ⊢
  obtain ⟨s₁, hn₁, h₁, ho₁⟩ := readItems_succ hr h
  have he := ho s s₁ rest hs hn₁
  obtain ⟨s₂, k, ha, h₂, ho₂⟩ := hb s₁ t (Sign.closeParen :: rest) _ he.steady he.rest nofun h₁
  have hk : fuel + signs.length + 1 + k = fuel + (signs.length + k) + 1 := by omega
  rw [hk] at h₂ ho₂
  obtain ⟨s₃, hn₃, h₃, ho₃⟩ := readItems_succ ha.rest h₂
  obtain ⟨g, hg, hgf, hgr⟩ := he.enclosing
  have hc := readItem_of_readNext ha.steady hn₃ nofun nofun
  rw [readItem_eq_readUnit ha.steady (by decide)] at hc
  obtain ⟨hrest, hq, hx, hf, henc, hopen, hhigh⟩ :=
    closeGroup_eq_ok (s := { s₂ with rest }) (ha.enclosing.trans hg) hgr hc
  have hcount : s₃.opened = s.opened + captures.toNat + opens.length := by
    rw [hopen, ha.opened, he.opened]
  refine ⟨s₃, _, ⟨hrest, ⟨?_, ?_, ?_, ?_, ?_, ?_⟩, henc, ?_⟩, h₃, ?_⟩
  · exact hq.trans ha.steady.quoted
  · exact hx.trans ha.steady.expects
  · rw [hf, hgf, hs.extended]
  · rw [hf, hgf, hs.plainGroups]
  · rw [henc, hs.numbers]
  · rw [hhigh, hopen]
    exact ha.steady.highest
  · rw [hcount]
    cases captures with
    | false => simp
    | true =>
        simp
        omega
  · have hsame : ¬ s₂.highest < s₃.highest := by
      rw [hhigh]
      exact Nat.lt_irrefl _
    rw [ho₁, ho₂, ho₃, if_neg hsame, hs.highest, he.steady.highest, he.opened]
    cases captures <;> simp

/-- A group that does not capture. -/
theorem plainGroup {signs body : List Nat} {opens : List (List Nat)}
    (hg : signs ∈ [Sign.colon] :: [Sign.greater] :: lookSigns) (hb : Passes false body opens) :
    Passes digit (Sign.openParen :: (Sign.question :: signs ++ body ++ [Sign.closeParen]))
      (opens.map (· ++ [Sign.closeParen])) := by
  refine group false (fun s s' rest hs h => ?_) hb
  have hn : ∀ signs ∈ [Sign.colon] :: [Sign.greater] :: lookSigns,
      signs.head?.all (· ≠ Sign.numberSign) ∧ signs ≠ [] := by
    decide
  have hi := readItem_of_readNext hs h nofun ?_
  · rw [readItem_eq_readUnit hs (by decide)] at hi
    have he : Entered { s with rest := Sign.question :: signs ++ (body ++ Sign.closeParen :: rest) }
        (body ++ Sign.closeParen :: rest) 0 s' := by
      rcases List.mem_cons.mp hg with rfl | hg
      · exact entered_plain (hs.skip _) hi
      · rcases List.mem_cons.mp hg with rfl | hg
        · exact entered_atomic (hs.skip _) hi
        · exact entered_look hg (hs.skip _) hi
    exact ⟨he.rest, he.steady, he.opened, he.enclosing⟩
  · rintro - ⟨after, ha⟩
    obtain ⟨hn, hne⟩ := hn signs hg
    obtain ⟨c, signs, rfl⟩ := List.exists_cons_of_ne_nil hne
    have hc : Sign.numberSign = c := (List.cons.inj (List.cons.inj ha).2).1
    simp [← hc] at hn

/-- A group that captures, and takes no sign for its opening. -/
theorem capture {body : List Nat} {opens : List (List Nat)}
    (hq : body.head? ≠ some Sign.question) (hv : body.head? ≠ some Sign.star)
    (hb : Passes false body opens) :
    Passes digit (Sign.openParen :: (body ++ [Sign.closeParen]))
      ((body ++ [Sign.closeParen]) :: opens.map (· ++ [Sign.closeParen])) := by
  change Passes digit (Sign.openParen :: ([] ++ body ++ [Sign.closeParen])) _
  refine group true (fun s s' rest hs h => ?_) hb
  have hh {c : Nat} (hc : Sign.closeParen ≠ c) (h : body.head? ≠ some c) :
      (body ++ Sign.closeParen :: rest).head? ≠ some c := by
    cases body with
    | nil => simpa using hc
    | cons d body => exact h
  rw [List.nil_append] at h
  have hi := readItem_of_readNext hs h nofun fun _ ⟨after, ha⟩ =>
    hh (by decide) hq (by rw [← ha]; rfl)
  rw [readItem_eq_readUnit hs (by decide)] at hi
  have he := entered_capture (hh (by decide) hq) (hh (by decide) hv) (hs.skip _) hi
  exact ⟨he.rest, he.steady, he.opened, he.enclosing⟩

/-! ## Sequences of items -/

theorem isPassable : IsPassable (Passes true · []) where
  nil := .nil
  append hu hv := hu.append hv (fun _ => rfl) fun _ _ => rfl
  single := .single
  escapedSign := .escapedSign
  escapedLetter := .escapedLetter
  counts := .counts
  plainGroup hg hb := .plainGroup hg (hb.mono nofun)

theorem singles {cs : List Nat} (h : ∀ c ∈ cs, c ∉ [Sign.openParen, Sign.closeParen,
    Sign.openBracket, Sign.backslash, Sign.openBrace]) : Passes digit cs [] :=
  (isPassable.singles h).mono fun _ => rfl

theorem digits {cs : List Nat} (h : ∀ c ∈ cs, isDigit c) : Passes digit cs [] := by
  refine singles fun c hc hs => ?_
  have hd := h c hc
  simp only [List.mem_cons, List.not_mem_nil, or_false] at hs
  rcases hs with rfl | rfl | rfl | rfl | rfl <;> cases hd

/-- An escape by digits may leave some of them, but takes nothing behind them. -/
theorem backReference {cs : List Nat} (hn : cs ≠ []) (h : ∀ c ∈ cs, isDigit c) :
    Passes false (Sign.backslash :: cs) [] := by
  obtain ⟨c, cs, rfl⟩ := List.exists_cons_of_ne_nil hn
  obtain ⟨hc, hcs⟩ := List.forall_mem_cons.mp h
  refine of_step fun s s' rest hs hf hr => ?_
  have hi := readItem_of_readNext hs hr (fun _ => ?_) nofun
  · obtain ⟨taken, after, ht, he, ha⟩ := after_escapedDigit hs hc hi
    obtain ⟨w, rfl, rfl⟩ : ∃ w, cs = taken ++ w ∧ after = w ++ rest := by
      rcases List.append_eq_append_iff.mp he with ⟨w, rfl, hw⟩ | ⟨w, hcs, hw⟩
      · cases w with
        | nil => exact ⟨[], by simp, by simpa using hw.symm⟩
        | cons d w =>
            have hd : isDigit d := ht d (by simp)
            exact absurd (hf (by rw [hw]; exact hd)) (by decide)
      · exact ⟨w, hcs, hw⟩
    exact ⟨w, by simp; omega, digits fun d hd => hcs d (List.mem_append_right _ hd), ha⟩
  · constructor <;> rintro ⟨⟩ <;> cases hc

theorem subroutine {number : List Nat} (hn : Sign.greater ∉ number)
    (hd : startsWithDigit number ∨
      ∃ digits, number = Sign.hyphen :: digits ∧ startsWithDigit digits) :
    Passes digit (Sign.backslash :: 103 :: Sign.less :: (number ++ [Sign.greater])) [] := by
  refine of_step fun s s' rest hs _ h => ⟨[], Nat.zero_le _, nil, ?_⟩
  have hi := readItem_of_readNext hs h (fun _ => ⟨nofun, nofun⟩) nofun
  rw [List.cons_append, List.cons_append, List.append_assoc] at hi
  exact after_subroutine hs hn hd hi

end Passes

end PatternGrammar.Regex
