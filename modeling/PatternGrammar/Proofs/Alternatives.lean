import PatternGrammar.Proofs.Literals

/-!
# Alternatives of single items

Chains of single items can stand for one another, with bars between them. The engine tries them in their order,
and in each it goes on behind the chain if it takes the subject item by item. Whether one of them does so does not
depend on the order.
-/

namespace PatternGrammar.Regex

/-! ## Expressions -/

/-- Chains of single items, with bars between them. -/
def anyOf : List (List Single) → Regex
  | [] => .stop
  | [chain] => ones chain
  | chain :: other :: others => (ones chain).append (.bar (anyOf (other :: others)))

section
variable {p : Item → Bool} (hp : ∀ s, p (.single s) = false)
include hp

theorem hasItem_ones (chain : List Single) : hasItem p (ones chain) = false := by
  induction chain with
  | nil => rfl
  | cons s chain ih => exact Bool.or_eq_false_iff.mpr ⟨hp s, ih⟩

theorem hasItem_anyOf (chains : List (List Single)) : hasItem p (anyOf chains) = false := by
  induction chains using anyOf.induct with
  | case1 => rfl
  | case2 chain => exact hasItem_ones hp chain
  | case3 chain other others ih =>
      rw [anyOf, hasItem_append, hasItem_ones hp, Bool.false_or]
      exact ih

end

theorem measureWithin_anyOf (m : Measures) (place : Surroundings) (chains : List (List Single)) :
    m.measureWithin place (anyOf chains) = pure () := by
  induction chains using anyOf.induct with
  | case1 => rfl
  | case2 chain => exact (isSimple_ones chain).measureWithin m place
  | case3 chain other others ih =>
      rw [anyOf, measureWithin_append, (isSimple_ones chain).measureWithin, pure_bind]
      exact ih

theorem checkConditions_anyOf (chains : List (List Single)) (last : Nat) :
    checkConditions last (anyOf chains) = .ok () := by
  induction chains using anyOf.induct generalizing last with
  | case1 => rfl
  | case2 chain => exact (isSimple_ones chain).checkConditions last
  | case3 chain other others ih =>
      exact checkConditions_append ((isSimple_ones chain).checkConditions last) fun _ => ih 0

/-- The extent of chains of single items, with bars between them. -/
def anyOfExtent (chains : List (List Single)) : Nat := (chains.map onesExtent).sum + 3 * (chains.length - 1)

section
variable {v : Surveyor} {place : Standing} {widths : List Nat} {total n : Nat}

theorem le_of_survey {r : Regex} (h : v.survey place widths total r = .ok n) : total ≤ maxExtent := by
  obtain ⟨hn, k, rfl, -⟩ := survey_shift h
  omega

theorem survey_ones_append {chain : List Single} {next : Regex} :
    v.survey place widths total ((ones chain).append next) = .ok n ↔
      v.survey place widths (total + onesExtent chain) next = .ok n := by
  induction chain generalizing total with
  | nil => rfl
  | cons s chain ih =>
      have hcons : (ones (s :: chain)).append next = .item (.single s) {} ((ones chain).append next) := rfl
      have hextent : onesExtent (s :: chain) = s.extent {} + onesExtent chain := by
        simp only [onesExtent, List.map_cons, List.sum_cons]
      rw [hcons, survey_item, hextent, ← Nat.add_assoc, ← ih]
      constructor
      · rintro ⟨-, _, h, hn⟩
        cases h
        exact hn
      · intro hn
        exact ⟨(Nat.le_add_right _ _).trans (le_of_survey hn), _, rfl, hn⟩

theorem survey_bar {next : Regex} :
    v.survey place [] total (.bar next) = .ok n ↔
      total ≤ maxExtent ∧ v.survey place [] (total + 3) next = .ok n := by
  simp only [Surveyor.survey, Except.bind_eq_ok, check_eq_ok, exists_and_left, exists_const]
  rfl

theorem survey_anyOf {chains : List (List Single)} :
    v.survey place [] total (anyOf chains) = .ok n ↔
      total + anyOfExtent chains ≤ maxExtent ∧ n = total + anyOfExtent chains := by
  induction chains using anyOf.induct generalizing total with
  | case1 => exact survey_stop
  | case2 chain =>
      simp only [anyOf, survey_ones, anyOfExtent, List.map_singleton, List.sum_singleton, List.length_singleton,
        Nat.sub_self, Nat.mul_zero, Nat.add_zero]
  | case3 chain other others ih =>
      have hextent : anyOfExtent (chain :: other :: others) =
          onesExtent chain + 3 + anyOfExtent (other :: others) := by
        simp only [anyOfExtent, List.map_cons, List.sum_cons, List.length_cons]
        omega
      rw [anyOf, survey_ones_append, survey_bar, ih, hextent]
      omega

end

/-! ## Code -/

/-- Chains of single items, to be tried one after the other. -/
def Code.anyOf (upTo : Nat) : List (List Single) → Code
  | [] => .stop
  | [chain] => .ones chain
  | chain :: other :: others => .either upTo (.ones chain) (anyOf upTo (other :: others))

theorem Assembler.alternatives_ones_append (a : Assembler) (place : Position) (finished : List (Nat × Code))
    (widths : List Nat) (pieces : List Code.Piece) (chain : List Single) (next : Regex) :
    a.alternatives place finished widths pieces ((ones chain).append next) =
      a.alternatives place finished widths ((chain.map fun s => .step (.one s)).reverse ++ pieces) next := by
  induction chain generalizing pieces with
  | nil => rfl
  | cons s chain ih =>
      have hcons : a.alternatives place finished widths pieces ((ones (s :: chain)).append next) =
          a.alternatives place finished widths (.step (.one s) :: pieces) ((ones chain).append next) := rfl
      rw [hcons, ih, List.map_cons, List.reverse_cons, List.append_assoc]
      rfl

/-- The alternatives behind those that are finished. -/
theorem Assembler.alternatives_anyOf (a : Assembler) (place : Position) (finished : List (Nat × Code))
    (chains : List (List Single)) (s : Assembled) :
    a.alternatives place finished [] [] (Regex.anyOf chains) s =
      (finished.foldl (fun others (upTo, branch) => .either upTo branch others) (.anyOf s.leaves chains), s) := by
  induction chains using Regex.anyOf.induct generalizing finished with
  | case1 => rfl
  | case2 chain =>
      rw [Regex.anyOf, ← (ones chain).append_stop, a.alternatives_ones_append, List.append_nil, Code.anyOf, ← Code.ofPieces_ones]
      rfl
  | case3 chain other others ih =>
      rw [Regex.anyOf, a.alternatives_ones_append, List.append_nil, Code.anyOf, ← Code.ofPieces_ones]
      exact ih _

theorem Code.possessifiedFrom_anyOf (hasCalls : Bool) (fuel : Nat) (around : List Enclosure)
    (pieces : List Code.Piece) (left upTo : Nat) (chains : List (List Single)) :
    (Code.anyOf upTo chains).possessifiedFrom hasCalls fuel around pieces left =
      (pieces.foldl Piece.before (.anyOf upTo chains), left) := by
  induction chains using Code.anyOf.induct generalizing pieces with
  | case1 => rfl
  | case2 chain =>
      rw [anyOf, possessifiedFrom_ones, ofPieces, List.foldl_append, ← ofPieces, ofPieces_ones]
  | case3 chain other others ih =>
      rw [anyOf, possessifiedFrom, possessifiedFrom_ones, List.append_nil, ofPieces_ones]
      exact ih _

/-! ## Reading -/

/-- The characters that stand for these words, with bars between them. -/
def anySigns : List (List Nat) → List Nat
  | [] => []
  | [word] => word.flatMap escapedSigns
  | word :: other :: others => word.flatMap escapedSigns ++ Sign.bar :: anySigns (other :: others)

section
variable {s : ReadState} {rest : List Nat}

theorem readNext_bar (hs : s.Steady) (hd : s.depth ≤ maxDepth) :
    readNext Sign.bar rest s = .ok ((), s.pushed rest .bar .other false) := by
  have hnext : readNext Sign.bar rest s = readItem Sign.bar rest s := readNext_eq hs hd nofun nofun
  have hunit : readUnit 0 Sign.bar rest { s with rest } = readBar { s with rest } := rfl
  rw [hnext, readItem_eq_readUnit hs (by decide), hunit]
  refine Reading.modify_eq_ok.mpr ?_
  have hn := hs.numbers
  cases he : s.enclosing with
  | nil => simp [ReadState.pushed, he]
  | cons g outer =>
      have hg : g.restart = none := by simpa [he] using hn
      simp [ReadState.pushed, he, hg]

theorem readNext_wordBoundary (hs : s.Steady) (hd : s.depth ≤ maxDepth) :
    readNext Sign.backslash (98 :: rest) s =
      .ok ((), s.pushed rest (.item (.anchor .wordBoundary) {}) .other false) := by
  have hnext : readNext Sign.backslash (98 :: rest) s = readItem Sign.backslash (98 :: rest) s := by
    refine readNext_eq hs hd (fun _ => ?_) nofun
    rw [List.head?_cons]
    decide
  rw [hnext, readItem_eq_readUnit hs (by decide), ReadState.pushed, Bool.or_false]
  rfl

/-- Each word is read as a chain of single items, and a bar goes on with the next one. -/
theorem readItems_anySigns (hs : s.Ready) (words : List (List Nat)) (hr : s.rest = anySigns words ++ rest)
    (fuel : Nat) :
    ∃ u spare x, u.Ready ∧ Advanced s rest u ∧
      { u.carried with namesBreak := false } = { s.carried with namesBreak := false } ∧
      u.pieces = x ++ s.pieces ∧ ofPieces x = anyOf (words.map (·.map escapedSingle)) ∧
      readItems ((anySigns words).length + fuel) s = readItems (fuel + spare) u := by
  induction words using anySigns.induct generalizing s fuel with
  | case1 =>
      have hlength : (anySigns []).length + fuel = fuel + 0 := Nat.zero_add fuel
      exact ⟨s, 0, [], hs, ⟨hr, rfl, rfl, rfl⟩, rfl, rfl, rfl, by rw [hlength]⟩
  | case2 word =>
      obtain ⟨spare, hspare⟩ := Nat.exists_eq_add_of_le (length_le_escapedSigns word)
      obtain ⟨u, hu, ha, hcarried, hpieces, hi⟩ := readItems_escaped hs word hr (fuel + spare)
      have hlength : (anySigns [word]).length + fuel = word.length + (fuel + spare) := by
        rw [anySigns, hspare]
        omega
      exact ⟨u, spare, _, hu, ha, hcarried, hpieces, ofPieces_escapedPieces word, by rw [hlength, hi]⟩
  | case3 word other others ih =>
      obtain ⟨spare, hspare⟩ := Nat.exists_eq_add_of_le (length_le_escapedSigns word)
      rw [anySigns, List.append_assoc] at hr
      obtain ⟨u, hu, ha, hcarried, hpieces, hi⟩ :=
        readItems_escaped hs word hr ((anySigns (other :: others)).length + (fuel + spare) + 1)
      let v := u.pushed (anySigns (other :: others) ++ rest) .bar .other false
      obtain ⟨w, spare', x, hw, ha', hcarried', hpieces', hx, hi'⟩ :=
        ih (hu.pushed _ .bar .other false) rfl (fuel + spare)
      have hbar : readItems ((anySigns (other :: others)).length + (fuel + spare) + 1) u =
          readItems ((anySigns (other :: others)).length + (fuel + spare)) v :=
        readItems_cons ha.rest (readNext_bar hu.steady hu.depth)
      have hlength : (anySigns (word :: other :: others)).length + fuel =
          word.length + ((anySigns (other :: others)).length + (fuel + spare) + 1) := by
        rw [anySigns, List.length_append, hspare, List.length_cons]
        omega
      refine ⟨w, spare + spare', x ++ (.bar :: (word.map escapedPiece).reverse), hw, ?_, hcarried'.trans ?_, ?_, ?_,
        ?_⟩
      · exact (ha.trans (u.advanced_pushed _ _ _ _)).trans ha'
      · rw [← hcarried]
        change { u.carried with namesBreak := false } = _
        rfl
      · rw [hpieces', List.append_assoc, List.cons_append, ← hpieces]
        rfl
      · have hword : ofPieces (.bar :: (word.map escapedPiece).reverse) =
            (ones (word.map escapedSingle)).append (.bar .stop) := by
          rw [← ofPieces_escapedPieces]
          exact ofPieces_append _ [.bar]
        rw [ofPieces_append, hword, append_assoc, hx]
        rfl
      · rw [hlength, hi, hbar, hi', Nat.add_assoc]

end

end PatternGrammar.Regex
