import PatternGrammar.Proofs.Numbering
import PatternGrammar.Proofs.Places
import PatternGrammar.Proofs.Splicing

/-!
# Two expressions in a sequence

Two expressions without alternatives can stand one behind the other, with a group around each of them or
without. Without the groups everything that is checked still holds, and the code is the same but for the
groups.
-/

namespace PatternGrammar.Regex

/-! ## Expressions -/

def append : Regex → Regex → Regex
  | .stop, rest => rest
  | .bar next, rest => .bar (next.append rest)
  | .item i times next, rest => .item i times (next.append rest)
  | .group kind body times next, rest => .group kind body times (next.append rest)

theorem append_stop (r : Regex) : r.append .stop = r := by
  induction r with
  | stop => rfl
  | bar next ih => exact congrArg Regex.bar ih
  | item i times next ih => exact congrArg (Regex.item i times) ih
  | group kind body times next _ ih => exact congrArg (Regex.group kind body times) ih

theorem append_assoc (a b c : Regex) : (a.append b).append c = a.append (b.append c) := by
  induction a with
  | stop => rfl
  | bar next ih => exact congrArg Regex.bar ih
  | item i times next ih => exact congrArg (Regex.item i times) ih
  | group kind body times next _ ih => exact congrArg (Regex.group kind body times) ih

/-- The two expressions, with a group around each. -/
def pair (a b : Regex) : Regex := .group .plain a {} (.group .plain b {} .stop)

/-- The expression itself, or in a group that takes the whole subject. -/
def framed (anchored : Bool) (r : Regex) : Regex :=
  if anchored then .item (.anchor .subjectStart) {} (.group .plain r {} (.item (.anchor .subjectEnd) {} .stop))
  else r

theorem branchCount_pos (r : Regex) : 0 < r.branchCount := by
  induction r with
  | stop => exact Nat.one_pos
  | bar next _ => exact Nat.succ_pos _
  | item i times next ih => exact ih
  | group kind body times next _ ih => exact ih

theorem branchCount_append (a b : Regex) : (a.append b).branchCount + 1 = a.branchCount + b.branchCount := by
  induction a with
  | stop => exact Nat.add_comm _ _
  | bar next ih =>
      rw [append, branchCount, branchCount]
      omega
  | item i times next ih => exact ih
  | group kind body times next _ ih => exact ih

theorem ofPieces_append (pieces more : List Piece) :
    ofPieces (more ++ pieces) = (ofPieces pieces).append (ofPieces more) := by
  have hbefore (rest more : Regex) (p : Piece) :
      p.before (rest.append more) = (p.before rest).append more := by
    cases p <;> rfl
  have hfold (rest : Regex) : pieces.foldl Piece.before (rest.append (ofPieces more)) =
      (pieces.foldl Piece.before rest).append (ofPieces more) := by
    induction pieces generalizing rest with
    | nil => rfl
    | cons p pieces ih => rw [List.foldl_cons, hbefore, ih, List.foldl_cons]
  rw [ofPieces, List.foldl_append]
  exact hfold .stop

theorem hasItem_append (p : Item → Bool) (a b : Regex) :
    hasItem p (a.append b) = (hasItem p a || hasItem p b) := by
  induction a with
  | stop => rfl
  | bar next ih => exact ih
  | item i times next ih => rw [append, hasItem, hasItem, ih, Bool.or_assoc]
  | group kind body times next _ ih => rw [append, hasItem, hasItem, ih, Bool.or_assoc]

theorem hasItem_framed {p : Item → Bool} (hp : ∀ a, p (.anchor a) = false) (anchored : Bool) (r : Regex) :
    hasItem p (framed anchored r) = hasItem p r := by
  cases anchored <;> simp [framed, hasItem, hp]

theorem definitionsOnto_append (around : List Nat) (found : List (Nat × GroupDefinition)) (a b : Regex) :
    definitionsOnto around found (a.append b) = definitionsOnto around (definitionsOnto around found a) b := by
  induction a generalizing found with
  | stop => rfl
  | bar next ih => exact ih found
  | item i times next ih => exact ih found
  | group kind body times next _ ih =>
      cases kind with
      | capture n again => cases again <;> exact ih _
      | _ => exact ih _

/-! ## Checks -/

theorem measureWithin_append (m : Measures) (place : Surroundings) (a b : Regex) :
    m.measureWithin place (a.append b) =
      (do m.measureWithin place a; m.measureWithin place b) := by
  induction a with
  | stop => simp only [append, Measures.measureWithin, pure_bind]
  | bar next ih => exact ih
  | item i times next ih => exact ih
  | group kind body times next _ ih =>
      simp only [append, Measures.measureWithin, ih]
      split <;> simp only [bind_assoc]

section
variable {v : Surveyor} {place : Standing} {widths : List Nat} {total n : Nat} {a b : Regex}

theorem check_eq_ok {u : Unit} : v.check total = .ok u ↔ total ≤ maxExtent := by
  simp only [Surveyor.check]
  split
  · refine ⟨fun h => ?_, fun h => by omega⟩
    cases h
  · exact ⟨fun _ => by omega, fun _ => rfl⟩

/-- An expression takes the same room wherever it begins, if there is room for it. -/
theorem survey_shift {r : Regex} (h : v.survey place widths total r = .ok n) :
    n ≤ maxExtent ∧
      ∃ k, n = total + k ∧ ∀ t, t + k ≤ maxExtent → v.survey place widths t r = .ok (t + k) := by
  have hmore {total n x : Nat} {go rest : Nat → Except SyntaxError Nat}
      (h : n ≤ maxExtent ∧ ∃ k, n = total + x + k ∧ ∀ t, t + k ≤ maxExtent → rest t = .ok (t + k))
      (hgo : ∀ t, t ≤ maxExtent → go t = rest (t + x)) :
      n ≤ maxExtent ∧ ∃ k, n = total + k ∧ ∀ t, t + k ≤ maxExtent → go t = .ok (t + k) := by
    obtain ⟨hn, k, rfl, hk⟩ := h
    refine ⟨hn, x + k, Nat.add_assoc _ _ _, fun t ht => ?_⟩
    rw [hgo t (by omega), hk _ (by omega), Nat.add_assoc]
  have hcheck {t : Nat} (ht : t ≤ maxExtent) : v.check t = .ok () := check_eq_ok.mpr ht
  induction r generalizing widths total with
  | stop =>
      simp only [Surveyor.survey, Except.bind_eq_ok, check_eq_ok] at h
      obtain ⟨_, hc, h⟩ := h
      cases h
      refine ⟨hc, 0, rfl, fun t ht => ?_⟩
      rw [Surveyor.survey, hcheck (by omega)]
      rfl
  | bar next ih =>
      simp only [Surveyor.survey, Except.bind_eq_ok, Nat.add_assoc] at h
      obtain ⟨_, -, h⟩ := h
      refine hmore (ih h) fun t ht => ?_
      simp only [Surveyor.survey, hcheck ht, Nat.add_assoc]
      rfl
  | item i times next ih =>
      simp only [Surveyor.survey, Except.bind_eq_ok] at h
      obtain ⟨_, -, one, hi, h⟩ := h
      refine hmore (ih h) fun t ht => ?_
      simp only [Surveyor.survey, hcheck ht, hi]
      rfl
  | group kind body times next _ ih =>
      simp only [Surveyor.survey, Except.bind_eq_ok] at h
      obtain ⟨_, -, h⟩ := h
      split at h
      · next hf =>
          refine hmore (ih h) fun t ht => ?_
          simp only [Surveyor.survey, hcheck ht, if_pos hf]
          rfl
      · next hf =>
          simp only [Except.bind_eq_ok] at h
          obtain ⟨head, hh, one, hone, h⟩ := h
          refine hmore (ih h) fun t ht => ?_
          simp only [Surveyor.survey, hcheck ht, if_neg hf, hh]
          change (_ >>= fun one => v.survey place widths (t + groupExtent kind body one times) next) = _
          rw [hone]
          rfl

/-- Without alternatives, the widths of alternatives do not count. -/
theorem survey_append (hb : a.branchCount = 1) {widths' : List Nat} {m : Nat}
    (ha : v.survey place widths total a = .ok m) (h : v.survey place widths' m b = .ok n) :
    v.survey place widths' total (a.append b) = .ok n := by
  induction a generalizing widths total with
  | stop =>
      simp only [Surveyor.survey, Except.bind_eq_ok] at ha
      obtain ⟨_, -, ha⟩ := ha
      cases ha
      exact h
  | bar next =>
      have hpos := next.branchCount_pos
      rw [branchCount] at hb
      omega
  | item i times next ih =>
      simp only [append, Surveyor.survey, Except.bind_eq_ok] at ha ⊢
      obtain ⟨_, hc, one, hi, ha⟩ := ha
      exact ⟨(), hc, one, hi, ih hb ha⟩
  | group kind body times next _ ih =>
      simp only [append, Surveyor.survey, Except.bind_eq_ok] at ha ⊢
      obtain ⟨_, hc, ha⟩ := ha
      refine ⟨(), hc, ?_⟩
      split at ha
      · next hf =>
          rw [if_pos hf]
          exact ih hb ha
      · next hf =>
          rw [if_neg hf]
          simp only [Except.bind_eq_ok] at ha ⊢
          obtain ⟨head, hh, one, hone, ha⟩ := ha
          exact ⟨head, hh, one, hone, ih hb ha⟩

theorem survey_item {i : Item} {times : Times} {next : Regex} :
    v.survey place widths total (.item i times next) = .ok n ↔
      total ≤ maxExtent ∧ ∃ one, v.item place times i = .ok one ∧
        v.survey place widths (total + one) next = .ok n := by
  simp only [Surveyor.survey, Except.bind_eq_ok, check_eq_ok, exists_and_left, exists_const]

theorem survey_plain_group {body next : Regex} :
    v.survey place [] total (.group .plain body {} next) = .ok n ↔
      total ≤ maxExtent ∧ ∃ one, v.survey place [] frameExtent body = .ok one ∧
        v.survey place [] (total + one) next = .ok n := by
  have hfailure : isFailure .plain body {} = false := by cases body <;> rfl
  have hextent (one : Nat) : groupExtent .plain body one {} = one := rfl
  simp only [Surveyor.survey, Except.bind_eq_ok, check_eq_ok, hfailure, Bool.false_eq_true, if_false, hextent]
  constructor
  · rintro ⟨_, hc, head, ⟨⟩, one, hone, h⟩
    exact ⟨hc, one, hone, h⟩
  · rintro ⟨hc, one, hone, h⟩
    exact ⟨(), hc, 0, rfl, one, hone, h⟩

theorem survey_pair (ha : a.branchCount = 1) (h : v.survey place [] total (pair a b) = .ok n) :
    ∃ m ≤ n, v.survey place [] total (a.append b) = .ok m := by
  obtain ⟨-, one, hone, h⟩ := survey_plain_group.mp h
  obtain ⟨-, two, htwo, h⟩ := survey_plain_group.mp h
  simp only [Surveyor.survey, Except.bind_eq_ok, check_eq_ok] at h
  obtain ⟨_, hn, h⟩ := h
  cases h
  obtain ⟨-, k, rfl, hk⟩ := survey_shift hone
  obtain ⟨-, l, rfl, hl⟩ := survey_shift htwo
  exact ⟨total + k + l, by omega, survey_append ha (hk total (by omega)) (hl _ (by omega))⟩

theorem checkConditions_append {last : Nat} (ha : checkConditions last a = .ok ())
    (hb : ∀ last, checkConditions last b = .ok ()) : checkConditions last (a.append b) = .ok () := by
  induction a generalizing last with
  | stop => exact hb last
  | bar next ih => exact ih ha
  | item i times next ih => exact ih ha
  | group kind body times next _ ih =>
      simp only [append, checkConditions, Except.bind_eq_ok] at ha ⊢
      obtain ⟨_, hbody, _, hbranches, ha⟩ := ha
      exact ⟨(), hbody, (), hbranches, ih ha⟩

end

/-! ## Less to check -/

/-- The first expression can stand where the second does: it defines the same groups, has the same lookbehinds, takes no
more room, and has no condition that the second does not have. -/
structure StandsFor (r r' : Regex) : Prop where
  definitions : ∀ around found, definitionsOnto around found r = definitionsOnto around found r'
  measured : ∀ (m : Measures) place, m.measureWithin place r = m.measureWithin place r'
  extent : ∀ {v : Surveyor} {place : Standing} {total n : Nat}, v.survey place [] total r' = .ok n →
    ∃ k ≤ n, v.survey place [] total r = .ok k
  conditions : checkConditions 0 r' = .ok () → checkConditions 0 r = .ok ()

namespace StandsFor

variable {r r' : Regex}

theorem framed (h : r.StandsFor r') (anchored : Bool) : (framed anchored r).StandsFor (framed anchored r') := by
  cases anchored with
  | false => exact h
  | true =>
      refine ⟨fun around found => h.definitions around found, fun m place => ?_, fun {v place total n} hn => ?_,
        fun hc => ?_⟩
      · simp only [Regex.framed, if_true, Measures.measureWithin, h.measured]
      · obtain ⟨hc, x, hx, hn⟩ := survey_item.mp hn
        obtain ⟨hc', one, hone, hn⟩ := survey_plain_group.mp hn
        obtain ⟨one', hle, hone'⟩ := h.extent hone
        obtain ⟨hmax, k, rfl, hk⟩ := survey_shift hn
        refine ⟨total + x + one' + k, by omega, survey_item.mpr ⟨hc, x, hx, ?_⟩⟩
        exact survey_plain_group.mpr ⟨hc', one', hone', hk _ (by omega)⟩
      · simp only [Regex.framed, if_true, checkConditions, Except.bind_eq_ok] at hc ⊢
        obtain ⟨_, hbody, hrest⟩ := hc
        exact ⟨(), h.conditions hbody, hrest⟩

theorem groups_eq (h : r.StandsFor r') (result : Reading.Result) :
    Groups.ofResult { result with regex := r } = Groups.ofResult { result with regex := r' } := by
  simp only [Groups.ofResult, h.definitions]

/-- Where nothing is wrong with the second expression, nothing is wrong with the first. -/
theorem fits {size : Nat} {result : Reading.Result} {widths : List (Nat × List Nat)} (h : r.StandsFor r')
    (hf : Reading.Result.Fits size { result with regex := r' } widths) :
    Reading.Result.Fits size { result with regex := r } widths := by
  obtain ⟨hm, he, hc⟩ := hf
  refine ⟨?_, ?_, h.conditions hc⟩
  · rw [h.groups_eq]
    simpa only [lookBehindWidths, h.measured] using hm
  · rw [h.groups_eq]
    simp only [checkExtent, Except.bind_eq_ok, check_eq_ok] at he ⊢
    obtain ⟨n, hn, hle⟩ := he
    obtain ⟨k, hk, hk'⟩ := h.extent hn
    exact ⟨k, hk', by omega⟩

end StandsFor

/-- Two expressions one behind the other can stand where each of them has a group of its own. -/
theorem standsFor_append {a b : Regex} (ha : a.branchCount = 1) : (a.append b).StandsFor (pair a b) where
  definitions around found := definitionsOnto_append around found a b
  measured m place := by simp [pair, Measures.measureWithin, measureWithin_append]
  extent h := survey_pair ha h
  conditions h := by
    have hany {r : Regex} (h : checkConditions 0 r = .ok ()) (last : Nat) : checkConditions last r = .ok () := by
      have hp := checkConditions_placed (f := id) 0 0 r
      rw [checkConditions_placed last, h] at hp
      exact Except.toOption_eq_some.mp hp
    simp only [pair, checkConditions, Except.bind_eq_ok] at h
    obtain ⟨_, ha, _, -, _, hb, -⟩ := h
    exact checkConditions_append ha (hany hb)

end PatternGrammar.Regex
