import Mathlib.Data.List.Basic
import PatternGrammar.Proofs.EntityGrammar

/-!
# The rounds of the entity scanners

The scanners of classes and groups as loops over indices with a depth: each round goes forward, no depth
is below zero, and what the loops end with are the ends that the grammar has.
-/

namespace PatternGrammar

open Ascii

/-! ## Rounds -/

/-- What one round of a loop over the bytes does: it goes on at an index and a depth, or the loop ends,
with the index behind the closing byte or with none. -/
inductive Round where
  | onward (index : Nat) (depth : Int)
  | ended (result : Option Nat)

/-- The index behind the byte `b`, if that stands there. -/
def past (t : Text) (b : UInt8) (index : Nat) : Nat :=
  if t[index]? = some b then index + 1 else index

/-- The index where the text ends that a scanner gives. -/
def indexOf (t : Text) (behind? : Option Text) : Option Nat :=
  behind?.map fun behind => t.length - behind.length

/-- The index behind the class that begins at an index. -/
def classIndex? (t : Text) (start : Nat) : Option Nat :=
  indexOf t (classEnd? 0 (t.drop start))

/-- The index behind the group or comment that begins at an index. -/
def groupIndex? (t : Text) (start : Nat) : Option Nat :=
  indexOf t (groupEnd? .items 0 (t.drop start))

/-- The index behind the first closing parenthesis from an index on. -/
def commentIndex? (t : Text) (start : Nat) : Option Nat :=
  if closeParen ∈ t.drop start then some (start + (t.drop start).idxOf closeParen + 1) else none

/-- A round of the scanner of classes. -/
def classRound (t : Text) (index : Nat) (depth : Int) : Round :=
  match t[index]? with
  | none => .ended none
  | some backslash => .onward (index + 2) depth
  | some openBracket => .onward (past t closeBracket (past t caret (index + 1))) (depth + 1)
  | some closeBracket =>
      if depth - 1 = 0 then .ended (some (index + 1)) else .onward (index + 1) (depth - 1)
  | some _ => .onward (index + 1) depth

/-- A round of the scanner of groups. -/
def groupRound (t : Text) (index : Nat) (depth : Int) : Round :=
  match t[index]? with
  | none => .ended none
  | some backslash => .onward (index + 2) depth
  | some openBracket =>
      match classIndex? t index with
      | none => .ended none
      | some next => .onward next depth
  | some openParen =>
      if "(?#" <+: t.drop index then
        match commentIndex? t index with
        | none => .ended none
        | some next => if depth = 0 then .ended (some next) else .onward next depth
      else .onward (index + 1) (depth + 1)
  | some closeParen =>
      if depth = 0 then .ended none
      else if depth - 1 = 0 then .ended (some (index + 1)) else .onward (index + 1) (depth - 1)
  | some _ => .onward (index + 1) depth

/-- The rounds from an index and a depth on come to an end with a result; no depth is below zero, each
round goes forward, and so does the last one. -/
inductive Scan (t : Text) (round : Nat → Int → Round) : Nat → Int → Option Nat → Prop where
  | ended {index : Nat} {depth : Int} {result : Option Nat} : 0 ≤ depth →
      (∀ next ∈ result, index < next ∧ next ≤ t.length) → round index depth = .ended result →
      Scan t round index depth result
  | onward {index next : Nat} {depth depth' : Int} {result : Option Nat} : 0 ≤ depth → index < next →
      round index depth = .onward next depth' → Scan t round next depth' result →
      Scan t round index depth result

/-- What the rounds end with stands behind where they begin. -/
theorem Scan.bounds {t : Text} {round : Nat → Int → Round} {start next : Nat} {depth : Int}
    (h : Scan t round start depth (some next)) : start < next ∧ next ≤ t.length := by
  generalize hr : some next = result at h
  induction h with
  | ended _ hb _ => exact hb next hr.symm
  | onward _ hl _ _ ih =>
      obtain ⟨hs, hn⟩ := ih hr
      exact ⟨Nat.lt_trans hl hs, hn⟩

theorem drop_past (t : Text) (b : UInt8) (index : Nat) :
    t.drop (past t b index) = dropOptional b (t.drop index) := by
  cases h : t.drop index with
  | nil =>
      have hl : t.length ≤ index := List.drop_eq_nil_iff.mp h
      have hn : t[index]? = none := List.getElem?_eq_none hl
      rw [past, if_neg (by simp [hn]), h, dropOptional]
  | cons c u =>
      have hc : t[index]? = some c := by rw [← List.head?_drop, h, List.head?_cons]
      rw [past, dropOptional, hc]
      by_cases hb : c = b
      · rw [if_pos (congrArg some hb), if_pos hb, ← List.tail_drop, h, List.tail_cons]
      · rw [if_neg (fun he => hb (Option.some.inj he)), if_neg hb, h]

theorem le_past (t : Text) (b : UInt8) (index : Nat) : index ≤ past t b index := by
  rw [past]
  split
  · exact Nat.le_succ _
  · exact Nat.le_refl _

theorem getElem?_of_drop_eq_cons {t u : Text} {b : UInt8} {index : Nat} (h : t.drop index = b :: u) :
    t[index]? = some b := by
  rw [← List.head?_drop, h, List.head?_cons]

theorem drop_succ_of_drop_eq_cons {t u : Text} {b : UInt8} {index : Nat} (h : t.drop index = b :: u) :
    t.drop (index + 1) = u := by
  rw [← List.tail_drop, h, List.tail_cons]

theorem lt_length_of_drop_eq_cons {t u : Text} {b : UInt8} {index : Nat} (h : t.drop index = b :: u) :
    index < t.length :=
  (List.getElem?_eq_some_iff.mp (getElem?_of_drop_eq_cons h)).1

/-- What is left behind a part of a text is left from the index behind that part on. -/
theorem indexOf_some {t part behind : Text} {index : Nat} (h : t.drop index = part ++ behind)
    (hl : index ≤ t.length) : indexOf t (some behind) = some (index + part.length) := by
  have hd : t.length - index = part.length + behind.length := by
    rw [← List.length_drop, h, List.length_append]
  rw [indexOf, Option.map_some]
  congr 1
  omega

/-- A byte that closes ends the rounds at depth one and else takes one off the depth. -/
theorem Scan.close {t u : Text} {b : UInt8} {round : Nat → Int → Round} {index depth : Nat}
    {behind? : Option Text} (h : t.drop index = b :: u)
    (hr : round index (depth + 1 : Nat) = if ((depth + 1 : Nat) : Int) - 1 = 0 then .ended (some (index + 1))
      else .onward (index + 1) (((depth + 1 : Nat) : Int) - 1))
    (hn : depth ≠ 0 → Scan t round (index + 1) depth (indexOf t behind?)) :
    Scan t round index (depth + 1 : Nat) (indexOf t (if depth = 0 then some u else behind?)) := by
  have hl := lt_length_of_drop_eq_cons h
  have hdepth : (0 : Int) ≤ (depth + 1 : Nat) := Int.natCast_nonneg _
  have hone : ((depth + 1 : Nat) : Int) - 1 = depth := by omega
  rw [hone] at hr
  by_cases hz : depth = 0
  · have hp : t.drop index = [b] ++ u := h
    have hi : indexOf t (some u) = some (index + 1) := indexOf_some hp (Nat.le_of_lt hl)
    rw [if_pos hz, hi]
    refine .ended hdepth ?_ (hr.trans (if_pos (congrArg Int.ofNat hz)))
    rintro next hm
    obtain rfl := Option.some.inj hm
    exact ⟨Nat.lt_succ_self _, hl⟩
  · rw [if_neg hz]
    exact .onward hdepth (Nat.lt_succ_self _) (hr.trans (if_neg fun he => hz (Int.ofNat_inj.mp he))) (hn hz)

/-- Two bytes are passed over, or one where there is no second. -/
theorem classEnd?_backslash (depth : Nat) (rest : Text) :
    classEnd? depth (backslash :: rest) = classEnd? depth (rest.drop 1) := by
  cases rest <;> rfl

theorem groupEnd?_backslash (depth : Nat) (rest : Text) :
    groupEnd? .items depth (backslash :: rest) = groupEnd? .items depth (rest.drop 1) := by
  cases rest <;> rfl

theorem classRound_cons {t : Text} {b : UInt8} {index : Nat} (hb : t[index]? = some b)
    (hm : b ∉ ("\\[]" : Text)) (depth : Int) : classRound t index depth = .onward (index + 1) depth := by
  have hc : ∀ c ∈ ("\\[]" : Text), b ≠ c := fun c hc hbc => hm (hbc ▸ hc)
  rw [classRound, hb]
  split
  · next h => cases h
  · next h => exact absurd (Option.some.inj h) (hc backslash (by decide))
  · next h => exact absurd (Option.some.inj h) (hc openBracket (by decide))
  · next h => exact absurd (Option.some.inj h) (hc closeBracket (by decide))
  · rfl

/-- Inside a class, the scanner does the rounds. -/
theorem scan_classRound (t : Text) (index depth : Nat) :
    Scan t (classRound t) index (depth + 1 : Nat) (indexOf t (classEnd? (depth + 1) (t.drop index))) := by
  -- The induction is on how much of the text is left; each round leaves less.
  induction hn : t.length - index using Nat.strongRecOn generalizing index depth with
  | ind n ih =>
    subst hn
    have hdepth : (0 : Int) ≤ (depth + 1 : Nat) := Int.natCast_nonneg _
    cases h : t.drop index with
    | nil =>
        have hb : t[index]? = none := List.getElem?_eq_none (List.drop_eq_nil_iff.mp h)
        exact .ended hdepth (fun _ hm => by cases hm) (by rw [classRound, hb]; rfl)
    | cons b u =>
        have hb := getElem?_of_drop_eq_cons h
        have hu := drop_succ_of_drop_eq_cons h
        have hl := lt_length_of_drop_eq_cons h
        by_cases hm : b ∈ ("\\[]" : Text)
        · have hs : ∀ c ∈ ("\\[]" : Text), c = backslash ∨ c = openBracket ∨ c = closeBracket :=
            List.all_iff_forall_prop.mp (by decide)
          obtain rfl | rfl | rfl := hs b hm
          · have hd : u.drop 1 = t.drop (index + 2) := by rw [← hu, List.drop_drop]
            rw [classEnd?_backslash, hd]
            exact .onward hdepth (by omega) (by rw [classRound, hb]; rfl) (ih _ (by omega) _ _ rfl)
          · have hd : behindLead u = t.drop (past t closeBracket (past t caret (index + 1))) := by
              rw [drop_past, drop_past, hu, behindLead]
            have hlt : index < past t closeBracket (past t caret (index + 1)) :=
              Nat.le_trans (le_past t caret (index + 1)) (le_past t closeBracket _)
            rw [classEnd?_openBracket, hd]
            exact .onward hdepth hlt (by rw [classRound, hb]; rfl) (ih _ (by omega) _ _ rfl)
          · rw [classEnd?_closeBracket]
            refine .close h (by rw [classRound, hb]; rfl) fun hz => ?_
            obtain ⟨depth, rfl⟩ := Nat.exists_eq_succ_of_ne_zero hz
            rw [← hu]
            exact ih _ (by omega) _ _ rfl
        · rw [classEnd?_cons hm, ← hu]
          exact .onward hdepth (Nat.lt_succ_self _) (classRound_cons hb hm _) (ih _ (by omega) _ _ rfl)

/-- From the bracket that opens a class on, the scanner does the rounds. -/
theorem scan_classIndex? {t : Text} {start : Nat} (h : t[start]? = some openBracket) :
    Scan t (classRound t) start 0 (classIndex? t start) := by
  obtain ⟨hl, hb⟩ := List.getElem?_eq_some_iff.mp h
  have hd : behindLead (t.drop (start + 1)) = t.drop (past t closeBracket (past t caret (start + 1))) := by
    rw [drop_past, drop_past, behindLead]
  have hlt : start < past t closeBracket (past t caret (start + 1)) :=
    Nat.le_trans (le_past t caret (start + 1)) (le_past t closeBracket _)
  rw [classIndex?, List.drop_eq_getElem_cons hl, hb, classEnd?_openBracket, hd]
  exact .onward (Int.le_refl 0) hlt (by rw [classRound, h]; rfl) (scan_classRound t _ 0)

theorem groupRound_cons {t : Text} {b : UInt8} {index : Nat} (hb : t[index]? = some b)
    (hm : b ∉ scanStops) (depth : Int) : groupRound t index depth = .onward (index + 1) depth := by
  have hc : ∀ c ∈ scanStops, b ≠ c := fun c hc hbc => hm (hbc ▸ hc)
  rw [groupRound, hb]
  split
  · next h => cases h
  · next h => exact absurd (Option.some.inj h) (hc backslash (by decide))
  · next h => exact absurd (Option.some.inj h) (hc openBracket (by decide))
  · next h => exact absurd (Option.some.inj h) (hc openParen (by decide))
  · next h => exact absurd (Option.some.inj h) (hc closeParen (by decide))
  · rfl

/-- The search for a closing parenthesis finds the end of a comment. -/
theorem IsComment.commentIndex?_eq {t c behind : Text} {index : Nat} (h : IsComment c)
    (hc : t.drop index = c ++ behind) : commentIndex? t index = some (index + c.length) := by
  cases h with
  | @mk text ht =>
      have hn : closeParen ∉ "(?#" ++ text := by
        rw [List.mem_append, not_or]
        exact ⟨by decide, ht⟩
      have hd : t.drop index = "(?#" ++ text ++ closeParen :: behind := by
        rw [hc, List.append_assoc _ [closeParen], List.singleton_append]
      have hi : (t.drop index).idxOf closeParen = ("(?#" ++ text).length := by
        rw [hd, List.idxOf_append_of_notMem hn, List.idxOf_cons_self, Nat.add_zero]
      have hm : closeParen ∈ t.drop index := by
        rw [hd]
        exact List.mem_append_right _ List.mem_cons_self
      rw [commentIndex?, if_pos hm, hi, List.length_append, List.length_append, List.length_append,
        List.length_singleton, Nat.add_assoc]

/-- In front of a class, the scanner of groups jumps behind it. -/
theorem scan_openBracket {t u : Text} {index depth : Nat} (h : t.drop index = openBracket :: u)
    (ih : ∀ next > index, Scan t (groupRound t) next depth (indexOf t (groupEnd? .items depth (t.drop next)))) :
    Scan t (groupRound t) index depth (indexOf t (groupEnd? .items depth (openBracket :: u))) := by
  have hb := getElem?_of_drop_eq_cons h
  have hl := lt_length_of_drop_eq_cons h
  have hdepth : (0 : Int) ≤ depth := Int.natCast_nonneg _
  have hround : groupRound t index depth =
      match classIndex? t index with
      | none => .ended none
      | some next => .onward next depth := by
    rw [groupRound, hb]
    rfl
  rw [groupEnd?_openBracket]
  cases hc : classEnd? 0 (openBracket :: u) with
  | none =>
      have hi : classIndex? t index = none := by rw [classIndex?, h, hc, indexOf, Option.map_none]
      rw [hi] at hround
      exact .ended hdepth (fun _ hm => by cases hm) hround
  | some behind =>
      obtain ⟨c, hw, he⟩ := classEnd?_eq_some.mp hc
      have hi : classIndex? t index = some (index + c.length) := by
        rw [classIndex?, h, hc, indexOf_some (h.trans he) (Nat.le_of_lt hl)]
      have hd : behind = t.drop (index + c.length) := by
        rw [← List.drop_drop, h, he, List.drop_left]
      have hp : 0 < c.length := by
        obtain ⟨inner, -, rfl⟩ := hw.begins
        exact Nat.succ_pos _
      rw [hi] at hround
      rw [Option.bind_some, hd]
      exact .onward hdepth (Nat.lt_add_of_pos_right hp) hround (ih _ (Nat.lt_add_of_pos_right hp))

/-- In front of a comment, the scanner of groups jumps behind it, which may be the end. -/
theorem scan_comment {t u : Text} {index depth : Nat} (h : t.drop index = "(?#" ++ u)
    (ih : ∀ next > index, Scan t (groupRound t) next depth (indexOf t (groupEnd? .items depth (t.drop next)))) :
    Scan t (groupRound t) index depth (indexOf t (groupEnd? .items depth ("(?#" ++ u))) := by
  have hb : t[index]? = some openParen := getElem?_of_drop_eq_cons h
  have hl : index < t.length := lt_length_of_drop_eq_cons h
  have hdepth : (0 : Int) ≤ depth := Int.natCast_nonneg _
  have hround : groupRound t index depth =
      match commentIndex? t index with
      | none => .ended none
      | some next => if (depth : Int) = 0 then .ended (some next) else .onward next depth := by
    rw [groupRound, hb]
    exact if_pos ⟨u, h.symm⟩
  by_cases hm : closeParen ∈ u
  · obtain ⟨text, behind, rfl, ht⟩ := List.eq_append_cons_of_mem hm
    have hc : IsComment ("(?#" ++ text ++ [closeParen]) := .mk ht
    have hs : "(?#" ++ (text ++ closeParen :: behind) = "(?#" ++ text ++ [closeParen] ++ behind := by
      simp only [List.append_assoc, List.singleton_append]
    rw [hs] at h ⊢
    rw [hc.groupEnd?_append]
    rw [hc.commentIndex?_eq h] at hround
    have hd : behind = t.drop (index + ("(?#" ++ text ++ [closeParen]).length) := by
      rw [← List.drop_drop, h, List.drop_left]
    have hp : 0 < ("(?#" ++ text ++ [closeParen]).length := Nat.succ_pos _
    by_cases hz : depth = 0
    · rw [if_pos hz, indexOf_some h (Nat.le_of_lt hl)]
      refine .ended hdepth ?_ (hround.trans (if_pos (congrArg Int.ofNat hz)))
      rintro next hn
      obtain rfl := Option.some.inj hn
      have hlen := congrArg List.length h
      rw [List.length_drop, List.length_append] at hlen
      exact ⟨Nat.lt_add_of_pos_right hp, by omega⟩
    · rw [if_neg hz, hd]
      exact .onward hdepth (Nat.lt_add_of_pos_right hp)
        (hround.trans (if_neg fun he => hz (Int.ofNat_inj.mp he))) (ih _ (Nat.lt_add_of_pos_right hp))
  · have hn : closeParen ∉ t.drop index := by
      rw [h, List.mem_append, not_or]
      exact ⟨by decide, hm⟩
    have hi : groupEnd? .items depth ("(?#" ++ u) = none := by
      cases he : groupEnd? .items depth ("(?#" ++ u) with
      | none => rfl
      | some rest =>
          obtain ⟨text, behind, -, rfl, -⟩ := exists_comment_of_groupEnd? he
          exact absurd (List.mem_append_right _ List.mem_cons_self) hm
    rw [commentIndex?, if_neg hn] at hround
    rw [hi]
    exact .ended hdepth (fun _ hm => by cases hm) hround

/-- The scanner of groups does the rounds. -/
theorem scan_groupRound (t : Text) (index depth : Nat) :
    Scan t (groupRound t) index depth (indexOf t (groupEnd? .items depth (t.drop index))) := by
  induction hn : t.length - index using Nat.strongRecOn generalizing index depth with
  | ind n ih =>
    subst hn
    have hdepth : (0 : Int) ≤ depth := Int.natCast_nonneg _
    cases h : t.drop index with
    | nil =>
        have hb : t[index]? = none := List.getElem?_eq_none (List.drop_eq_nil_iff.mp h)
        rw [groupEnd?]
        exact .ended hdepth (fun _ hm => by cases hm) (by rw [groupRound, hb]; rfl)
    | cons b u =>
        have hb := getElem?_of_drop_eq_cons h
        have hu := drop_succ_of_drop_eq_cons h
        have hl := lt_length_of_drop_eq_cons h
        have hlater (depth : Nat) : ∀ next > index,
            Scan t (groupRound t) next depth (indexOf t (groupEnd? .items depth (t.drop next))) :=
          fun next hlt => ih _ (by omega) next depth rfl
        by_cases hm : b ∈ scanStops
        · have hs : ∀ c ∈ scanStops, c = backslash ∨ c = openBracket ∨ c = openParen ∨ c = closeParen :=
            List.all_iff_forall_prop.mp (by decide)
          obtain rfl | rfl | rfl | rfl := hs b hm
          · have hd : u.drop 1 = t.drop (index + 2) := by rw [← hu, List.drop_drop]
            rw [groupEnd?_backslash, hd]
            exact .onward hdepth (by omega) (by rw [groupRound, hb]; rfl) (hlater depth _ (by omega))
          · exact scan_openBracket h (hlater depth)
          · by_cases hq : "?#" <+: u
            · obtain ⟨v, rfl⟩ := hq
              exact scan_comment h (hlater depth)
            · have hc : ¬ "(?#" <+: t.drop index := by
                rintro ⟨v, hv⟩
                exact hq ⟨v, (List.cons.inj (hv.trans h)).2⟩
              rw [groupEnd?_openParen hq, ← hu]
              refine .onward hdepth (Nat.lt_succ_self _) ?_ (hlater (depth + 1) _ (Nat.lt_succ_self _))
              rw [groupRound, hb]
              exact if_neg hc
          · cases depth with
            | zero => exact .ended hdepth (fun _ hm => by cases hm) (by rw [groupRound, hb]; rfl)
            | succ depth =>
                have hne : ((depth + 1 : Nat) : Int) ≠ 0 := by omega
                rw [groupEnd?_closeParen]
                refine .close h ?_ fun _ => ?_
                · rw [groupRound, hb]
                  exact if_neg hne
                · rw [← hu]
                  exact hlater depth _ (Nat.lt_succ_self _)
        · rw [groupEnd?_cons hm, ← hu]
          exact .onward hdepth (Nat.lt_succ_self _) (groupRound_cons hb hm _)
            (hlater depth _ (Nat.lt_succ_self _))

/-- A text is a single entity exactly when the grammar says so; the rounds of both scanners go forward
to an end, at no depth below zero, and end with nothing or with an index of the text behind their
start. The scanner of classes only ever starts at a bracket that opens one. -/
theorem isSingleEntity_exact (t : Text) :
    (isSingleEntity t ↔ IsEntity t) ∧
    (∀ start, t[start]? = some openBracket → Scan t (classRound t) start 0 (classIndex? t start)) ∧
    (∀ start, Scan t (groupRound t) start 0 (groupIndex? t start)) ∧
    (∀ start next, t[start]? = some openBracket → classIndex? t start = some next →
      start < next ∧ next ≤ t.length) ∧
    ∀ start next, groupIndex? t start = some next → start < next ∧ next ≤ t.length := by
  refine ⟨isSingleEntity_iff t, fun start => scan_classIndex?, fun start => scan_groupRound t start 0, ?_, ?_⟩
  · intro start next hs hn
    exact (hn ▸ scan_classIndex? hs).bounds
  · intro start next hn
    have hscan : Scan t (groupRound t) start 0 (groupIndex? t start) := scan_groupRound t start 0
    exact (hn ▸ hscan).bounds

theorem isSingleEntity_nested_class :
    ("[a[^]]]" : Text)[0]? = some openBracket ∧ classIndex? "[a[^]]]" 0 = some 7 ∧
      0 < 7 ∧ 7 ≤ ("[a[^]]]" : Text).length ∧ IsEntity "[a[^]]]" :=
  have hb : ("[a[^]]]" : Text)[0]? = some openBracket := by decide
  have hi : classIndex? "[a[^]]]" 0 = some 7 := by decide
  have hexact := isSingleEntity_exact "[a[^]]]"
  have hbounds := hexact.2.2.2.1 0 7 hb hi
  ⟨hb, hi, hbounds.1, hbounds.2, hexact.1.mp (by decide)⟩

end PatternGrammar
