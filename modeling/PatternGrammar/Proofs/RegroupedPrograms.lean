import PatternGrammar.Proofs.RegroupedSearches

/-!
# Compiled expressions in a group of their own

The groups that an expression defines are those that the same expression in a group of its own defines, under numbers
one higher. So it is enough to compare the code of two compiled expressions and what their searches depend on besides,
and this can be computed.
-/

namespace PatternGrammar.Regex

namespace Grouped

variable {p : Program}

/-! ## Definitions -/

/-- The definition of the same group, with numbers one higher. -/
structure Defines (p : Program) (d d' : Definition) : Prop where
  shape : d'.shape = d.shape.raised
  body : d.body.Raised p d'.body

/-- The groups found so far, those of the second code under numbers one higher. Whole expressions have no number in
the first one. -/
structure Tables (p : Program) (found found' : Array (Option Definition)) : Prop where
  size : found'.size = found.size + 1
  defined : ∀ n ≠ 0, Option.Rel (Defines p) (found[n]?.join) (found'[n + 1]?.join)

section
variable {found found' : Array (Option Definition)}

theorem Tables.set (h : Tables p found found') (n : Nat) {d d' : Definition} (hd : Defines p d d') :
    Tables p (found.setIfInBounds n (some d)) (found'.setIfInBounds (n + 1) (some d')) := by
  refine ⟨by simp [h.size], fun m hm => ?_⟩
  have hdefined := h.defined m hm
  rw [Array.getElem?_setIfInBounds, Array.getElem?_setIfInBounds, h.size]
  by_cases hn : n = m
  · subst hn
    simp only [if_true, Nat.add_lt_add_iff_right]
    split
    · exact .some hd
    · exact .none
  · rw [if_neg hn, if_neg (by omega)]
    exact hdefined

theorem Tables.into (h : Tables p found found') {c c' : Code} (hc : c.Raised p c') (around around' : List Nat) :
    Tables p (definitionsInto around found c) (definitionsInto around' found' c') := by
  induction hc generalizing around around' found found' with
  | stop => exact h
  | either _ _ ihb iho => exact iho (ihb h around around') around around'
  | step _ _ ih => exact ih h around around'
  | @group shape b b' n n' hb hn ihb ihn =>
      have hpass (inner inner' : List Nat) {table table' : Array (Option Definition)} (ht : Tables p table table') :
          Tables p (definitionsInto around (definitionsInto inner table b) n)
            (definitionsInto around' (definitionsInto inner' table' b') n') :=
        ihn (ihb ht inner inner') around around'
      obtain ⟨role, entry, ending, guarded, upTo⟩ := shape
      cases role with
      | capture number again =>
          cases again with
          | true => exact hpass around around' h
          | false => exact hpass _ _ (h.set number ⟨rfl, hb⟩)
      | _ => exact hpass around around' h

theorem Tables.outer (h : Tables p found found') (x : Option Definition) :
    Tables p found (found'.setIfInBounds 1 x) := by
  refine ⟨by simp [h.size], fun n hn => ?_⟩
  rw [Array.getElem?_setIfInBounds, if_neg (by omega)]
  exact h.defined n hn

theorem definitionsInto_anchors {code : Code} (h : code.isAnchors) (around : List Nat) :
    definitionsInto around found code = found := by
  induction code with
  | stop => rfl
  | step i next ih =>
      cases i with
      | anchor => exact ih h
      | _ => cases h
  | _ => cases h

theorem Tables.group (h : Tables p found found') {cap : Shape} (hcap : cap.IsOuter) {c c' : Code}
    (hc : c.Raised p c') (around around' : List Nat) :
    Tables p (definitionsInto around found c) (definitionsInto around' found' (.group cap c' .stop)) := by
  obtain ⟨role, entry, ending, guarded, upTo⟩ := cap
  obtain ⟨again, hr⟩ := hcap.role
  dsimp only at hr
  subst hr
  cases again with
  | true => exact h.into hc around around'
  | false => exact (h.outer _).into hc around _

theorem Tables.inGroup (h : Tables p found found') {code code' : Code} (hc : code.InGroup p code') :
    Tables p (definitionsInto [] found code) (definitionsInto [] found' code') := by
  cases hc with
  | whole hcap hc => exact h.group hcap hc [] []
  | @framed a bare tail c c' cap hbare _ htail hcap hc =>
      have hgroup := h.group hcap hc [] []
      have hbody {table : Array (Option Definition)} (body : Code) :
          definitionsInto [] table (.step (.anchor a) (.group bare body tail)) = definitionsInto [] table body := by
        rw [definitionsInto, definitionsInto, hbare.role]
        exact definitionsInto_anchors htail []
      rw [hbody, hbody]
      exact hgroup

end

end Grouped

/-! ## Compiled expressions -/

/-- The second expression is the first one in a group of its own, for a search. Both are searched for in the same way
from the same places. -/
structure Compiled.InGroup (c c' : Compiled) : Prop where
  code : c.program.code.InGroup c.program c'.program.code
  groupCount : c'.program.groupCount = c.program.groupCount + 1
  leaves : c.program.leaves = 0
  leaves' : c'.program.leaves = 0
  keeps : c.hasLeave = false
  keeps' : c'.hasLeave = false
  plan : c'.plan = c.plan
  settings : c'.settings = c.settings
  namesBreak : c'.namesBreak = c.namesBreak

theorem definitions_of_compile {t : Text} {c : Compiled} (h : compile t = .ok c) :
    c.program.definitions =
      definitionsInto [] (Array.replicate (c.program.groupCount + 1) none) c.program.code := by
  unfold compile at h
  split at h
  · cases h
  · cases h
    rfl

theorem Compiled.InGroup.definitions {t t' : Text} {c c' : Compiled} (h : c.InGroup c') (hc : compile t = .ok c)
    (hc' : compile t' = .ok c') :
    Grouped.Tables c.program c.program.definitions c'.program.definitions := by
  rw [definitions_of_compile hc, definitions_of_compile hc', h.groupCount]
  refine Grouped.Tables.inGroup ⟨by simp, fun n _ => ?_⟩ h.code
  have hnone (count n : Nat) : ((Array.replicate count (none : Option Definition))[n]?).join = none := by
    rw [Array.getElem?_replicate]
    split <;> rfl
  rw [hnone, hnone]
  exact .none

deriving instance DecidableEq for Instruction, Code

def Instruction.raised : Instruction → Instruction
  | .refer numbers ignoreCase times => .refer (numbers.map (· + 1)) ignoreCase times
  | .call n => .call (n + 1)
  | i => i

namespace Code

def raised : Code → Code
  | .stop => .stop
  | .either upTo branch others => .either upTo branch.raised others.raised
  | .step i next => .step i.raised next.raised
  | .group shape body next => .group shape.raised body.raised next.raised

end Code

end PatternGrammar.Regex
