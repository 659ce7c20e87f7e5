import Mathlib.Data.Bool.AllAny
import PatternGrammar.Proofs.Grammar

/-!
# Expressions are read in one way

Two readings of one text agree. The induction is over readings of a text in front of more text: wherever
two readings go on differently, one of them would have to stop in front of a byte that belongs to it.
-/

namespace PatternGrammar

open Ascii

/-! ## Where a reading begins and where it may stop -/

/-- The byte begins an atom. -/
def beginsAtom (b : UInt8) : Bool := !metaBytes.contains b || b = backslash || b = openParen

theorem not_mem_of_beginsAtom {b : UInt8} (h : beginsAtom b) : b ∉ (")|?*+\x7b" : Text) := by
  have hn : ∀ c ∈ (")|?*+\x7b" : Text), ¬ beginsAtom c := List.all_iff_forall_prop.mp (by decide)
  exact fun hb => hn b hb h

/-- How a text begins that is read at this level. -/
def Level.Begins : Level → Text → Prop
  | .expression, t => ∀ b ∈ t.head?, beginsAtom b ∨ b = 124
  | .sequence, t => ∀ b ∈ t.head?, beginsAtom b
  | .factor, t | .atom, t => ∃ b rest, t = b :: rest ∧ beginsAtom b

/-- Nothing of the text belongs to what was read in front of it. -/
def Level.Stops : Level → Text → Prop
  | .expression, t => ∀ b ∈ t.head?, b = closeParen
  | .sequence, t => ∀ b ∈ t.head?, b = closeParen ∨ b = 124
  | .factor, t => ∀ b ∈ t.head?, b ∉ quantifierStarts
  | .atom, _ => True

theorem head?_mem_append {s t : Text} {b : UInt8} (h : b ∈ (s ++ t).head?) :
    b ∈ s.head? ∨ s = [] ∧ b ∈ t.head? := by
  cases s with
  | nil => exact .inr ⟨rfl, h⟩
  | cons a s => exact .inl h

theorem Reads.begins {l : Level} {t : Text} {x : List Part} (h : Reads l t x) : l.Begins t := by
  induction h with
  | sequence _ ih => exact fun b hb => .inl (ih b hb)
  | choice _ _ ih _ =>
      intro b hb
      rw [List.append_assoc] at hb
      rcases head?_mem_append hb with hb | ⟨-, hb⟩
      · exact .inl (ih b hb)
      · exact .inr (Option.some.inj hb).symm
  | nil => exact fun b hb => by cases hb
  | append _ _ ih _ =>
      obtain ⟨b, rest, rfl, hb⟩ := ih
      intro c hc
      exact Option.some.inj hc ▸ hb
  | once _ ih => exact ih
  | repeated mode _ _ ih =>
      obtain ⟨b, rest, rfl, hb⟩ := ih
      exact ⟨b, _, rfl, hb⟩
  | literal hb => exact ⟨_, _, rfl, by simp [beginsAtom, hb]⟩
  | escape _ => exact ⟨_, _, rfl, by decide⟩
  | group kind _ _ => cases kind <;> exact ⟨_, _, rfl, by decide⟩
  | place kind _ => cases kind <;> exact ⟨_, _, rfl, by decide⟩

/-! ## Quantifiers, openings and names -/

/-- Where a stretch of bytes of one sort stops is determined by the bytes. -/
theorem eq_of_append_cons {P : UInt8 → Prop} {s s' r r' : Text} {c c' : UInt8}
    (hs : ∀ b ∈ s, P b) (hs' : ∀ b ∈ s', P b) (hc : ¬ P c) (hc' : ¬ P c')
    (h : s ++ c :: r = s' ++ c' :: r') : s = s' ∧ c = c' ∧ r = r' := by
  induction s generalizing s' with
  | nil =>
      cases s' with
      | nil => exact ⟨rfl, List.cons.inj h⟩
      | cons b s' => exact absurd ((List.cons.inj h).1 ▸ hs' b List.mem_cons_self) hc
  | cons a s ih =>
      cases s' with
      | nil => exact absurd ((List.cons.inj h).1 ▸ hs a List.mem_cons_self) hc'
      | cons b s' =>
          obtain ⟨rfl, hst⟩ := List.cons.inj h
          obtain ⟨rfl, hr⟩ := ih (fun b hb => hs b (List.mem_cons_of_mem _ hb))
            (fun b hb => hs' b (List.mem_cons_of_mem _ hb)) hst
          exact ⟨rfl, hr⟩

theorem IsUpper.begins {least : Nat} {t : Text} {most : Option Nat} (h : IsUpper least t most) :
    ∃ b rest, t = b :: rest ∧ ¬ Text.isDigit b := by
  cases h <;> exact ⟨_, _, rfl, by decide⟩

theorem IsUpper.unique {least : Nat} {t t' r r' : Text} {most most' : Option Nat}
    (h : IsUpper least t most) (h' : IsUpper least t' most') (he : t ++ r = t' ++ r') :
    t = t' ∧ most = most' := by
  have hbrace : ¬ Text.isDigit closeBrace := by decide
  cases h with
  | same =>
      cases h' with
      | same => exact ⟨rfl, rfl⟩
      | unbounded | upTo _ => exact absurd (List.cons.inj he).1 (by decide)
  | unbounded =>
      cases h' with
      | same => exact absurd (List.cons.inj he).1 (by decide)
      | unbounded => exact ⟨rfl, rfl⟩
      | @upTo m hm =>
          obtain ⟨b, m, rfl⟩ := List.exists_cons_of_ne_nil hm.1
          have hb : closeBrace = b := (List.cons.inj (List.cons.inj he).2).1
          exact absurd (hm.2 b List.mem_cons_self) (hb ▸ hbrace)
  | @upTo n hn =>
      cases h' with
      | same => exact absurd (List.cons.inj he).1 (by decide)
      | unbounded =>
          obtain ⟨b, n, rfl⟩ := List.exists_cons_of_ne_nil hn.1
          have hb : b = closeBrace := (List.cons.inj (List.cons.inj he).2).1
          exact absurd (hn.2 b List.mem_cons_self) (hb ▸ hbrace)
      | @upTo m hm =>
          have he : n ++ closeBrace :: r = m ++ closeBrace :: r' := by
            simp only [List.append_assoc] at he
            exact (List.cons.inj he).2
          obtain ⟨rfl, -⟩ := eq_of_append_cons hn.2 hm.2 hbrace hbrace he
          exact ⟨rfl, rfl⟩

theorem IsBounds.unique {t t' r r' : Text} {least least' : Nat} {most most' : Option Nat}
    (h : IsBounds t least most) (h' : IsBounds t' least' most') (he : t ++ r = t' ++ r') :
    t = t' ∧ least = least' ∧ most = most' := by
  cases h with
  | @braces n upper _ hn hu =>
      cases h' with
      | @braces m upper' _ hm hu' =>
          obtain ⟨b, u, rfl, hb⟩ := hu.begins
          obtain ⟨b', u', rfl, hb'⟩ := hu'.begins
          have he : n ++ b :: (u ++ r) = m ++ b' :: (u' ++ r') := by
            simpa using (List.cons.inj he).2
          obtain ⟨rfl, rfl, hr⟩ := eq_of_append_cons hn.2 hm.2 hb hb' he
          obtain ⟨hu, rfl⟩ := hu.unique hu' (congrArg (b :: ·) hr)
          exact ⟨congrArg _ hu, rfl, rfl⟩
      | _ => exact absurd (List.cons.inj he).1 (by decide)
  | _ =>
      cases h' with
      | braces _ _ => exact absurd (List.cons.inj he).1 (by decide)
      | _ => first
        | exact ⟨rfl, rfl, rfl⟩
        | exact absurd (List.cons.inj he).1 (by decide)

theorem IsBounds.begins {t : Text} {least : Nat} {most : Option Nat} (h : IsBounds t least most) :
    ∃ b rest, t = b :: rest ∧ b ∈ quantifierStarts := by
  cases h <;> exact ⟨_, _, rfl, by decide⟩

theorem Greediness.unique {mode mode' : Greediness} {r r' : Text} (hr : Level.factor.Stops r)
    (hr' : Level.factor.Stops r') (he : mode.text ++ r = mode'.text ++ r') : mode = mode' := by
  have hq : question ∈ quantifierStarts := by decide
  have hp : plus ∈ quantifierStarts := by decide
  cases mode <;> cases mode'
  case greedy.greedy | lazy.lazy | possessive.possessive => rfl
  case greedy.lazy => exact absurd hq (hr question (congrArg List.head? he))
  case greedy.possessive => exact absurd hp (hr plus (congrArg List.head? he))
  case lazy.greedy => exact absurd hq (hr' question (congrArg List.head? he).symm)
  case possessive.greedy => exact absurd hp (hr' plus (congrArg List.head? he).symm)
  case lazy.possessive | possessive.lazy => exact absurd (List.cons.inj he).1 (by decide)

theorem GroupRole.unique {kind kind' : GroupRole} {u u' : Text}
    (hu : u.head? ≠ some question) (hu' : u'.head? ≠ some question)
    (he : kind.opening ++ u = kind'.opening ++ u') : kind = kind' := by
  cases kind with
  | capture =>
      cases kind' with
      | capture => rfl
      | _ => exact absurd (congrArg List.head? (List.cons.inj he).2) hu
  | _ =>
      cases kind' with
      | capture => exact absurd (congrArg List.head? (List.cons.inj he).2).symm hu'
      | _ =>
          -- behind the question mark the openings differ, at the latest in the byte after the next
          have hc := List.cons.inj (List.cons.inj (List.cons.inj he).2).2
          first
          | rfl
          | exact absurd hc.1 (by decide)
          | exact absurd (List.cons.inj hc.2).1 (by decide)

/-- A place for a reference is no group, though it looks like a comment. -/
theorem GroupRole.opening_ne_placeholder {kind : GroupRole} {u name r : Text}
    {referenceKind : ReferenceKind} (hu : u.head? ≠ some question) :
    kind.opening ++ u ≠ placeholder referenceKind name ++ r := by
  intro he
  obtain ⟨rest, hp⟩ : ∃ rest, placeholder referenceKind name ++ r =
      openParen :: question :: numberSign :: rest := by
    cases referenceKind <;> exact ⟨_, rfl⟩
  rw [hp] at he
  cases kind with
  | capture => exact hu (congrArg List.head? (List.cons.inj he).2)
  | _ => exact absurd (List.cons.inj (List.cons.inj (List.cons.inj he).2).2).1 (by decide)

theorem placeholder_unique {kind kind' : ReferenceKind} {name name' r r' : Text}
    (hn : closeParen ∉ name) (hn' : closeParen ∉ name')
    (he : placeholder kind name ++ r = placeholder kind' name' ++ r') :
    kind = kind' ∧ name = name' := by
  have hk : kind = kind' := by
    -- the openings differ in their fifth byte
    have h5 := congrArg (·[5]?) he
    cases kind <;> cases kind'
    case backReference.backReference | subroutine.subroutine => rfl
    case backReference.subroutine | subroutine.backReference =>
      exact absurd (Option.some.inj h5) (by decide)
  subst hk
  have hp (name r : Text) : placeholder kind name ++ r =
      kind.opening ++ ((name ++ [colon, closeBracket]) ++ closeParen :: r) := by
    simp only [placeholder, List.append_assoc]
    rfl
  have hc (name : Text) (h : closeParen ∉ name) :
      ∀ b ∈ name ++ [colon, closeBracket], b ≠ closeParen := by
    intro b hb hbc
    rcases List.mem_append.mp (hbc ▸ hb) with hb | hb
    · exact h hb
    · exact absurd hb (by decide)
  rw [hp, hp, List.append_cancel_left_eq] at he
  obtain ⟨hw, -⟩ := eq_of_append_cons (hc name hn) (hc name' hn') (fun h => h rfl) (fun h => h rfl) he
  exact ⟨rfl, List.append_cancel_right hw⟩

/-! ## Readings in front of more text -/

theorem Level.Begins.head?_ne {l : Level} {t : Text} (h : l.Begins t) {b : UInt8}
    (hb : b ∈ (")?*+\x7b" : Text)) : t.head? ≠ some b := by
  intro he
  have hm : b ∈ (")|?*+\x7b" : Text) := by
    have hs : ∀ b ∈ (")?*+\x7b" : Text), b ∈ (")|?*+\x7b" : Text) :=
      List.all_iff_forall_prop.mp (by decide)
    exact hs b hb
  have hbar : b ≠ 124 := by
    have hs : ∀ b ∈ (")?*+\x7b" : Text), b ≠ 124 := List.all_iff_forall_prop.mp (by decide)
    exact hs b hb
  cases l with
  | expression =>
      rcases h b he with h | h
      · exact not_mem_of_beginsAtom h hm
      · exact hbar h
  | sequence => exact not_mem_of_beginsAtom (h b he) hm
  | factor | atom =>
      obtain ⟨c, rest, rfl, hc⟩ := h
      exact not_mem_of_beginsAtom hc (Option.some.inj he ▸ hm)

theorem Level.Stops.sequence {r : Text} (h : Level.expression.Stops r) : Level.sequence.Stops r :=
  fun b hb => .inl (h b hb)

theorem Level.stops_bar (r : Text) : Level.sequence.Stops ("|" ++ r) :=
  fun _ hb => .inr (Option.some.inj hb).symm

theorem Level.Stops.not_bar {r : Text} (h : Level.expression.Stops ("|" ++ r)) : False :=
  absurd (h 124 rfl) (by decide)

/-- Behind a factor stands another one, or what stands behind the whole sequence. -/
theorem Level.Begins.factor_stops {t r : Text} (ht : Level.sequence.Begins t)
    (hr : Level.sequence.Stops r) : Level.factor.Stops (t ++ r) := by
  intro b hb hq
  have hs : ∀ b ∈ quantifierStarts, b ∈ (")|?*+\x7b" : Text) ∧ b ≠ closeParen ∧ b ≠ 124 :=
    List.all_iff_forall_prop.mp (by decide)
  rcases head?_mem_append hb with hb | ⟨-, hb⟩
  · exact not_mem_of_beginsAtom (ht b hb) (hs b hq).1
  · rcases hr b hb with h | h
    · exact (hs b hq).2.1 h
    · exact (hs b hq).2.2 h

/-- A factor does not begin where a sequence stops. -/
theorem Level.Begins.not_stops {s t : Text} (hs : Level.factor.Begins s) :
    ¬ Level.sequence.Stops (s ++ t) := by
  obtain ⟨b, rest, rfl, hb⟩ := hs
  intro hr
  have hm : b ∈ (")|?*+\x7b" : Text) := by
    rcases hr b rfl with rfl | rfl <;> decide
  exact not_mem_of_beginsAtom hb hm

/-- A quantifier does not begin where a factor stops. -/
theorem IsBounds.not_stops {t : Text} {least : Nat} {most : Option Nat} (h : IsBounds t least most)
    (r : Text) : ¬ Level.factor.Stops (t ++ r) := by
  obtain ⟨b, rest, rfl, hb⟩ := h.begins
  exact fun hr => hr b rfl hb

/-- The content of a group does not begin with a question mark. -/
theorem Reads.head?_closed {t : Text} {x : List Part} (h : Reads .expression t x) (r : Text) :
    (t ++ (")" ++ r)).head? ≠ some question := by
  intro hq
  rcases head?_mem_append hq with hq | ⟨-, hq⟩
  · exact h.begins.head?_ne (by decide) hq
  · exact absurd (Option.some.inj hq) (by decide)

/-- A text has one reading at most, and no other prefix of what it stands in front of has one, as far as
neither stops too early. -/
theorem Reads.unique {l : Level} {t t' r r' : Text} {x x' : List Part} (h : Reads l t x)
    (h' : Reads l t' x') (he : t ++ r = t' ++ r') (hr : l.Stops r) (hr' : l.Stops r') :
    t = t' ∧ x = x' := by
  induction h generalizing t' r r' x' with
  | @sequence s x hs ih =>
      cases h' with
      | sequence hs' => exact ih hs' he hr.sequence hr'.sequence
      | @choice s' t' _ _ hs' ht' =>
          rw [List.append_assoc, List.append_assoc] at he
          obtain ⟨rfl, -⟩ := ih hs' he hr.sequence (Level.stops_bar _)
          exact absurd (List.append_cancel_left he ▸ hr) Level.Stops.not_bar
  | @choice s t x y hs ht ihs iht =>
      rw [List.append_assoc, List.append_assoc] at he
      cases h' with
      | sequence hs' =>
          obtain ⟨rfl, -⟩ := ihs hs' he (Level.stops_bar _) hr'.sequence
          exact absurd (List.append_cancel_left he ▸ hr') Level.Stops.not_bar
      | @choice s' t' _ _ hs' ht' =>
          rw [List.append_assoc, List.append_assoc] at he
          obtain ⟨rfl, rfl⟩ := ihs hs' he (Level.stops_bar _) (Level.stops_bar _)
          have he := List.append_cancel_left (List.append_cancel_left he)
          obtain ⟨rfl, rfl⟩ := iht ht' he hr hr'
          exact ⟨rfl, rfl⟩
  | nil =>
      cases h' with
      | nil => exact ⟨rfl, rfl⟩
      | append hs' _ =>
          rw [List.nil_append, List.append_assoc] at he
          exact absurd (he ▸ hr) hs'.begins.not_stops
  | @append s t x y hs ht ihs iht =>
      rw [List.append_assoc] at he
      cases h' with
      | nil =>
          rw [List.nil_append] at he
          exact absurd (he ▸ hr') hs.begins.not_stops
      | append hs' ht' =>
          rw [List.append_assoc] at he
          obtain ⟨rfl, rfl⟩ := ihs hs' he (ht.begins.factor_stops hr) (ht'.begins.factor_stops hr')
          obtain ⟨rfl, rfl⟩ := iht ht' (List.append_cancel_left he) hr hr'
          exact ⟨rfl, rfl⟩
  | @once t x ht ih =>
      cases h' with
      | once ht' => exact ih ht' he trivial trivial
      | repeated mode' ht' hb' =>
          rw [List.append_assoc, List.append_assoc] at he
          obtain ⟨rfl, -⟩ := ih ht' he trivial trivial
          exact absurd (List.append_cancel_left he ▸ hr) (hb'.not_stops _)
  | @repeated t x bounds least most mode ht hb ih =>
      rw [List.append_assoc, List.append_assoc] at he
      cases h' with
      | once ht' =>
          obtain ⟨rfl, -⟩ := ih ht' he trivial trivial
          exact absurd (List.append_cancel_left he ▸ hr') (hb.not_stops _)
      | repeated mode' ht' hb' =>
          rw [List.append_assoc, List.append_assoc] at he
          obtain ⟨rfl, rfl⟩ := ih ht' he trivial trivial
          have he := List.append_cancel_left he
          obtain ⟨rfl, rfl, rfl⟩ := hb.unique hb' he
          obtain rfl := Greediness.unique hr hr' (List.append_cancel_left he)
          exact ⟨rfl, rfl⟩
  | @literal b hb =>
      have hs : backslash ∈ metaBytes := by decide
      have ho : openParen ∈ metaBytes := by decide
      cases h' with
      | literal _ =>
          obtain rfl := (List.cons.inj he).1
          exact ⟨rfl, rfl⟩
      | escape _ => exact absurd ((List.cons.inj he).1 ▸ hs) hb
      | group kind _ => cases kind <;> exact absurd ((List.cons.inj he).1 ▸ ho) hb
      | place kind _ => cases kind <;> exact absurd ((List.cons.inj he).1 ▸ ho) hb
  | @escape b part hb =>
      have hs : backslash ∈ metaBytes := by decide
      cases h' with
      | literal hb' => exact absurd ((List.cons.inj he).1 ▸ hs) hb'
      | escape hb' =>
          obtain rfl := (List.cons.inj (List.cons.inj he).2).1
          rw [hb, Option.some.injEq] at hb'
          exact ⟨rfl, by rw [hb']⟩
      | group kind _ => cases kind <;> exact absurd (List.cons.inj he).1 (by decide)
      | place kind _ => cases kind <;> exact absurd (List.cons.inj he).1 (by decide)
  | @group t x kind ht ih =>
      have ho : openParen ∈ metaBytes := by decide
      rw [List.append_assoc, List.append_assoc] at he
      cases h' with
      | literal hb' => cases kind <;> exact absurd ((List.cons.inj he).1 ▸ ho) hb'
      | escape _ => cases kind <;> exact absurd (List.cons.inj he).1 (by decide)
      | @group t' x' kind' ht' =>
          rw [List.append_assoc, List.append_assoc] at he
          obtain rfl := GroupRole.unique (ht.head?_closed r) (ht'.head?_closed r') he
          have hstop (r : Text) : Level.expression.Stops (")" ++ r) :=
            fun _ hb => (Option.some.inj hb).symm
          obtain ⟨rfl, rfl⟩ := ih ht' (List.append_cancel_left he) (hstop _) (hstop _)
          exact ⟨rfl, rfl⟩
      | place kind' _ =>
          exact absurd he (GroupRole.opening_ne_placeholder (ht.head?_closed r))
  | @place name kind hn =>
      have ho : openParen ∈ metaBytes := by decide
      cases h' with
      | literal hb' => cases kind <;> exact absurd ((List.cons.inj he).1 ▸ ho) hb'
      | escape _ => cases kind <;> exact absurd (List.cons.inj he).1 (by decide)
      | group kind' ht' =>
          rw [List.append_assoc, List.append_assoc] at he
          exact absurd he.symm (GroupRole.opening_ne_placeholder (ht'.head?_closed r'))
      | place kind' hn' =>
          obtain ⟨rfl, rfl⟩ := placeholder_unique hn hn' he
          exact ⟨rfl, rfl⟩

theorem Level.stops_nil (l : Level) : l.Stops [] := by
  cases l with
  | atom => trivial
  | _ => exact fun b hb => by cases hb

/-- A whole text has one reading at most. -/
theorem Reads.eq {l : Level} {t : Text} {x y : List Part} (h : Reads l t x) (h' : Reads l t y) :
    x = y :=
  (h.unique h' rfl l.stops_nil l.stops_nil).2

end PatternGrammar
