import PatternGrammar.Proofs.Unambiguity
import PatternGrammar.RegexText.Entity

/-!
# Whole entities are atoms

The scanner that decides whether a quantifier may stand directly behind a text is right about texts that
can be read: what it takes for a single entity is read as one atom.
-/

namespace PatternGrammar

open Ascii

/-! ## The scanner of groups -/

/-- The bytes at which the scanner of groups does more than pass over them. -/
def scanStops : Text := "\\[()"

theorem groupEnd?_cons {b : UInt8} (h : b ∉ scanStops) (depth : Nat) (rest : Text) :
    groupEnd? .items depth (b :: rest) = groupEnd? .items depth rest := by
  have hb : ∀ c ∈ scanStops, b ≠ c := fun c hc hbc => h (hbc ▸ hc)
  have hs : b ≠ backslash := hb backslash (by decide)
  have ho : b ≠ openBracket := hb openBracket (by decide)
  have hp : b ≠ openParen := hb openParen (by decide)
  have hc : b ≠ closeParen := hb closeParen (by decide)
  rw [groupEnd?]
  all_goals simp_all

theorem groupEnd?_append {t : Text} (h : ∀ b ∈ t, b ∉ scanStops) (depth : Nat) (rest : Text) :
    groupEnd? .items depth (t ++ rest) = groupEnd? .items depth rest := by
  induction t with
  | nil => rfl
  | cons b t ih =>
      rw [List.cons_append, groupEnd?_cons (h b List.mem_cons_self)]
      exact ih fun c hc => h c (List.mem_cons_of_mem _ hc)

theorem groupEnd?_opening (kind : GroupRole) {rest : Text} (h : rest.head? ≠ some question)
    (depth : Nat) :
    groupEnd? .items depth (kind.opening ++ rest) = groupEnd? .items (depth + 1) rest := by
  cases kind with
  | capture =>
      refine groupEnd?.eq_17 depth rest ?_
      rintro u rfl
      exact h rfl
  | _ => rfl

theorem groupEnd?_comment {name : Text} (h : closeParen ∉ name) (depth : Nat) (rest : Text) :
    groupEnd? .comment depth (name ++ closeParen :: rest) =
      if depth = 0 then some rest else groupEnd? .items depth rest := by
  induction name with
  | nil => rfl
  | cons b name ih =>
      have hb : b ≠ closeParen := fun hb => h (hb ▸ List.mem_cons_self)
      have hs : groupEnd? .comment depth (b :: (name ++ closeParen :: rest)) =
          groupEnd? .comment depth (name ++ closeParen :: rest) := by
        rw [groupEnd?]
        all_goals simp_all
      rw [List.cons_append, hs]
      exact ih fun hm => h (List.mem_cons_of_mem _ hm)

theorem groupEnd?_placeholder (kind : ReferenceKind) {name : Text} (h : closeParen ∉ name)
    (depth : Nat) (rest : Text) :
    groupEnd? .items depth (placeholder kind name ++ rest) =
      if depth = 0 then some rest else groupEnd? .items depth rest := by
  obtain ⟨start, hk, hs⟩ : ∃ start, kind.opening = openParen :: question :: numberSign :: start ∧
      closeParen ∉ start := by
    cases kind
    · exact ⟨"[:backreference:", rfl, by decide⟩
    · exact ⟨"[:subroutine:", rfl, by decide⟩
  have hp : placeholder kind name ++ rest =
      openParen :: question :: numberSign ::
        (start ++ name ++ [colon, closeBracket] ++ closeParen :: rest) := by
    simp only [placeholder, hk, List.append_assoc]
    rfl
  have hc : closeParen ∉ start ++ name ++ [colon, closeBracket] := by
    simp only [List.mem_append, not_or]
    exact ⟨⟨hs, h⟩, by decide⟩
  rw [hp]
  exact groupEnd?_comment hc depth rest

/-! ## Scanning what can be read -/

theorem IsDigits.not_mem_scanStops {t : Text} (h : IsDigits t) : ∀ b ∈ t, b ∉ scanStops := by
  intro b hb hs
  have hd : ∀ c ∈ scanStops, ¬ Text.isDigit c := List.all_iff_forall_prop.mp (by decide)
  exact hd b hs (h.2 b hb)

theorem IsBounds.not_mem_scanStops {t : Text} {least : Nat} {most : Option Nat}
    (h : IsBounds t least most) : ∀ b ∈ t, b ∉ scanStops := by
  have hopen : ∀ b ∈ ("\x7b" : Text), b ∉ scanStops := List.all_iff_forall_prop.mp (by decide)
  have hclose : ∀ b ∈ ("\x7d" : Text), b ∉ scanStops := List.all_iff_forall_prop.mp (by decide)
  have hcomma : ∀ b ∈ ("," : Text), b ∉ scanStops := List.all_iff_forall_prop.mp (by decide)
  cases h with
  | optional | star | plus => exact List.all_iff_forall_prop.mp (by decide)
  | @braces n upper _ hn hu =>
      have hupper : ∀ b ∈ upper, b ∉ scanStops := by
        cases hu with
        | same => exact hclose
        | unbounded => exact List.all_iff_forall_prop.mp (by decide)
        | upTo hm =>
            simp only [List.forall_mem_append]
            exact ⟨⟨hcomma, hm.not_mem_scanStops⟩, hclose⟩
      simp only [List.forall_mem_append]
      exact ⟨⟨hopen, hn.not_mem_scanStops⟩, hupper⟩

/-- The scanner passes over whatever can be read. -/
theorem Reads.groupEnd?_append {l : Level} {t : Text} {x : List Part} (h : Reads l t x)
    (depth : Nat) (rest : Text) :
    groupEnd? .items (depth + 1) (t ++ rest) = groupEnd? .items (depth + 1) rest := by
  induction h generalizing depth rest with
  | sequence _ ih => exact ih depth rest
  | choice _ _ ihs iht =>
      have hbar : ∀ b ∈ ("|" : Text), b ∉ scanStops := List.all_iff_forall_prop.mp (by decide)
      rw [List.append_assoc, List.append_assoc, ihs, PatternGrammar.groupEnd?_append hbar, iht]
  | nil => rfl
  | append _ _ ihs iht => rw [List.append_assoc, ihs, iht]
  | once _ ih => exact ih depth rest
  | repeated mode _ hb ih =>
      have hm : ∀ b ∈ mode.text, b ∉ scanStops := by
        cases mode <;> exact List.all_iff_forall_prop.mp (by decide)
      rw [List.append_assoc, List.append_assoc, ih,
        PatternGrammar.groupEnd?_append hb.not_mem_scanStops, PatternGrammar.groupEnd?_append hm]
  | literal hb =>
      refine groupEnd?_cons (fun hs => hb ?_) _ _
      have hm : ∀ c ∈ scanStops, c ∈ metaBytes := List.all_iff_forall_prop.mp (by decide)
      exact hm _ hs
  | escape _ => rfl
  | group kind ht ih =>
      rw [List.append_assoc, List.append_assoc, groupEnd?_opening kind (ht.head?_closed rest), ih]
      rfl
  | place kind hn => exact groupEnd?_placeholder kind hn (depth + 1) rest

/-- The scanner finds where an atom in parentheses ends. -/
theorem Reads.groupEnd?_atom {t : Text} {x : List Part} (h : Reads .atom t x)
    (hp : t.head? = some openParen) (rest : Text) :
    groupEnd? .items 0 (t ++ rest) = some rest := by
  cases h with
  | literal hb =>
      rw [List.head?_cons, Option.some.injEq] at hp
      exact absurd (hp ▸ by decide) hb
  | escape _ => exact absurd (Option.some.inj hp) (by decide)
  | group kind ht =>
      rw [List.append_assoc, List.append_assoc, groupEnd?_opening kind (ht.head?_closed rest),
        ht.groupEnd?_append]
      rfl
  | place kind hn => exact groupEnd?_placeholder kind hn 0 rest

/-! ## Single entities -/

theorem isSingleEntity_openParen {t : Text} (h : t ≠ []) :
    isSingleEntity (openParen :: t) = decide (groupEnd? .items 0 (openParen :: t) = some []) :=
  isSingleEntity.eq_5 t h

/-- A single entity that begins with an atom is that atom. -/
theorem Reads.rest_eq_nil {t rest : Text} {x : List Part} (h : Reads .atom t x)
    (hs : isSingleEntity (t ++ rest)) : rest = [] := by
  have hgroup (hp : t.head? = some openParen) : rest = [] := by
    have hscan := h.groupEnd?_atom hp rest
    obtain ⟨inner, rfl⟩ : ∃ inner, t = openParen :: inner := by
      cases t with
      | nil => cases hp
      | cons b inner => exact ⟨inner, congrArg (· :: inner) (Option.some.inj hp)⟩
    rw [List.cons_append] at hs hscan
    have hne : inner ++ rest ≠ [] := by
      intro he
      rw [he] at hscan
      cases hscan
    rw [isSingleEntity_openParen hne, hscan, decide_eq_true_eq, Option.some.injEq] at hs
    exact hs
  cases h with
  | @literal b hb =>
      unfold isSingleEntity at hs
      split at hs
      · next he => cases he
      · next he => exact (List.cons.inj he).2
      · next he => exact absurd ((List.cons.inj he).1 ▸ by decide) hb
      · next he => exact absurd ((List.cons.inj he).1 ▸ by decide) hb
      · next he => exact absurd ((List.cons.inj he).1 ▸ by decide) hb
      · cases hs
  | escape _ =>
      have hl : (rest.length + 1 = 1) := of_decide_eq_true hs
      exact List.eq_nil_of_length_eq_zero (Nat.succ.inj hl)
  | group kind _ => exact hgroup (by cases kind <;> rfl)
  | place kind _ => exact hgroup (by cases kind <;> rfl)

/-- What the scanner takes for a single entity is read as one atom. -/
theorem Reads.atom_of_isSingleEntity {t : Text} {x : List Part} (h : Reads .sequence t x)
    (hs : isSingleEntity t) : Reads .atom t x := by
  cases h with
  | nil => cases hs
  | append hf ht =>
      cases hf with
      | once ha =>
          obtain rfl := ha.rest_eq_nil hs
          obtain rfl := ht.eq .nil
          rwa [List.append_nil, List.append_nil]
      | repeated mode ha hb =>
          rw [List.append_assoc, List.append_assoc] at hs
          obtain ⟨b, rest, rfl, -⟩ := hb.begins
          exact absurd (ha.rest_eq_nil hs) (List.cons_ne_nil _ _)

end PatternGrammar
