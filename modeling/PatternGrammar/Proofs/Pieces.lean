import PatternGrammar.Proofs.Numbering

/-!
# Emission in pieces

A pattern could put its expression together from pieces, with its places for references as pieces of their
own, and never as text. This module says which pieces these are and that they spell the text of the pattern.
-/

namespace PatternGrammar

open Ascii

theorem placeholderClosing_eq : placeholderClosing = [colon, closeBracket, closeParen] := rfl

/-! ## Pieces and their text -/

/-- A piece as it stands in an expression that is not resolved yet. -/
def RegexPiece.text : RegexPiece → Text
  | .byte b => [b]
  | .place kind name => placeholder kind name

def piecesText (pieces : List RegexPiece) : Text := pieces.flatMap RegexPiece.text

/-- The bytes of a text, each kept as it is. -/
def keep (t : Text) : List RegexPiece := t.map .byte

@[simp] theorem keep_nil : keep [] = [] := rfl

@[simp] theorem keep_cons (b : UInt8) (t : Text) : keep (b :: t) = .byte b :: keep t := rfl

@[simp] theorem keep_append (s t : Text) : keep (s ++ t) = keep s ++ keep t :=
  List.map_append

@[simp] theorem piecesText_nil : piecesText [] = [] := rfl

@[simp] theorem piecesText_append (a b : List RegexPiece) :
    piecesText (a ++ b) = piecesText a ++ piecesText b :=
  List.flatMap_append

@[simp] theorem piecesText_keep (t : Text) : piecesText (keep t) = t := by
  induction t with
  | nil => rfl
  | cons b t ih =>
      rw [keep_cons, piecesText, List.flatMap_cons, ← piecesText, ih]
      rfl

/-! ## The pieces of a node -/

/-- The pieces of a group around these pieces. -/
def groupPieces (opening : Text) (body : List RegexPiece) : List RegexPiece :=
  keep opening ++ body ++ keep ")"

/-- The pieces of a matcher with a quantifier behind them, or in an atomic group. -/
def Quantity.repeatedPieces (q : Quantity) (o : Options) (body : List RegexPiece) :
    List RegexPiece :=
  let quantifier := q.quantifier o.dontBackTrack o.asFewAsPossible
  if quantifier.isEmpty then
    if o.dontBackTrack then groupPieces "(?>" body else body
  else
    (if isSingleEntity (piecesText body) then body else groupPieces "(?:" body) ++ keep quantifier

/-- What stands in the group of a node, around the pieces of its matcher. -/
def Node.bodyAround (n : Node) (matcher : List RegexPiece) : List RegexPiece :=
  if n.kind.isLookAround then matcher
  else
    keep (Quantity.wordsAssertion n.options.wordCannotBeAnyOf) ++
      n.quantity.repeatedPieces n.options matcher

/-- The pieces of a node around those of its matcher. -/
def Node.around (n : Node) (matcher : List RegexPiece) : List RegexPiece :=
  let body := n.bodyAround matcher
  let own := if n.captures then groupPieces "(" body else body
  match n.kind.lookAroundOpening? with
  | some opening => groupPieces opening own
  | none => own

/-- The pieces of a node behind those before it. -/
def Kind.joinPieces (kind : Kind) (before own : List RegexPiece) : List RegexPiece :=
  match kind with
  | .orElse => groupPieces "(?:" (before ++ keep "|" ++ own)
  | _ => before ++ own

/-! ## The pieces of a pattern -/

mutual
def Pattern.pieces : Pattern → List RegexPiece
  | .last node => node.pieces
  | .link node next => next.piecesBehind node.pieces

def Pattern.piecesBehind (before : List RegexPiece) : Pattern → List RegexPiece
  | .last node => node.kind.joinPieces before node.pieces
  | .link node next => next.piecesBehind (node.kind.joinPieces before node.pieces)

def Node.pieces : Node → List RegexPiece
  | .mk kind matcher includes options quantity =>
      (Node.mk kind matcher includes options quantity).around matcher.pieces

def Matcher.pieces : Matcher → List RegexPiece
  | .literal text => keep (escapeRegex text)
  | .fragment source => regexPieces source
  | .nested pattern => pattern.pieces
end

/-- The pieces that stand in the group of a node. -/
def Node.bodyPieces (n : Node) : List RegexPiece := n.bodyAround n.matcher.pieces

@[simp] theorem piecesText_groupPieces (opening : Text) (body : List RegexPiece) :
    piecesText (groupPieces opening body) = opening ++ piecesText body ++ ")" := by
  simp [groupPieces]

theorem Quantity.piecesText_repeatedPieces (q : Quantity) (o : Options) (body : List RegexPiece) :
    piecesText (q.repeatedPieces o body) = q.repeated o (piecesText body) := by
  unfold Quantity.repeatedPieces Quantity.repeated
  by_cases hq : (q.quantifier o.dontBackTrack o.asFewAsPossible).isEmpty
  · cases hd : o.dontBackTrack <;> simp_all
  · cases hs : isSingleEntity (piecesText body) <;> simp_all

theorem Node.piecesText_bodyAround (n : Node) (matcher : List RegexPiece) :
    piecesText (n.bodyAround matcher) =
      if n.kind.isLookAround then piecesText matcher
      else n.quantity.applyTo n.options (piecesText matcher) := by
  cases hk : n.kind.isLookAround <;>
    simp [Node.bodyAround, hk, Quantity.applyTo, Quantity.piecesText_repeatedPieces]

theorem Node.piecesText_around (n : Node) (matcher : List RegexPiece) :
    piecesText (n.around matcher) = n.wrap (piecesText matcher) := by
  have hb := n.piecesText_bodyAround matcher
  unfold Node.around Node.wrap
  cases hk : n.kind.lookAroundOpening? with
  | some opening =>
      simp only [Kind.isLookAround, hk, Option.isSome_some, if_true] at hb
      cases hc : n.captures <;> simp [inGroup, hb]
  | none =>
      simp only [Kind.isLookAround, hk, Option.isSome_none, Bool.false_eq_true, if_false] at hb
      cases hc : n.captures <;> simp [inGroup, hb]

theorem Kind.piecesText_joinPieces (kind : Kind) (before own : List RegexPiece) :
    piecesText (kind.joinPieces before own) = kind.join (piecesText before) (piecesText own) := by
  cases kind <;> simp [Kind.joinPieces, Kind.join]

/-! ## What a place for a reference looks like -/

theorem eq_of_untilClosing? {t name : Text} (h : untilClosing? t = some name) :
    ∃ after, t = name ++ placeholderClosing ++ after := by
  induction t generalizing name with
  | nil => simp [untilClosing?, placeholderClosing_eq, Text.afterStart?] at h
  | cons b rest ih =>
      rw [untilClosing?] at h
      cases hc : Text.afterStart? placeholderClosing (b :: rest) with
      | some after =>
          simp only [hc, Option.some.injEq] at h
          subst h
          exact ⟨after, Text.eq_append_of_afterStart? hc⟩
      | none =>
          simp only [hc] at h
          split at h
          · cases h
          · obtain ⟨inner, hi, rfl⟩ := Option.map_eq_some_iff.mp h
            obtain ⟨after, ha⟩ := ih hi
            exact ⟨after, by rw [ha]; rfl⟩

theorem eq_of_placeName? {t name : Text} (h : placeName? t = some name) :
    ∃ after, t = name ++ placeholderClosing ++ after := by
  cases t with
  | nil => cases h
  | cons b rest =>
      rw [placeName?] at h
      split at h
      · cases h
      · obtain ⟨inner, hi, rfl⟩ := Option.map_eq_some_iff.mp h
        obtain ⟨after, ha⟩ := eq_of_untilClosing? hi
        exact ⟨after, by rw [ha]; rfl⟩

theorem eq_of_placeOf? {kind : ReferenceKind} {t name : Text} (h : placeOf? kind t = some name) :
    ∃ after, t = placeholder kind name ++ after := by
  obtain ⟨rest, hr, hn⟩ := Option.bind_eq_some_iff.mp h
  obtain ⟨after, ha⟩ := eq_of_placeName? hn
  exact ⟨after, by rw [Text.eq_append_of_afterStart? hr, ha]; simp [placeholder]⟩

theorem eq_of_startingPlace? {kind : ReferenceKind} {t name : Text}
    (h : startingPlace? t = some (kind, name)) : ∃ after, t = placeholder kind name ++ after := by
  unfold startingPlace? at h
  split at h
  · next name' hb =>
      cases h
      exact eq_of_placeOf? hb
  · next hb =>
      obtain ⟨name', hs, he⟩ := Option.map_eq_some_iff.mp h
      cases he
      exact eq_of_placeOf? hs

theorem piecesText_regexPiecesAfter (skipped : Nat) (t : Text) :
    piecesText (regexPiecesAfter skipped t) = t.drop skipped := by
  induction t generalizing skipped with
  | nil => cases skipped <;> rfl
  | cons b rest ih =>
      cases skipped with
      | succ skipped => rw [regexPiecesAfter, ih, List.drop_succ_cons]
      | zero =>
          rw [regexPiecesAfter, List.drop_zero]
          cases hp : startingPlace? (b :: rest) with
          | none =>
              rw [piecesText, List.flatMap_cons, ← piecesText, ih]
              rfl
          | some place =>
              obtain ⟨kind, name⟩ := place
              obtain ⟨after, ha⟩ := eq_of_startingPlace? hp
              obtain ⟨inner, hi⟩ : ∃ inner, placeholder kind name = b :: inner := by
                cases kind <;> exact ⟨_, congrArg (· :: _) (List.cons.inj ha).1.symm⟩
              have hr : rest = inner ++ after := by
                rw [hi] at ha
                exact (List.cons.inj ha).2
              simp only
              rw [piecesText, List.flatMap_cons, ← piecesText, ih, RegexPiece.text, hi, hr]
              simp

theorem piecesText_regexPieces (t : Text) : piecesText (regexPieces t) = t :=
  piecesText_regexPiecesAfter 0 t

mutual
/-- The pieces of a pattern spell its text. -/
theorem Pattern.piecesText_pieces : (p : Pattern) → piecesText p.pieces = p.text
  | .last node => node.piecesText_pieces
  | .link node next => by
      rw [Pattern.pieces, next.piecesText_piecesBehind, node.piecesText_pieces]
      rfl

theorem Pattern.piecesText_piecesBehind (before : List RegexPiece) :
    (p : Pattern) → piecesText (p.piecesBehind before) = p.textBehind (piecesText before)
  | .last node => by
      rw [Pattern.piecesBehind, Kind.piecesText_joinPieces, node.piecesText_pieces]
      rfl
  | .link node next => by
      rw [Pattern.piecesBehind, next.piecesText_piecesBehind, Kind.piecesText_joinPieces,
        node.piecesText_pieces]
      rfl

theorem Node.piecesText_pieces : (n : Node) → piecesText n.pieces = n.text
  | .mk kind matcher includes options quantity => by
      rw [Node.pieces, Node.piecesText_around, matcher.piecesText_pieces]
      rfl

theorem Matcher.piecesText_pieces : (m : Matcher) → piecesText m.pieces = m.text
  | .literal _ => piecesText_keep _
  | .fragment source => piecesText_regexPieces source
  | .nested pattern => pattern.piecesText_pieces
end

end PatternGrammar
