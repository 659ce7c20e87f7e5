import PatternGrammar.RegexText.Escape

/-!
# Places for group numbers

While the text of a tree is put together its groups have no final numbers, so a reference to a group is
written as a comment that holds the group's name. Two scanners cut such places out: one for the
references of a regular expression and one for the tags of its groups.
-/

namespace PatternGrammar

/-- What a reference in a regular expression asks of the group: its matched text, or its expression. -/
inductive ReferenceKind where
  | backReference
  | subroutine
  deriving DecidableEq, Repr

/-- How a place for a reference begins. -/
def ReferenceKind.opening : ReferenceKind → Text
  | .backReference => "(?#[:backreference:"
  | .subroutine => "(?#[:subroutine:"

/-- How a place for a reference ends. -/
def placeholderClosing : Text := ":])"

/-- The place for a reference to the group of this name. -/
def placeholder (kind : ReferenceKind) (name : Text) : Text :=
  kind.opening ++ name ++ placeholderClosing

/-- A stretch of regular expression: a byte to keep, or a place for a reference. -/
inductive RegexPiece where
  | byte (b : UInt8)
  | place (kind : ReferenceKind) (name : Text)
  deriving DecidableEq, Repr

/-- The shortest name before a closing; a backslash is in no name. -/
def untilClosing? (t : Text) : Option Text :=
  match Text.afterStart? placeholderClosing t with
  | some _ => some []
  | none =>
      match t with
      | [] => none
      | b :: rest => if b = Ascii.backslash then none else (untilClosing? rest).map (b :: ·)

/-- A name of at least one byte before a closing. -/
def placeName? : Text → Option Text
  | [] => none
  | b :: rest => if b = Ascii.backslash then none else (untilClosing? rest).map (b :: ·)

/-- The place of this kind that starts the text: the name in it. -/
def placeOf? (kind : ReferenceKind) (t : Text) : Option Text :=
  (Text.afterStart? kind.opening t).bind placeName?

/-- The place that starts the text. -/
def startingPlace? (t : Text) : Option (ReferenceKind × Text) :=
  match placeOf? .backReference t with
  | some name => some (.backReference, name)
  | none => (placeOf? .subroutine t).map fun name => (.subroutine, name)

/-- Cuts a text into pieces, passing over its first `skipped` bytes. -/
def regexPiecesAfter : (skipped : Nat) → Text → List RegexPiece
  | _, [] => []
  | skipped + 1, _ :: rest => regexPiecesAfter skipped rest
  | 0, b :: rest =>
      match startingPlace? (b :: rest) with
      | some (kind, name) =>
          .place kind name :: regexPiecesAfter ((placeholder kind name).length - 1) rest
      | none => .byte b :: regexPiecesAfter 0 rest

/-- The pieces of a text, from left to right; a place that starts first wins. -/
def regexPieces (t : Text) : List RegexPiece := regexPiecesAfter 0 t

/-- A stretch of a tag: a byte to keep, the group's own number, or the number of another group. -/
inductive TagPiece where
  | byte (b : UInt8)
  | ownNumber
  | numberOf (name : Text)
  deriving DecidableEq, Repr

/-- A name of at least one byte before the next closing parenthesis. -/
def parenthesisName? (t : Text) : Option Text :=
  let name := t.takeWhile (· ≠ Ascii.closeParen)
  if name.isEmpty || name.length = t.length then none else some name

/-- The number that starts the tag, with the number of bytes that stand for it. -/
def startingNumber? (t : Text) : Option (TagPiece × Nat) :=
  if t.startsWith "$match" then some (.ownNumber, 6)
  else
    match Text.afterStart? "$reference(" t with
    | none => none
    | some rest => (parenthesisName? rest).map fun name => (.numberOf name, 12 + name.length)

/-- Cuts a tag into pieces, passing over its first `skipped` bytes. -/
def tagPiecesAfter : (skipped : Nat) → Text → List TagPiece
  | _, [] => []
  | skipped + 1, _ :: rest => tagPiecesAfter skipped rest
  | 0, b :: rest =>
      match startingNumber? (b :: rest) with
      | some (piece, size) => piece :: tagPiecesAfter (size - 1) rest
      | none => .byte b :: tagPiecesAfter 0 rest

/-- The pieces of a tag, from left to right. -/
def tagPieces (t : Text) : List TagPiece := tagPiecesAfter 0 t

end PatternGrammar
