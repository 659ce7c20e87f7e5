import PatternGrammar.Pattern.Group

/-!
# References to groups

Once every group has its number, the places left for references are filled in. A name that several groups
carry means the last of them; a name that no group carries is an error.
-/

namespace PatternGrammar

/-- The number of the last group that carries a name. -/
def numberOf? (groups : List Group) (name : Text) : Option Int :=
  (groups.reverse.find? fun g => g.reference = some name).map (·.number)

/-- Every name of a group with the number that it means. -/
def referenceNumbers (groups : List Group) : Dictionary Int :=
  groups.foldl
    (fun d g =>
      match g.reference with
      | some name => Dictionary.insert name g.number d
      | none => d)
    []

/-- Entering the groups one after the other leaves the last one under its name. -/
theorem get?_referenceNumbers (groups : List Group) (name : Text) :
    Dictionary.get? name (referenceNumbers groups) = numberOf? groups name := by
  have henter (gs : List Group) (d : Dictionary Int) :
      Dictionary.get? name
          (gs.foldl
            (fun d g =>
              match g.reference with
              | some name => Dictionary.insert name g.number d
              | none => d)
            d) =
        (numberOf? gs name).or (Dictionary.get? name d) := by
    induction gs generalizing d with
    | nil => rfl
    | cons g gs ih =>
        rw [List.foldl_cons, ih, numberOf?, numberOf?, List.reverse_cons, List.find?_append, Option.map_or,
          Option.or_assoc]
        congr 1
        cases hr : g.reference with
        | none => simp [hr]
        | some other =>
            by_cases hn : other = name
            · simp [hr, hn, Dictionary.get?_insert_self]
            · simp [hr, hn, Dictionary.get?_insert_of_ne (Ne.symm hn)]
  rw [referenceNumbers, henter, Dictionary.get?_nil, Option.or_none]

/-- A reference by number. A back-reference keeps a digit that follows out of its number. -/
def ReferenceKind.render (kind : ReferenceKind) (number : Int) (digitFollows : Bool) : Text :=
  match kind with
  | .backReference => "\\" ++ Text.ofInt number ++ (if digitFollows then "(?:)" else "")
  | .subroutine => "\\g<" ++ Text.ofInt number ++ ">"

/-- The next piece is a digit. -/
def startsWithDigit : List RegexPiece → Bool
  | .byte b :: _ => Text.isDigit b
  | _ => false

/-- Fills in the places among the pieces. -/
def fillPieces (groups : List Group) : List RegexPiece → Except Error Text
  | [] => .ok []
  | .byte b :: rest => do return b :: (← fillPieces groups rest)
  | .place kind name :: rest =>
      match Dictionary.get? name (referenceNumbers groups) with
      | none => .error (.unresolved name (.regex kind))
      | some number => do
          return kind.render number (startsWithDigit rest) ++ (← fillPieces groups rest)

theorem fillPieces_place (groups : List Group) (kind : ReferenceKind) (name : Text)
    (rest : List RegexPiece) :
    fillPieces groups (.place kind name :: rest) =
      match numberOf? groups name with
      | none => .error (.unresolved name (.regex kind))
      | some number => do
          return kind.render number (startsWithDigit rest) ++ (← fillPieces groups rest) := by
  rw [fillPieces, get?_referenceNumbers]

/-- Fills in the places for references in a regular expression. -/
def resolveReferences (groups : List Group) (t : Text) : Except Error Text :=
  fillPieces groups (regexPieces t)

/-- Fills in the numbers among the pieces of a tag. -/
def fillTagPieces (groups : List Group) (own : Int) : List TagPiece → Except Error Text
  | [] => .ok []
  | .byte b :: rest => do return b :: (← fillTagPieces groups own rest)
  | .ownNumber :: rest => do
      return Ascii.dollar :: Text.ofInt own ++ (← fillTagPieces groups own rest)
  | .numberOf name :: rest =>
      match numberOf? groups name with
      | none => .error (.unresolved name .tag)
      | some number => do
          return Ascii.dollar :: Text.ofInt number ++ (← fillTagPieces groups own rest)

/-- Fills in the places for group numbers in the tag of the group numbered `own`. -/
def resolveTag (groups : List Group) (own : Int) (tag : Text) : Except Error Text :=
  fillTagPieces groups own (tagPieces tag)

end PatternGrammar
