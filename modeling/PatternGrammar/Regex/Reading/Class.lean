import PatternGrammar.Regex.Reading.Escape

/-!
# Classes in brackets

The members of a class up to its closing bracket. A class of one character is that character, and a class
of the two cases of a letter is the letter without regard to case.
-/

namespace PatternGrammar.Regex

/-- The name of a class up to `:]`, and what follows; none if a bracket comes first. -/
def bracketedName? (terminator : Nat) : List Nat → Option (List Nat × List Nat)
  | a :: b :: rest =>
      if a = Sign.backslash && (b = Sign.closeBracket || b = Sign.backslash) then
        (bracketedName? terminator rest).map fun (name, rest) => (a :: b :: name, rest)
      else if (a = Sign.openBracket && b = terminator) || a = Sign.closeBracket then none
      else if a = terminator && b = Sign.closeBracket then some ([], rest)
      else (bracketedName? terminator (b :: rest)).map fun (name, rest) => (a :: name, rest)
  | _ => none

/-- The character opens a name within brackets. -/
def opensName (c : Nat) : Bool := c = Sign.colon || c = Sign.dot || c = Sign.equals

/-- Whether the last thing in a class can start a range, or has started one. -/
inductive RangeState where
  | none
  | possible (low : Nat)
  | started (low : Nat)

/-- The members of a class so far, the last one first. -/
structure ClassState where
  members : List Member := []
  range : RangeState := .none
  quoted : Bool := false

/-- One more character, which took `bytes` bytes. The low end of a range gives way to the range. -/
def ClassState.addChar (k : ClassState) (c bytes : Nat) : Reading ClassState := do
  match k.range with
  | .started low =>
      if c < low then Reading.failBefore .reversedRange bytes
      return { k with members := .range low c :: k.members.drop 1, range := .none }
  | .none | .possible _ => return { k with members := .range c c :: k.members, range := .possible c }

/-- One more member that cannot begin a range. -/
def ClassState.addMember (k : ClassState) (m : Member) : ClassState :=
  { k with members := m :: k.members, range := .none }

/-- A member that cannot end a range must not follow its hyphen. -/
def ClassState.refuseEnd (k : ClassState) : Reading Unit :=
  match k.range with
  | .started _ => Reading.fail .invalidRange
  | _ => return ()

/-- A member that cannot start a range must not be followed by a hyphen, unless it is the last member. -/
def refuseRange (rest : List Nat) : Reading Unit :=
  match rest with
  | Sign.hyphen :: c :: _ => if c = Sign.closeBracket then return () else Reading.fail .invalidRange
  | _ => return ()

/-- Reads a named class, from the sign that opens its name on. -/
def readNamedClass (k : ClassState) (sign : Nat) (inner name rest : List Nat) : Reading ClassState := do
  k.refuseEnd
  if sign ≠ Sign.colon then Reading.failBefore .collatingElement 1
  let (negated, name) :=
    match name with
    | Sign.caret :: name => (true, name)
    | name => (false, name)
  match CharClass.ofName? (Text.ofCodePoints name) with
  | none => Reading.failAt .unknownClass (if negated then inner.drop 1 else inner)
  | some cls =>
      Reading.skipTo rest
      refuseRange rest
      return k.addMember (.ofClass (← get).settings.wideClasses cls negated)

/-- A property is looked at only after its place has been found right. -/
def ClassState.refuseProperty (k : ClassState) : Reading Unit := do
  match ← Reading.rest with
  | c :: rest =>
      if c = Sign.lowerP || c = Sign.upperP then
        match k.range with
        | .started _ => Reading.failAt .invalidRange rest
        | _ => return ()
  | [] => return ()

/-- Reads an escape in a class, behind its backslash. -/
def readClassEscape (k : ClassState) : Reading ClassState := do
  k.refuseProperty
  match ← readEscape true with
  | .literal c => k.addChar c 1
  | .boundary => k.addChar 8 1
  | .member m =>
      k.refuseEnd
      refuseRange (← Reading.rest)
      return k.addMember m
  | .single .notNewline =>
      k.refuseEnd
      Reading.fail .newlineInClass
  | .single .newline | .single .cluster | .anchor .notWordBoundary => Reading.failBefore .escapeInClass 1
  | _ =>
      k.refuseEnd
      Reading.failBefore .escapeInClass 1

/-- Reads one character or member of a class; `c` is its first character, and `rest` what follows. -/
def readMember (k : ClassState) (c : Nat) (rest : List Nat) : Reading ClassState := do
  Reading.skipTo rest
  let literal : Reading ClassState := k.addChar c (Text.encodedSize c)
  if k.quoted then
    match c, rest with
    | Sign.backslash, Sign.upperE :: rest =>
        Reading.skipTo rest
        return { k with quoted := false }
    | _, _ => literal
  else if (← get).flags.blankInClass && (c = Sign.space || c = Sign.tab) then return k
  else
    match c, rest with
    | Sign.hyphen, _ =>
        match k.range with
        | .possible low => return { k with range := .started low }
        | _ => literal
    | Sign.backslash, Sign.upperQ :: rest =>
        Reading.skipTo rest
        return { k with quoted := true }
    | Sign.backslash, Sign.upperE :: rest =>
        Reading.skipTo rest
        return k
    | Sign.backslash, _ => readClassEscape k
    | Sign.openBracket, sign :: inner =>
        match if opensName sign then bracketedName? sign inner else none with
        | some (name, rest) => readNamedClass k sign inner name rest
        | none => literal
    | _, _ => literal

/-- Reads the members of a class up to its closing bracket. -/
def readMembers : (fuel : Nat) → ClassState → Reading (List Member)
  | 0, _ => Reading.fail .unclosedClass
  | fuel + 1, k => do
      match ← Reading.rest with
      | [] => Reading.fail .unclosedClass
      | c :: rest =>
          if c = Sign.closeBracket && !k.quoted then
            Reading.skipTo rest
            match k.range with
            | .started _ => return (.range Sign.hyphen Sign.hyphen :: k.members).reverse
            | _ => return k.members.reverse
          else readMembers fuel (← readMember k c rest)

/-- What may stand in front of the first member: a caret, which negates the class, empty quotations and, in
one setting, blanks. Gives what follows. -/
def skipClassFront (blanks negated : Bool) : List Nat → Bool × List Nat
  | Sign.backslash :: Sign.upperE :: rest => skipClassFront blanks negated rest
  | Sign.backslash :: Sign.upperQ :: Sign.backslash :: Sign.upperE :: rest =>
      skipClassFront blanks negated rest
  | c :: rest =>
      if blanks && (c = Sign.space || c = Sign.tab) then skipClassFront blanks negated rest
      else if !negated && c = Sign.caret then skipClassFront blanks true rest
      else (negated, c :: rest)
  | [] => (negated, [])

/-- The text ends with an empty quotation. -/
def endsWithQuotation (t : List Nat) : Bool :=
  match t.reverse with
  | Sign.upperE :: Sign.backslash :: _ => true
  | _ => false

/-- The set that a literal stands for. -/
def Single.ofLiteral (c : Nat) (ignoreCase : Bool) : Single :=
  match if ignoreCase then Unicode.caseSet? c else none with
  | some cases => .oneOf cases false
  | none => .literal c ignoreCase

/-- What a class of these members takes. -/
def Single.ofMembers (members : List Member) (negated ignoreCase wideClasses : Bool) : Single :=
  let set : Single := .set (CharSet.ofMembers members negated ignoreCase wideClasses)
  match members, negated with
  | [.range a b], false => if a = b then .ofLiteral a ignoreCase else set
  | [.range a b], true =>
      if a ≠ b then set
      else
        match if ignoreCase then Unicode.caseSet? a else none with
        | some cases => .oneOf cases true
        | none => .notLiteral a ignoreCase
  | [.range a b, .range c d], false =>
      if a = b && c = d && a ≠ c && (Unicode.caseSet? a).isNone && Unicode.otherCase a = c then
        .literal a true
      else set
  | _, _ => set

/-- The class names a character that can end a line; one of all characters but that one does not. -/
def namesBreakIn (members : List Member) (negated : Bool) : Bool :=
  let isBreak (c : Nat) : Bool := c = Sign.carriageReturn || c = Sign.lineFeed
  match members, negated with
  | [.range a b], true => a ≠ b && (isBreak a || isBreak b)
  | members, _ =>
      members.any fun m =>
        match m with
        | .range a b => isBreak a || isBreak b
        | _ => false

/-- Reads a class behind its opening bracket. -/
def readClass : Reading Single := do
  let s ← get
  match s.rest with
  | sign :: inner =>
      if opensName sign && (bracketedName? sign inner).isSome then
        Reading.failBefore (if sign = Sign.colon then .classOutsideBrackets else .collatingElement) 1
  | [] => pure ()
  let (negated, rest) := skipClassFront s.flags.blankInClass false s.rest
  Reading.skipTo rest
  match rest with
  | [] => Reading.fail (if endsWithQuotation s.rest then .trailingBackslash else .unclosedClass)
  | c :: rest =>
      let members ← readMembers (s.size + 1) (← readMember {} c rest)
      if namesBreakIn members negated then modify fun s => { s with namesBreak := true }
      return .ofMembers members negated s.flags.ignoreCase s.settings.wideClasses

end PatternGrammar.Regex
