import PatternGrammar.Regex.Reading.Escape

/-!
# What an opening parenthesis begins

A group, an item that looks like one, a change of settings, a verb, or a condition.
-/

namespace PatternGrammar.Regex

/-- Opens a group; `flags` hold within it. -/
def enterGroup (kind : GroupKind) (change : OpenGroup → OpenGroup := id) : Reading Unit :=
  modify fun s =>
    let group : OpenGroup := change { kind, before := s.pieces, flags := s.flags }
    { s with
      enclosing := group :: s.enclosing, pieces := [], depth := s.depth + 1, preceding := .other }

/-- The number of the next group. -/
def nextGroupNumber : Reading Nat := do
  let s ← get
  if maxGroup ≤ s.opened then Reading.fail .tooManyGroups
  set { s with opened := s.opened + 1 }
  return s.opened + 1

/-- Opens a group with this number. -/
def enterCapture (n : Nat) : Reading Unit := do
  enterGroup (.capture n (n ≤ (← get).highest))
  modify fun s => { s with highest := max n s.highest }

/-- The largest number of names. -/
def maxNames : Nat := 10000

/-- Why a group cannot have a name next to those given before, the first one first. -/
def nameClash? (shared : Bool) (name : List Nat) (n : Nat) :
    List (List Nat × Nat) → Option SyntaxFault
  | [] => none
  | (other, number) :: rest =>
      if other = name then
        if number = n then none
        else if shared then nameClash? shared name n rest
        else some .duplicateName
      else if number = n then some .secondName
      else nameClash? shared name n rest

/-- Gives a name to a group. A name belongs to one number, unless names may be shared, and a number has
one name. -/
def nameGroup (name : List Nat) (n : Nat) : Reading Unit := do
  let s ← get
  if maxNames ≤ s.nameCount then Reading.fail .tooManyNames
  if s.names.any fun (other, number) => other = name || number = n then
    if let some fault := nameClash? s.flags.duplicateNames name n s.names.reverse then
      Reading.fail fault
  if !s.names.contains (name, n) then
    set { s with names := (name, n) :: s.names, nameCount := s.nameCount + 1 }

/-- Opens a named group behind its name. -/
def enterNamedGroup (terminator : Nat) : Reading Unit := do
  let (name, _) ← readName terminator
  let n ← nextGroupNumber
  nameGroup name n
  enterCapture n

/-! ## Settings -/

/-- The settings that `(?^` takes back. -/
def Flags.plain (f : Flags) : Flags :=
  { f with
    ignoreCase := false, multiline := false, plainGroups := false, dotAll := false,
    extended := false, blankInClass := false }

/-- The settings with one letter switched on. -/
def Flags.with? (f : Flags) : Char → Option Flags
  | 'i' => some { f with ignoreCase := true }
  | 'm' => some { f with multiline := true }
  | 'n' => some { f with plainGroups := true }
  | 's' => some { f with dotAll := true }
  | 'x' => some { f with extended := true }
  | 'J' => some { f with duplicateNames := true }
  | 'U' => some { f with ungreedy := true }
  | _ => none

/-- Settings to switch on and off. -/
structure FlagChange where
  on : Flags := {}
  off : Flags := {}

/-- One more letter of settings. A second x behind the first also leaves blanks out of classes. -/
def FlagChange.add? (k : FlagChange) (switchingOff doubled : Bool) (letter : Char) : Option FlagChange :=
  let extend (f : Flags) : Option Flags :=
    if doubled then some { f with extended := true, blankInClass := true } else f.with? letter
  if switchingOff then (extend k.off).map fun off => { k with off }
  else (extend k.on).map fun on => { k with on }

/-- The settings after a change; what is switched both on and off is off. -/
def FlagChange.apply (k : FlagChange) (f : Flags) : Flags :=
  let blanksOff := k.off.blankInClass || k.off.extended || (k.on.extended && !k.on.blankInClass)
  { ignoreCase := (f.ignoreCase || k.on.ignoreCase) && !k.off.ignoreCase
    multiline := (f.multiline || k.on.multiline) && !k.off.multiline
    dotAll := (f.dotAll || k.on.dotAll) && !k.off.dotAll
    extended := (f.extended || k.on.extended) && !k.off.extended
    blankInClass := (f.blankInClass || k.on.blankInClass) && !blanksOff
    plainGroups := (f.plainGroups || k.on.plainGroups) && !k.off.plainGroups
    ungreedy := (f.ungreedy || k.on.ungreedy) && !k.off.ungreedy
    duplicateNames := (f.duplicateNames || k.on.duplicateNames) && !k.off.duplicateNames }

/-- Reads letters of settings up to a colon or a closing parenthesis, which is left. -/
def readFlagChange (hyphenAllowed switchingOff : Bool) (k : FlagChange) :
    List Nat → Reading (FlagChange × List Nat)
  | [] => Reading.failAt .unclosedGroup []
  | Sign.lowerX :: Sign.lowerX :: rest =>
      readFlagChange hyphenAllowed switchingOff ((k.add? switchingOff true 'x').getD k) rest
  | c :: rest =>
      if c = Sign.closeParen || c = Sign.colon then return (k, c :: rest)
      else if c = Sign.hyphen then
        if hyphenAllowed then readFlagChange false true k rest
        else Reading.failAt .misplacedHyphen (c :: rest)
      else
        match k.add? switchingOff false (Char.ofNat c) with
        | some k => readFlagChange hyphenAllowed switchingOff k rest
        | none => Reading.failAt .unknownGroup (c :: rest)

/-- Reads a change of settings: for what is left of the group, or for a group that it opens. -/
def readSettings (letters : List Nat) : Reading Unit := do
  let old := (← get).flags
  let (base, (change, after)) ←
    match letters with
    | Sign.caret :: letters => pure (old.plain, ← readFlagChange false false {} letters)
    | letters => pure (old, ← readFlagChange true false {} letters)
  let new := change.apply base
  Reading.skipTo (after.drop 1)
  if after.head? = some Sign.colon then enterGroup .plain
  else modify fun s => { s with preceding := .other }
  if new ≠ old then
    Reading.pushItem .settings false
    modify fun s => { s with flags := new }

/-! ## References and calls -/

/-- A call, which is over at the closing parenthesis that `rest` begins with. -/
def pushCall (ref : GroupRef) (rest : List Nat) : Reading Unit := do
  let s ← get
  Reading.skipTo (rest.drop 1)
  Reading.pushItem (.call ⟨ref, s.offsetOf rest⟩) true

/-- Reads a call by number behind `(?`, up to the closing parenthesis. -/
def readNumberedCall (t : List Nat) : Reading Unit := do
  match readGroupNumber (← get).opened t with
  | .none => Reading.failAt .digitExpected t
  | .fault fault rest => Reading.failAt fault rest
  | .number n rest =>
      if rest.head? = some Sign.closeParen then pushCall (.number n) rest
      else Reading.failAt .unclosedGroup rest

/-- Reads a call by name behind its opening, up to the closing parenthesis. -/
def readNamedCall (rest : List Nat) : Reading Unit := do
  Reading.skipTo rest
  let (name, offset) ← readName Sign.closeParen
  Reading.pushItem (.call ⟨.name name, offset⟩) true

/-- A reference by number just read; a single-digit group is reported missing at its first reference. -/
def pushBackReference (n : Nat) : Reading Unit := do
  let s ← get
  let here := s.offsetOf s.rest - 1
  let offset := if n < 10 then (s.firstReferences.lookup n).getD here else here
  if n < 10 && (s.firstReferences.lookup n).isNone then
    set { s with firstReferences := (n, here) :: s.firstReferences }
  Reading.pushItem (.backReference ⟨.number n, offset⟩ s.flags.ignoreCase) true

/-- Reads the name of a reference up to the terminator. -/
def readNamedReference (terminator : Nat) (rest : List Nat) : Reading Unit := do
  Reading.skipTo rest
  let (name, offset) ← readName terminator
  Reading.pushItem (.backReference ⟨.name name, offset⟩ (← get).flags.ignoreCase) true

/-- Reads the name behind `\k` or `\g{`. -/
def readNameReference : Reading Unit := do
  match ← Reading.rest with
  | [] => Reading.fail .malformedNameReference
  | c :: rest =>
      match closingDelimiter? c with
      | none => Reading.fail .malformedNameReference
      | some terminator => readNamedReference terminator rest

/-- Reads the number or name behind `\g`, up to its terminator; the terminator is where a missing group
is reported. -/
def readSubroutine : Reading Unit := do
  let s ← get
  match s.rest with
  | [] => Reading.fail .malformedSubroutine
  | c :: inner =>
      let terminator := (closingDelimiter? c).getD Sign.greater
      match readGroupNumber s.opened inner with
      | .number n rest =>
          if rest.head? = some terminator then pushCall (.number n) rest
          else Reading.fail .malformedSubroutine
      | .fault fault _ => Reading.fail fault
      | .none =>
          Reading.skipTo inner
          let (name, offset) ← readName terminator
          Reading.pushItem (.call ⟨.name name, offset⟩) true

/-! ## Look around, verbs and places for observers -/

/-- Opens a look around. -/
def enterLook (look : Look) (offset expected : Nat) : Reading Unit :=
  enterGroup (.look look offset) fun g => { g with repeatable := expected = 0 }

/-- The group that a word in front of a colon opens. -/
def groupOfWord? (word : Text) : Option GroupKind :=
  let look (behind negated : Bool) (atomic : Bool := true) : Option GroupKind :=
    some (.look { behind, negated, atomic } 0)
  match word.toString with
  | "pla" | "positive_lookahead" => look false false
  | "nla" | "negative_lookahead" => look false true
  | "plb" | "positive_lookbehind" => look true false
  | "nlb" | "negative_lookbehind" => look true true
  | "napla" | "non_atomic_positive_lookahead" => look false false false
  | "naplb" | "non_atomic_positive_lookbehind" => look true false false
  | "atomic" => some .atomic
  | "sr" | "script_run" => some .scriptRun
  | _ => none

/-- Reads the word behind `(*`. Gives the word and what follows. -/
def readWord (t : List Nat) : Reading (Text × List Nat) := do
  let word := t.takeWhile CharClass.word.holds
  let rest := t.dropWhile CharClass.word.holds
  if maxNameSize < word.length then Reading.failAt .nameTooLong rest
  return (Text.ofCodePoints word, rest)

/-- Reads a group that a word opens; `expected` tells whether a condition needs it. -/
def readWordGroup (expected : Nat) (t : List Nat) : Reading Unit := do
  let (word, rest) ← readWord t
  match rest with
  | Sign.colon :: after =>
      let offset := (← get).offsetOf rest - 3
      Reading.skipTo after
      match groupOfWord? word with
      | some (.look look _) =>
          if 0 < expected && !look.atomic then Reading.failAt .atomicAssertionExpected rest
          enterLook look offset expected
      | some kind =>
          if 0 < expected then Reading.failAt .assertionExpected rest
          enterGroup kind
      | none =>
          if word = ("asr" : Text) || word = ("atomic_script_run" : Text) then
            if 0 < expected then Reading.failAt .assertionExpected rest
            enterGroup .atomic fun g => { g with within := some .scriptRun }
          else Reading.failAt .unknownAssertion rest
  | _ => Reading.failAt .unknownAssertion rest

/-- What a verb is with a name or without. -/
inductive VerbForm where
  | nameless (v : Option Text → Verb)
  | named

/-- The verb of a word. -/
def verbOfWord? (word : Text) : Option VerbForm :=
  match word.toString with
  | "" | "MARK" => some .named
  | "ACCEPT" => some (.nameless .accept)
  | "F" | "FAIL" => some (.nameless .fail)
  | "COMMIT" => some (.nameless .commit)
  | "PRUNE" => some (.nameless .prune)
  | "SKIP" => some (.nameless .skip)
  | "THEN" => some (.nameless .leave)
  | _ => none

/-- The largest number of bytes in the name that a verb leaves behind. -/
def maxVerbName : Nat := 255

/-- Reads the name of a verb up to the closing parenthesis. -/
def readVerbName (t : List Nat) : Reading Text := do
  let name := t.takeWhile (· ≠ Sign.closeParen)
  match t.dropWhile (· ≠ Sign.closeParen) with
  | [] => Reading.failAt .unknownVerb []
  | close :: rest =>
      if maxVerbName < Text.encodedLength name then Reading.failAt .verbNameTooLong (close :: rest)
      Reading.skipTo rest
      return Text.ofCodePoints name

/-- Reads a verb behind `(*`. An empty name is none. -/
def readVerb (t : List Nat) : Reading Unit := do
  let (word, rest) ← readWord t
  let push (v : Verb) : Reading Unit :=
    Reading.pushItem (.verb v) (match v with | .accept _ => true | _ => false)
  match rest with
  | Sign.colon :: Sign.closeParen :: after =>
      match verbOfWord? word with
      | none => Reading.failAt .unknownVerb rest
      | some .named => Reading.failAt .nameOfMarkMissing (rest.drop 1)
      | some (.nameless v) => Reading.skipTo after; push (v none)
  | Sign.colon :: after =>
      match verbOfWord? word with
      | none => Reading.failAt .unknownVerb rest
      | some .named => push (.mark (← readVerbName after))
      | some (.nameless v) => push (v (some (← readVerbName after)))
  | Sign.closeParen :: after =>
      match verbOfWord? word with
      | none => Reading.failAt .unknownVerb rest
      | some .named => Reading.failAt .nameOfMarkMissing rest
      | some (.nameless v) => Reading.skipTo after; push (v none)
  | _ => Reading.failAt .unknownVerb rest

/-- The closing delimiter of a text for an observer. -/
def calloutDelimiter? : Nat → Option Nat
  | Sign.grave => some Sign.grave
  | Sign.apostrophe => some Sign.apostrophe
  | Sign.quotation => some Sign.quotation
  | Sign.caret => some Sign.caret
  | Sign.percent => some Sign.percent
  | Sign.numberSign => some Sign.numberSign
  | Sign.dollar => some Sign.dollar
  | Sign.openBrace => some Sign.closeBrace
  | _ => none

/-- What follows the closing delimiter; a doubled one stands for itself. -/
def afterCalloutText? (delimiter : Nat) : List Nat → Option (List Nat)
  | [] => none
  | [c] => if c = delimiter then some [] else none
  | c :: d :: rest =>
      if c ≠ delimiter then afterCalloutText? delimiter (d :: rest)
      else if d = delimiter then afterCalloutText? delimiter rest
      else some (d :: rest)

/-- Reads a place for an observer behind `(?C`. The look around that a condition needs may still come. -/
def readCallout (expected : Nat) (t : List Nat) : Reading Unit := do
  modify fun s => { s with expects := expected - 1 }
  let s ← get
  let close (extent : Nat) (rest : List Nat) : Reading Unit := do
    if rest.head? ≠ some Sign.closeParen then Reading.failAt .unclosedCallout rest
    Reading.skipTo (rest.drop 1)
    Reading.pushItem (.callout extent) false
  match t with
  | [] => Reading.failAt .unclosedGroup []
  | c :: rest =>
      if c = Sign.closeParen || isDigit c then
        match readBounded 255 0 t with
        | .tooBig rest => Reading.failAt .calloutNumberTooBig rest
        | .value _ rest => close 6 rest
      else
        match calloutDelimiter? c with
        | none => Reading.failAt .calloutDelimiter t
        | some delimiter =>
            match afterCalloutText? delimiter rest with
            | none => Reading.failAt .unterminatedCallout t
            | some after => close (s.offsetOf after - s.offsetOf t + 9) after

/-! ## Conditions -/

/-- The version that conditions can ask about. -/
def majorVersion : Nat := 10

/-- The part of the version behind the dot, in hundredths. -/
def minorVersion : Nat := 42

/-- Reads a comparison with the version, behind its name. Gives the outcome and what follows. -/
def readVersion (t : List Nat) : Reading (Bool × List Nat) := do
  let (atLeast, t) :=
    match t with
    | Sign.greater :: rest => (true, rest)
    | t => (false, t)
  let compare (major minor : Nat) : Bool :=
    if atLeast then major < majorVersion || (major = majorVersion && minor ≤ minorVersion)
    else major = majorVersion && minor = minorVersion
  match t with
  | Sign.equals :: digits =>
      if !startsWithDigit digits then Reading.failAt .malformedVersion digits
      match readBounded 1000 0 digits with
      | .tooBig rest => Reading.failAt .malformedVersion rest
      | .value _ [] => Reading.failAt .malformedVersion []
      | .value major (Sign.dot :: rest) =>
          if !startsWithDigit rest then Reading.failAt .malformedVersion rest
          let tens := (rest.headD 48 - 48) * 10
          let rest := rest.drop 1
          let (minor, rest) :=
            if startsWithDigit rest then (tens + (rest.headD 48 - 48), rest.drop 1) else (tens, rest)
          if rest.head? ≠ some Sign.closeParen then Reading.failAt .malformedVersion rest
          return (compare major minor, rest)
      | .value major rest => return (compare major 0, rest)
  | t => Reading.failAt .malformedVersion t

/-- Reads a name that serves as a condition. Gives what the condition is, and what follows the name. -/
def readNamedCondition (t : List Nat) : Reading (Condition × List Nat) := do
  match t with
  | Sign.upperR :: Sign.ampersand :: rest =>
      Reading.skipTo rest
      let (name, offset) ← readName Sign.closeParen
      return (.inCallOf ⟨.name name, offset⟩, Sign.closeParen :: (← Reading.rest))
  | Sign.less :: rest => quoted Sign.greater rest
  | Sign.apostrophe :: rest => quoted Sign.apostrophe rest
  | _ =>
      Reading.skipTo t
      let (name, offset) ← readName Sign.closeParen
      let rest := Sign.closeParen :: (← Reading.rest)
      if Text.ofCodePoints name = ("DEFINE" : Text) then return (.define offset, rest)
      else if name.head? = some Sign.upperR && (name.drop 1).all isDigit then
        return (.inCall name offset, rest)
      else return (.captured ⟨.name name, offset⟩, rest)
where
  /-- The name of a group up to its delimiter. -/
  quoted (terminator : Nat) (rest : List Nat) : Reading (Condition × List Nat) := do
    Reading.skipTo rest
    let (name, offset) ← readName terminator
    return (.captured ⟨.name name, offset⟩, ← Reading.rest)

/-- Reads a condition behind `(?(`, and opens its group. -/
def readCondition (t : List Nat) : Reading Unit := do
  let s ← get
  match t with
  | [] => Reading.failAt .unclosedGroup []
  | c :: _ =>
      if c = Sign.question || c = Sign.star then
        Reading.skipTo (Sign.openParen :: t)
        enterGroup (.conditional .look)
        modify fun s => { s with expects := 2 }
      else
        let (condition, rest) ←
          match readGroupNumber s.opened t with
          | .fault fault rest => Reading.failAt fault rest
          | .number n rest =>
              if n = 0 then Reading.failAt .missingGroup rest
              pure (Condition.captured ⟨.number n, s.offsetOf rest - 2⟩, rest)
          | .none =>
              match afterWord? t with
              | some rest => do
                  let (holds, rest) ← readVersion rest
                  pure (.constant holds, rest)
              | none => readNamedCondition t
        if rest.head? ≠ some Sign.closeParen then Reading.failAt .unclosedCondition rest
        Reading.skipTo (rest.drop 1)
        enterGroup (.conditional condition)
where
  /-- What follows the word for the version, unless it is a name. -/
  afterWord? (t : List Nat) : Option (List Nat) :=
    let word := Text.ofCodePoints (t.take 7)
    if word = ("VERSION" : Text) && 10 ≤ Text.encodedLength t && t[7]? ≠ some Sign.closeParen then
      some (t.drop 7)
    else none

/-! ## Openings -/

/-- Reads what an opening parenthesis with a question mark begins. A lookbehind is known by the offset of
its parenthesis. -/
def readQuestion (expected : Nat) (t : List Nat) : Reading Unit := do
  let look (rest : List Nat) (look : Look) : Reading Unit := do
    Reading.skipTo rest
    let s ← get
    enterLook look (if look.behind then s.offsetOf t - 2 else 0) expected
  match t with
  | [] => Reading.failAt .unclosedGroup []
  | Sign.greater :: rest => do
      Reading.skipTo rest
      enterGroup .atomic
  | Sign.equals :: rest => look rest { behind := false, negated := false }
  | Sign.exclamation :: rest => look rest { behind := false, negated := true }
  | Sign.star :: rest => look rest { behind := false, negated := false, atomic := false }
  | Sign.less :: Sign.equals :: rest => look rest { behind := true, negated := false }
  | Sign.less :: Sign.exclamation :: rest => look rest { behind := true, negated := true }
  | Sign.less :: Sign.star :: rest => look rest { behind := true, negated := false, atomic := false }
  | Sign.less :: rest => do
      Reading.skipTo rest
      enterNamedGroup Sign.greater
  | Sign.apostrophe :: rest => do
      Reading.skipTo rest
      enterNamedGroup Sign.apostrophe
  | Sign.upperP :: Sign.less :: rest => do
      Reading.skipTo rest
      enterNamedGroup Sign.greater
  | Sign.upperP :: Sign.greater :: rest => readNamedCall rest
  | Sign.upperP :: Sign.equals :: rest => readNamedReference Sign.closeParen rest
  | [Sign.upperP] => Reading.failAt .unclosedGroup []
  | Sign.upperP :: rest => Reading.failAt .unknownNameForm rest
  | Sign.ampersand :: rest => readNamedCall rest
  | Sign.upperR :: rest =>
      if rest.head? = some Sign.closeParen then pushCall (.number 0) rest
      else Reading.failAt .malformedRecursion rest
  | Sign.upperC :: rest => readCallout expected rest
  | Sign.openParen :: rest => readCondition rest
  | Sign.plus :: _ => readNumberedCall t
  | Sign.bar :: rest => do
      Reading.skipTo rest
      let opened := (← get).opened
      enterGroup .plain fun g => { g with restart := some opened, largest := opened }
      modify fun s => { s with sharesNumbers := true }
  | c :: rest =>
      if isDigit c || (c = Sign.hyphen && startsWithDigit rest) then readNumberedCall t
      else readSettings t

/-- Reads what an opening parenthesis begins; `rest` is what follows it. A star that opens nothing is left
to be taken for a quantifier. -/
def readOpening (expected : Nat) (rest : List Nat) : Reading Unit := do
  match rest with
  | [] => Reading.failAt .unclosedGroup []
  | Sign.question :: t => readQuestion expected t
  | Sign.star :: [] | Sign.star :: Sign.closeParen :: _ => do
      Reading.skipTo rest
      modify fun s => { s with preceding := .other }
  | Sign.star :: c :: t =>
      if isLower c then readWordGroup expected (c :: t) else readVerb (c :: t)
  | _ => do
      Reading.skipTo rest
      if (← get).flags.plainGroups then enterGroup .plain
      else do enterCapture (← nextGroupNumber)

end PatternGrammar.Regex
