import PatternGrammar.Unicode.Binary
import PatternGrammar.Unicode.Direction
import PatternGrammar.Unicode.Script

/-!
# Properties of characters

What `\p` can ask of a character, and the names by which it asks. Names are loose: case, blanks, hyphens
and underscores do not count.
-/

namespace PatternGrammar.Regex

open Unicode

/-- `low ≤ c ≤ high`. -/
def between (low high c : Nat) : Bool := low ≤ c && c ≤ high

/-- Blanks of some width. -/
def isHorizontalSpace (c : Nat) : Bool :=
  c = 9 || c = 32 || c = 0xA0 || c = 0x1680 || c = 0x180E || between 0x2000 0x200A c ||
    c = 0x202F || c = 0x205F || c = 0x3000

/-- Characters that end a line. -/
def isVerticalSpace (c : Nat) : Bool := between 10 13 c || c = 0x85 || c = 0x2028 || c = 0x2029

/-- A question about one character. The last three have no name of their own. -/
inductive Property where
  | any
  | casedLetter
  | group (g : CategoryGroup)
  | category (c : Category)
  | script (s : Script)
  | scriptExtension (s : Script)
  | alphanumeric
  | space
  | word
  | nameable
  | direction (d : Direction)
  | binary (p : BinaryProperty)
  | graphic
  | printable
  | punctuation
  deriving DecidableEq, Repr

/-- The category is that of a letter with case. -/
def isCasedLetter : Category → Bool
  | .uppercase | .lowercase | .titlecase => true
  | _ => false

/-- The category is that of something visible; of the formats, all but the directional ones are. -/
def isVisible (c : Nat) : Bool :=
  match category c with
  | .format => c ≠ 0x61C && !between 0x2066 0x2069 c
  | other => other.group ≠ .other

/-- The property holds of the character. -/
def Property.holds (p : Property) (c : Nat) : Bool :=
  match p with
  | .any => true
  | .casedLetter => isCasedLetter (Unicode.category c)
  | .group g => (Unicode.category c).group = g
  | .category g => Unicode.category c = g
  | .script s => Unicode.script c = s
  | .scriptExtension s => s.extendsTo c
  | .alphanumeric => (Unicode.category c).group = .letter || (Unicode.category c).group = .number
  | .space => isHorizontalSpace c || isVerticalSpace c || (Unicode.category c).group = .separator
  | .word =>
      c = 95 || (Unicode.category c).group = .letter || (Unicode.category c).group = .number
  | .nameable => c = 36 || c = 64 || c = 96 || between 0xA0 0xD7FF c || 0xE000 ≤ c
  | .direction d => Unicode.direction c = d
  | .binary b => b.holds c
  | .graphic =>
      isVisible c && c ≠ 0x180E && (Unicode.category c).group ≠ .separator
  | .printable =>
      isVisible c && Unicode.category c ≠ .lineSeparator && Unicode.category c ≠ .paragraphSeparator
  | .punctuation =>
      (Unicode.category c).group = .punctuation ||
        (c < 128 && (Unicode.category c).group = .symbol)

/-- A name without case, blanks, hyphens and underscores. -/
def looseName (name : String) : String :=
  String.ofList ((name.toList.filter fun c => c ≠ '_' && c ≠ '-' && c ≠ ' ').map Char.toLower)

/-- The names that stand for categories, groups of them, and a few collections. -/
def categoryNames : List (String × Property) := [
  ("any", .any), ("l&", .casedLetter), ("lc", .casedLetter),
  ("c", .group .other), ("l", .group .letter), ("m", .group .mark), ("n", .group .number),
  ("p", .group .punctuation), ("s", .group .symbol), ("z", .group .separator),
  ("xan", .alphanumeric), ("xps", .space), ("xsp", .space), ("xuc", .nameable), ("xwd", .word),
  ("cc", .category .control), ("cf", .category .format), ("cn", .category .unassigned),
  ("co", .category .privateUse), ("cs", .category .surrogate), ("ll", .category .lowercase),
  ("lm", .category .modifierLetter), ("lo", .category .otherLetter), ("lt", .category .titlecase),
  ("lu", .category .uppercase), ("mc", .category .spacingMark), ("me", .category .enclosingMark),
  ("mn", .category .nonspacingMark), ("nd", .category .decimalDigit),
  ("nl", .category .letterNumber), ("no", .category .otherNumber), ("pc", .category .connector),
  ("pd", .category .dash), ("pe", .category .closePunctuation), ("pf", .category .finalQuote),
  ("pi", .category .initialQuote), ("po", .category .otherPunctuation),
  ("ps", .category .openPunctuation), ("sc", .category .currency), ("sk", .category .modifierSymbol),
  ("sm", .category .mathSymbol), ("so", .category .otherSymbol), ("zl", .category .lineSeparator),
  ("zp", .category .paragraphSeparator), ("zs", .category .space)]

/-- The second codes that two scripts have. -/
def formerScriptCodes : List (String × String) := [("Qaac", "Copt"), ("Qaai", "Zinh")]

/-- Every name with its property. A script by its name alone counts its extensions in. -/
def namedProperties : List (String × Property) :=
  let named (code name : String) : Option (String × Property) :=
    (Script.ofCode? code).map fun s => (looseName name, .scriptExtension s)
  let scripts := scriptNames.filterMap fun (code, name) => named code name
  let codes := scriptNames.filterMap fun (code, _) => named code code
  let formerCodes := formerScriptCodes.filterMap fun (former, code) => named code former
  let directions := directionCodes.filterMap fun code =>
    (Direction.ofCode? code).map fun d => (looseName ("bidi" ++ code), Property.direction d)
  let binaries := binaryEntries.zipIdx.flatMap fun (entry, i) =>
    entry.names.map fun name => (looseName name, Property.binary ⟨i⟩)
  categoryNames ++ scripts ++ codes ++ formerCodes ++ directions ++ binaries

/-- The property of a name in its loose form. -/
def Property.ofName? (name : String) : Option Property := namedProperties.lookup name

/-- The property of a value in its loose form, such as a script, for a family of properties. -/
def Property.ofValue? (family value : String) : Option Property :=
  if family = "bidiclass" || family = "bc" then Property.ofName? ("bidi" ++ value)
  else if family = "script" || family = "sc" then
    match Property.ofName? value with
    | some (.scriptExtension s) => some (.script s)
    | _ => none
  else if family = "scriptextensions" || family = "scx" then
    match Property.ofName? value with
    | some (.scriptExtension s) => some (.scriptExtension s)
    | _ => none
  else none

end PatternGrammar.Regex
