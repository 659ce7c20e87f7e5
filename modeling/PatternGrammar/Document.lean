import PatternGrammar.Json.Reader
import PatternGrammar.Pattern.Construction
import PatternGrammar.Plugin
import PatternGrammar.Rule

/-!
# Pattern documents

A pattern is described by a string, which stands for itself, or by an object with exactly one matcher, an
optional kind, options, and an optional list of what follows in the chain. A document maps names of
rules to such descriptions. Members are read in the order of their keys, so of several mistakes the one
under the first key is reported.
-/

namespace PatternGrammar

/-- The keys of which an object has exactly one. -/
inductive MatcherKey where
  | literal
  | regex
  | matchResultOf
  | recursivelyMatch
  deriving DecidableEq, Repr

/-- How the key is written. -/
def MatcherKey.name : MatcherKey → Text
  | .literal => "match"
  | .regex => "regex"
  | .matchResultOf => "match_result_of"
  | .recursivelyMatch => "recursively_match"

/-- The matcher keys, in the order in which they are listed. -/
def MatcherKey.all : List MatcherKey := [.literal, .regex, .matchResultOf, .recursivelyMatch]

/-- The path of a member. -/
def memberPath (path key : Text) : Text := path ++ "." ++ key

/-- The path of an item. -/
def itemPath (path : Text) (index : Nat) : Text := path ++ "[" ++ Text.ofNat index ++ "]"

namespace Json

/-- The value as a text. -/
def asText (path : Text) : Json → Except Error Text
  | .string t => .ok t
  | v => .error (.construction (.notText path v))

/-- The value as a repetition count, which has to fit 32 bits. -/
def asCount (path : Text) : Json → Except Error Int
  | .int n =>
      if -Int.pow 2 31 ≤ n && n < Int.pow 2 31 then .ok n
      else .error (.construction (.countOutOfRange path (.int n)))
  | v => .error (.construction (.notInteger path v))

/-- The value as a truth value. -/
def asBool (path : Text) : Json → Except Error Bool
  | .bool b => .ok b
  | v => .error (.construction (.notBoolean path v))

/-- Items from number `index` on as texts. -/
def itemsAsTexts (path : Text) : (index : Nat) → List Json → Except Error (List Text)
  | _, [] => .ok []
  | index, v :: rest => do
      let t ← v.asText (itemPath path index)
      return t :: (← itemsAsTexts path (index + 1) rest)

/-- The value as a list of texts; a single text stands for a list of one. -/
def asTexts (path : Text) : Json → Except Error (List Text)
  | .string t => .ok [t]
  | .array items => itemsAsTexts path 0 items
  | v => .error (.construction (.notTextList path v))

mutual
/-- The number of levels of a value. -/
def depth : Json → Nat
  | .array items => depthOfItems items + 1
  | .object members => depthOfMembers members + 1
  | .null | .bool _ | .int _ | .double _ | .string _ => 0

def depthOfItems : List Json → Nat
  | [] => 0
  | v :: rest => max v.depth (depthOfItems rest)

def depthOfMembers : List (Text × Json) → Nat
  | [] => 0
  | (_, v) :: rest => max v.depth (depthOfMembers rest)
end

end Json

/-- The attributes read so far, and the three short names for modes. -/
structure AttributeDraft where
  attributes : Attributes := {}
  possessive : Bool := false
  lazy : Bool := false
  greedy : Bool := false

/-- What is done about the value under a key: a value of one of four types has a place where it is put, includes
have their own, and the keys that say what the node is and what follows it are looked at apart. -/
inductive OptionReader where
  | apart
  | includes
  | text (put : Text → Attributes → Attributes)
  | texts (put : List Text → Attributes → Attributes)
  | count (put : Int → Attributes → Attributes)
  | flag (put : Bool → AttributeDraft → AttributeDraft)

/-- Puts a flag among the attributes. -/
def OptionReader.flagOf (put : Bool → Attributes → Attributes) : OptionReader :=
  .flag fun b d => { d with attributes := put b d.attributes }

/-- Every key that needs no plugin. -/
def optionReaders : List (Text × OptionReader) :=
  [("kind", .apart),
    ("match", .apart),
    ("regex", .apart),
    ("match_result_of", .apart),
    ("recursively_match", .apart),
    ("then", .apart),
    ("tag_as", .text fun t a => { a with tagAs := some t }),
    ("reference", .text fun t a => { a with reference := some t }),
    ("includes", .includes),
    ("should_fully_match", .texts fun ts a => { a with shouldFullyMatch := some ts }),
    ("should_not_fully_match", .texts fun ts a => { a with shouldNotFullyMatch := some ts }),
    ("should_partially_match", .texts fun ts a => { a with shouldPartiallyMatch := some ts }),
    ("should_not_partially_match", .texts fun ts a => { a with shouldNotPartiallyMatch := some ts }),
    ("at_least", .count fun n a => { a with atLeast := some n }),
    ("at_most", .count fun n a => { a with atMost := some n }),
    ("how_many_times", .count fun n a => { a with howManyTimes := some n }),
    ("dont_back_track", .flagOf fun b a => { a with dontBackTrack := b }),
    ("as_few_as_possible", .flagOf fun b a => { a with asFewAsPossible := b }),
    ("word_cannot_be_any_of", .texts fun ts a => { a with wordCannotBeAnyOf := some ts }),
    ("possessive", .flag fun b d => { d with possessive := b }),
    ("lazy", .flag fun b d => { d with lazy := b }),
    ("greedy", .flag fun b d => { d with greedy := b })]

/-- The attributes with the short names applied; greedy takes both modes back. -/
def AttributeDraft.finish (d : AttributeDraft) : Attributes :=
  { d.attributes with
    dontBackTrack := !d.greedy && (d.attributes.dontBackTrack || d.possessive)
    asFewAsPossible := !d.greedy && (d.attributes.asFewAsPossible || d.lazy) }

/-- The kind that an object names, if it names one. -/
def describedKind? (path : Text) (members : Dictionary Json) : Except Error (Option Kind) :=
  match Dictionary.get? "kind" members with
  | none => .ok none
  | some value => do
      let name ← value.asText (memberPath path "kind")
      match Kind.ofName? name with
      | some kind => return some kind
      | none => throw (.construction (.unknownKind path name))

/-- The one matcher key of an object, with its value. -/
def onlyMatcher (path : Text) (members : Dictionary Json) : Except Error (MatcherKey × Json) :=
  let present := MatcherKey.all.filterMap fun key =>
    (Dictionary.get? key.name members).map fun value => (key, value)
  match present with
  | [] => .error (.construction (.noMatcher path))
  | [one] => .ok one
  | several => .error (.construction (.severalMatchers path (several.map fun (key, _) => key.name)))

/-- The matcher and kind of a reference to a group; a kind that is named has to agree. -/
def describedReference (path : Text) (key : MatcherKey) (reference : ReferenceKind)
    (kind : Option Kind) (value : Json) : Except Error (Matcher × Kind) := do
  let referenceKind := reference.nodeKind
  match kind with
  | some other =>
      if other ≠ referenceKind then throw (.construction (.kindConflict path key.name other))
  | none => pure ()
  let name ← value.asText (memberPath path key.name)
  return (.fragment (placeholder reference name), referenceKind)

/-- An include that is a string: one of the two words for the grammar itself, a rule behind a number
sign, or any other text. -/
def Include.ofText (t : Text) : Include :=
  if t = ("$self" : Text) || t = ("$base" : Text) then .symbol t
  else
    match t with
    | Ascii.numberSign :: c :: rest => .symbol (c :: rest)
    | t => .text t

section Reading

variable (plugins : List Plugin) (load : (path : Text) → Json → Except Error Pattern)

/-- The matcher under `match`: a string, an object, or a list of one of these. -/
def describedLiteral (path : Text) (value : Json) : Except Error Matcher := do
  let value ←
    match value with
    | .array [one] => pure one
    | .array items => throw (.construction (.matcherCount path items.length))
    | value => pure value
  match value with
  | .string t => return .literal t
  | .object members => return .nested (← load path (.object members))
  | value => throw (.construction (.notPattern path value))

/-- The matcher under a key, and the kind of a node with this matcher, which may have been named. -/
def MatcherKey.read (path : Text) (key : MatcherKey) (kind : Option Kind) (value : Json) :
    Except Error (Matcher × Kind) :=
  match key with
  | .literal => do
      return (← describedLiteral load (memberPath path key.name) value, kind.getD .plain)
  | .regex => do
      return (.fragment (← value.asText (memberPath path key.name)), kind.getD .plain)
  | .matchResultOf => describedReference path key .backReference kind value
  | .recursivelyMatch => describedReference path key .subroutine kind value

/-- The matcher of an object, and the kind of its node. -/
def describedMatcher (path : Text) (members : Dictionary Json) : Except Error (Matcher × Kind) := do
  let kind ← describedKind? path members
  let (key, value) ← onlyMatcher path members
  key.read load path kind value

/-- One entry of `includes`. -/
def describedInclude (path : Text) : Json → Except Error Include
  | .string t => .ok (Include.ofText t)
  | .object members => do return .pattern (← load path (.object members))
  | _ => .error (.construction (.notInclude path))

/-- The entries of `includes` from number `index` on. -/
def describedIncludesFrom (path : Text) : (index : Nat) → List Json → Except Error (List Include)
  | _, [] => .ok []
  | index, v :: rest => do
      let entry ← describedInclude load (itemPath path index) v
      return entry :: (← describedIncludesFrom path (index + 1) rest)

/-- The value of `includes`; a single entry stands for a list of one. -/
def describedIncludes (path : Text) : Json → Except Error (List Include)
  | .array items => describedIncludesFrom load path 0 items
  | v => do return [← describedInclude load path v]

/-- Reads the value of an option and puts it in its place. -/
def OptionReader.read (path : Text) (value : Json) (d : AttributeDraft) :
    OptionReader → Except Error AttributeDraft
  | .apart => .ok d
  | .includes => do
      let includes ← describedIncludes load path value
      return { d with attributes := { d.attributes with includes := some includes } }
  | .text put => do return { d with attributes := put (← value.asText path) d.attributes }
  | .texts put => do return { d with attributes := put (← value.asTexts path) d.attributes }
  | .count put => do return { d with attributes := put (← value.asCount path) d.attributes }
  | .flag put => do return put (← value.asBool path) d

/-- Adds one option. What a plugin recognizes is kept as it is. -/
def AttributeDraft.add (d : AttributeDraft) (path key : Text) (value : Json) :
    Except Error AttributeDraft :=
  match Dictionary.get? key optionReaders with
  | some reader => reader.read load (memberPath path key) value d
  | none =>
      if recognizes plugins key then
        .ok { d with
          attributes := { d.attributes with
            pluginOptions := Dictionary.insert key value d.attributes.pluginOptions } }
      else .error (.construction (.unknownOption (memberPath path key) key))

/-- Adds the options of an object, in the order of its keys. -/
def addOptions (path : Text) : Dictionary Json → AttributeDraft → Except Error AttributeDraft
  | [], d => .ok d
  | (key, value) :: rest, d => do
      addOptions path rest (← d.add plugins load path key value)

/-- The chain with what follows it, from number `index` on. -/
def appendDescribed (path : Text) : (index : Nat) → List Json → Pattern → Except Error Pattern
  | _, [], p => .ok p
  | index, v :: rest, p => do
      appendDescribed path (index + 1) rest (p.append (← load (itemPath path index) v))

/-- The pattern of an object: its node, then what follows in the chain. -/
def describedObject (path : Text) (members : Dictionary Json) : Except Error Pattern := do
  let (matcher, kind) ← describedMatcher load path members
  let draft ← addOptions plugins load path members {}
  let p ← Pattern.create kind matcher draft.finish
  match Dictionary.get? "then" members with
  | none => return p
  | some (.array items) => appendDescribed load (memberPath path "then") 0 items p
  | some _ => throw (.construction (.notChain (memberPath path "then")))

end Reading

/-- The pattern of a description, for descriptions of up to `fuel` levels. -/
def loadWithin (plugins : List Plugin) : (fuel : Nat) → (path : Text) → Json → Except Error Pattern
  | _, _, .string t => .ok (.last (.mk .plain (.literal t) none {} {}))
  | fuel + 1, path, .object members =>
      describedObject plugins (loadWithin plugins fuel) path members
  | _, path, v => .error (.construction (.notPattern path v))

/-- The pattern of a description; `path` leads to the description. -/
def loadPatternAt (plugins : List Plugin) (path : Text) (description : Json) :
    Except Error Pattern :=
  loadWithin plugins description.depth path description

/-- The pattern of a description that stands alone. -/
def loadPattern (plugins : List Plugin) (description : Json) : Except Error Pattern :=
  loadPatternAt plugins "pattern" description

/-- A repository of named patterns, in the order of the names. -/
structure Grammar where
  rules : List (Text × Pattern)

/-- The pattern of a name. -/
def Grammar.find? (g : Grammar) (name : Text) : Option Pattern :=
  (g.rules.find? fun (ruleName, _) => ruleName = name).map (·.2)

/-- What loading a document gives, and the lines it logged on the way. -/
structure Loading where
  log : List Text
  result : Except Error Grammar

/-- The rules of a repository, with a line for each one that was begun. -/
def loadRules (plugins : List Plugin) : List (Text × Json) → List Text × Except Error (List (Text × Pattern))
  | [] => ([], .ok [])
  | (name, description) :: rest =>
      let line : Text := "Loading rule " ++ name
      match loadPatternAt plugins name description with
      | .error e => ([line], .error e)
      | .ok p =>
          let (log, rules) := loadRules plugins rest
          (line :: log, rules.map fun rules => (name, p) :: rules)

/-- The grammar of a document. -/
def loadDocument (plugins : List Plugin) (document : Json) : Loading :=
  match document.get? "repository" with
  | none => ⟨[], .error (.construction .noRepository)⟩
  | some (.object members) =>
      match loadRules plugins members with
      | (log, .ok rules) =>
          ⟨log ++ ["Loaded " ++ Text.ofNat rules.length ++ " rules"], .ok ⟨rules⟩⟩
      | (log, .error e) => ⟨log, .error e⟩
  | some _ => ⟨[], .error (.construction .repositoryNotObject)⟩

/-- The grammar of a document that is given as text. -/
def loadText (plugins : List Plugin) (t : Text) : Loading :=
  match Json.parse? t with
  | some document => loadDocument plugins document
  | none => ⟨[], .error (.construction .invalidJson)⟩

/-- The log as it is printed. -/
def Loading.printedLog (l : Loading) : Text :=
  l.log.flatMap fun line => Text.ofString "[tmgrammar] " ++ line ++ Text.ofString "\n"

/-- The written form of every rule, under its name. -/
def exportRules : List (Text × Pattern) → Dictionary Json → Except Error (Dictionary Json)
  | [], written => .ok written
  | (name, p) :: rest, written => do
      let rule ← p.toRule
      exportRules rest (Dictionary.insert name rule.toJson written)

/-- The grammar rules of a document, as they are read by highlighters. -/
def Grammar.export (g : Grammar) : Except Error Json := do
  let written ← exportRules g.rules []
  return .object [("repository", .object written)]

end PatternGrammar
