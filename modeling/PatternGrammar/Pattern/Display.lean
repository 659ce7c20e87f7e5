import PatternGrammar.Plugin
import PatternGrammar.Error

/-!
# Showing a pattern

A pattern is shown as the calls that would build it: one call per node, its options on lines of their own,
nested patterns two levels deeper, and the rest of the chain as calls on the first.
-/

namespace PatternGrammar

/-- A list of quoted texts. -/
def displayTexts (ts : List Text) : Text := "[" ++ Text.join ", " (ts.map Text.quote) ++ "]"

/-- A line of its own for one option. -/
def optionLine (indent name value : Text) : Text :=
  ",\n" ++ indent ++ "  " ++ name ++ ": " ++ value

/-- The line of an option that may be absent. -/
def optionalLine (indent name : Text) (show_ : α → Text) : Option α → Text
  | none => []
  | some value => optionLine indent name (show_ value)

/-- How the call of a node begins, on its own or behind another call. -/
def Kind.callName (kind : Kind) (isFirst : Bool) : Text :=
  match kind with
  | .plain => if isFirst then "Pattern.new(" else ".then("
  | kind => (if isFirst then "" else ".") ++ kind.name ++ "("

/-- The lines for the options that only some kinds take. -/
def displayKindOptions (kind : Kind) (indent : Text) (o : Options) : Text :=
  (if kind.isQuantifiable then
      optionalLine indent "at_least" Text.ofInt o.atLeast ++
        optionalLine indent "at_most" Text.ofInt o.atMost ++
        optionalLine indent "how_many_times" Text.ofInt o.howManyTimes ++
        optionalLine indent "word_cannot_be_any_of" displayTexts o.wordCannotBeAnyOf
    else [])
    ++ (if o.dontBackTrack then optionLine indent "dont_back_track" "true" else [])
    ++ (if o.asFewAsPossible then optionLine indent "as_few_as_possible" "true" else [])

/-- The lines for the lists of examples. -/
def displayExamples (indent : Text) (o : Options) : Text :=
  ExampleCategory.all.flatMap fun category =>
    optionalLine indent category.name displayTexts (o.examples category)

mutual
/-- The calls of a chain. -/
def Pattern.display (plugins : List Plugin) (depth : Nat) (isFirst : Bool) : Pattern → Text
  | .last node => node.display plugins depth isFirst
  | .link node next =>
      node.display plugins depth isFirst ++ Text.trimLeft (next.display plugins depth false)

/-- The call of one node. -/
def Node.display (plugins : List Plugin) (depth : Nat) (isFirst : Bool) : Node → Text
  | .mk kind matcher includes options _ =>
      let indent := Text.spaces (2 * depth)
      indent ++ kind.callName isFirst
        ++ "\n" ++ indent ++ "  match: " ++ Text.trimLeft (matcher.display plugins depth)
        ++ optionalLine indent "tag_as" Text.quote options.tagAs
        ++ optionalLine indent "reference" Text.quote options.reference
        ++ displayExamples indent options
        ++ (match includes with
          | none => []
          | some list =>
              optionLine indent "includes"
                ("[" ++ Text.join ", " (displayIncludes plugins list) ++ "]"))
        ++ displayOptions plugins (indent ++ "  ") { options with includes := includes }
        ++ displayKindOptions kind indent options
        ++ ",\n" ++ indent ++ ")"

/-- A matcher: an expression between slashes, or nested calls. -/
def Matcher.display (plugins : List Plugin) (depth : Nat) : Matcher → Text
  | .literal text => "/" ++ escapeRegex text ++ "/"
  | .fragment source => "/" ++ source ++ "/"
  | .nested pattern => pattern.display plugins (depth + 2) true

/-- Each entry of a list of includes. -/
def displayIncludes (plugins : List Plugin) : List Include → List Text
  | [] => []
  | entry :: rest => entry.display plugins :: displayIncludes plugins rest

/-- A pattern by its name, a rule behind a colon, any other text between quotes. -/
def Include.display (plugins : List Plugin) : Include → Text
  | .pattern pattern =>
      match pattern.label? with
      | some label => label
      | none => pattern.display plugins 0 true
  | .symbol name => ":" ++ name
  | .text text => Text.quote text
end

/-- The calls that would build a pattern. -/
def Pattern.toText (plugins : List Plugin) (p : Pattern) : Text := p.display plugins 0 true

/-- A memorable name: the reference, else the tag, else the calls that would build the pattern. -/
def Pattern.name (plugins : List Plugin) (p : Pattern) : Text :=
  match p.label? with
  | some label => label
  | none => p.toText plugins

end PatternGrammar
