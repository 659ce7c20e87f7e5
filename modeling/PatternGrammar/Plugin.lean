import PatternGrammar.Pattern.Basic

/-!
# Plugins

A plugin recognizes options of its own, shows them when a pattern carries them, and checks patterns
before they are exported.
-/

namespace PatternGrammar

/-- How a plugin checks a pattern: by a test of its own, or by the examples that the pattern declares. -/
inductive Check where
  | custom (holds : Pattern → Bool)
  | examples

structure Plugin where
  options : List Text := []
  display : (indent : Text) → Attributes → Text := fun _ _ => []
  check : Check := .custom fun _ => true

/-- The plugin that runs the examples of every pattern. -/
def Plugin.exampleTests : Plugin := { check := .examples }

/-- Some plugin recognizes the option. -/
def recognizes (plugins : List Plugin) (option : Text) : Bool :=
  plugins.any fun p => p.options.contains option

/-- What the plugins show for a node, leaving out those none of whose options it carries. -/
def displayOptions (plugins : List Plugin) (indent : Text) (a : Attributes) : Text :=
  plugins.flatMap fun p =>
    if p.options.any fun option => Dictionary.holds option a.pluginOptions then p.display indent a
    else []

end PatternGrammar
