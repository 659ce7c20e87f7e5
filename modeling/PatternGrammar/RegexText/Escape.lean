import PatternGrammar.Text.Ascii

/-!
# Literal text as a regular expression

A byte with a meaning of its own in a regular expression, a hyphen, a slash or a space gets a backslash in
front; five control characters are written by their letters; every other byte stands for itself.
-/

namespace PatternGrammar

/-- The bytes that are written with a backslash in front. -/
def escapedBytes : Text := ".*?+^$|()[]\x7b\x7d\\-#/ "

/-- The letter that names a control character after a backslash. -/
def controlLetter? (b : UInt8) : Option UInt8 :=
  if b = 10 then some 110
  else if b = 9 then some 116
  else if b = 13 then some 114
  else if b = 12 then some 102
  else if b = 11 then some 118
  else none

/-- One byte of a literal, as written in a regular expression. -/
def escapeByte (b : UInt8) : Text :=
  match controlLetter? b with
  | some letter => [Ascii.backslash, letter]
  | none => if b ∈ escapedBytes then [Ascii.backslash, b] else [b]

/-- A regular expression for exactly this text. -/
def escapeRegex (t : Text) : Text := t.flatMap escapeByte

@[simp] theorem escapeRegex_nil : escapeRegex [] = [] := rfl

theorem escapeRegex_cons (b : UInt8) (t : Text) :
    escapeRegex (b :: t) = escapeByte b ++ escapeRegex t := rfl

theorem escapeRegex_append (s t : Text) :
    escapeRegex (s ++ t) = escapeRegex s ++ escapeRegex t := by
  simp [escapeRegex]

end PatternGrammar
