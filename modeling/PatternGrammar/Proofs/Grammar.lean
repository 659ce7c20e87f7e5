import PatternGrammar.Proofs.Decimal
import PatternGrammar.RegexText.Placeholder

/-!
# The grammar of regular expressions

How a text is read as a regular expression. An alternation binds weaker than a concatenation, and that
weaker than a quantifier behind one atom; an atom is a literal byte, an escape, a group, or a place for a
reference. A concatenation is the list of its parts and a group that neither captures nor asserts leaves no
trace, so two texts that differ in nothing else read alike.

No text can be read in two ways. This holds of every prefix as well, as long as what follows cannot belong
to what was read.
-/

namespace PatternGrammar

open Ascii

/-! ## What is read -/

/-- What a group does besides holding its content together. -/
inductive GroupRole where
  | plain
  | capture
  | atomic
  | ahead
  | notAhead
  | behind
  | notBehind
  deriving DecidableEq, Repr

def GroupRole.opening : GroupRole → Text
  | .plain => "(?:"
  | .capture => "("
  | .atomic => "(?>"
  | .ahead => "(?="
  | .notAhead => "(?!"
  | .behind => "(?<="
  | .notBehind => "(?<!"

/-- How a quantifier chooses among the counts that it allows. -/
inductive Greediness where
  | greedy
  | lazy
  | possessive
  deriving DecidableEq, Repr

def Greediness.text : Greediness → Text
  | .greedy => ""
  | .lazy => "?"
  | .possessive => "+"

/-- A part of an expression. -/
inductive Part where
  | byte (b : UInt8)
  | wordBoundary
  | reference (kind : ReferenceKind) (name : Text)
  | choice (left right : List Part)
  | repeated (body : List Part) (least : Nat) (most : Option Nat) (mode : Greediness)
  | group (kind : GroupRole) (body : List Part)

/-- The parts that a group with this content is read as. -/
def GroupRole.around (body : List Part) : GroupRole → List Part
  | .plain => body
  | kind => [.group kind body]

/-! ## How it is written -/

/-- The bytes that do not stand for themselves. -/
def metaBytes : Text := "\\^$.[|()?*+\x7b"

/-- The bytes that begin a quantifier. -/
def quantifierStarts : Text := "?*+\x7b"

/-- The byte is an ASCII letter or digit. -/
def isAlphanumeric (b : UInt8) : Bool :=
  Text.isDigit b || (65 ≤ b && b ≤ 90) || (97 ≤ b && b ≤ 122)

/-- What a backslash in front of this byte makes of it: a control character, the boundary of a word, or a
byte that is no letter and no digit itself. -/
def escaped? (b : UInt8) : Option Part :=
  if isAlphanumeric b then
    if b = 110 then some (.byte 10)
    else if b = 116 then some (.byte 9)
    else if b = 114 then some (.byte 13)
    else if b = 102 then some (.byte 12)
    else if b = 118 then some (.byte 11)
    else if b = 98 then some .wordBoundary
    else none
  else some (.byte b)

def IsDigits (t : Text) : Prop := t ≠ [] ∧ ∀ b ∈ t, Text.isDigit b

/-- What stands behind the lower bound in braces, and the upper bound that it gives. -/
inductive IsUpper (least : Nat) : Text → Option Nat → Prop where
  | same : IsUpper least "\x7d" (some least)
  | unbounded : IsUpper least ",\x7d" none
  | upTo {m : Text} : IsDigits m → IsUpper least ("," ++ m ++ "\x7d") (some m.decimalValue)

/-- The bounds of a repetition, as written behind an atom. -/
inductive IsBounds : Text → Nat → Option Nat → Prop where
  | optional : IsBounds "?" 0 (some 1)
  | star : IsBounds "*" 0 none
  | plus : IsBounds "+" 1 none
  | braces {n upper most} : IsDigits n → IsUpper n.decimalValue upper most →
      IsBounds ("\x7b" ++ n ++ upper) n.decimalValue most

/-- How strongly the parts of an expression hold together. -/
inductive Level where
  | expression
  | sequence
  | factor
  | atom

/-- The text is read as these parts. -/
inductive Reads : Level → Text → List Part → Prop where
  | sequence {t x} : Reads .sequence t x → Reads .expression t x
  | choice {s t x y} : Reads .sequence s x → Reads .expression t y →
      Reads .expression (s ++ "|" ++ t) [.choice x y]
  | nil : Reads .sequence [] []
  | append {s t x y} : Reads .factor s x → Reads .sequence t y → Reads .sequence (s ++ t) (x ++ y)
  | once {t x} : Reads .atom t x → Reads .factor t x
  | repeated {t x bounds least most} (mode : Greediness) : Reads .atom t x →
      IsBounds bounds least most →
      Reads .factor (t ++ bounds ++ mode.text) [.repeated x least most mode]
  | literal {b} : b ∉ metaBytes → Reads .atom [b] [.byte b]
  | escape {b part} : escaped? b = some part → Reads .atom [backslash, b] [part]
  | group {t x} (kind : GroupRole) : Reads .expression t x →
      Reads .atom (kind.opening ++ t ++ ")") (kind.around x)
  | place {name} (kind : ReferenceKind) : closeParen ∉ name →
      Reads .atom (placeholder kind name) [.reference kind name]

end PatternGrammar
