import PatternGrammar.Text.Ascii

/-!
# Texts that a quantifier binds whole

A quantifier applies to one character, one escape, one character class or one group. The two scanners
walk to the bracket or parenthesis that closes what stands at their start and give the text behind it.
-/

namespace PatternGrammar

open Ascii

/-- Scans inside `depth` open brackets; a bracket right behind an opening one, or behind its caret, is
a member. Gives the text behind the bracket that closes the outermost. -/
def classEnd? : Nat → Text → Option Text
  | _, [] => none
  | _, [backslash] => none
  | depth, backslash :: _ :: rest => classEnd? depth rest
  | depth, openBracket :: caret :: closeBracket :: rest => classEnd? (depth + 1) rest
  | depth, openBracket :: caret :: rest => classEnd? (depth + 1) rest
  | depth, openBracket :: closeBracket :: rest => classEnd? (depth + 1) rest
  | depth, openBracket :: rest => classEnd? (depth + 1) rest
  | depth, closeBracket :: rest => if depth ≤ 1 then some rest else classEnd? (depth - 1) rest
  | depth, _ :: rest => classEnd? depth rest

/-- What the scanner of groups is inside of, besides the groups themselves. -/
inductive GroupScan where
  | items
  | comment
  | brackets (depth : Nat)
  deriving DecidableEq, Repr

/-- Scans inside `depth` open parentheses. A comment reaches to the first closing parenthesis and a
class hides the parentheses in it. Gives the text behind the parenthesis that closes the outermost. -/
def groupEnd? : GroupScan → Nat → Text → Option Text
  | _, _, [] => none
  | .comment, depth, closeParen :: rest => if depth = 0 then some rest else groupEnd? .items depth rest
  | .comment, depth, _ :: rest => groupEnd? .comment depth rest
  | _, _, [backslash] => none
  | scan, depth, backslash :: _ :: rest => groupEnd? scan depth rest
  | .brackets inner, depth, openBracket :: caret :: closeBracket :: rest =>
      groupEnd? (.brackets (inner + 1)) depth rest
  | .brackets inner, depth, openBracket :: caret :: rest =>
      groupEnd? (.brackets (inner + 1)) depth rest
  | .brackets inner, depth, openBracket :: closeBracket :: rest =>
      groupEnd? (.brackets (inner + 1)) depth rest
  | .brackets inner, depth, openBracket :: rest => groupEnd? (.brackets (inner + 1)) depth rest
  | .brackets inner, depth, closeBracket :: rest =>
      groupEnd? (if inner ≤ 1 then .items else .brackets (inner - 1)) depth rest
  | .brackets inner, depth, _ :: rest => groupEnd? (.brackets inner) depth rest
  | .items, depth, openBracket :: caret :: closeBracket :: rest => groupEnd? (.brackets 1) depth rest
  | .items, depth, openBracket :: caret :: rest => groupEnd? (.brackets 1) depth rest
  | .items, depth, openBracket :: closeBracket :: rest => groupEnd? (.brackets 1) depth rest
  | .items, depth, openBracket :: rest => groupEnd? (.brackets 1) depth rest
  | .items, depth, openParen :: question :: numberSign :: rest => groupEnd? .comment depth rest
  | .items, depth, openParen :: rest => groupEnd? .items (depth + 1) rest
  | .items, depth, closeParen :: rest =>
      if depth = 0 then none else if depth = 1 then some rest else groupEnd? .items (depth - 1) rest
  | .items, depth, _ :: rest => groupEnd? .items depth rest

/-- A single byte, an escape of one byte, a whole class or a whole group. -/
def isSingleEntity : Text → Bool
  | [] => false
  | [_] => true
  | backslash :: rest => rest.length = 1
  | openBracket :: rest => classEnd? 0 (openBracket :: rest) = some []
  | openParen :: rest => groupEnd? .items 0 (openParen :: rest) = some []
  | _ => false

end PatternGrammar
