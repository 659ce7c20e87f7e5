import PatternGrammar.Regex.Reading.State

/-!
# Settings in front of an expression

A text may begin with verbs that set how the whole expression is read and searched for.
-/

namespace PatternGrammar.Regex

/-- A setting in front of an expression. -/
inductive FrontSetting where
  | change (apply : Settings → Settings)
  | limit (set : Limits → Nat → Limits)

/-- The settings with their names; each name is written between `(*` and what follows here. -/
def frontSettings : List (String × FrontSetting) := [
  ("BSR_ANYCRLF)", .change fun s => { s with wideBreaks := false }),
  ("BSR_UNICODE)", .change fun s => { s with wideBreaks := true }),
  ("CRLF)", .change fun s => { s with lineBreak := .pair }),
  ("CR)", .change fun s => { s with lineBreak := .carriageReturn }),
  ("LF)", .change fun s => { s with lineBreak := .lineFeed }),
  ("ANYCRLF)", .change fun s => { s with lineBreak := .pairOrEither }),
  ("ANY)", .change fun s => { s with lineBreak := .any }),
  ("NUL)", .change fun s => { s with lineBreak := .zero }),
  ("LIMIT_DEPTH=", .limit fun l n => { l with depth := n }),
  ("LIMIT_HEAP=", .limit fun l n => { l with memory := n }),
  ("LIMIT_MATCH=", .limit fun l n => { l with entries := n }),
  ("LIMIT_RECURSION=", .limit fun l n => { l with depth := n }),
  ("NOTEMPTY)", .change fun s => { s with notEmpty := true }),
  ("NOTEMPTY_ATSTART)", .change fun s => { s with notEmptyAtStart := true }),
  ("NO_AUTO_POSSESS)", .change fun s => { s with possessify := false }),
  ("NO_DOTSTAR_ANCHOR)", .change fun s => { s with anchorDotStar := false }),
  ("NO_JIT)", .change id),
  ("NO_START_OPT)", .change fun s => { s with checkStart := false }),
  ("UCP)", .change fun s => { s with wideClasses := true }),
  ("UTF)", .change id)]

/-- What follows the word, if the text begins with it. -/
def afterWord? (word : String) (t : List Nat) : Option (List Nat) :=
  let letters := word.toList.map Char.toNat
  if letters.isPrefixOf t then some (t.drop letters.length) else none

/-- The setting at the start of a text, and what follows its name. -/
def frontSettingAt? (t : List Nat) : Option (FrontSetting × List Nat) :=
  match t with
  | Sign.openParen :: Sign.star :: inner =>
      frontSettings.findSome? fun (name, setting) =>
        (afterWord? name inner).map fun rest => (setting, rest)
  | _ => none

/-- A limit reads no digit that could take it out of thirty-two bits. -/
def readLimit : Nat → List Nat → Nat × List Nat
  | n, c :: rest =>
      if isDigit c && n ≤ 429496728 then readLimit (n * 10 + (c - 48)) rest else (n, c :: rest)
  | n, [] => (n, [])

/-- Reads the settings in front of an expression. Limits can only be lowered. -/
def readFront : (fuel : Nat) → Limits → Reading Limits
  | 0, limits => return limits
  | fuel + 1, limits => do
      match frontSettingAt? (← Reading.rest) with
      | none => return limits
      | some (.change apply, rest) =>
          modify fun s => { s with rest, settings := apply s.settings }
          readFront fuel limits
      | some (.limit set, digits) =>
          if !startsWithDigit digits then Reading.failAt .unknownVerb digits
          let (n, after) := readLimit 0 digits
          match after with
          | Sign.closeParen :: rest =>
              Reading.skipTo rest
              readFront fuel (set limits n)
          | _ =>
              let s ← get
              throw ⟨.unknownVerb, s.offsetOf after + 1⟩

/-- The smaller of the limits. -/
def Limits.lowered (l other : Limits) : Limits :=
  { entries := min l.entries other.entries
    depth := min l.depth other.depth
    memory := min l.memory other.memory }

end PatternGrammar.Regex
