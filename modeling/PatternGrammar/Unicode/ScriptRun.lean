import PatternGrammar.Unicode.Category
import PatternGrammar.Unicode.Script

/-!
# Runs of one script

A text is a script run if all of its characters can belong to one script, where Han goes together with the
scripts that are written along with it, and if all of its decimal digits come from one set of ten. Fewer
than two characters always are a run.
-/

namespace PatternGrammar.Unicode

/-- The script of a code. -/
def scriptOf (code : String) : Script := (Script.ofCode? code).getD .unknown

def han : Script := scriptOf "Hani"
def hiragana : Script := scriptOf "Hira"
def katakana : Script := scriptOf "Kana"
def bopomofo : Script := scriptOf "Bopo"
def hangul : Script := scriptOf "Hang"

/-- What a run asks of its next character. -/
inductive RunState where
  /-- No character so far has asked for anything. -/
  | start
  /-- One of these scripts. -/
  | oneOf (scripts : List Script)
  /-- Han so far; what comes next decides what goes along with it. -/
  | hanPending
  /-- Han, or one of these. -/
  | hanWith (scripts : List Script)

/-- The state after a character whose script goes together with Han. -/
def RunState.ofScript? (s : Script) : Option RunState :=
  if s = han then some .hanPending
  else if s = hiragana || s = katakana then some (.hanWith [hiragana, katakana])
  else if s = bopomofo then some (.hanWith [bopomofo])
  else if s = hangul then some (.hanWith [hangul])
  else none

/-- The scripts of a character: its own, unless it is shared by all, and its extensions. -/
def scriptsWithOwn (c : Nat) : List Script :=
  let own := script c
  let extensions := scripts c
  let extensions := if extensions = [own] then [] else extensions
  if own = .common || own = .inherited then extensions else own :: extensions

/-- One more character of a run. -/
def RunState.step? (state : RunState) (c : Nat) : Option RunState :=
  let own := script c
  if own = .unknown then none
  else
    match scriptsWithOwn c with
    | [] => some state
    | allowed =>
        match state with
        | .start => some ((RunState.ofScript? own).getD (.oneOf allowed))
        | .hanPending =>
            if own = han then some .hanPending
            else
              let found := [bopomofo, hiragana, katakana, hangul].filter allowed.contains
              if found.isEmpty then none
              else if found = [bopomofo] then some (.hanWith [bopomofo])
              else if found = [hiragana, katakana] then some (.hanWith [hiragana, katakana])
              else some .hanPending
        | .hanWith others =>
            if allowed.contains han || others.any allowed.contains then some state else none
        | .oneOf required =>
            match required.filter allowed.contains with
            | [] => none
            | both => some ((RunState.ofScript? own).getD (.oneOf both))

/-- How many decimal digits in a row stand in front of this code point. -/
def digitsBefore : Nat → Nat
  | 0 => 0
  | c + 1 => if isDecimalDigit c then digitsBefore c + 1 else 0

/-- The first digit of the set that a decimal digit belongs to. -/
def digitSet (c : Nat) : Nat := c - digitsBefore c % 10

/-- The rest of a run. All digits come from the same set, if one is known already. -/
def continuesRun (state : RunState) (digits : Option Nat) : List Nat → Bool
  | [] => true
  | c :: rest =>
      match state.step? c with
      | none => false
      | some state =>
          if isDecimalDigit c then
            match digits with
            | some set => set = digitSet c && continuesRun state digits rest
            | none => continuesRun state (some (digitSet c)) rest
          else continuesRun state digits rest

/-- The code points form a script run. -/
def isScriptRun (cs : List Nat) : Bool :=
  match cs with
  | [] | [_] => true
  | cs => continuesRun .start none cs

end PatternGrammar.Unicode
