import PatternGrammar.Options
import PatternGrammar.RegexText.Entity
import PatternGrammar.RegexText.Escape

/-!
# Repetition

The bounds of a node are derived from its options once, and refused if they make no sense. The text of a
quantifier says nothing for "exactly once"; a lower bound that is not given counts as one. A quantifier
is attached to the text of a matcher so that it binds the whole of it.
-/

namespace PatternGrammar

/-- Repetition bounds; an absent upper bound means that there is none. -/
structure Quantity where
  atLeast : Option Int := none
  atMost : Option Int := none
  deriving DecidableEq, Repr

/-- Why repetition options are refused. -/
inductive QuantityFault where
  | possessiveAndLazy
  | notQuantifiable
  | negativeBound
  | reversed (atMost lower : Int)
  deriving DecidableEq, Repr

/-- The words after the name of the node at fault. -/
def QuantityFault.description : QuantityFault → Text
  | .possessiveAndLazy => "dont_back_track and as_few_as_possible cannot both be provided"
  | .notQuantifiable =>
      "there are quantity arguments (at_least, at_most or how_many_times) which are not allowed in this kind of pattern. Wrap it inside of a Pattern to quantify it"
  | .negativeBound => "quantity bounds cannot be negative"
  | .reversed atMost lower =>
      "at_most (" ++ Text.ofInt atMost ++ ") is less than at_least (" ++ Text.ofInt lower ++ ")"

namespace Quantity

/-- Some bound was given. -/
def isSet (q : Quantity) : Bool := q.atLeast.isSome || q.atMost.isSome

/-- The lower bound that holds, which is one unless given. -/
def lower (q : Quantity) : Int := q.atLeast.getD 1

/-- The bounds that options ask for; an exact count is both of them. -/
def requested (o : Options) : Quantity :=
  match o.howManyTimes with
  | some n => ⟨some n, some n⟩
  | none => ⟨o.atLeast, o.atMost⟩

/-- Some given bound is negative. -/
def hasNegative (q : Quantity) : Bool := q.atLeast.any (· < 0) || q.atMost.any (· < 0)

/-- The quantity of a node with these options, `allowed` telling whether its kind can be repeated. -/
def resolve (o : Options) (allowed : Bool) : Except QuantityFault Quantity :=
  let q := requested o
  if o.dontBackTrack && o.asFewAsPossible then .error .possessiveAndLazy
  else if !q.isSet then .ok q
  else if !allowed then .error .notQuantifiable
  else if q.hasNegative then .error .negativeBound
  else
    match q.atMost with
    | some most => if most < q.lower then .error (.reversed most q.lower) else .ok q
    | none => .ok q

/-- The text of the bounds, without a mode. -/
def boundsText (q : Quantity) : Text :=
  if !q.isSet then ""
  else
    match q.atMost with
    | some most =>
        if q.lower = 1 && most = 1 then ""
        else if q.lower = 0 && most = 1 then "?"
        else if q.lower = most then "\x7b" ++ Text.ofInt most ++ "\x7d"
        else "\x7b" ++ Text.ofInt q.lower ++ "," ++ Text.ofInt most ++ "\x7d"
    | none =>
        if q.lower = 0 then "*"
        else if q.lower = 1 then "+"
        else "\x7b" ++ Text.ofInt q.lower ++ ",\x7d"

/-- The quantifier: the bounds, then a plus sign for possessive or a question mark for lazy. -/
def quantifier (q : Quantity) (dontBackTrack asFewAsPossible : Bool) : Text :=
  let bounds := q.boundsText
  if bounds.isEmpty then bounds
  else bounds ++ (if dontBackTrack then "+" else if asFewAsPossible then "?" else "")

/-- Adds one word to the alternatives collected so far. -/
def addWord (words word : Text) : Text :=
  (if words.isEmpty then words else words ++ "|") ++ escapeRegex word

/-- The assertion that none of the words stands here; no assertion without words. -/
def wordsAssertion : Option (List Text) → Text
  | none => ""
  | some [] => ""
  | some words => "(?!\\b(?:" ++ words.foldl addWord [] ++ ")\\b)"

/-- The text of a matcher with a quantifier behind it, or made atomic when there is none to carry the
possessive mode. -/
def repeated (q : Quantity) (o : Options) (body : Text) : Text :=
  let quantifier := q.quantifier o.dontBackTrack o.asFewAsPossible
  if quantifier.isEmpty then
    if o.dontBackTrack then "(?>" ++ body ++ ")" else body
  else (if isSingleEntity body then body else "(?:" ++ body ++ ")") ++ quantifier

/-- The text of a matcher with every repetition option of its node applied. -/
def applyTo (q : Quantity) (o : Options) (body : Text) : Text :=
  wordsAssertion o.wordCannotBeAnyOf ++ q.repeated o body

end Quantity

end PatternGrammar
