/-!
# Tables over the code points

A table gives every code point a value that stays the same over long runs. It is written as text: the name
of a value and the length of its run, run after run from code point zero; a length of one is left out. A
set of code points is written as the lengths of the runs outside and inside it, by turns.
-/

namespace PatternGrammar.Unicode

/-- The last place between `low` and `high` whose entry is at most `c`, found by halving the distance. -/
def lastAtMost (starts : Array Nat) (c : Nat) : (fuel low high : Nat) → Nat
  | 0, low, _ => low
  | fuel + 1, low, high =>
      if high ≤ low + 1 then low
      else
        let middle := (low + high) / 2
        if starts.getD middle 0 ≤ c then lastAtMost starts c fuel middle high
        else lastAtMost starts c fuel low middle

/-- The place of the run that holds `c`; thirty-two halvings do for every table. -/
def runOf (starts : Array Nat) (c : Nat) : Nat := lastAtMost starts c 32 0 starts.size

/-- The value of a code point is the value of the run that it lies in. -/
structure RunTable (α : Type) where
  starts : Array Nat
  values : Array α

/-- The value of a code point; `default` stands for an empty table. -/
def RunTable.find (t : RunTable α) (default : α) (c : Nat) : α :=
  t.values.getD (runOf t.starts c) default

/-- The number that decimal digits spell. -/
def numberOfDigits (digits : List Char) : Nat := digits.foldl (fun n d => 10 * n + (d.toNat - 48)) 0

/-- A run as it is written: the name of its value and its length. -/
def readRun (word : String) : String × Nat :=
  let digits := word.toList.dropWhile Char.isAlpha
  (String.ofList (word.toList.takeWhile Char.isAlpha), if digits.isEmpty then 1 else numberOfDigits digits)

/-- The words of some rows. -/
def wordsOf (rows : List String) : List String := rows.flatMap (·.splitOn " ")

/-- The place behind the runs read so far, and the table that they make. -/
structure Layout (α : Type) where
  position : Nat := 0
  starts : Array Nat := #[]
  values : Array α := #[]

/-- One more run. -/
def Layout.add (l : Layout α) (length : Nat) (value : α) : Layout α :=
  ⟨l.position + length, l.starts.push l.position, l.values.push value⟩

/-- The table that the rows write down. -/
def RunTable.ofRows (value : String → α) (rows : List String) : RunTable α :=
  let layout : Layout α :=
    (wordsOf rows).foldl (fun l word => let (name, length) := readRun word; l.add length (value name)) {}
  ⟨layout.starts, layout.values⟩

/-- A set of code points: the runs at odd places belong to it. -/
structure CodeSet where
  starts : Array Nat

/-- The code point belongs to the set. -/
def CodeSet.contains (s : CodeSet) (c : Nat) : Bool := runOf s.starts c % 2 = 1

/-- The set that the rows write down; what follows the last run is outside. -/
def CodeSet.ofRows (rows : List String) : CodeSet :=
  let add (l : Layout Unit) (word : String) : Layout Unit := l.add (numberOfDigits word.toList) ()
  let layout := (wordsOf rows).foldl add {}
  ⟨(layout.add 0 ()).starts⟩

end PatternGrammar.Unicode
