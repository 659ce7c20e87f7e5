import PatternGrammar.Unicode.Runs

/-!
# Grapheme clusters

What a reader sees as one character is a cluster of code points. Whether two neighbours stand in one
cluster follows from their kinds, save for two rules that look further back: flags are pairs of regional
indicators, and a joiner joins two pictographs.
-/

namespace PatternGrammar.Unicode

/-- How a code point joins its neighbours. `leading`, `vowel` and `trailing` are parts of Korean syllables. -/
inductive ClusterKind where
  | carriageReturn
  | lineFeed
  | control
  | extend
  | prepend
  | spacingMark
  | leading
  | vowel
  | trailing
  | leadingVowel
  | leadingVowelTrailing
  | regionalIndicator
  | other
  | joiner
  | pictograph
  deriving DecidableEq, Repr

/-- The kind of a code in the table. -/
def ClusterKind.ofCode (code : String) : ClusterKind :=
  match code with
  | "CR" => .carriageReturn
  | "LF" => .lineFeed
  | "CN" => .control
  | "EX" => .extend
  | "PP" => .prepend
  | "SM" => .spacingMark
  | "L" => .leading
  | "V" => .vowel
  | "T" => .trailing
  | "LV" => .leadingVowel
  | "LVT" => .leadingVowelTrailing
  | "RI" => .regionalIndicator
  | "ZWJ" => .joiner
  | "EP" => .pictograph
  | _ => .other

/-- The runs of kinds, without the Korean syllables. -/
def clusterRows : List String := [
  "CN10 LF CN2 CR CN18 XX95 CN33 XX9 EP XX3 CN EP XX593 EX112 XX275 EX7 XX263 EX45 XX EX XX",
  "EX2 XX EX2 XX EX XX56 PP6 XX10 EX11 XX CN XX46 EX21 XX16 EX XX101 EX7 PP XX EX6 XX2 EX2 XX",
  "EX4 XX33 PP XX EX XX30 EX27 XX91 EX11 XX58 EX9 XX9 EX XX24 EX4 XX EX9 XX EX3 XX EX5 XX43",
  "EX3 XX52 PP2 XX6 EX8 XX42 EX24 PP EX32 SM XX54 EX SM EX XX SM3 EX8 SM4 EX SM2 XX EX7 XX10",
  "EX2 XX29 EX SM2 XX56 EX XX EX SM2 EX4 XX2 SM2 XX2 SM2 EX XX9 EX XX10 EX2 XX26 EX XX2 EX2 SM",
  "XX56 EX XX SM3 EX2 XX4 EX2 XX2 EX3 XX3 EX XX30 EX2 XX3 EX XX11 EX2 SM XX56 EX XX SM3 EX5 XX",
  "EX2 SM XX SM2 EX XX20 EX2 XX22 EX6 XX EX SM2 XX56 EX XX EX2 SM EX4 XX2 SM2 XX2 SM2 EX XX7",
  "EX3 XX10 EX2 XX30 EX XX59 EX SM EX SM2 XX3 SM3 XX SM3 EX XX9 EX XX40 EX SM3 EX XX55 EX XX",
  "EX3 SM4 XX EX3 XX EX4 XX7 EX2 XX11 EX2 XX29 EX SM2 XX56 EX XX SM EX SM2 EX SM2 XX EX SM2 XX",
  "SM2 EX2 XX7 EX2 XX11 EX2 XX28 EX2 SM2 XX55 EX2 XX EX SM2 EX4 XX SM3 XX SM3 EX PP XX8 EX",
  "XX10 EX2 XX29 EX SM2 XX70 EX XX4 EX SM2 EX3 XX EX XX SM7 EX XX18 SM2 XX61 EX XX SM EX7 XX12",
  "EX8 XX98 EX XX SM EX9 XX11 EX6 XX74 EX2 XX27 EX XX EX XX EX XX4 SM2 XX49 EX14 SM EX5 XX EX2",
  "XX5 EX11 XX EX36 XX9 EX XX102 EX4 SM EX6 XX EX2 SM2 EX2 XX23 SM2 EX2 XX4 EX3 XX16 EX4 XX13",
  "EX XX SM EX2 XX6 EX XX15 EX XX98 L96 V72 T88 XX349 EX3 XX946 EX3 SM XX28 EX2 SM XX29 EX2",
  "XX30 EX2 XX64 EX2 SM EX7 SM8 EX SM2 EX11 XX9 EX XX45 EX3 CN EX XX117 EX2 XX34 EX XX118 EX3",
  "SM4 EX2 SM3 XX4 SM2 EX SM6 EX3 XX219 EX2 SM2 EX XX57 SM EX SM EX7 XX EX XX EX XX2 EX8 SM6",
  "EX10 XX2 EX XX48 EX31 XX49 EX4 SM XX47 EX7 SM EX SM5 EX SM2 XX38 EX9 XX12 EX2 SM XX30 SM",
  "EX4 SM2 EX2 SM EX3 XX56 EX SM EX2 SM3 EX SM EX3 SM2 XX48 SM8 EX8 SM2 EX2 XX152 EX3 XX EX13",
  "SM EX7 XX4 EX XX6 EX XX2 SM EX2 XX198 EX64 XX523 CN EX ZWJ CN2 XX24 CN7 XX13 EP XX12 EP",
  "XX22 CN16 XX96 EX33 XX49 EP XX22 EP XX90 EP6 XX15 EP2 XX367 EP2 XX12 EP XX95 EP XX70 EP",
  "XX25 EP11 XX4 EP3 XX199 EP XX231 EP2 XX10 EP XX9 EP XX58 EP4 XX EP6 XX EP12 XX EP114 XX10",
  "EP118 XX2 EP11 XX EP XX EP XX6 EP XX3 EP XX6 EP XX10 EP2 XX15 EP XX2 EP XX4 EP XX EP XX4",
  "EP3 XX EP XX11 EP5 XX45 EP3 XX9 EP XX14 EP XX14 EP XX372 EP2 XX463 EP3 XX19 EP2 XX51 EP XX4",
  "EP XX409 EX3 XX141 EX XX96 EX32 XX554 EX6 EP XX12 EP XX91 EX2 XX508 EP XX EP XX29653 EX4 XX",
  "EX10 XX32 EX2 XX80 EX2 XX272 EX XX3 EX XX4 EX XX23 SM2 EX2 SM XX4 EX XX83 SM2 XX50 SM16 EX2",
  "XX26 EX18 XX13 EX XX38 EX8 XX25 EX11 SM2 XX12 L29 XX3 EX3 SM XX47 EX SM2 EX4 SM2 EX2 SM3",
  "XX36 EX XX67 EX6 SM2 EX2 SM2 EX2 XX12 EX XX8 EX SM XX46 EX XX51 EX XX EX3 XX2 EX2 XX5 EX2",
  "XX EX XX41 SM EX2 SM2 XX5 SM EX XX236 SM2 EX SM2 EX SM2 XX SM EX XX11202 V23 XX4 T49 XX8994",
  "EX XX737 EX16 XX16 EX16 XX207 CN XX158 EX2 XX80 CN12 XX513 EX XX226 EX XX149 EX5 XX1670 EX3",
  "XX EX2 XX5 EX4 XX40 EX3 XX4 EX XX165 EX2 XX573 EX4 XX387 EX2 XX153 EX11 XX49 EX4 XX122 SM",
  "EX SM XX53 EX15 XX41 EX XX2 EX2 XX10 EX3 SM XX45 SM3 EX4 SM2 EX2 XX2 PP XX4 EX XX10 PP XX50",
  "EX3 XX36 EX5 SM EX8 XX16 SM2 XX44 EX XX12 EX2 SM XX48 SM3 EX9 SM2 XX PP2 XX5 EX4 XX SM EX",
  "XX92 SM3 EX3 SM2 EX SM EX2 XX6 EX XX160 EX SM3 EX8 XX21 EX2 SM2 XX55 EX2 XX EX SM EX SM4",
  "XX2 SM2 XX2 SM3 XX9 EX XX10 SM2 XX2 EX7 XX3 EX5 XX192 SM3 EX8 SM2 EX3 SM EX XX23 EX XX81 EX",
  "SM2 EX6 SM EX SM2 EX SM EX2 SM EX2 XX235 EX SM2 EX4 XX2 SM4 EX2 SM EX2 XX27 EX2 XX82 SM3",
  "EX8 SM2 EX SM EX2 XX106 EX SM EX SM2 EX6 SM EX XX101 EX3 XX2 EX4 SM EX5 XX256 SM3 EX9 SM",
  "EX2 XX245 EX SM5 XX SM2 XX2 EX2 SM EX PP SM PP SM EX XX141 SM3 EX4 XX2 EX2 SM4 EX XX3 SM",
  "XX28 EX10 XX40 EX6 SM PP EX4 XX8 EX XX9 EX6 SM2 EX3 XX40 PP6 EX13 SM EX2 XX405 SM EX7 XX",
  "EX6 SM EX XX82 EX22 XX SM EX7 SM EX2 SM EX2 XX122 EX6 XX3 EX XX EX2 XX EX7 PP EX XX66 SM5",
  "XX EX2 XX SM2 EX SM EX XX347 EX2 SM2 XX5433 CN16 XX14000 EX5 XX59 EX7 XX1048 EX XX SM55 XX7",
  "EX4 XX81 EX XX11 SM2 XX19627 EX2 XX CN4 XX4700 EX46 XX2 EX23 XX542 EX SM EX3 XX3 SM EX5 CN8",
  "EX8 XX2 EX7 XX30 EX4 XX148 EX3 XX1979 EX55 XX4 EX50 XX8 EX XX14 EX XX22 EX5 XX EX15 XX1360",
  "EX7 XX EX17 XX2 EX7 XX EX2 XX EX5 XX261 EX7 XX375 EX XX61 EX4 XX1504 EX7 XX109 EX7 XX1717",
  "EP256 XX13 EP3 XX31 EP XX60 EP6 XX12 EP2 XX14 EP XX2 EP10 XX18 EP57 RI26 XX EP15 XX10 EP",
  "XX20 EP XX2 EP9 XX EP4 XX9 EP434 EX5 EP318 XX8 EP266 XX48 EP128 XX116 EP12 XX85 EP43 XX12",
  "EP4 XX56 EP8 XX10 EP6 XX40 EP8 XX30 EP82 XX12 EP47 XX EP10 XX EP441 XX256 EP1022 XX786434",
  "CN32 EX96 CN128 EX240 CN3600 XX192512"]

def clusterTable : RunTable ClusterKind := RunTable.ofRows ClusterKind.ofCode clusterRows

/-- The kind of a code point. Every twenty-eighth Korean syllable lacks a trailing part. -/
def clusterKind (c : Nat) : ClusterKind :=
  if 0xAC00 ≤ c && c ≤ 0xD7A3 then
    if (c - 0xAC00) % 28 = 0 then .leadingVowel else .leadingVowelTrailing
  else clusterTable.find .other c

/-- The kind stands in the cluster of whatever precedes it, except for breaks and controls. -/
def ClusterKind.clings : ClusterKind → Bool
  | .extend | .spacingMark | .joiner => true
  | _ => false

/-- Neighbours of these kinds can stand in one cluster. -/
def ClusterKind.joins (left right : ClusterKind) : Bool :=
  match left with
  | .carriageReturn => right = .lineFeed
  | .lineFeed | .control => false
  | .extend | .spacingMark | .other | .pictograph => right.clings
  | .prepend => right ≠ .carriageReturn && right ≠ .lineFeed && right ≠ .control
  | .leading =>
      right.clings || right = .leading || right = .vowel || right = .leadingVowel ||
        right = .leadingVowelTrailing
  | .vowel | .leadingVowel => right.clings || right = .vowel || right = .trailing
  | .trailing | .leadingVowelTrailing => right.clings || right = .trailing
  | .regionalIndicator => right.clings || right = .regionalIndicator
  | .joiner => right.clings || right = .pictograph

end PatternGrammar.Unicode
