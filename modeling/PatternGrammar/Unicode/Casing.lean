import PatternGrammar.Unicode.Runs

/-!
# Letter case

Two code points are the same up to case if simple case folding takes them to the same code point. Most
such classes are pairs; a few have three or four members.
-/

namespace PatternGrammar.Unicode

/-- Code points at equal distances, each with its other case at the same distance `shift`. -/
structure CaseRun where
  first : Nat
  count : Nat
  stride : Nat
  shift : Int
  deriving DecidableEq, Repr

/-- The pairs, from the lower code point to the higher one. -/
def upwardRuns : Array CaseRun := #[
  ⟨65, 10, 1, 32⟩, ⟨76, 7, 1, 32⟩, ⟨84, 7, 1, 32⟩, ⟨192, 5, 1, 32⟩, ⟨198, 17, 1, 32⟩,
  ⟨216, 7, 1, 32⟩, ⟨223, 1, 1, 7615⟩, ⟨255, 1, 1, 121⟩, ⟨256, 24, 2, 1⟩, ⟨306, 3, 2, 1⟩,
  ⟨313, 8, 2, 1⟩, ⟨330, 23, 2, 1⟩, ⟨377, 3, 2, 1⟩, ⟨384, 1, 1, 195⟩, ⟨385, 1, 1, 210⟩,
  ⟨386, 2, 2, 1⟩, ⟨390, 1, 1, 206⟩, ⟨391, 1, 1, 1⟩, ⟨393, 2, 1, 205⟩, ⟨395, 1, 1, 1⟩,
  ⟨398, 1, 1, 79⟩, ⟨399, 1, 1, 202⟩, ⟨400, 1, 1, 203⟩, ⟨401, 1, 1, 1⟩, ⟨403, 1, 1, 205⟩,
  ⟨404, 1, 1, 207⟩, ⟨405, 1, 1, 97⟩, ⟨406, 1, 1, 211⟩, ⟨407, 1, 1, 209⟩, ⟨408, 1, 1, 1⟩,
  ⟨410, 1, 1, 163⟩, ⟨412, 1, 1, 211⟩, ⟨413, 1, 1, 213⟩, ⟨414, 1, 1, 130⟩, ⟨415, 1, 1, 214⟩,
  ⟨416, 3, 2, 1⟩, ⟨422, 1, 1, 218⟩, ⟨423, 1, 1, 1⟩, ⟨425, 1, 1, 218⟩, ⟨428, 1, 1, 1⟩,
  ⟨430, 1, 1, 218⟩, ⟨431, 1, 1, 1⟩, ⟨433, 2, 1, 217⟩, ⟨435, 2, 2, 1⟩, ⟨439, 1, 1, 219⟩,
  ⟨440, 1, 1, 1⟩, ⟨444, 1, 1, 1⟩, ⟨447, 1, 1, 56⟩, ⟨461, 8, 2, 1⟩, ⟨478, 9, 2, 1⟩,
  ⟨500, 1, 1, 1⟩, ⟨504, 20, 2, 1⟩, ⟨546, 9, 2, 1⟩, ⟨570, 1, 1, 10795⟩, ⟨571, 1, 1, 1⟩,
  ⟨574, 1, 1, 10792⟩, ⟨575, 2, 1, 10815⟩, ⟨577, 1, 1, 1⟩, ⟨580, 1, 1, 69⟩, ⟨581, 1, 1, 71⟩,
  ⟨582, 5, 2, 1⟩, ⟨592, 1, 1, 10783⟩, ⟨593, 1, 1, 10780⟩, ⟨594, 1, 1, 10782⟩,
  ⟨604, 1, 1, 42319⟩, ⟨609, 1, 1, 42315⟩, ⟨613, 1, 1, 42280⟩, ⟨614, 1, 1, 42308⟩,
  ⟨618, 1, 1, 42308⟩, ⟨619, 1, 1, 10743⟩, ⟨620, 1, 1, 42305⟩, ⟨625, 1, 1, 10749⟩,
  ⟨637, 1, 1, 10727⟩, ⟨642, 1, 1, 42307⟩, ⟨647, 1, 1, 42282⟩, ⟨669, 1, 1, 42261⟩,
  ⟨670, 1, 1, 42258⟩, ⟨880, 2, 2, 1⟩, ⟨886, 1, 1, 1⟩, ⟨891, 3, 1, 130⟩, ⟨895, 1, 1, 116⟩,
  ⟨902, 1, 1, 38⟩, ⟨904, 3, 1, 37⟩, ⟨908, 1, 1, 64⟩, ⟨910, 2, 1, 63⟩, ⟨913, 2, 2, 32⟩,
  ⟨916, 2, 2, 32⟩, ⟨919, 1, 1, 32⟩, ⟨923, 2, 2, 32⟩, ⟨926, 2, 1, 32⟩, ⟨932, 2, 1, 32⟩,
  ⟨935, 2, 1, 32⟩, ⟨938, 2, 1, 32⟩, ⟨975, 1, 1, 8⟩, ⟨984, 12, 2, 1⟩, ⟨1010, 1, 1, 7⟩,
  ⟨1015, 1, 1, 1⟩, ⟨1018, 1, 1, 1⟩, ⟨1024, 16, 1, 80⟩, ⟨1040, 2, 1, 32⟩, ⟨1043, 2, 2, 32⟩,
  ⟨1046, 8, 1, 32⟩, ⟨1055, 2, 1, 32⟩, ⟨1059, 7, 1, 32⟩, ⟨1067, 5, 1, 32⟩, ⟨1120, 1, 1, 1⟩,
  ⟨1124, 15, 2, 1⟩, ⟨1162, 27, 2, 1⟩, ⟨1216, 1, 1, 15⟩, ⟨1217, 7, 2, 1⟩, ⟨1232, 48, 2, 1⟩,
  ⟨1329, 38, 1, 48⟩, ⟨4256, 38, 1, 7264⟩, ⟨4295, 1, 1, 7264⟩, ⟨4301, 1, 1, 7264⟩,
  ⟨4304, 43, 1, 3008⟩, ⟨4349, 3, 1, 3008⟩, ⟨5024, 80, 1, 38864⟩, ⟨5104, 6, 1, 8⟩,
  ⟨7545, 1, 1, 35332⟩, ⟨7549, 1, 1, 3814⟩, ⟨7566, 1, 1, 35384⟩, ⟨7680, 48, 2, 1⟩,
  ⟨7778, 26, 2, 1⟩, ⟨7840, 48, 2, 1⟩, ⟨7936, 8, 1, 8⟩, ⟨7952, 6, 1, 8⟩, ⟨7968, 8, 1, 8⟩,
  ⟨7984, 8, 1, 8⟩, ⟨8000, 6, 1, 8⟩, ⟨8017, 4, 2, 8⟩, ⟨8032, 8, 1, 8⟩, ⟨8048, 2, 1, 74⟩,
  ⟨8050, 4, 1, 86⟩, ⟨8054, 2, 1, 100⟩, ⟨8056, 2, 1, 128⟩, ⟨8058, 2, 1, 112⟩, ⟨8060, 2, 1, 126⟩,
  ⟨8064, 8, 1, 8⟩, ⟨8080, 8, 1, 8⟩, ⟨8096, 8, 1, 8⟩, ⟨8112, 2, 1, 8⟩, ⟨8115, 1, 1, 9⟩,
  ⟨8131, 1, 1, 9⟩, ⟨8144, 2, 1, 8⟩, ⟨8160, 2, 1, 8⟩, ⟨8165, 1, 1, 7⟩, ⟨8179, 1, 1, 9⟩,
  ⟨8498, 1, 1, 28⟩, ⟨8544, 16, 1, 16⟩, ⟨8579, 1, 1, 1⟩, ⟨9398, 26, 1, 26⟩, ⟨11264, 48, 1, 48⟩,
  ⟨11360, 1, 1, 1⟩, ⟨11367, 3, 2, 1⟩, ⟨11378, 1, 1, 1⟩, ⟨11381, 1, 1, 1⟩, ⟨11392, 50, 2, 1⟩,
  ⟨11499, 2, 2, 1⟩, ⟨11506, 1, 1, 1⟩, ⟨42560, 5, 2, 1⟩, ⟨42572, 17, 2, 1⟩, ⟨42624, 14, 2, 1⟩,
  ⟨42786, 7, 2, 1⟩, ⟨42802, 31, 2, 1⟩, ⟨42873, 2, 2, 1⟩, ⟨42878, 5, 2, 1⟩, ⟨42891, 1, 1, 1⟩,
  ⟨42896, 2, 2, 1⟩, ⟨42900, 1, 1, 48⟩, ⟨42902, 10, 2, 1⟩, ⟨42931, 1, 1, 928⟩, ⟨42932, 8, 2, 1⟩,
  ⟨42951, 2, 2, 1⟩, ⟨42960, 1, 1, 1⟩, ⟨42966, 2, 2, 1⟩, ⟨42997, 1, 1, 1⟩, ⟨65313, 26, 1, 32⟩,
  ⟨66560, 40, 1, 40⟩, ⟨66736, 36, 1, 40⟩, ⟨66928, 11, 1, 39⟩, ⟨66940, 15, 1, 39⟩,
  ⟨66956, 7, 1, 39⟩, ⟨66964, 2, 1, 39⟩, ⟨68736, 51, 1, 64⟩, ⟨71840, 32, 1, 32⟩,
  ⟨93760, 32, 1, 32⟩, ⟨125184, 34, 1, 34⟩]

/-- The pairs, from the higher code point to the lower one. -/
def downwardRuns : Array CaseRun := #[
  ⟨97, 10, 1, -32⟩, ⟨108, 7, 1, -32⟩, ⟨116, 7, 1, -32⟩, ⟨224, 5, 1, -32⟩, ⟨230, 17, 1, -32⟩,
  ⟨248, 7, 1, -32⟩, ⟨257, 24, 2, -1⟩, ⟨307, 3, 2, -1⟩, ⟨314, 8, 2, -1⟩, ⟨331, 23, 2, -1⟩,
  ⟨376, 1, 1, -121⟩, ⟨378, 3, 2, -1⟩, ⟨387, 2, 2, -1⟩, ⟨392, 1, 1, -1⟩, ⟨396, 1, 1, -1⟩,
  ⟨402, 1, 1, -1⟩, ⟨409, 1, 1, -1⟩, ⟨417, 3, 2, -1⟩, ⟨424, 1, 1, -1⟩, ⟨429, 1, 1, -1⟩,
  ⟨432, 1, 1, -1⟩, ⟨436, 2, 2, -1⟩, ⟨441, 1, 1, -1⟩, ⟨445, 1, 1, -1⟩, ⟨462, 8, 2, -1⟩,
  ⟨477, 1, 1, -79⟩, ⟨479, 9, 2, -1⟩, ⟨501, 1, 1, -1⟩, ⟨502, 1, 1, -97⟩, ⟨503, 1, 1, -56⟩,
  ⟨505, 20, 2, -1⟩, ⟨544, 1, 1, -130⟩, ⟨547, 9, 2, -1⟩, ⟨572, 1, 1, -1⟩, ⟨573, 1, 1, -163⟩,
  ⟨578, 1, 1, -1⟩, ⟨579, 1, 1, -195⟩, ⟨583, 5, 2, -1⟩, ⟨595, 1, 1, -210⟩, ⟨596, 1, 1, -206⟩,
  ⟨598, 2, 1, -205⟩, ⟨601, 1, 1, -202⟩, ⟨603, 1, 1, -203⟩, ⟨608, 1, 1, -205⟩, ⟨611, 1, 1, -207⟩,
  ⟨616, 1, 1, -209⟩, ⟨617, 1, 1, -211⟩, ⟨623, 1, 1, -211⟩, ⟨626, 1, 1, -213⟩, ⟨629, 1, 1, -214⟩,
  ⟨640, 1, 1, -218⟩, ⟨643, 1, 1, -218⟩, ⟨648, 1, 1, -218⟩, ⟨649, 1, 1, -69⟩, ⟨650, 2, 1, -217⟩,
  ⟨652, 1, 1, -71⟩, ⟨658, 1, 1, -219⟩, ⟨881, 2, 2, -1⟩, ⟨887, 1, 1, -1⟩, ⟨940, 1, 1, -38⟩,
  ⟨941, 3, 1, -37⟩, ⟨945, 2, 2, -32⟩, ⟨948, 2, 2, -32⟩, ⟨951, 1, 1, -32⟩, ⟨955, 2, 2, -32⟩,
  ⟨958, 2, 1, -32⟩, ⟨964, 2, 1, -32⟩, ⟨967, 2, 1, -32⟩, ⟨970, 2, 1, -32⟩, ⟨972, 1, 1, -64⟩,
  ⟨973, 2, 1, -63⟩, ⟨983, 1, 1, -8⟩, ⟨985, 12, 2, -1⟩, ⟨1011, 1, 1, -116⟩, ⟨1016, 1, 1, -1⟩,
  ⟨1017, 1, 1, -7⟩, ⟨1019, 1, 1, -1⟩, ⟨1021, 3, 1, -130⟩, ⟨1072, 2, 1, -32⟩, ⟨1075, 2, 2, -32⟩,
  ⟨1078, 8, 1, -32⟩, ⟨1087, 2, 1, -32⟩, ⟨1091, 7, 1, -32⟩, ⟨1099, 5, 1, -32⟩,
  ⟨1104, 16, 1, -80⟩, ⟨1121, 1, 1, -1⟩, ⟨1125, 15, 2, -1⟩, ⟨1163, 27, 2, -1⟩, ⟨1218, 7, 2, -1⟩,
  ⟨1231, 1, 1, -15⟩, ⟨1233, 48, 2, -1⟩, ⟨1377, 38, 1, -48⟩, ⟨5112, 6, 1, -8⟩,
  ⟨7312, 43, 1, -3008⟩, ⟨7357, 3, 1, -3008⟩, ⟨7681, 48, 2, -1⟩, ⟨7779, 26, 2, -1⟩,
  ⟨7838, 1, 1, -7615⟩, ⟨7841, 48, 2, -1⟩, ⟨7944, 8, 1, -8⟩, ⟨7960, 6, 1, -8⟩, ⟨7976, 8, 1, -8⟩,
  ⟨7992, 8, 1, -8⟩, ⟨8008, 6, 1, -8⟩, ⟨8025, 4, 2, -8⟩, ⟨8040, 8, 1, -8⟩, ⟨8072, 8, 1, -8⟩,
  ⟨8088, 8, 1, -8⟩, ⟨8104, 8, 1, -8⟩, ⟨8120, 2, 1, -8⟩, ⟨8122, 2, 1, -74⟩, ⟨8124, 1, 1, -9⟩,
  ⟨8136, 4, 1, -86⟩, ⟨8140, 1, 1, -9⟩, ⟨8152, 2, 1, -8⟩, ⟨8154, 2, 1, -100⟩, ⟨8168, 2, 1, -8⟩,
  ⟨8170, 2, 1, -112⟩, ⟨8172, 1, 1, -7⟩, ⟨8184, 2, 1, -128⟩, ⟨8186, 2, 1, -126⟩,
  ⟨8188, 1, 1, -9⟩, ⟨8526, 1, 1, -28⟩, ⟨8560, 16, 1, -16⟩, ⟨8580, 1, 1, -1⟩, ⟨9424, 26, 1, -26⟩,
  ⟨11312, 48, 1, -48⟩, ⟨11361, 1, 1, -1⟩, ⟨11362, 1, 1, -10743⟩, ⟨11363, 1, 1, -3814⟩,
  ⟨11364, 1, 1, -10727⟩, ⟨11365, 1, 1, -10795⟩, ⟨11366, 1, 1, -10792⟩, ⟨11368, 3, 2, -1⟩,
  ⟨11373, 1, 1, -10780⟩, ⟨11374, 1, 1, -10749⟩, ⟨11375, 1, 1, -10783⟩, ⟨11376, 1, 1, -10782⟩,
  ⟨11379, 1, 1, -1⟩, ⟨11382, 1, 1, -1⟩, ⟨11390, 2, 1, -10815⟩, ⟨11393, 50, 2, -1⟩,
  ⟨11500, 2, 2, -1⟩, ⟨11507, 1, 1, -1⟩, ⟨11520, 38, 1, -7264⟩, ⟨11559, 1, 1, -7264⟩,
  ⟨11565, 1, 1, -7264⟩, ⟨42561, 5, 2, -1⟩, ⟨42573, 17, 2, -1⟩, ⟨42625, 14, 2, -1⟩,
  ⟨42787, 7, 2, -1⟩, ⟨42803, 31, 2, -1⟩, ⟨42874, 2, 2, -1⟩, ⟨42877, 1, 1, -35332⟩,
  ⟨42879, 5, 2, -1⟩, ⟨42892, 1, 1, -1⟩, ⟨42893, 1, 1, -42280⟩, ⟨42897, 2, 2, -1⟩,
  ⟨42903, 10, 2, -1⟩, ⟨42922, 1, 1, -42308⟩, ⟨42923, 1, 1, -42319⟩, ⟨42924, 1, 1, -42315⟩,
  ⟨42925, 1, 1, -42305⟩, ⟨42926, 1, 1, -42308⟩, ⟨42928, 1, 1, -42258⟩, ⟨42929, 1, 1, -42282⟩,
  ⟨42930, 1, 1, -42261⟩, ⟨42933, 8, 2, -1⟩, ⟨42948, 1, 1, -48⟩, ⟨42949, 1, 1, -42307⟩,
  ⟨42950, 1, 1, -35384⟩, ⟨42952, 2, 2, -1⟩, ⟨42961, 1, 1, -1⟩, ⟨42967, 2, 2, -1⟩,
  ⟨42998, 1, 1, -1⟩, ⟨43859, 1, 1, -928⟩, ⟨43888, 80, 1, -38864⟩, ⟨65345, 26, 1, -32⟩,
  ⟨66600, 40, 1, -40⟩, ⟨66776, 36, 1, -40⟩, ⟨66967, 11, 1, -39⟩, ⟨66979, 15, 1, -39⟩,
  ⟨66995, 7, 1, -39⟩, ⟨67003, 2, 1, -39⟩, ⟨68800, 51, 1, -64⟩, ⟨71872, 32, 1, -32⟩,
  ⟨93792, 32, 1, -32⟩, ⟨125218, 34, 1, -34⟩]

/-- The classes of more than two code points, each in order. -/
def caseSets : List (List Nat) := [
  [75, 107, 8490], [83, 115, 383], [181, 924, 956], [197, 229, 8491], [452, 453, 454],
  [455, 456, 457], [458, 459, 460], [497, 498, 499], [837, 921, 953, 8126], [914, 946, 976],
  [917, 949, 1013], [920, 952, 977, 1012], [922, 954, 1008], [928, 960, 982], [929, 961, 1009],
  [931, 962, 963], [934, 966, 981], [937, 969, 8486], [1042, 1074, 7296], [1044, 1076, 7297],
  [1054, 1086, 7298], [1057, 1089, 7299], [1058, 1090, 7300, 7301], [1066, 1098, 7302],
  [1122, 1123, 7303], [7304, 42570, 42571], [7776, 7777, 7835]]

def upwardStarts : Array Nat := upwardRuns.map (·.first)

def downwardStarts : Array Nat := downwardRuns.map (·.first)

/-- The last member of a run. -/
def CaseRun.last (r : CaseRun) : Nat := r.first + r.stride * (r.count - 1)

/-- The other case of a member of the run. -/
def CaseRun.otherOf (r : CaseRun) (c : Nat) : Nat := ((c : Int) + r.shift).toNat

/-- The other case of a code point, if the run has it. -/
def CaseRun.otherCase? (r : CaseRun) (c : Nat) : Option Nat :=
  if r.first ≤ c && c ≤ r.last && (c - r.first) % r.stride = 0 then some (r.otherOf c) else none

/-- The other case of a code point, looked up in runs that are in order. -/
def otherCaseIn? (runs : Array CaseRun) (starts : Array Nat) (c : Nat) : Option Nat :=
  runs[runOf starts c]?.bind (·.otherCase? c)

/-- The other member of a pair; a code point without another case stands for itself. -/
def otherCase (c : Nat) : Nat :=
  if c < 128 then
    if 65 ≤ c && c ≤ 90 then c + 32 else if 97 ≤ c && c ≤ 122 then c - 32 else c
  else
    match otherCaseIn? upwardRuns upwardStarts c with
    | some d => d
    | none => (otherCaseIn? downwardRuns downwardStarts c).getD c

/-- The class of a code point, if it has more than two members. Of the ASCII letters, two have one. -/
def caseSet? (c : Nat) : Option (List Nat) :=
  if c < 128 && c ≠ 75 && c ≠ 83 && c ≠ 107 && c ≠ 115 then none
  else caseSets.find? (·.contains c)

/-- The code points are the same up to case. -/
def sameCase (a b : Nat) : Bool :=
  a = b || otherCase a = b || (caseSet? a).any (·.contains b)

/-- The other cases of the members between `low` and `high`, as ranges. -/
def CaseRun.casesOfRange (low high : Nat) (r : CaseRun) : List (Nat × Nat) :=
  if high < r.first || r.last < low then []
  else
    let start := r.first + (low - r.first + r.stride - 1) / r.stride * r.stride
    let final := min high r.last
    if final < start then []
    else if r.stride = 1 then [(r.otherOf start, r.otherOf final)]
    else
      (List.range ((final - start) / r.stride + 1)).map fun i =>
        let d := r.otherOf (start + r.stride * i)
        (d, d)

/-- The other cases of the paired code points from `low` to `high`, as ranges. -/
def casesOfRange (low high : Nat) : List (Nat × Nat) :=
  let inPairs (runs : Array CaseRun) := runs.toList.flatMap (·.casesOfRange low high)
  inPairs upwardRuns ++ inPairs downwardRuns

/-- The code points from `low` to `high` that are in a class of more than two, each with its class. -/
def caseSetsOfRange (low high : Nat) : List (Nat × List Nat) :=
  caseSets.flatMap fun set => (set.filter fun c => low ≤ c && c ≤ high).map fun c => (c, set)

end PatternGrammar.Unicode
