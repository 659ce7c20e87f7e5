import PatternGrammar.Text.Basic

/-!
# Double-precision numbers in decimal

A finite double is `± mantissa · 2 ^ exponent`. Reading rounds a decimal to the nearest double, ties to
the even mantissa. Printing takes the fewest digits that read back, and of those the digits nearest
to the value. All arithmetic is exact, on natural numbers.
-/

namespace PatternGrammar

/-- The finite number `± mantissa · 2 ^ exponent`. -/
structure Double where
  negative : Bool
  mantissa : Nat
  exponent : Int
  deriving DecidableEq, Repr

namespace Double

/-- A positive rational, as a quotient of natural numbers. -/
structure Ratio where
  num : Nat
  den : Nat

/-- `n · base ^ e`. -/
def Ratio.scale (base n : Nat) (e : Int) : Ratio :=
  match e with
  | .ofNat k => ⟨n * base.pow k, 1⟩
  | .negSucc k => ⟨n, base.pow (k + 1)⟩

/-- The quotient rounded to the nearest natural number, a tie to the even one. -/
def Ratio.round (r : Ratio) : Nat :=
  let q := r.num / r.den
  let twice := 2 * (r.num % r.den)
  if twice < r.den then q
  else if r.den < twice then q + 1
  else q + q % 2

/-- The quotient divided by `2 ^ e`. -/
def Ratio.halve (r : Ratio) (e : Int) : Ratio :=
  match e with
  | .ofNat k => ⟨r.num, r.den * Nat.pow 2 k⟩
  | .negSucc k => ⟨r.num * Nat.pow 2 (k + 1), r.den⟩

/-- The number of decimal digits of a natural number; zero has none. -/
def digitCount (n : Nat) : Nat := if n = 0 then 0 else (Text.ofNat n).length

/-- The least exponent of a double, that of the subnormal ones. -/
def leastExponent : Int := -1074

/-- The double nearest to `± digits · 10 ^ power`; none when that is beyond the largest one. -/
def ofDecimal? (negative : Bool) (digits : Nat) (power : Int) : Option Double :=
  let magnitude := (digitCount digits : Int) + power
  if digits = 0 || magnitude < -400 then some ⟨negative, 0, leastExponent⟩
  else if 400 < magnitude then none
  else
    let value := Ratio.scale 10 digits power
    let estimate : Int := (Nat.log2 value.num : Int) - (Nat.log2 value.den : Int) - 52
    let fits (e : Int) : Bool :=
      let scaled := value.halve e
      decide (Nat.pow 2 52 * scaled.den ≤ scaled.num)
    let exact := if fits estimate then estimate else estimate - 1
    let exponent := max exact leastExponent
    let mantissa := (value.halve exponent).round
    let (mantissa, exponent) :=
      if mantissa = Nat.pow 2 53 then (Nat.pow 2 52, exponent + 1) else (mantissa, exponent)
    if 971 < exponent then none else some ⟨negative, mantissa, exponent⟩

/-- The numbers that round to a double: their ends over one denominator, with the value between. -/
structure Interval where
  low : Nat
  value : Nat
  high : Nat
  den : Nat
  closed : Bool

/-- Halfway to both neighbours; below a power of two the neighbour is nearer. The ends belong to the
interval of an even mantissa. -/
def interval (x : Double) : Interval :=
  let unit := Ratio.scale 2 1 (x.exponent - 2)
  let down := if x.mantissa = Nat.pow 2 52 && leastExponent < x.exponent then 1 else 2
  { low := (4 * x.mantissa - down) * unit.num
    value := 4 * x.mantissa * unit.num
    high := (4 * x.mantissa + 2) * unit.num
    den := unit.den
    closed := x.mantissa % 2 = 0 }

/-- `n · 10 ^ power` lies in the interval. -/
def Interval.holds (i : Interval) (n : Nat) (power : Int) : Bool :=
  let r := Ratio.scale 10 n power
  let scaled := r.num * i.den
  let low := i.low * r.den
  let high := i.high * r.den
  if i.closed then low ≤ scaled && scaled ≤ high else low < scaled && scaled < high

/-- Where the decimal point stands: the least `p` with `value < 10 ^ p`, searched from `p` upwards. -/
def pointFrom (num den : Nat) : Nat → Int → Int
  | 0, p => p
  | fuel + 1, p =>
      let r := Ratio.scale 10 1 p
      if num * r.den < r.num * den then p else pointFrom num den fuel (p + 1)

/-- The nearer of the value's two neighbours on the grid of `10 ^ power` that lie in the interval. -/
def Interval.onGrid? (i : Interval) (power : Int) : Option Nat :=
  let r := Ratio.scale 10 1 power
  let below := (i.value * r.den) / (r.num * i.den)
  let excess := (i.value * r.den) % (r.num * i.den)
  let above := below + 1
  match i.holds below power, i.holds above power with
  | true, true => some (if 2 * excess ≤ r.num * i.den then below else above)
  | true, false => some below
  | false, true => some above
  | false, false => none

/-- Tries ever finer grids, `fuel` of them. -/
def Interval.shortestFrom (i : Interval) : Nat → Int → Nat × Int
  | 0, power => (0, power)
  | fuel + 1, power =>
      match i.onGrid? power with
      | some n => (n, power)
      | none => shortestFrom i fuel (power - 1)

/-- The shortest digits that read back as a positive double, and the place of the decimal point:
the value is `0.digits · 10 ^ point`. -/
def shortest (x : Double) : Text × Int :=
  let i := x.interval
  let point := pointFrom i.value i.den 700 (-330)
  let (n, power) := i.shortestFrom 18 (point - 1)
  let digits := Text.ofNat n
  let kept := (digits.reverse.dropWhile (· = 48)).reverse
  (kept, (digits.length : Int) + power)

/-- An exponent has a sign and at least two digits. -/
def exponentText (e : Int) : Text :=
  let digits := Text.ofNat e.natAbs
  (if e < 0 then "e-" else "e+") ++ (if digits.length < 2 then 48 :: digits else digits)

/-- Digits with their point after `point` places: positional when the point stands from four places
before the digits to fifteen places after their start, and with an exponent otherwise. -/
def place (digits : Text) (point : Int) : Text :=
  let zeros (n : Int) : Text := List.replicate n.toNat 48
  if digits.length ≤ point && point ≤ 15 then
    digits ++ zeros (point - digits.length) ++ ".0"
  else if 0 < point && point ≤ 15 then
    digits.take point.toNat ++ "." ++ digits.drop point.toNat
  else if -4 < point && point ≤ 0 then
    "0." ++ zeros (-point) ++ digits
  else
    let fraction := digits.drop 1
    digits.take 1 ++ (if fraction.isEmpty then [] else 46 :: fraction) ++ exponentText (point - 1)

/-- The decimal text of a double. -/
def toText (x : Double) : Text :=
  let sign : Text := if x.negative then "-" else ""
  if x.mantissa = 0 then sign ++ "0.0"
  else
    let (digits, point) := x.shortest
    sign ++ place digits point

end Double

end PatternGrammar
