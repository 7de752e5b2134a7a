/-!
Decimal texts of 64-bit floating-point numbers: with a fixed number of places, and with the fewest
digits that read back as the same number. All of it is exact arithmetic on the bits.
-/

namespace StreamLayers.Decimal

def twos (n : Nat) : Nat := Nat.pow 2 n

def tens (n : Nat) : Nat := Nat.pow 10 n

/-- What the bits of a number stand for; a finite one is `m · 2 ^ q`. -/
inductive Parts where
  | nan
  | infinite
  | finite (m : Nat) (q : Int)
  deriving DecidableEq, Repr

def split (x : Float) : Bool × Parts :=
  let bits : Nat := x.toBits.toNat
  let exponent : Nat := bits / twos 52 % twos 11
  let fraction : Nat := bits % twos 52
  let parts : Parts :=
    if exponent = 2047 then if fraction = 0 then .infinite else .nan
    else if exponent = 0 then .finite fraction (-1074)
    else .finite (twos 52 + fraction) ((exponent : Int) - 1075)
  (bits / twos 63 = 1, parts)

/-- Where a half goes. -/
inductive Tie where
  | even
  | up
  deriving DecidableEq, Repr

/-- The quotient rounded to the nearest whole number. -/
def roundDiv (tie : Tie) (num den : Nat) : Nat :=
  let down := num / den
  let twice := 2 * (num % den)
  if twice < den then down
  else if den < twice then down + 1
  else
    match tie with
    | .even => if down % 2 = 0 then down else down + 1
    | .up => down + 1

/-- `m · 2 ^ q` as a fraction. -/
def fraction (m : Nat) (q : Int) : Nat × Nat :=
  if 0 ≤ q then (m * twos q.toNat, 1) else (m, twos (-q).toNat)

/-- A digit string filled up with zeros on the left to `n` digits. -/
def padded (n : Nat) (value : Nat) : String :=
  let digits := toString value
  "".pushn '0' (n - digits.length) ++ digits

/-- The text with `places` digits behind the point; a half in the last place goes to the even
digit. -/
def fixed (places : Nat) (x : Float) : String :=
  match split x with
  | (_, .nan) => "NaN"
  | (negative, .infinite) => if negative then "-inf" else "inf"
  | (negative, .finite m q) =>
    let (num, den) := fraction m q
    let scaled := roundDiv .even (num * tens places) den
    (if negative then "-" else "")
      ++ toString (scaled / tens places) ++ "." ++ padded places (scaled % tens places)

/-- The numbers that read as `m · 2 ^ q`, as bounds over a common denominator. -/
structure Interval where
  low : Nat
  value : Nat
  high : Nat
  den : Nat
  /-- Whether the bounds themselves read as the number. -/
  closed : Bool

/-- The rounding interval of a positive number. Below a power of two the neighbour is half as far. -/
def interval (m : Nat) (q : Int) : Interval :=
  let (unit, den) := fraction 1 (q - 2)
  let below := if m = twos 52 ∧ -1074 < q then 1 else 2
  { low := (4 * m - below) * unit, value := 4 * m * unit, high := (4 * m + 2) * unit, den
    closed := m % 2 = 0 }

/-- Whether the decimal `d · 10 ^ e` reads as the number. -/
def Interval.contains (i : Interval) (d : Nat) (e : Int) : Bool :=
  let (num, den) := if 0 ≤ e then (d * tens e.toNat, 1) else (d, tens (-e).toNat)
  let x := num * i.den
  if i.closed then i.low * den ≤ x ∧ x ≤ i.high * den else i.low * den < x ∧ x < i.high * den

/-- The exponent of the leading decimal digit of the number. -/
def Interval.magnitude (i : Interval) : Int :=
  ((toString (i.value * tens 400 / i.den)).length : Int) - 401

/-- The two decimals with exponent `e` around the number, the nearer first. -/
def Interval.neighbours (i : Interval) (tie : Tie) (e : Int) : Nat × Nat :=
  let (num, den) := if 0 ≤ e then (i.value, i.den * tens e.toNat)
    else (i.value * tens (-e).toNat, i.den)
  let near := roundDiv tie num den
  let down := num / den
  (near, if near = down then down + 1 else down)

private def search (i : Interval) (tie : Tie) : Nat → Int → Nat × Int
  | 0, e => ((i.neighbours tie e).1, e)
  | fuel + 1, e =>
    let (near, far) := i.neighbours tie e
    if i.contains near e then (near, e)
    else if i.contains far e then (far, e)
    else search i tie fuel (e - 1)

private def stripZeros : Nat → Nat × Int → Nat × Int
  | 0, d => d
  | fuel + 1, (d, e) =>
    if d ≠ 0 ∧ d % 10 = 0 then stripZeros fuel (d / 10, e + 1) else (d, e)

/-- The decimal `d · 10 ^ e` with the fewest digits that reads as the positive number `m · 2 ^ q`,
and of those the nearest; of two that are equally near, `tie` takes one. Seventeen digits are always
enough. -/
def shortest (tie : Tie) (m : Nat) (q : Int) : Nat × Int :=
  let i := interval m q
  stripZeros 20 (search i tie 16 i.magnitude)

/-- The number nearest to `d · 10 ^ e`. What lies far beyond all finite numbers, or far too close to
zero, is settled by its magnitude alone, for which a good guess is enough: a factor of two is about
`0.30103` of a factor of ten. -/
def nearest (d : Nat) (e : Int) : Float :=
  let magnitude := e + (d.log2 * 30103 / 100000 : Nat)
  if d = 0 ∨ magnitude < -400 then 0.0
  else if 400 < magnitude then 1.0 / 0.0
  else Float.ofScientific d (decide (e < 0)) e.natAbs

structure Layout where
  /-- Which of two equally near decimals is written. -/
  tie : Tie
  /-- Whether a number whose leading digit has this exponent is written without one. -/
  positional : Int → Bool
  /-- What a positional whole number ends with. -/
  whole : String := ".0"
  /-- The text of a number that is not a number. -/
  nan : String
  infinity : String
  negativeInfinity : String

def positionalText (whole : String) (d : Nat) (e : Int) : String :=
  if 0 ≤ e then toString d ++ "".pushn '0' e.toNat ++ whole
  else
    let places := (-e).toNat
    toString (d / tens places) ++ "." ++ padded places (d % tens places)

def exponentText (d : Nat) (magnitude : Int) : String :=
  let digits := toString d
  let sign := if magnitude < 0 then "e-" else "e+"
  let mantissa :=
    if digits.length = 1 then digits
    else String.ofList (digits.toList.take 1) ++ "." ++ String.ofList (digits.toList.drop 1)
  mantissa ++ sign ++ toString magnitude.natAbs

def text (l : Layout) (x : Float) : String :=
  match split x with
  | (_, .nan) => l.nan
  | (negative, .infinite) => if negative then l.negativeInfinity else l.infinity
  | (negative, .finite m q) =>
    let sign := if negative then "-" else ""
    if m = 0 then sign ++ "0" ++ l.whole
    else
      let (d, e) := shortest l.tie m q
      let magnitude := e + ((toString d).length : Int) - 1
      sign ++ if l.positional magnitude then positionalText l.whole d e else exponentText d magnitude

end StreamLayers.Decimal
