import AbiCodec.Text.Decimal

/-!
# Double-precision numbers

A finite double without its sign is `mantissa * 2 ^ exponent`.  Rounding takes a
quotient of natural numbers to the nearest double, a tie to the even mantissa;
the text of a double is the shortest decimal that rounds to it.
-/

namespace AbiCodec

/-- A finite double without its sign; the mantissa has 53 bits at most, and all of them
unless the exponent is the least one. -/
structure Binary64 where
  mantissa : Nat
  exponent : Int
deriving Repr, DecidableEq

namespace Binary64

def leastExponent : Int := -1074

def greatestExponent : Int := 971

def zero : Binary64 := ⟨0, leastExponent⟩

/-- The quotient rounded to the nearest natural number, a tie to the even one. -/
def roundQuotient (num den : Nat) : Nat :=
  let q := num / den
  let twice := 2 * (num % den)
  if den < twice ∨ (twice = den ∧ q % 2 = 1) then q + 1 else q

/-- The numerator and denominator of `num / den / 2 ^ e`. -/
def scaled (num den : Nat) (e : Int) : Nat × Nat :=
  if 0 ≤ e then (num, den <<< e.toNat) else (num <<< (-e).toNat, den)

/-- The exponent at which the quotient has 53 bits, or the least exponent. -/
def exponentOf (num den : Nat) : Int :=
  let low : Int := (num.log2 : Int) - den.log2 - 53
  let (n, d) := scaled num den low
  max leastExponent (if n / d < 1 <<< 53 then low else low + 1)

/-- The double nearest to the quotient, none when it is out of range. -/
def ofQuotient? (num den : Nat) : Option Binary64 :=
  if num = 0 then some zero
  else
    let e := exponentOf num den
    let (n, d) := scaled num den e
    let m := roundQuotient n d
    let (m, e) := if m = 1 <<< 53 then (1 <<< 52, e + 1) else (m, e)
    if greatestExponent < e then none else some ⟨m, e⟩

/-- The double as a quotient of natural numbers. -/
def quotient (d : Binary64) : Nat × Nat :=
  if 0 ≤ d.exponent then (d.mantissa <<< d.exponent.toNat, 1)
  else (d.mantissa, 1 <<< (-d.exponent).toNat)

def mul? (a b : Binary64) : Option Binary64 :=
  ofQuotient? (a.quotient.1 * b.quotient.1) (a.quotient.2 * b.quotient.2)

def div? (a b : Binary64) : Option Binary64 :=
  ofQuotient? (a.quotient.1 * b.quotient.2) (a.quotient.2 * b.quotient.1)

/-- The greatest power of ten that is taken in one step. -/
def greatestPower : Nat := 308

def powerOfTen? (n : Nat) : Option Binary64 := ofQuotient? (Nat.pow 10 n) 1

/-- The double times ten to the exponent, rounded at each step: a step takes a power of ten
of at most `greatestPower`.  The fuel bounds the number of steps. -/
def scaleDecimal? : (fuel : Nat) → Binary64 → (exponent : Int) → Option Binary64
  | 0, _, _ => none
  | fuel + 1, d, exponent =>
    if exponent.natAbs ≤ greatestPower then
      (powerOfTen? exponent.natAbs).bind fun power =>
        if 0 ≤ exponent then d.mul? power else d.div? power
    else if d.mantissa = 0 then some d
    else if 0 ≤ exponent then none
    else
      (powerOfTen? greatestPower).bind fun power =>
        (d.div? power).bind fun d => scaleDecimal? fuel d (exponent + greatestPower)

/-- The double of `significand * 10 ^ exponent`, the significand rounded first.  Two steps
below the least power bring any double to zero, so few steps are enough. -/
def ofDecimal? (significand : Nat) (exponent : Int) : Option Binary64 :=
  (ofQuotient? significand 1).bind fun d => scaleDecimal? 5 d exponent

/-- A decimal `digits * 10 ^ exponent`. -/
structure Decimal where
  digits : Nat
  exponent : Int
deriving Repr, DecidableEq

/-- Four times the mantissa, and the same for the two ends of the interval that rounds to the
double: a quarter of the spacing below a power of two is half the spacing above. -/
def quarters (d : Binary64) : Nat × Nat × Nat :=
  let low := if d.mantissa = 1 <<< 52 ∧ leastExponent < d.exponent then 1 else 2
  (4 * d.mantissa - low, 4 * d.mantissa, 4 * d.mantissa + 2)

/-- The nearest multiple of `10 ^ exponent` that rounds to the double, if one does. -/
def onGrid? (d : Binary64) (exponent : Int) : Option Decimal :=
  let (low, middle, high) := d.quarters
  let e := d.exponent - 2
  let unit10 := Nat.pow 10 exponent.toNat <<< (-e).toNat
  let unit2 := Nat.pow 10 (-exponent).toNat <<< e.toNat
  let inside (c : Nat) : Bool :=
    0 < c && (if d.mantissa % 2 = 0 then low * unit2 ≤ c * unit10 && c * unit10 ≤ high * unit2
      else low * unit2 < c * unit10 && c * unit10 < high * unit2)
  let below := middle * unit2 / unit10
  let c := roundQuotient (middle * unit2) unit10
  if inside c then some ⟨c, exponent⟩
  else if inside below then some ⟨below, exponent⟩
  else if inside (below + 1) then some ⟨below + 1, exponent⟩
  else none

/-- The decimal of fewest digits that rounds to the double, the nearest one of them: the
coarsest grid is searched first. -/
def shortest (d : Binary64) : Decimal :=
  if d.mantissa = 0 then ⟨0, 0⟩
  else ((List.range 700).findSome? fun (i : Nat) => d.onGrid? (310 - (i : Int))).getD ⟨0, 0⟩

def zeros (n : Nat) : List Char := List.replicate n '0'

/-- The text of a double: positional for decimal exponents from -5 to 15, with a digit on
either side of the point; any other with an exponent that carries its sign. -/
def text (d : Binary64) : List Char :=
  let decimal := d.shortest
  let digits := Decimal.ofNat decimal.digits
  let k := decimal.exponent
  let e := (digits.length : Int) + k - 1
  if decimal.digits = 0 then "0.0".toList
  else if -5 ≤ e ∧ e < 16 then
    if 0 ≤ k then digits ++ zeros k.toNat ++ ".0".toList
    else if 0 ≤ e then digits.take (e.toNat + 1) ++ '.' :: digits.drop (e.toNat + 1)
    else "0.".toList ++ zeros ((-e).toNat - 1) ++ digits
  else
    let fraction := if digits.length = 1 then [] else '.' :: digits.drop 1
    digits.take 1 ++ fraction ++ 'e' :: (if e < 0 then '-' else '+') :: Decimal.ofNat e.natAbs

end Binary64

end AbiCodec
