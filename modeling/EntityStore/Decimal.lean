namespace EntityStore.Decimal

/-- The positive number `mantissa * 2 ^ exponent`. Its lower neighbour is at half the distance of its upper one
when `narrow`. -/
structure Binary where
  mantissa : Nat
  exponent : Int
  narrow : Bool
deriving DecidableEq

structure Scaled where
  digits : Nat
  exponent : Int
deriving DecidableEq

namespace Binary

def ofBits (bits : UInt64) : Binary :=
  let fraction : Nat := bits.toNat % (1 <<< 52)
  let biased : Nat := bits.toNat / (1 <<< 52) % (1 <<< 11)
  if biased = 0 then ⟨fraction, -1074, false⟩
  else ⟨fraction + (1 <<< 52), (biased : Int) - 1075, fraction = 0 && 1 < biased⟩

variable (b : Binary) (t : Int)

def binaryFactor : Nat := Nat.pow 10 (-t).toNat <<< (b.exponent - 2).toNat

def decimalFactor : Nat := Nat.pow 10 t.toNat <<< (2 - b.exponent).toNat

def accepts (d : Nat) : Bool :=
  let lower := (4 * b.mantissa - if b.narrow then 1 else 2) * b.binaryFactor t
  let upper := (4 * b.mantissa + 2) * b.binaryFactor t
  let x := d * b.decimalFactor t
  if b.mantissa % 2 = 0 then lower ≤ x && x ≤ upper else lower < x && x < upper

def nearest? : Option Nat :=
  let value := 4 * b.mantissa * b.binaryFactor t
  let d := value / b.decimalFactor t
  let below := value - d * b.decimalFactor t
  let above := (d + 1) * b.decimalFactor t - value
  match b.accepts t d, b.accepts t (d + 1) with
  | true, true => if below < above || below = above && d % 2 = 0 then some d else some (d + 1)
  | true, false => some d
  | false, true => some (d + 1)
  | false, false => none

def search : Nat → Int → Scaled
  | 0, t => ⟨0, t⟩
  | fuel + 1, t =>
    match b.nearest? t with
    | some d => ⟨d, t⟩
    | none => search fuel (t - 1)

def shortest : Scaled := b.search 660 310

end Binary

structure Format where
  lowest : Int
  highest : Int

def zeros (n : Nat) : String := String.ofList (List.replicate n '0')

def Format.render (f : Format) (s : Scaled) : String :=
  let digits := Nat.toDigits 10 s.digits
  let point := s.exponent + digits.length
  let lead := point - 1
  if f.lowest ≤ lead && lead ≤ f.highest then
    if 0 ≤ s.exponent then String.ofList digits ++ zeros s.exponent.toNat ++ ".0"
    else if 0 < point then
      String.ofList (digits.take point.toNat) ++ "." ++ String.ofList (digits.drop point.toNat)
    else "0." ++ zeros (-point).toNat ++ String.ofList digits
  else
    let fraction := if digits.length = 1 then "" else "." ++ String.ofList (digits.drop 1)
    let sign := if lead < 0 then "-" else "+"
    String.ofList (digits.take 1) ++ fraction ++ "e" ++ sign ++ toString lead.natAbs

def Format.write (f : Format) (bits : UInt64) : String :=
  let sign := if bits.toNat < 1 <<< 63 then "" else "-"
  let b := Binary.ofBits bits
  sign ++ if b.mantissa = 0 then "0.0" else f.render b.shortest

end EntityStore.Decimal
