import EntityStore.Decimal
import EntityStore.Text

namespace EntityStore.Json

inductive Part where
  | value
  | list
  | object
  | string
deriving DecidableEq

inductive Found where
  | null
  | boolean (b : Bool)
  | integer (n : Int)
  | float (bits : UInt64)
  | text (s : String)
  | sequence
  | map
deriving DecidableEq

inductive Problem where
  | ended (part : Part)
  | expectedValue
  | expectedIdent
  | expectedColon
  | expectedListEnd
  | expectedObjectEnd
  | trailingComma
  | trailingText
  | keyNotString
  | invalidNumber
  | numberTooLarge
  | invalidEscape
  | unpairedSurrogate
  | missingSurrogate
  | controlCharacter
  | wrongType (found : Found) (expected : String)
  | wrongValue (found : Found) (expected : String)
  | repeatedField (name : String)
deriving DecidableEq

def Part.describe : Part → String
  | value => "a value"
  | list => "a list"
  | object => "an object"
  | string => "a string"

def numberFormat : Decimal.Format := ⟨-5, 15⟩

def Found.describe : Found → String
  | null => "null"
  | boolean b => "boolean \x60" ++ Describe.text b ++ "\x60"
  | integer n => "integer \x60" ++ toString n ++ "\x60"
  | float bits => "floating point \x60" ++ numberFormat.write bits ++ "\x60"
  | text s => "string " ++ Describe.text s
  | sequence => "sequence"
  | map => "map"

def Problem.message : Problem → String
  | ended part => "EOF while parsing " ++ part.describe
  | expectedValue => "expected value"
  | expectedIdent => "expected ident"
  | expectedColon => "expected \x60:\x60"
  | expectedListEnd => "expected \x60,\x60 or \x60]\x60"
  | expectedObjectEnd => "expected \x60,\x60 or \x60\x7d\x60"
  | trailingComma => "trailing comma"
  | trailingText => "trailing characters"
  | keyNotString => "key must be a string"
  | invalidNumber => "invalid number"
  | numberTooLarge => "number out of range"
  | invalidEscape => "invalid escape"
  | unpairedSurrogate => "lone leading surrogate in hex escape"
  | missingSurrogate => "unexpected end of hex escape"
  | controlCharacter => "control character (\\u0000-\\u001F) found while parsing a string"
  | wrongType found expected => "invalid type: " ++ found.describe ++ ", expected " ++ expected
  | wrongValue found expected => "invalid value: " ++ found.describe ++ ", expected " ++ expected
  | repeatedField name => "duplicate field \x60" ++ name ++ "\x60"

def isBlank (c : Char) : Bool := c == ' ' || c == '\n' || c == '\t' || c == '\r'

def skipBlanks (cs : List Char) : List Char := cs.dropWhile isBlank

def word : List Char → List Char → Except Problem (List Char)
  | [], cs => .ok cs
  | _ :: _, [] => .error (.ended .value)
  | w :: ws, c :: cs => if c = w then word ws cs else .error .expectedIdent

inductive Number where
  | natural (n : Nat)
  | negative (n : Nat)
  | float (bits : UInt64)
deriving DecidableEq

def Number.found : Number → Found
  | natural n => .integer n
  | negative n => .integer (-n)
  | float bits => .float bits

def digitValue (c : Char) : Nat := c.toNat - '0'.toNat

def significand (n : Nat) : List Char → Nat × List Char
  | [] => (n, [])
  | c :: cs =>
    if c.isDigit && n * 10 + digitValue c < 1 <<< 64 then significand (n * 10 + digitValue c) cs
    else (n, c :: cs)

def scaleDown : Nat → Float → Nat → Float
  | 0, x, _ => x
  | fuel + 1, x, e =>
    if e ≤ 308 then x / Float.ofScientific 1 false e
    else if x == 0 then x
    else scaleDown fuel (x / Float.ofScientific 1 false 308) (e - 308)

/-- The double `± n * 10 ^ e`, by one rounding of `n` and one of the scaling. A nonzero word is zero after two
divisions by `10 ^ 308`. -/
def scaled (negated : Bool) (n : Nat) (e : Int) : Except Problem Number := do
  let x := (UInt64.ofNat n).toFloat
  let y ←
    if e < 0 then pure (scaleDown 4 x e.natAbs)
    else if e ≤ 308 then
      let y := x * Float.ofScientific 1 false e.toNat
      if y.isInf then throw .numberTooLarge else pure y
    else if x == 0 then pure x
    else throw .numberTooLarge
  return .float (if negated then -y else y).toBits

def exponent (negated : Bool) (n : Nat) (e : Int) (cs : List Char) : Except Problem (Number × List Char) := do
  let (down, cs) := match cs with
    | '+' :: cs => (false, cs)
    | '-' :: cs => (true, cs)
    | cs => (false, cs)
  match cs with
  | [] => throw (.ended .value)
  | c :: _ =>
    if !c.isDigit then throw .invalidNumber
    let digits := cs.takeWhile Char.isDigit
    let cs := cs.dropWhile Char.isDigit
    let k : Nat := digits.foldl (fun k c => k * 10 + digitValue c) 0
    if 1 <<< 31 ≤ k then
      if n ≠ 0 && !down then throw .numberTooLarge
      return (← scaled negated 0 0, cs)
    return (← scaled negated n (if down then e - k else e + k), cs)

def floatEnd (negated : Bool) (n : Nat) (e : Int) (cs : List Char) : Except Problem (Number × List Char) :=
  match cs with
  | 'e' :: cs | 'E' :: cs => exponent negated n e cs
  | cs => do return (← scaled negated n e, cs)

def fraction (negated : Bool) (n : Nat) (e : Int) (cs : List Char) : Except Problem (Number × List Char) :=
  let (m, rest) := significand n cs
  let count := cs.length - rest.length
  if rest.head?.any Char.isDigit then floatEnd negated m (e - count) (rest.dropWhile Char.isDigit)
  else if count = 0 then .error (if rest.isEmpty then .ended .value else .invalidNumber)
  else floatEnd negated m (e - count) rest

def numberEnd (negated : Bool) (n : Nat) (cs : List Char) : Except Problem (Number × List Char) :=
  match cs with
  | '.' :: cs => fraction negated n 0 cs
  | 'e' :: cs | 'E' :: cs => exponent negated n 0 cs
  | cs =>
    if !negated then .ok (.natural n, cs)
    else if n = 0 || 1 <<< 63 < n then do return (← scaled true n 0, cs)
    else .ok (.negative n, cs)

def longEnd (negated : Bool) (n : Nat) (cs : List Char) : Except Problem (Number × List Char) :=
  let e := (cs.takeWhile Char.isDigit).length
  match cs.dropWhile Char.isDigit with
  | '.' :: cs => fraction negated n e cs
  | cs => floatEnd negated n e cs

def number (negated : Bool) (cs : List Char) : Except Problem (Number × List Char) :=
  match cs with
  | [] => .error (.ended .value)
  | '0' :: cs => if cs.head?.any Char.isDigit then .error .invalidNumber else numberEnd negated 0 cs
  | c :: cs =>
    if !c.isDigit then .error .invalidNumber
    else
      let (n, rest) := significand (digitValue c) cs
      if rest.head?.any Char.isDigit then longEnd negated n rest else numberEnd negated n rest

def hexValue? (c : Char) : Option Nat :=
  if c.isDigit then some (c.toNat - '0'.toNat)
  else if 'a' ≤ c && c ≤ 'f' then some (c.toNat - 'a'.toNat + 10)
  else if 'A' ≤ c && c ≤ 'F' then some (c.toNat - 'A'.toNat + 10)
  else none

def hexUnit (cs : List Char) : Except Problem (Nat × List Char) :=
  if (cs.take 4).foldl (fun n c => n + c.utf8Size) 0 < 4 then .error (.ended .string)
  else
    match cs with
    | a :: b :: c :: d :: rest =>
      match hexValue? a, hexValue? b, hexValue? c, hexValue? d with
      | some a, some b, some c, some d => .ok (a * 4096 + b * 256 + c * 16 + d, rest)
      | _, _, _, _ => .error .invalidEscape
    | _ => .error .invalidEscape

def isHighSurrogate (n : Nat) : Bool := 0xD800 ≤ n && n < 0xDC00

def isLowSurrogate (n : Nat) : Bool := 0xDC00 ≤ n && n < 0xE000

def unicodeEscape (cs : List Char) : Except Problem (Char × List Char) := do
  let (n, cs) ← hexUnit cs
  if isLowSurrogate n then throw .unpairedSurrogate
  if !isHighSurrogate n then return (Char.ofNat n, cs)
  match cs with
  | [] => throw (.ended .string)
  | '\\' :: [] => throw (.ended .string)
  | '\\' :: 'u' :: cs =>
    let (m, cs) ← hexUnit cs
    if !isLowSurrogate m then throw .unpairedSurrogate
    return (Char.ofNat ((n - 0xD800) * 0x400 + (m - 0xDC00) + 0x10000), cs)
  | _ => throw .missingSurrogate

def simpleEscape? : Char → Option Char
  | '"' => some '"'
  | '\\' => some '\\'
  | '/' => some '/'
  | 'b' => some '\x08'
  | 'f' => some '\x0c'
  | 'n' => some '\n'
  | 'r' => some '\r'
  | 't' => some '\t'
  | _ => none

def stringFrom : Nat → List Char → List Char → Except Problem (List Char × List Char)
  | 0, _, _ => .error (.ended .string)
  | _ + 1, _, [] => .error (.ended .string)
  | _ + 1, read, '"' :: cs => .ok (read.reverse, cs)
  | fuel + 1, read, '\\' :: cs =>
    match cs with
    | [] => .error (.ended .string)
    | 'u' :: cs =>
      match unicodeEscape cs with
      | .error e => .error e
      | .ok (c, cs) => stringFrom fuel (c :: read) cs
    | c :: cs =>
      match simpleEscape? c with
      | none => .error .invalidEscape
      | some c => stringFrom fuel (c :: read) cs
  | fuel + 1, read, c :: cs => if c.toNat < 0x20 then .error .controlCharacter else stringFrom fuel (c :: read) cs

def string (cs : List Char) : Except Problem (String × List Char) := do
  let (s, cs) ← stringFrom (cs.length + 1) [] cs
  return (String.ofList s, cs)

def skipString : Nat → List Char → Except Problem (List Char)
  | 0, _ => .error (.ended .string)
  | _ + 1, [] => .error (.ended .string)
  | _ + 1, '"' :: cs => .ok cs
  | fuel + 1, '\\' :: cs =>
    match cs with
    | [] => .error (.ended .string)
    | 'u' :: cs =>
      match hexUnit cs with
      | .error e => .error e
      | .ok (_, cs) => skipString fuel cs
    | c :: cs => if (simpleEscape? c).isSome then skipString fuel cs else .error .invalidEscape
  | fuel + 1, c :: cs => if c.toNat < 0x20 then .error .controlCharacter else skipString fuel cs

def skipDigits (cs : List Char) : Except Problem (List Char) :=
  if cs.head?.any Char.isDigit then .ok (cs.dropWhile Char.isDigit) else .error .invalidNumber

def skipExponent : List Char → Except Problem (List Char)
  | 'e' :: cs | 'E' :: cs =>
    match cs with
    | '+' :: cs | '-' :: cs => skipDigits cs
    | cs => skipDigits cs
  | cs => .ok cs

def skipFraction : List Char → Except Problem (List Char)
  | '.' :: cs => do skipExponent (← skipDigits cs)
  | cs => skipExponent cs

def skipNumber : List Char → Except Problem (List Char)
  | '0' :: cs => if cs.head?.any Char.isDigit then .error .invalidNumber else skipFraction cs
  | cs => do skipFraction (← skipDigits cs)

def colon (cs : List Char) : Except Problem (List Char) :=
  match skipBlanks cs with
  | [] => .error (.ended .object)
  | ':' :: cs => .ok cs
  | _ => .error .expectedColon

mutual

/-- A value. Each reader below costs one `fuel`, so twice the length of the text is enough. -/
def skipValue : Nat → List Char → Except Problem (List Char)
  | 0, _ => .error (.ended .value)
  | fuel + 1, cs =>
    match skipBlanks cs with
    | [] => .error (.ended .value)
    | 'n' :: cs => word "ull".toList cs
    | 't' :: cs => word "rue".toList cs
    | 'f' :: cs => word "alse".toList cs
    | '-' :: cs => skipNumber cs
    | '"' :: cs => skipString (cs.length + 1) cs
    | '[' :: cs =>
      match skipBlanks cs with
      | [] => .error (.ended .list)
      | ']' :: cs => .ok cs
      | cs => skipElements fuel cs
    | '{' :: cs =>
      match skipBlanks cs with
      | [] => .error (.ended .object)
      | '}' :: cs => .ok cs
      | cs => skipMembers fuel cs
    | c :: cs => if c.isDigit then skipNumber (c :: cs) else .error .expectedValue

def skipElements : Nat → List Char → Except Problem (List Char)
  | 0, _ => .error (.ended .list)
  | fuel + 1, cs =>
    match skipValue fuel cs with
    | .error e => .error e
    | .ok cs =>
      match skipBlanks cs with
      | [] => .error (.ended .list)
      | ',' :: cs => skipElements fuel cs
      | ']' :: cs => .ok cs
      | _ => .error .expectedListEnd

def skipMembers : Nat → List Char → Except Problem (List Char)
  | 0, _ => .error (.ended .object)
  | fuel + 1, cs =>
    match skipBlanks cs with
    | [] => .error (.ended .object)
    | '"' :: cs =>
      match skipString (cs.length + 1) cs with
      | .error e => .error e
      | .ok cs =>
        match colon cs with
        | .error e => .error e
        | .ok cs =>
          match skipValue fuel cs with
          | .error e => .error e
          | .ok cs =>
            match skipBlanks cs with
            | [] => .error (.ended .object)
            | ',' :: cs => skipMembers fuel cs
            | '}' :: cs => .ok cs
            | _ => .error .expectedObjectEnd
    | _ => .error .keyNotString

end

def skip (cs : List Char) : Except Problem (List Char) := skipValue (2 * cs.length + 2) cs

variable {cs cs' : List Char} (h : skipBlanks cs = skipBlanks cs') (fuel : Nat)

include h

theorem skipValue_blanks : skipValue fuel cs = skipValue fuel cs' := by
  cases fuel with
  | zero => rw [skipValue, skipValue]
  | succ fuel => rw [skipValue, skipValue, h]

theorem skipElements_blanks : skipElements fuel cs = skipElements fuel cs' := by
  cases fuel with
  | zero => rw [skipElements, skipElements]
  | succ fuel => rw [skipElements, skipElements, skipValue_blanks h]

theorem skipMembers_blanks : skipMembers fuel cs = skipMembers fuel cs' := by
  cases fuel with
  | zero => rw [skipMembers, skipMembers]
  | succ fuel => rw [skipMembers, skipMembers, h]

end EntityStore.Json
