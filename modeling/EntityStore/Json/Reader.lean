import EntityStore.Json.Token
import EntityStore.Settings

namespace EntityStore.Json

def mismatch (expected : String) (cs : List Char) : Problem :=
  let wrong (found : Found) : Problem := .wrongType found expected
  let read (found : Found) : Except Problem (List Char) → Problem
    | .error e => e
    | .ok _ => wrong found
  let readNumber : Except Problem (Number × List Char) → Problem
    | .error e => e
    | .ok (n, _) => wrong n.found
  match cs with
  | 'n' :: cs => read .null (word "ull".toList cs)
  | 't' :: cs => read (.boolean true) (word "rue".toList cs)
  | 'f' :: cs => read (.boolean false) (word "alse".toList cs)
  | '-' :: cs => readNumber (number true cs)
  | '"' :: cs =>
    match string cs with
    | .error e => e
    | .ok (s, _) => wrong (.text s)
  | '[' :: _ => wrong .sequence
  | '{' :: _ => wrong .map
  | [] => .expectedValue
  | c :: cs => if c.isDigit then readNumber (number false (c :: cs)) else .expectedValue

def count (cs : List Char) : Except Problem (Nat × List Char) :=
  let natural : Except Problem (Number × List Char) → Except Problem (Nat × List Char)
    | .error e => .error e
    | .ok (.natural n, cs) => .ok (n, cs)
    | .ok (.negative n, _) => .error (.wrongValue (.integer (-n)) "usize")
    | .ok (.float bits, _) => .error (.wrongType (.float bits) "usize")
  match skipBlanks cs with
  | [] => .error (.ended .value)
  | '-' :: cs => natural (number true cs)
  | c :: cs => if c.isDigit then natural (number false (c :: cs)) else .error (mismatch "usize" (c :: cs))

def count? (cs : List Char) : Except Problem (Option Nat × List Char) :=
  match skipBlanks cs with
  | 'n' :: cs => do return (none, ← word "ull".toList cs)
  | cs => do
    let (n, cs) ← count cs
    return (some n, cs)

def boolean (cs : List Char) : Except Problem (Bool × List Char) :=
  match skipBlanks cs with
  | [] => .error (.ended .value)
  | 't' :: cs => do return (true, ← word "rue".toList cs)
  | 'f' :: cs => do return (false, ← word "alse".toList cs)
  | cs => .error (mismatch "a boolean" cs)

def scalar : (k : Scalar) → List Char → Except Problem (k.Value × List Char)
  | .count => count
  | .limit => count?
  | .flag => boolean

section

variable {σ : Type}

def elements : Bool → List (Field σ) → σ → List Char → Except Problem (σ × List Char)
  | _, [], s, cs => .ok (s, cs)
  | first, f :: fs, s, cs =>
    let readOn (cs : List Char) : Except Problem (σ × List Char) := do
      let (x, cs) ← scalar f.scalar cs
      elements false fs (f.set x s) cs
    match skipBlanks cs with
    | [] => .error (.ended .list)
    | ']' :: cs => .ok (s, ']' :: cs)
    | c :: cs =>
      if first then readOn (c :: cs)
      else if c = ',' then
        match skipBlanks cs with
        | [] => .error (.ended .value)
        | ']' :: _ => .error .trailingComma
        | cs => readOn cs
      else .error .expectedListEnd

def elementsEnd (cs : List Char) : Except Problem (List Char) :=
  match skipBlanks cs with
  | [] => .error (.ended .list)
  | ']' :: cs => .ok cs
  | ',' :: cs =>
    match skipBlanks cs with
    | ']' :: _ => .error .trailingComma
    | _ => .error .trailingText
  | _ => .error .trailingText

def items (first : Bool) (fs : List (Field σ)) (s : σ) (cs : List Char) : Except Problem (σ × List Char) := do
  let (s, cs) ← elements first fs s cs
  return (s, ← elementsEnd cs)

def member (d : Declaration σ) (seen : List String) (s : σ) (cs : List Char) :
    Except Problem ((List String × σ) × List Char) := do
  let (name, cs) ← string cs
  match d.fields.find? (·.name == name) with
  | none => return ((seen, s), ← skip (← colon cs))
  | some f =>
    if seen.contains name then throw (.repeatedField name)
    let (x, cs) ← scalar f.scalar (← colon cs)
    return ((name :: seen, f.set x s), cs)

def members (d : Declaration σ) (first : Bool) (seen : List String) (s : σ) (cs : List Char) :
    Except Problem (σ × List Char) :=
  let readOn (tail : List Char) : Except Problem (σ × List Char) := do
    let ((seen, s), rest) ← member d seen s tail
    -- A member is not empty, so that the text gets shorter.
    if rest.length < cs.length then members d false seen s rest else throw (.ended .object)
  match skipBlanks cs with
  | [] => .error (.ended .object)
  | '}' :: cs => .ok (s, cs)
  | c :: cs =>
    if first then if c = '"' then readOn cs else .error .keyNotString
    else if c = ',' then
      match skipBlanks cs with
      | [] => .error (.ended .value)
      | '"' :: cs => readOn cs
      | '}' :: _ => .error .trailingComma
      | _ => .error .keyNotString
    else .error .expectedObjectEnd
termination_by cs.length

def value (d : Declaration σ) (cs : List Char) : Except Problem (σ × List Char) :=
  match skipBlanks cs with
  | [] => .error (.ended .value)
  | '[' :: cs => items true d.fields d.default cs
  | '{' :: cs => members d true [] d.default cs
  | cs => .error (mismatch ("struct " ++ d.name) cs)

def parse (d : Declaration σ) (text : String) : Except Problem σ := do
  let (s, cs) ← value d text.toList
  match skipBlanks cs with
  | [] => return s
  | _ => throw .trailingText

def writeObject (members : List (String × String)) : String :=
  "\x7b" ++ ",".intercalate (members.map fun m => "\"" ++ m.1 ++ "\":" ++ m.2) ++ "\x7d"

end

def library : Library where
  read d text := (parse d text).mapError Problem.message
  write d s := writeObject (d.cells s)
  members d first seen s cs := (members d first seen s cs).mapError Problem.message
  items _ first fs s cs := (items first fs s cs).mapError Problem.message
  scalar k cs := (scalar k cs).mapError Problem.message
  ignored cs := (skip cs).mapError Problem.message

end EntityStore.Json
