import EntityStore.Run

/-! What can be set when a registry or a storage is made, and its documents. -/

namespace EntityStore

namespace Json

inductive Scalar where
  | count
  | limit
  | flag

abbrev Scalar.Value : Scalar → Type
  | count => Nat
  | limit => Option Nat
  | flag => Bool

def Scalar.text : (k : Scalar) → k.Value → String
  | count, n => toString n
  | limit, none => "null"
  | limit, some n => toString n
  | flag, b => if b then "true" else "false"

structure Field (σ : Type) where
  name : String
  scalar : Scalar
  get : σ → scalar.Value
  set : scalar.Value → σ → σ

structure Declaration (σ : Type) where
  name : String
  fields : List (Field σ)
  default : σ
  distinct : (fields.map Field.name).Nodup

namespace Declaration

variable {σ : Type}

def names (d : Declaration σ) : List String := d.fields.map Field.name

def cells (d : Declaration σ) (s : σ) : List (String × String) :=
  d.fields.map fun f => (f.name, f.scalar.text (f.get s))

end Declaration

/-- The library that reads and writes documents. What it makes of a structure visits the members of an object and the
items of a list where they stand in the text, and gives the structure with the text that is left. -/
structure Library where
  read {σ : Type} : Declaration σ → String → Except String σ
  write {σ : Type} : Declaration σ → σ → String
  members {σ : Type} : Declaration σ → (first : Bool) → (seen : List String) → σ → List Char →
    Except String (σ × List Char)
  items {σ : Type} : Declaration σ → (first : Bool) → List (Field σ) → σ → List Char → Except String (σ × List Char)
  scalar : (k : Scalar) → List Char → Except String (k.Value × List Char)
  ignored : List Char → Except String (List Char)

end Json

structure RegistrySettings where
  idLimit : Option Nat
  reserve : Nat
  prefill : Bool
deriving DecidableEq

structure StorageSettings where
  limit : Option Nat
  reserve : Nat
deriving DecidableEq

namespace RegistrySettings

def default : RegistrySettings := ⟨none, 0, false⟩

def declaration : Json.Declaration RegistrySettings where
  name := "RegistrySettings"
  fields := [
    ⟨"id_limit", .limit, idLimit, fun n s => { s with idLimit := n }⟩,
    ⟨"reserve", .count, reserve, fun n s => { s with reserve := n }⟩,
    ⟨"prefill", .flag, prefill, fun b s => { s with prefill := b }⟩]
  default := default
  distinct := by decide

def ofJson (lib : Json.Library) (text : String) : Except Refusal RegistrySettings :=
  (lib.read declaration text).mapError .settings

def describe (s : RegistrySettings) : String :=
  Form.record "RegistrySettings" [("id_limit", Describe.text s.idLimit), ("reserve", Describe.text s.reserve),
    ("prefill", Describe.text s.prefill)]

end RegistrySettings

namespace StorageSettings

def default : StorageSettings := ⟨none, 0⟩

def declaration : Json.Declaration StorageSettings where
  name := "StorageSettings"
  fields := [
    ⟨"limit", .limit, limit, fun n s => { s with limit := n }⟩,
    ⟨"reserve", .count, reserve, fun n s => { s with reserve := n }⟩]
  default := default
  distinct := by decide

def ofJson (lib : Json.Library) (text : String) : Except Refusal StorageSettings :=
  (lib.read declaration text).mapError .settings

def describe (s : StorageSettings) : String :=
  Form.record "StorageSettings" [("limit", Describe.text s.limit), ("reserve", Describe.text s.reserve)]

end StorageSettings

end EntityStore
