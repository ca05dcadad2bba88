import EntityStore.Archetype.Columns
import EntityStore.Text

/-! Kinds of components and how they are shown. -/

namespace EntityStore

structure Position where
  x : Int32
  y : Int32
deriving DecidableEq

inductive Kind where
  | int64
  | word64
  | word32
  | word8
  | flag
  | text
  | position
deriving DecidableEq

instance : Describe Position :=
  ⟨fun p => Form.record "Pos" [("x", Describe.text p.x.toInt), ("y", Describe.text p.y.toInt)]⟩

namespace Kind

abbrev Value : Kind → Type
  | int64 => Int64
  | word64 => UInt64
  | word32 => UInt32
  | word8 => UInt8
  | flag => Bool
  | text => String
  | position => Position

def bytes : Kind → Nat
  | int64 | word64 | position => 8
  | word32 => 4
  | word8 | flag => 1
  | text => Footprint.bytes String

def typeName : Kind → String
  | int64 => "i64"
  | word64 => "u64"
  | word32 => "u32"
  | word8 => "u8"
  | flag => "bool"
  | text => "alloc::string::String"
  | position => "Pos"

def describe : (k : Kind) → k.Value → String
  | int64, x => Describe.text x.toInt
  | word64, x => Describe.text x.toNat
  | word32, x => Describe.text x.toNat
  | word8, x => Describe.text x.toNat
  | flag, x => Describe.text x
  | text, x => Describe.text x
  | position, x => Describe.text x

end Kind

instance (k : Kind) : Footprint k.Value := ⟨k.bytes⟩

instance (k : Kind) : Describe k.Value := ⟨k.describe⟩

end EntityStore
