import EntityStore.Ident

namespace EntityStore

inductive Fault where
  | deadRelocation (id : EntityId)
  | indexOutOfBounds (length index : Nat)
  | noElementToSwap (length index : Nat)
  | noRowToSwap (length index : Nat)
  | capacityOverflow
  | additionOverflow
  | subtractionOverflow
  | freeSlotAlive
  | freeListEndless
  | lastChunkEmpty
deriving DecidableEq

def Fault.message (ids : IdSpace) : Fault → String
  | deadRelocation id => s!"relocating dead entity {ids.describe id}"
  | indexOutOfBounds length index => s!"index out of bounds: the len is {length} but the index is {index}"
  | noElementToSwap length index => s!"swap_remove index (is {index}) should be < len (is {length})"
  | noRowToSwap length index => s!"swap_remove index {index} out of bounds (len {length})"
  | capacityOverflow => "capacity overflow"
  | additionOverflow => "attempt to add with overflow"
  | subtractionOverflow => "attempt to subtract with overflow"
  | freeSlotAlive => "internal error: entered unreachable code: free list links a live slot"
  | freeListEndless => "free list does not end"
  | lastChunkEmpty => "last chunk holds the last row"

abbrev Checked (α : Type) := Except Fault α

class Footprint (α : Type) where
  bytes : Nat

instance : Footprint Unit := ⟨0⟩
instance : Footprint Int := ⟨8⟩

instance : Footprint String := ⟨24⟩

instance : Footprint (Option String) := ⟨24⟩

namespace Footprint

def alignUp (align n : Nat) : Nat := (n + align - 1) / align * align

def record (align : Nat) (fields : List Nat) : Nat := alignUp align (fields.foldl (· + ·) 0)

end Footprint

def checkRoom (length extra bytes : Nat) : Checked Unit :=
  if (length + extra) * bytes < 1 <<< 63 then .ok () else .error .capacityOverflow

end EntityStore
