import EntityStore.Fault
import EntityStore.Text

namespace EntityStore

structure Config where
  ids : IdSpace
  stores : IdSpace
  generations : Generations
  Metadata : Type
  blank : Metadata
  [footprint : Footprint Metadata]

namespace Config

def entityIds : IdSpace := ⟨32, some "EntityId"⟩

def storeIds : IdSpace := ⟨16, some "StoreId"⟩

def standard : Config := ⟨entityIds, storeIds, .counter 32, Unit, ()⟩

def unchecked : Config := ⟨entityIds, storeIds, .disabled, Unit, ()⟩

end Config

structure Location where
  store : StoreId
  row : Option Nat
deriving DecidableEq

namespace Location

def staged : Location := ⟨0, none⟩

def pending (store : StoreId) : Location := ⟨store, none⟩

def housed (store : StoreId) (row : Nat) : Location := ⟨store, some row⟩

def destroyed (C : Config) : Location := ⟨C.stores.invalid, none⟩

def bytes (C : Config) : Nat := Footprint.record 8 [16, C.stores.bytes]

def isDestroyed (C : Config) (l : Location) : Bool := l.store == C.stores.invalid

def isStaged (l : Location) : Bool := l.store == 0

def isPendingIn (l : Location) (store : StoreId) : Bool := l.store == store && l.row.isNone

instance : Inhabited Location := ⟨staged⟩

theorem isDestroyed_iff {C : Config} {l : Location} : l.isDestroyed C ↔ l.store = C.stores.invalid := beq_iff_eq

theorem isPendingIn_iff {l : Location} {store : StoreId} : l.isPendingIn store ↔ l = pending store := by
  rcases l with ⟨s, _ | r⟩ <;> simp [isPendingIn, pending]

def describe (C : Config) (l : Location) : String :=
  Form.record "Location" [("store_id", C.stores.describe l.store), ("index", Describe.text l.row)]

end Location

structure Handle where
  id : EntityId
  generation : Nat
deriving DecidableEq

namespace Handle

def empty (C : Config) : Handle := ⟨C.ids.invalid, Generations.initial⟩

def isEmpty (C : Config) (h : Handle) : Bool := h.id == C.ids.invalid

def bytes (C : Config) : Nat :=
  Footprint.record (max C.ids.bytes C.generations.bytes) [C.ids.bytes, C.generations.bytes]

def describe (C : Config) (h : Handle) : String :=
  match C.generations with
  | .disabled => s!"Handle({C.ids.describe h.id})"
  | .counter _ => s!"Handle({C.ids.describe h.id}v{h.generation})"

end Handle

inductive Key where
  | id (id : EntityId)
  | handle (handle : Handle)
deriving DecidableEq

def Key.entity : Key → EntityId
  | .id e => e
  | .handle h => h.id

end EntityStore
