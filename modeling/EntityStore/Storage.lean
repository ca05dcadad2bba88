import EntityStore.Column
import EntityStore.Registry

/-! A store of entities: the tenants of its rows beside the rows themselves, in the same order. -/

namespace EntityStore

/-- What a storage remembers of the entity in a row: its identifier, or its handle. -/
class Tenant (τ : Type) where
  id : τ → EntityId
  ofHandle : Handle → τ
  acquire {C : Config} : Registry C → EntityId → Option τ
  bytes : Config → Nat
  moved : EntityId → Nat → Event
  id_ofHandle (h : Handle) : id (ofHandle h) = h.id
  acquire_of_handle? {C : Config} {r : Registry C} {i : EntityId} {h : Handle} : r.handle? i = some h →
    acquire r i = some (ofHandle h)

instance : Tenant EntityId where
  id id := id
  ofHandle := Handle.id
  acquire _ id := some id
  bytes C := C.ids.bytes
  moved := .rowMoved
  id_ofHandle _ := rfl
  acquire_of_handle? h := congrArg some (Registry.id_of_handle? h).symm

instance : Tenant Handle where
  id := Handle.id
  ofHandle h := h
  acquire r id := r.handle? id
  bytes := Handle.bytes
  moved := .componentMoved
  id_ofHandle _ := rfl
  acquire_of_handle? h := h

structure Storage (τ L : Type) where
  store : StoreId
  limit : Nat
  tenants : Array τ
  rows : L

def ensureStorage (C : Config) (store : StoreId) : Run (Except Refusal StoreId) :=
  if store = 0 ∨ store = C.stores.invalid then do
    Run.note (.storeReserved store)
    return .error (.reservedStore store)
  else
    return .ok store

namespace Storage

variable {τ L ρ α : Type} [Tenant τ] [Layout L ρ] {C : Config}

def unlimited : Nat := (1 <<< 64) - 1

def empty (C : Config) (store : StoreId) : Run (Except Refusal (Storage τ L)) := do
  match ← ensureStorage C store with
  | .error e => return .error e
  | .ok store => return .ok ⟨store, unlimited, #[], Layout.empty⟩

def room [Capacious L] (C : Config) (s : Storage τ L) (extra : Nat) : Checked Unit := do
  checkRoom s.tenants.size extra (Tenant.bytes τ C)
  Capacious.room s.rows extra

def setLimit (s : Storage τ L) (limit : Nat) : Storage τ L := { s with limit := limit }

def size (s : Storage τ L) : Nat := s.tenants.size

def isEmpty (s : Storage τ L) : Bool := s.size == 0

def ids (s : Storage τ L) : List EntityId := s.tenants.toList.map Tenant.id

def indexOf? (s : Storage τ L) (r : Registry C) (k : Key) : Option Nat := do
  let id ← r.resolve? k
  let l ← r.locationOf? id
  let row ← if l.store = s.store then l.row else none
  if s.tenants[row]?.map Tenant.id = some id then some row else none

def contains (s : Storage τ L) (r : Registry C) (k : Key) : Bool := (s.indexOf? r k).isSome

def miss (s : Storage τ L) (r : Registry C) (k : Key) : Refusal :=
  if r.isValid k then .notHoused k.entity s.store else .staleEntity k.entity

def get? (s : Storage τ L) (r : Registry C) (k : Key) : Checked (Option ρ) :=
  match s.indexOf? r k with
  | none => .ok none
  | some i => some <$> Layout.read s.rows i

def get (s : Storage τ L) (r : Registry C) (k : Key) : Checked (Except Refusal ρ) :=
  match s.indexOf? r k with
  | none => .ok (.error (s.miss r k))
  | some i => .ok <$> Layout.read s.rows i

def updateRow (s : Storage τ L) (i : Nat) (f : ρ → ρ) : Checked (Storage τ L) := do
  let rows ← Layout.update s.rows i f
  return { s with rows := rows }

def update? (s : Storage τ L) (r : Registry C) (k : Key) (f : ρ → ρ) : Checked (Option (Storage τ L)) :=
  match s.indexOf? r k with
  | none => .ok none
  | some i => some <$> s.updateRow i f

def update (s : Storage τ L) (r : Registry C) (k : Key) (f : ρ → ρ) : Checked (Except Refusal (Storage τ L)) :=
  match s.indexOf? r k with
  | none => .ok (.error (s.miss r k))
  | some i => .ok <$> s.updateRow i f

def add (s : Storage τ L) (r : Registry C) (k : Key) (row : ρ) : Run (Bool × Registry C × Storage τ L) :=
  match r.resolve? k with
  | none => do
    Run.note (.addInvalid k.entity)
    return (false, r, s)
  | some id =>
    if s.limit ≤ s.size then do
      Run.note (.storeFull s.store s.limit)
      return (false, r, s)
    else
      match r.locationOf? id, Tenant.acquire r id with
      | some l, some tenant =>
        if l.isPendingIn s.store then do
          let ⟨store, limit, tenants, rows⟩ := s
          let i := tenants.size
          let tenants := tenants.push tenant
          let rows ← Layout.push rows row
          let r ← r.relocate id (.housed store i)
          return (true, r, ⟨store, limit, tenants, rows⟩)
        else do
          Run.note (.addNotPending id s.store l)
          return (false, r, s)
      | _, _ => return (false, r, s)

def spawn (s : Storage τ L) (r : Registry C) (m : C.Metadata) (row : ρ) :
    Run (Option Handle × Registry C × Storage τ L) :=
  if s.limit ≤ s.size then do
    Run.note (.storeFull s.store s.limit)
    return (none, r, s)
  else do
    match ← r.createHandle (.pending s.store) m with
    | (none, r) => return (none, r, s)
    | (some h, r) =>
      match ← s.add r (.handle h) row with
      | (true, r, s) => return (some h, r, s)
      | (false, r, s) =>
        let (_, r) ← r.erase (.handle h)
        return (none, r, s)

/-- Take a row out and tell the registry where the last row went. The registry learns nothing of the tenant
that left; the caller says where it goes. -/
def removeAt (s : Storage τ L) (r : Registry C) (i : Nat) : Run ((τ × ρ) × Registry C × Storage τ L) := do
  let ⟨store, limit, tenants, rows⟩ := s
  let (tenant, tenants) ← Column.swapPop tenants i
  let (row, rows) ← Layout.swapPop rows i
  match tenants[i]? with
  | none => return ((tenant, row), r, ⟨store, limit, tenants, rows⟩)
  | some moved =>
    let r ← r.relocate (Tenant.id moved) (.housed store i)
    Run.note (Tenant.moved τ (Tenant.id moved) i)
    return ((tenant, row), r, ⟨store, limit, tenants, rows⟩)

def take (s : Storage τ L) (r : Registry C) (k : Key) (target : StoreId) :
    Run (Option ρ × Registry C × Storage τ L) :=
  match s.indexOf? r k with
  | none => return (none, r, s)
  | some i => do
    let ((tenant, row), r, s) ← s.removeAt r i
    let r ← r.relocate (Tenant.id tenant) (.pending target)
    return (some row, r, s)

def remove (s : Storage τ L) (r : Registry C) (k : Key) (target : StoreId) :
    Run (Bool × Registry C × Storage τ L) := do
  let (row, r, s) ← s.take r k target
  return (row.isSome, r, s)

def erase (s : Storage τ L) (r : Registry C) (k : Key) : Run (Bool × Registry C × Storage τ L) :=
  s.remove r k C.stores.invalid

def relocateAll (r : Registry C) (target : StoreId) : List EntityId → Run (Registry C)
  | [] => return r
  | id :: ids => do
    let r ← r.relocate id (.pending target)
    relocateAll r target ids

def removeAll (s : Storage τ L) (r : Registry C) (target : StoreId) : Run (Nat × Registry C × Storage τ L) := do
  let r ← relocateAll r target s.ids
  return (s.size, r, { s with tenants := #[], rows := Layout.clear s.rows })

def clear (s : Storage τ L) (r : Registry C) : Run (Nat × Registry C × Storage τ L) :=
  s.removeAll r C.stores.invalid

def sweepFrom (view : Storage τ L → Nat → Checked (Option α)) (p : Predicate α) :
    (n : Nat) → (i : Nat) → Swept (Registry C × Storage τ L) α → Run (Swept (Registry C × Storage τ L) α)
  | 0, _, w => return w
  | n + 1, i, ⟨(r, s), asked, erased⟩ =>
    match view s i with
    | .error f => Run.fault f
    | .ok none => sweepFrom view p n (i + 1) ⟨(r, s), asked, erased⟩
    | .ok (some q) =>
      if p asked q then do
        let ((tenant, _), r, s) ← s.removeAt r i
        let r ← r.relocate (Tenant.id tenant) (.destroyed C)
        sweepFrom view p n i ⟨(r, s), asked.push q, erased + 1⟩
      else
        sweepFrom view p n (i + 1) ⟨(r, s), asked.push q, erased⟩

def sweep (view : Storage τ L → Nat → Checked (Option α)) (p : Predicate α) (s : Storage τ L) (r : Registry C) :
    Run (Swept (Registry C × Storage τ L) α) :=
  sweepFrom view p s.size 0 ⟨(r, s), #[], 0⟩

def ofSettings [Capacious L] (C : Config) (store : StoreId) (settings : StorageSettings) :
    Run (Except Refusal (Storage τ L)) := do
  match ← empty C store with
  | .error e => return .error e
  | .ok s =>
    let s := s.setLimit (settings.limit.getD unlimited)
    s.room C settings.reserve
    return .ok s

end Storage

structure Cursor where
  front : Nat
  back : Nat
deriving DecidableEq

inductive End where
  | front
  | back
deriving DecidableEq

namespace Cursor

def start (n : Nat) : Cursor := ⟨0, n⟩

def next (c : Cursor) : Option Nat × Cursor :=
  if c.back ≤ c.front then (none, c) else (some c.front, { c with front := c.front + 1 })

def nextBack (c : Cursor) : Option Nat × Cursor :=
  if c.back ≤ c.front then (none, c) else (some (c.back - 1), { c with back := c.back - 1 })

def remaining (c : Cursor) : Checked Nat :=
  if c.back < c.front then .error .subtractionOverflow else .ok (c.back - c.front)

def walkBy {β : Type} (next : Cursor → End → Checked (Option β × Cursor)) (c : Cursor) :
    List End → Checked (List (Option β))
  | [] => .ok []
  | e :: ends => do
    let (x, c) ← next c e
    let xs ← walkBy next c ends
    return x :: xs

end Cursor

end EntityStore
