import EntityStore.Storage

/-! Component storages: one component for each entity in one column, beside the entities' handles. -/

namespace EntityStore

abbrev ComponentStorage (α : Type) := Storage Handle (Array α)

namespace ComponentStorage

variable {α : Type} {C : Config}

def empty (C : Config) (store : StoreId) : Run (Except Refusal (ComponentStorage α)) := do
  match ← ensureStorage C store with
  | .error e => return .error e
  | .ok store => return .ok ⟨store, Storage.unlimited, #[], #[]⟩

def setLimit (s : ComponentStorage α) (limit : Nat) : ComponentStorage α := { s with limit := limit }

def size (s : ComponentStorage α) : Nat := s.rows.size

def isEmpty (s : ComponentStorage α) : Bool := s.rows.isEmpty

def room [Footprint α] (C : Config) (s : ComponentStorage α) (extra : Nat) : Checked Unit := do
  checkRoom s.rows.size extra (Footprint.bytes α)
  checkRoom s.tenants.size extra (Handle.bytes C)

def ofSettings [Footprint α] (C : Config) (store : StoreId) (settings : StorageSettings) :
    Run (Except Refusal (ComponentStorage α)) := do
  match ← empty C store with
  | .error e => return .error e
  | .ok s =>
    let s := s.setLimit (settings.limit.getD Storage.unlimited)
    s.room C settings.reserve
    return .ok s

def handles (s : ComponentStorage α) : List Handle := s.tenants.toList

def components (s : ComponentStorage α) : List α := s.rows.toList

def updateComponents (s : ComponentStorage α) (f : Nat → α → α) : ComponentStorage α :=
  { s with rows := s.rows.mapIdx f }

def indexOf? (s : ComponentStorage α) (r : Registry C) (k : Key) : Option Nat := do
  let id ← r.resolve? k
  let l ← r.locationOf? id
  let i ← if l.store = s.store then l.row else none
  if s.tenants[i]?.map Handle.id = some id then some i else none

def contains (s : ComponentStorage α) (r : Registry C) (k : Key) : Bool := (s.indexOf? r k).isSome

def componentAt (s : ComponentStorage α) (i : Nat) : Checked α := Column.read s.rows i

def modify (s : ComponentStorage α) (i : Nat) (f : α → α) : Checked (ComponentStorage α) := do
  let (_, rows) ← Column.update s.rows i f
  return { s with rows := rows }

def miss (s : ComponentStorage α) (r : Registry C) (k : Key) : Refusal :=
  if r.isValid k then .notHoused k.entity s.store else .staleEntity k.entity

def get? (s : ComponentStorage α) (r : Registry C) (k : Key) : Checked (Option α) :=
  match s.indexOf? r k with
  | none => .ok none
  | some i => some <$> s.componentAt i

def update? (s : ComponentStorage α) (r : Registry C) (k : Key) (f : α → α) : Checked (Option (ComponentStorage α)) :=
  match s.indexOf? r k with
  | none => .ok none
  | some i => some <$> s.modify i f

def get (s : ComponentStorage α) (r : Registry C) (k : Key) : Checked (Except Refusal α) :=
  match s.indexOf? r k with
  | none => .ok (.error (s.miss r k))
  | some i => .ok <$> s.componentAt i

def update (s : ComponentStorage α) (r : Registry C) (k : Key) (f : α → α) :
    Checked (Except Refusal (ComponentStorage α)) :=
  match s.indexOf? r k with
  | none => .ok (.error (s.miss r k))
  | some i => .ok <$> s.modify i f

def add (s : ComponentStorage α) (r : Registry C) (k : Key) (x : α) : Run (Bool × Registry C × ComponentStorage α) :=
  match r.resolve? k with
  | none => do
    Run.note (.addInvalid k.entity)
    return (false, r, s)
  | some id =>
    if s.limit ≤ s.rows.size then do
      Run.note (.storeFull s.store s.limit)
      return (false, r, s)
    else
      match r.locationOf? id, r.handle? id with
      | some l, some h =>
        if l.isPendingIn s.store then do
          let ⟨store, limit, handles, components⟩ := s
          let i := components.size
          let components := components.push x
          let handles := handles.push h
          let r ← r.relocate id (.housed store i)
          return (true, r, ⟨store, limit, handles, components⟩)
        else do
          Run.note (.addNotPending id s.store l)
          return (false, r, s)
      | _, _ => return (false, r, s)

def spawn (s : ComponentStorage α) (r : Registry C) (m : C.Metadata) (x : α) :
    Run (Option Handle × Registry C × ComponentStorage α) :=
  if s.limit ≤ s.rows.size then do
    Run.note (.storeFull s.store s.limit)
    return (none, r, s)
  else do
    match ← r.createHandle (.pending s.store) m with
    | (none, r) => return (none, r, s)
    | (some h, r) =>
      match ← s.add r (.handle h) x with
      | (true, r, s) => return (some h, r, s)
      | (false, r, s) =>
        let (_, r) ← r.erase (.handle h)
        return (none, r, s)

def removeAt (s : ComponentStorage α) (r : Registry C) (i : Nat) :
    Run ((Handle × α) × Registry C × ComponentStorage α) := do
  let ⟨store, limit, handles, components⟩ := s
  let (h, handles) ← Column.swapPop handles i
  let (x, components) ← Column.swapPop components i
  match handles[i]? with
  | none => return ((h, x), r, ⟨store, limit, handles, components⟩)
  | some moved =>
    let r ← r.relocate moved.id (.housed store i)
    Run.note (.componentMoved moved.id i)
    return ((h, x), r, ⟨store, limit, handles, components⟩)

def take (s : ComponentStorage α) (r : Registry C) (k : Key) (target : StoreId) :
    Run (Option α × Registry C × ComponentStorage α) :=
  match s.indexOf? r k with
  | none => return (none, r, s)
  | some i => do
    let ((h, x), r, s) ← s.removeAt r i
    let r ← r.relocate h.id (.pending target)
    return (some x, r, s)

def remove (s : ComponentStorage α) (r : Registry C) (k : Key) (target : StoreId) :
    Run (Bool × Registry C × ComponentStorage α) := do
  let (x, r, s) ← s.take r k target
  return (x.isSome, r, s)

def erase (s : ComponentStorage α) (r : Registry C) (k : Key) : Run (Bool × Registry C × ComponentStorage α) :=
  s.remove r k C.stores.invalid

def eraseFrom (p : Predicate (α × EntityId)) :
    (rounds : Nat) → (i : Nat) → Swept (Registry C × ComponentStorage α) (α × EntityId) →
      Run (Swept (Registry C × ComponentStorage α) (α × EntityId))
  | 0, _, w => return w
  | rounds + 1, i, ⟨(r, s), asked, erased⟩ =>
    if i < s.rows.size then do
      let x ← Column.read s.rows i
      let h ← Column.read s.tenants i
      let q := (x, h.id)
      if p asked q then do
        let ((h, _), r, s) ← s.removeAt r i
        let r ← r.relocate h.id (.destroyed C)
        eraseFrom p rounds i ⟨(r, s), asked.push q, erased + 1⟩
      else
        eraseFrom p rounds (i + 1) ⟨(r, s), asked.push q, erased⟩
    else return ⟨(r, s), asked, erased⟩

def eraseWhere (s : ComponentStorage α) (r : Registry C) (p : Predicate (α × EntityId)) :
    Run (Swept (Registry C × ComponentStorage α) (α × EntityId)) :=
  eraseFrom p s.rows.size 0 ⟨(r, s), #[], 0⟩

def relocateAll (r : Registry C) (target : StoreId) : List Handle → Run (Registry C)
  | [] => return r
  | h :: hs => do
    let r ← r.relocate h.id (.pending target)
    relocateAll r target hs

def removeAll (s : ComponentStorage α) (r : Registry C) (target : StoreId) :
    Run (Nat × Registry C × ComponentStorage α) := do
  let removed := s.tenants.size
  let r ← relocateAll r target s.tenants.toList
  return (removed, r, { s with tenants := #[], rows := #[] })

def clear (s : ComponentStorage α) (r : Registry C) : Run (Nat × Registry C × ComponentStorage α) :=
  s.removeAll r C.stores.invalid

def walk (s : ComponentStorage α) : Cursor := Cursor.start (min s.tenants.size s.rows.size)

def entryAt (s : ComponentStorage α) (i : Nat) : Checked (Handle × α) := do
  let h ← Column.read s.tenants i
  let x ← Column.read s.rows i
  return (h, x)

def nextEntry (s : ComponentStorage α) (c : Cursor) : Checked (Option (Handle × α) × Cursor) :=
  match c.next with
  | (none, c) => .ok (none, c)
  | (some i, c) => (fun e => (some e, c)) <$> s.entryAt i

def nextEntryBack (s : ComponentStorage α) (c : Cursor) : Checked (Option (Handle × α) × Cursor) :=
  match c.nextBack with
  | (none, c) => .ok (none, c)
  | (some i, c) => (fun e => (some e, c)) <$> s.entryAt i

def updateNext (s : ComponentStorage α) (c : Cursor) (f : α → α) :
    Checked (Option (Handle × α) × Cursor × ComponentStorage α) :=
  match c.next with
  | (none, c) => .ok (none, c, s)
  | (some i, c) => do
    let s ← s.modify i f
    return (some (← s.entryAt i), c, s)

def updateNextBack (s : ComponentStorage α) (c : Cursor) (f : α → α) :
    Checked (Option (Handle × α) × Cursor × ComponentStorage α) :=
  match c.nextBack with
  | (none, c) => .ok (none, c, s)
  | (some i, c) => do
    let s ← s.modify i f
    return (some (← s.entryAt i), c, s)

def describe [Describe α] (C : Config) (s : ComponentStorage α) : String :=
  Form.record "ComponentStorage" [("store_id", C.stores.describe s.store), ("limit", Describe.text s.limit),
    ("handles", Form.list (s.handles.map (Handle.describe C))), ("components", Describe.text s.components)]

end ComponentStorage

end EntityStore
