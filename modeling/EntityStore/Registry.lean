import EntityStore.Settings

/-! The registry of entities: one record per slot. A live slot holds the location of its entity; a dead slot is
a link of the free list, from which slots are taken in the order they were freed. -/

namespace EntityStore

inductive Slot where
  | live (location : Location)
  | free (next : Option EntityId)
deriving DecidableEq

namespace Slot

def isLive : Slot → Bool
  | live _ => true
  | free _ => false

def location? : Slot → Option Location
  | live l => some l
  | free _ => none

def next? : Slot → Option EntityId
  | live _ => none
  | free next => next

end Slot

structure Record (C : Config) where
  slot : Slot
  generation : Nat
  metadata : C.Metadata

namespace Record

variable {C : Config}

/-- The bytes of a record. A link of the free list fits where the location of an entity does. -/
def bytes (C : Config) : Nat :=
  Footprint.record 8 [Location.bytes C, C.generations.bytes, C.footprint.bytes]

def vacant : Record C := ⟨.free none, Generations.initial, C.blank⟩

def isLive (e : Record C) : Bool := e.slot.isLive

def location? (e : Record C) : Option Location := e.slot.location?

end Record

structure Registry (C : Config) where
  records : Array (Record C)
  freeHead : Option EntityId
  freeTail : Option EntityId
  living : Nat
  highWater : Nat
  idLimit : Nat

namespace Registry

variable {C : Config}

def empty (C : Config) : Registry C := ⟨#[], none, none, 0, 0, C.ids.invalid⟩

def recordAt (r : Registry C) (id : EntityId) : Checked (Record C) :=
  match r.records[id]? with
  | some e => .ok e
  | none => .error (.indexOutOfBounds r.records.size id)

def setRecord (r : Registry C) (id : EntityId) (e : Record C) : Registry C :=
  { r with records := r.records.setIfInBounds id e }

def isAlive (r : Registry C) (id : EntityId) : Bool := r.records[id]?.any Record.isLive

def isValidHandle (r : Registry C) (h : Handle) : Bool :=
  r.records[h.id]?.any fun e => e.isLive && e.generation == h.generation

def resolve? (r : Registry C) : Key → Option EntityId
  | .id id => if r.isAlive id then some id else none
  | .handle h => if r.isValidHandle h then some h.id else none

def isValid (r : Registry C) (k : Key) : Bool := (r.resolve? k).isSome

def handle? (r : Registry C) (id : EntityId) : Option Handle :=
  r.records[id]?.bind fun e => if e.isLive then some ⟨id, e.generation⟩ else none

theorem id_of_handle? {r : Registry C} {id : EntityId} {h : Handle} (hh : r.handle? id = some h) : h.id = id := by
  obtain ⟨e, -, he⟩ := Option.bind_eq_some_iff.1 hh
  split at he
  · cases he
    rfl
  · cases he

def locationOf? (r : Registry C) (id : EntityId) : Option Location := r.records[id]?.bind Record.location?

def location? (r : Registry C) (k : Key) : Option Location := (r.resolve? k).bind r.locationOf?

def metadata? (r : Registry C) (k : Key) : Option C.Metadata :=
  (r.resolve? k).bind fun id => r.records[id]?.map (·.metadata)

def updateMetadata? (r : Registry C) (k : Key) (f : C.Metadata → C.Metadata) : Option (Registry C) :=
  (r.resolve? k).bind fun id => r.records[id]?.map fun e => r.setRecord id { e with metadata := f e.metadata }

def isEmpty (r : Registry C) : Bool := r.living == 0

def maxId? (r : Registry C) : Option EntityId :=
  match r.highWater with
  | 0 => none
  | id + 1 => C.ids.ofIndex? id

def entities (r : Registry C) : List (EntityId × Record C) :=
  (r.records.toList.zipIdx.filter (·.1.isLive)).filterMap fun e => (C.ids.ofIndex? e.2).map (·, e.1)

def follow (r : Registry C) : Nat → Option EntityId → Checked (List EntityId)
  | _, none => .ok []
  | 0, some _ => .error .freeListEndless
  | fuel + 1, some id => do
    let e ← r.recordAt id
    let rest ← r.follow fuel e.slot.next?
    return id :: rest

def freeList (r : Registry C) : Checked (List EntityId) := r.follow r.records.size r.freeHead

def popFree (r : Registry C) : Checked (Option (EntityId × Registry C)) :=
  match r.freeHead with
  | none => .ok none
  | some head => do
    let e ← r.recordAt head
    match e.slot with
    | .live _ => throw .freeSlotAlive
    | .free next =>
      return some (head, { r with freeHead := next, freeTail := if next.isNone then none else r.freeTail })

def pushFree (r : Registry C) (id : EntityId) : Checked (Registry C) :=
  match r.freeTail with
  | none => .ok { r with freeHead := some id, freeTail := some id }
  | some tail => do
    let e ← r.recordAt tail
    return { r.setRecord tail { e with slot := .free (some id) } with freeTail := some id }

def relink (r : Registry C) : List EntityId → Checked (Registry C)
  | [] => .ok r
  | id :: ids =>
    match r.recordAt id with
    | .error f => .error f
    | .ok e =>
      match (r.setRecord id { e with slot := .free none }).pushFree id with
      | .error f => .error f
      | .ok r => r.relink ids

def occupy (r : Registry C) (id : EntityId) (l : Location) (m : C.Metadata) : Checked (Registry C) := do
  let e ← r.recordAt id
  let r := r.setRecord id { e with slot := .live l, metadata := m }
  return { r with living := r.living + 1, highWater := max r.highWater (id + 1) }

def grow (r : Registry C) : Run (Option EntityId × Registry C) :=
  if r.idLimit ≤ r.records.size then do
    Run.note (.registryFull r.idLimit)
    return (none, r)
  else
    match C.ids.ofIndex? r.records.size with
    | none => return (none, r)
    | some id => return (some id, { r with records := r.records.push .vacant })

def create (r : Registry C) (l : Location) (m : C.Metadata) : Run (Option EntityId × Registry C) :=
  if l.isDestroyed C then do
    Run.note .refusedDestroyed
    return (none, r)
  else do
    match ← r.popFree with
    | some (id, r) => return (some id, ← r.occupy id l m)
    | none =>
      match ← r.grow with
      | (none, r) => return (none, r)
      | (some id, r) => return (some id, ← r.occupy id l m)

def createHandle (r : Registry C) (l : Location) (m : C.Metadata) : Run (Option Handle × Registry C) := do
  let (id?, r) ← r.create l m
  match id? with
  | none => return (none, r)
  | some id => return (some ⟨id, (← r.recordAt id).generation⟩, r)

def release (r : Registry C) (id : EntityId) : Checked (Registry C) := do
  let e ← r.recordAt id
  let r := r.setRecord id ⟨.free none, C.generations.bump e.generation, C.blank⟩
  match r.living with
  | 0 => throw .subtractionOverflow
  | living + 1 =>
    let r := { r with living := living }
    r.pushFree id

def destroy (r : Registry C) (id : EntityId) : Run (Registry C) := do
  let r ← r.release id
  Run.note (.entityDestroyed id)
  return r

def relocate (r : Registry C) (id : EntityId) (l : Location) : Run (Registry C) := do
  if !r.isAlive id then
    Run.fault (.deadRelocation id)
  else if l.isDestroyed C then
    r.destroy id
  else
    let e ← r.recordAt id
    return r.setRecord id { e with slot := .live l }

def setLocation (r : Registry C) (k : Key) (l : Location) : Run (Bool × Registry C) :=
  match r.resolve? k with
  | none => return (false, r)
  | some id => return (true, ← r.relocate id l)

def erase (r : Registry C) (k : Key) : Run (Bool × Registry C) := r.setLocation k (.destroyed C)

def eraseFrom (p : Predicate (EntityId × Record C)) :
    (n : Nat) → (index : Nat) → Swept (Registry C) (EntityId × Record C) →
      Run (Swept (Registry C) (EntityId × Record C))
  | 0, _, s => return s
  | n + 1, index, ⟨r, asked, erased⟩ =>
    match r.recordAt index with
    | .error f => Run.fault f
    | .ok e =>
      if e.isLive then
        match C.ids.ofIndex? index with
        | none => return ⟨r, asked, erased⟩
        | some id =>
          if p asked (id, e) then do
            let r ← r.destroy id
            eraseFrom p n (index + 1) ⟨r, asked.push (id, e), erased + 1⟩
          else
            eraseFrom p n (index + 1) ⟨r, asked.push (id, e), erased⟩
      else
        eraseFrom p n (index + 1) ⟨r, asked, erased⟩

def eraseWhere (r : Registry C) (p : Predicate (EntityId × Record C)) :
    Run (Swept (Registry C) (EntityId × Record C)) :=
  eraseFrom p r.records.size 0 ⟨r, #[], 0⟩

def destroyFrom : (n : Nat) → (index : Nat) → Registry C → Run (Registry C)
  | 0, _, r => return r
  | n + 1, index, r =>
    match r.recordAt index with
    | .error f => Run.fault f
    | .ok e =>
      if e.isLive then
        match C.ids.ofIndex? index with
        | none => destroyFrom n (index + 1) r
        | some id => do
          let r ← r.destroy id
          destroyFrom n (index + 1) r
      else
        destroyFrom n (index + 1) r

def clear (r : Registry C) : Run (Registry C) := destroyFrom r.records.size 0 r

def reset (r : Registry C) : Registry C := { empty C with idLimit := r.idLimit }

def truncate (r : Registry C) (n : Nat) : Checked (Registry C) := do
  let free ← r.freeList
  let kept := { r with records := r.records.take n, freeHead := none, freeTail := none }
  let r ← kept.relink (free.filter (· < n))
  return { r with highWater := min r.highWater n }

def prefill : Nat → Registry C → Checked (Registry C)
  | 0, r => .ok r
  | n + 1, r =>
    match C.ids.ofIndex? r.records.size with
    | none => .ok r
    | some id =>
      match { r with records := r.records.push .vacant }.pushFree id with
      | .error f => .error f
      | .ok r => prefill n r

def reserve (r : Registry C) (n : Nat) (ahead : Bool) : Checked (Registry C) := do
  let missing := min n r.idLimit - r.records.size
  checkRoom r.records.size missing (Record.bytes C)
  if ahead then prefill missing r else return r

def setIdLimit (r : Registry C) (n : Nat) : Run (Bool × Registry C) :=
  let limit := min n C.ids.invalid
  if (r.records.drop limit).any Record.isLive then do
    Run.note (.limitBelowLiving limit)
    return (false, r)
  else do
    let limited := { r with idLimit := limit }
    if limit < r.records.size then
      return (true, ← limited.truncate limit)
    else
      return (true, limited)

def liveBound (r : Registry C) : Nat := (r.records.toList.reverse.dropWhile fun e => !e.isLive).length

def trim (r : Registry C) : Checked (Registry C) := r.truncate r.liveBound

def ofSettings (C : Config) (s : RegistrySettings) : Run (Registry C) := do
  let r ← match s.idLimit with
    | none => pure (empty C)
    | some n => Prod.snd <$> (empty C).setIdLimit n
  r.reserve s.reserve s.prefill

end Registry

variable {C : Config}

def IdSpace.describe? (s : IdSpace) : Option Nat → String
  | none => "None"
  | some id => "Some(" ++ s.describe id ++ ")"

def Slot.describe (C : Config) : Slot → String
  | live l => "Live(" ++ l.describe C ++ ")"
  | free next => Form.record "Free" [("next", C.ids.describe? next)]

def Record.describe [Describe C.Metadata] (e : Record C) : String :=
  Form.record "Record" [("slot", e.slot.describe C), ("generation", C.generations.describe e.generation),
    ("metadata", Describe.text e.metadata)]

def Registry.describe (r : Registry C) : String :=
  Form.record "EntityRegistry" [("live", Describe.text r.living), ("slots", Describe.text r.records.size),
    ("id_limit", Describe.text r.idLimit), ("free_head", C.ids.describe? r.freeHead),
    ("free_tail", C.ids.describe? r.freeTail)]

end EntityStore
