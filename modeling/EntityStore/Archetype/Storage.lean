import EntityStore.Archetype.Layout
import EntityStore.Storage

namespace EntityStore

variable {κ : Type} {El : κ → Type} {ks : List κ}

abbrev ArchetypeStorage (L : Type) := Storage EntityId L

structure RowView (El : κ → Type) (ks : List κ) where
  index : Nat
  id : EntityId
  components : Row El ks

def RowView.component? [DecidableEq κ] (v : RowView El ks) (k : κ) : Option (El k) := v.components.entryOf? k

def RowView.describe (C : Config) (v : RowView El ks) : String :=
  Form.record "Row" [("index", Describe.text v.index), ("id", C.ids.describe v.id)]

def RowView.at (v : RowView El ks) (n : Fin ks.length) : El (ks.get n) := v.components.get n

namespace Storage

variable {L : Type} [ColumnLayout L El ks] {C : Config}

def rowAt (s : ArchetypeStorage L) (i : Nat) : Checked (RowView El ks) := do
  let (c, slot) ← ColumnLayout.locate s.rows i
  let id ← Column.read s.tenants i
  let row ← c.read slot
  return ⟨i, id, row⟩

def row? (s : ArchetypeStorage L) (i : Nat) : Checked (Option (RowView El ks)) :=
  if i < s.size then some <$> s.rowAt i else .ok none

def updateRow? (s : ArchetypeStorage L) (i : Nat) (f : Row El ks → Row El ks) :
    Checked (Option (EntityId × ArchetypeStorage L)) :=
  match s.tenants[i]? with
  | none => .ok none
  | some id => (fun s => some (id, s)) <$> s.updateRow i f

def updateFrom (f : Nat → EntityId → Row El ks → Row El ks) :
    (n : Nat) → (i : Nat) → ArchetypeStorage L → Checked (ArchetypeStorage L)
  | 0, _, s => .ok s
  | n + 1, i, s => do
    let id ← Column.read s.tenants i
    let s ← s.updateRow i (f i id)
    updateFrom f n (i + 1) s

def updateRowsAt (s : ArchetypeStorage L) (f : Nat → EntityId → Row El ks → Row El ks) :
    Checked (ArchetypeStorage L) :=
  updateFrom f s.size 0 s

def nextRow (s : ArchetypeStorage L) (c : Cursor) : Checked (Option (RowView El ks) × Cursor) :=
  match c.next with
  | (none, c) => .ok (none, c)
  | (some i, c) => (fun v => (some v, c)) <$> s.rowAt i

def nextRowBack (s : ArchetypeStorage L) (c : Cursor) : Checked (Option (RowView El ks) × Cursor) :=
  match c.nextBack with
  | (none, c) => .ok (none, c)
  | (some i, c) => (fun v => (some v, c)) <$> s.rowAt i

def describe {L : Type} [ColumnLayout L El ks] (C : Config) (s : ArchetypeStorage L) : String :=
  Form.record "ArchetypeStorage" [("store_id", C.stores.describe s.store), ("len", Describe.text s.size),
    ("limit", Describe.text s.limit), ("components", Describe.text ks.length)]

section Components

variable [DecidableEq κ]

def component? (s : ArchetypeStorage L) (r : Registry C) (key : Key) (k : κ) : Checked (Option (El k)) :=
  match s.indexOf? r key with
  | none => .ok none
  | some i => do
    let (c, slot) ← ColumnLayout.locate s.rows i
    match c.entryOf? k with
    | none => return none
    | some a => return some (← Column.read a slot)

def updateComponent? (s : ArchetypeStorage L) (r : Registry C) (key : Key) (k : κ) (f : El k → El k) :
    Checked (Option (El k) × ArchetypeStorage L) :=
  match s.indexOf? r key with
  | none => .ok (none, s)
  | some i => do
    let (x?, rows) ← ColumnLayout.adjust s.rows i fun c slot =>
      match c.entryOf? k with
      | none => .ok (none, c)
      | some a => do
        let (x, a) ← Column.update a slot f
        return (some (f x), (c.modifyOf? k fun _ => a).getD c)
    return (x?, { s with rows := rows })

end Components

section Dense

def columns (s : ArchetypeStorage (Dense El ks)) : Columns El ks := s.rows.columns

def column? [DecidableEq κ] (s : ArchetypeStorage (Dense El ks)) (k : κ) : Option (Array (El k)) :=
  s.columns.entryOf? k

def columnAt (s : ArchetypeStorage (Dense El ks)) (n : Fin ks.length) : Array (El (ks.get n)) := s.columns.get n

def updateColumn? [DecidableEq κ] (s : ArchetypeStorage (Dense El ks)) (k : κ) (f : Nat → El k → El k) :
    Option (ArchetypeStorage (Dense El ks)) :=
  (s.columns.modifyOf? k fun a => a.mapIdx f).map fun c => { s with rows := ⟨c⟩ }

end Dense

section Chunks

variable {shift : Nat}

def pieces {α : Type} (k : Nat) (l : List α) : List (List α) :=
  (List.range ((l.length + k - 1) / k)).map fun n => (l.drop (n * k)).take k

def chunkCount (s : ArchetypeStorage (Chunked El ks shift)) : Nat := s.rows.chunks.size

def chunks (s : ArchetypeStorage (Chunked El ks shift)) : List (List EntityId × Columns El ks) :=
  (pieces (Chunked.chunkSize shift) s.tenants.toList).zip s.rows.chunks.toList

def updateChunks (s : ArchetypeStorage (Chunked El ks shift)) (f : Nat → Nat → Nat → (k : κ) → El k → El k) :
    ArchetypeStorage (Chunked El ks shift) :=
  let count := s.chunks.length
  let chunks := s.rows.chunks.mapIdx fun n c => if n < count then c.mapCells (f n) else c
  { s with rows := { s.rows with chunks := chunks } }

end Chunks

def kindQuestion [DecidableEq κ] (k : κ) (n : Nat) (s : ArchetypeStorage L) (i : Nat) :
    Checked (Option (El k × EntityId)) := do
  let (c, slot) ← ColumnLayout.locate s.rows i
  match c.entry? n |>.bind (cast? k) with
  | none => return none
  | some a => return some (← Column.read a slot, ← Column.read s.tenants i)

def columnQuestion (n : Fin ks.length) (s : ArchetypeStorage L) (i : Nat) :
    Checked (Option (El (ks.get n) × EntityId)) := do
  let (c, slot) ← ColumnLayout.locate s.rows i
  return some (← Column.read (c.get n) slot, ← Column.read s.tenants i)

def rowQuestion (s : ArchetypeStorage L) (i : Nat) : Checked (Option (RowView El ks)) := some <$> s.rowAt i

def eraseByKind [DecidableEq κ] (s : ArchetypeStorage L) (r : Registry C) (k : κ) (kindName : κ → String)
    (p : Predicate (El k × EntityId)) : Run (Swept (Registry C × ArchetypeStorage L) (El k × EntityId)) :=
  match positionOf? ks k with
  | none => do
    Run.note (.componentAbsent (kindName k))
    return ⟨(r, s), #[], 0⟩
  | some n => s.sweep (kindQuestion k n) p r

def eraseByColumn (s : ArchetypeStorage L) (r : Registry C) (n : Fin ks.length)
    (p : Predicate (El (ks.get n) × EntityId)) :
    Run (Swept (Registry C × ArchetypeStorage L) (El (ks.get n) × EntityId)) :=
  s.sweep (columnQuestion n) p r

def eraseWhere (s : ArchetypeStorage L) (r : Registry C) (p : Predicate (RowView El ks)) :
    Run (Swept (Registry C × ArchetypeStorage L) (RowView El ks)) :=
  s.sweep rowQuestion p r

end Storage

end EntityStore
