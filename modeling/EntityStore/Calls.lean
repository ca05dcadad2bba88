import EntityStore.Archetype.Storage
import EntityStore.Component.Storage

/-! All that can be asked of a registry and of storages. -/

namespace EntityStore

inductive Shape (κ : Type) where
  | component (k : κ)
  | dense (ks : List κ)
  | chunked (ks : List κ) (shift : Nat)
deriving DecidableEq

namespace Shape

variable {κ : Type}

abbrev Tenant : Shape κ → Type
  | component _ => Handle
  | dense _ => EntityId
  | chunked _ _ => EntityId

abbrev Item (El : κ → Type) : Shape κ → Type
  | component k => El k
  | dense ks => Row El ks
  | chunked ks _ => Row El ks

abbrev Rows (El : κ → Type) : Shape κ → Type
  | component k => Array (El k)
  | dense ks => Dense El ks
  | chunked ks shift => Chunked El ks shift

instance instTenant : (shape : Shape κ) → EntityStore.Tenant shape.Tenant
  | component _ => inferInstanceAs (EntityStore.Tenant Handle)
  | dense _ => inferInstanceAs (EntityStore.Tenant EntityId)
  | chunked _ _ => inferInstanceAs (EntityStore.Tenant EntityId)

instance instLayout (El : κ → Type) [∀ k, Footprint (El k)] : (shape : Shape κ) → Layout (shape.Rows El) (shape.Item El)
  | component k => inferInstanceAs (Layout (Array (El k)) (El k))
  | dense ks => inferInstanceAs (Layout (Dense El ks) (Row El ks))
  | chunked ks shift => inferInstanceAs (Layout (Chunked El ks shift) (Row El ks))

instance instCapacious (El : κ → Type) [∀ k, Footprint (El k)] : (shape : Shape κ) → Capacious (shape.Rows El)
  | component k => inferInstanceAs (Capacious (Array (El k)))
  | dense ks => inferInstanceAs (Capacious (Dense El ks))
  | chunked ks shift => inferInstanceAs (Capacious (Chunked El ks shift))

def make {El : κ → Type} [∀ k, Footprint (El k)] (C : Config) (id : StoreId) :
    (shape : Shape κ) → Option StorageSettings → Run (Except Refusal (Storage shape.Tenant (shape.Rows El)))
  | component _, none => ComponentStorage.empty C id
  | component _, some settings => ComponentStorage.ofSettings C id settings
  | dense _, none | chunked _ _, none => Storage.empty C id
  | dense _, some settings | chunked _ _, some settings => Storage.ofSettings C id settings

end Shape

inductive RegistryCall (C : Config) : Type → Type 1 where
  | create (l : Location) (m : C.Metadata) : RegistryCall C (Option EntityId)
  | createHandle (l : Location) (m : C.Metadata) : RegistryCall C (Option Handle)
  | setLocation (k : Key) (l : Location) : RegistryCall C Bool
  | erase (k : Key) : RegistryCall C Bool
  | eraseWhere (p : Predicate (EntityId × Record C)) : RegistryCall C (Array (EntityId × Record C) × Nat)
  | updateMetadata (k : Key) (f : C.Metadata → C.Metadata) : RegistryCall C Bool
  | reserve (n : Nat) (ahead : Bool) : RegistryCall C Unit
  | setIdLimit (n : Nat) : RegistryCall C Bool
  | trim : RegistryCall C Unit
  | clear : RegistryCall C Unit
  | reset : RegistryCall C Unit
  | ask {α : Type} (f : Registry C → α) : RegistryCall C α

def RegistryCall.run {C : Config} {α : Type} : RegistryCall C α → Registry C → Run (α × Registry C)
  | create l m, r => r.create l m
  | createHandle l m, r => r.createHandle l m
  | setLocation k l, r => r.setLocation k l
  | erase k, r => r.erase k
  | eraseWhere p, r => Swept.answer <$> r.eraseWhere p
  | updateMetadata k f, r =>
    match r.updateMetadata? k f with
    | none => pure (false, r)
    | some r => pure (true, r)
  | reserve n ahead, r => (((), ·)) <$> Run.ofChecked (r.reserve n ahead)
  | setIdLimit n, r => r.setIdLimit n
  | trim, r => (((), ·)) <$> Run.ofChecked r.trim
  | clear, r => (((), ·)) <$> r.clear
  | reset, r => pure ((), r.reset)
  | ask f, r => pure (f r, r)

inductive StorageCall (C : Config) (ρ : Type) : Type → Type 1 where
  | store : StorageCall C ρ StoreId
  | limit : StorageCall C ρ Nat
  | size : StorageCall C ρ Nat
  | isEmpty : StorageCall C ρ Bool
  | ids : StorageCall C ρ (List EntityId)
  | indexOf? (k : Key) : StorageCall C ρ (Option Nat)
  | contains (k : Key) : StorageCall C ρ Bool
  | get? (k : Key) : StorageCall C ρ (Option ρ)
  | get (k : Key) : StorageCall C ρ (Except Refusal ρ)
  | update? (k : Key) (f : ρ → ρ) : StorageCall C ρ Bool
  | update (k : Key) (f : ρ → ρ) : StorageCall C ρ (Except Refusal Unit)
  | add (k : Key) (x : ρ) : StorageCall C ρ Bool
  | spawn (m : C.Metadata) (x : ρ) : StorageCall C ρ (Option Handle)
  | take (k : Key) (target : StoreId) : StorageCall C ρ (Option ρ)
  | remove (k : Key) (target : StoreId) : StorageCall C ρ Bool
  | erase (k : Key) : StorageCall C ρ Bool
  | removeAll (target : StoreId) : StorageCall C ρ Nat
  | clear : StorageCall C ρ Nat
  | setLimit (n : Nat) : StorageCall C ρ Unit
  | reserve (extra : Nat) : StorageCall C ρ Unit
  | shrink : StorageCall C ρ Unit

namespace StorageCall

variable {τ L ρ α : Type} [Tenant τ] [Layout L ρ] [Capacious L] {C : Config}

def run : StorageCall C ρ α → Registry C → Storage τ L → Run (α × Registry C × Storage τ L)
  | store, r, s => pure (s.store, r, s)
  | limit, r, s => pure (s.limit, r, s)
  | size, r, s => pure (s.size, r, s)
  | isEmpty, r, s => pure (s.isEmpty, r, s)
  | ids, r, s => pure (s.ids, r, s)
  | indexOf? k, r, s => pure (s.indexOf? r k, r, s)
  | contains k, r, s => pure (s.contains r k, r, s)
  | get? k, r, s => do return (← s.get? r k, r, s)
  | get k, r, s => do return (← s.get r k, r, s)
  | update? k f, r, s => do
    match ← s.update? r k f with
    | none => return (false, r, s)
    | some s => return (true, r, s)
  | update k f, r, s => do
    match ← s.update r k f with
    | .error e => return (.error e, r, s)
    | .ok s => return (.ok (), r, s)
  | add k x, r, s => s.add r k x
  | spawn m x, r, s => s.spawn r m x
  | take k target, r, s => s.take r k target
  | remove k target, r, s => s.remove r k target
  | erase k, r, s => s.erase r k
  | removeAll target, r, s => s.removeAll r target
  | clear, r, s => s.clear r
  | setLimit n, r, s => pure ((), r, s.setLimit n)
  | reserve extra, r, s => do
    s.room C extra
    return ((), r, s)
  | shrink, r, s => pure ((), r, s)

end StorageCall

inductive ArchetypeCall (C : Config) {κ : Type} (El : κ → Type) (ks : List κ) : Type → Type 1 where
  | shared {α : Type} (c : StorageCall C (Row El ks) α) : ArchetypeCall C El ks α
  | component? (key : Key) (k : κ) : ArchetypeCall C El ks (Option (El k))
  | updateComponent? (key : Key) (k : κ) (f : El k → El k) : ArchetypeCall C El ks (Option (El k))
  | row? (i : Nat) : ArchetypeCall C El ks (Option (RowView El ks))
  | updateRow? (i : Nat) (f : Row El ks → Row El ks) : ArchetypeCall C El ks (Option EntityId)
  | rows (ends : List End) : ArchetypeCall C El ks (List (Option (RowView El ks)))
  | updateRowsAt (f : Nat → EntityId → Row El ks → Row El ks) : ArchetypeCall C El ks Unit
  | eraseWhere (p : Predicate (RowView El ks)) : ArchetypeCall C El ks (Array (RowView El ks) × Nat)
  | eraseByKind (k : κ) (kindName : κ → String) (p : Predicate (El k × EntityId)) :
      ArchetypeCall C El ks (Array (El k × EntityId) × Nat)
  | eraseByColumn (n : Fin ks.length) (p : Predicate (El (ks.get n) × EntityId)) :
      ArchetypeCall C El ks (Array (El (ks.get n) × EntityId) × Nat)
  | describe : ArchetypeCall C El ks String

namespace ArchetypeCall

variable {κ α L : Type} [DecidableEq κ] {El : κ → Type} {ks : List κ} [ColumnLayout L El ks] [Capacious L]
  {C : Config}

def nextAt (s : ArchetypeStorage L) (c : Cursor) : End → Checked (Option (RowView El ks) × Cursor)
  | .front => s.nextRow c
  | .back => s.nextRowBack c

def run : ArchetypeCall C El ks α → Registry C → ArchetypeStorage L → Run (α × Registry C × ArchetypeStorage L)
  | shared c, r, s => c.run r s
  | component? key k, r, s => do return (← s.component? r key k, r, s)
  | updateComponent? key k f, r, s => do
    let (x, s) ← s.updateComponent? r key k f
    return (x, r, s)
  | row? i, r, s => do return (← s.row? i, r, s)
  | updateRow? i f, r, s => do
    match ← s.updateRow? i f with
    | none => return (none, r, s)
    | some (id, s) => return (some id, r, s)
  | rows ends, r, s => do return (← Cursor.walkBy (nextAt s) (.start s.size) ends, r, s)
  | updateRowsAt f, r, s => do return ((), r, ← s.updateRowsAt f)
  | eraseWhere p, r, s => Swept.answer <$> s.eraseWhere r p
  | eraseByKind k kindName p, r, s => Swept.answer <$> s.eraseByKind r k kindName p
  | eraseByColumn n p, r, s => Swept.answer <$> s.eraseByColumn r n p
  | describe, r, s => pure (s.describe C, r, s)

end ArchetypeCall

inductive ColumnCall {κ : Type} (El : κ → Type) (ks : List κ) : Type → Type 1 where
  | columns : ColumnCall El ks (Columns El ks)
  | column? (k : κ) : ColumnCall El ks (Option (Array (El k)))
  | columnAt (n : Fin ks.length) : ColumnCall El ks (Array (El (ks.get n)))
  | updateColumn? (k : κ) (f : Nat → El k → El k) : ColumnCall El ks Bool

def ColumnCall.run {κ α : Type} [DecidableEq κ] {El : κ → Type} {ks : List κ} :
    ColumnCall El ks α → ArchetypeStorage (Dense El ks) → α × ArchetypeStorage (Dense El ks)
  | columns, s => (s.columns, s)
  | column? k, s => (s.column? k, s)
  | columnAt n, s => (s.columnAt n, s)
  | updateColumn? k f, s =>
    match s.updateColumn? k f with
    | none => (false, s)
    | some s => (true, s)

inductive ChunkCall {κ : Type} (El : κ → Type) (ks : List κ) : Type → Type 1 where
  | chunkCount : ChunkCall El ks Nat
  | chunks : ChunkCall El ks (List (List EntityId × Columns El ks))
  | updateChunks (f : Nat → Nat → Nat → (k : κ) → El k → El k) : ChunkCall El ks Unit

def ChunkCall.run {κ α : Type} {El : κ → Type} {ks : List κ} {shift : Nat} :
    ChunkCall El ks α → ArchetypeStorage (Chunked El ks shift) → α × ArchetypeStorage (Chunked El ks shift)
  | chunkCount, s => (s.chunkCount, s)
  | chunks, s => (s.chunks, s)
  | updateChunks f, s => ((), s.updateChunks f)

def StorageCall.runComponents {α β : Type} [Footprint β] {C : Config} :
    StorageCall C β α → Registry C → ComponentStorage β → Run (α × Registry C × ComponentStorage β)
  | store, r, s => pure (s.store, r, s)
  | limit, r, s => pure (s.limit, r, s)
  | size, r, s => pure (s.size, r, s)
  | isEmpty, r, s => pure (s.isEmpty, r, s)
  | ids, r, s => pure (s.handles.map Handle.id, r, s)
  | indexOf? k, r, s => pure (s.indexOf? r k, r, s)
  | contains k, r, s => pure (s.contains r k, r, s)
  | get? k, r, s => do return (← s.get? r k, r, s)
  | get k, r, s => do return (← s.get r k, r, s)
  | update? k f, r, s => do
    match ← s.update? r k f with
    | none => return (false, r, s)
    | some s => return (true, r, s)
  | update k f, r, s => do
    match ← s.update r k f with
    | .error e => return (.error e, r, s)
    | .ok s => return (.ok (), r, s)
  | add k x, r, s => s.add r k x
  | spawn m x, r, s => s.spawn r m x
  | take k target, r, s => s.take r k target
  | remove k target, r, s => s.remove r k target
  | erase k, r, s => s.erase r k
  | removeAll target, r, s => s.removeAll r target
  | clear, r, s => s.clear r
  | setLimit n, r, s => pure ((), r, s.setLimit n)
  | reserve extra, r, s => do
    s.room C extra
    return ((), r, s)
  | shrink, r, s => pure ((), r, s)

inductive ComponentCall (C : Config) (β : Type) : Type → Type 1 where
  | shared {α : Type} (c : StorageCall C β α) : ComponentCall C β α
  | handles : ComponentCall C β (List Handle)
  | components : ComponentCall C β (List β)
  | componentAt (i : Nat) : ComponentCall C β β
  | modify (i : Nat) (f : β → β) : ComponentCall C β Unit
  | updateComponents (f : Nat → β → β) : ComponentCall C β Unit
  | entries (ends : List End) : ComponentCall C β (List (Option (Handle × β)))
  | updateEntries (ends : List (End × (β → β))) : ComponentCall C β (List (Option (Handle × β)))
  | eraseWhere (p : Predicate (β × EntityId)) : ComponentCall C β (Array (β × EntityId) × Nat)

namespace ComponentCall

variable {α β : Type} [Footprint β] {C : Config}

def nextAt (s : ComponentStorage β) (c : Cursor) : End → Checked (Option (Handle × β) × Cursor)
  | .front => s.nextEntry c
  | .back => s.nextEntryBack c

def updateAt (s : ComponentStorage β) (c : Cursor) (f : β → β) :
    End → Checked (Option (Handle × β) × Cursor × ComponentStorage β)
  | .front => s.updateNext c f
  | .back => s.updateNextBack c f

def updateWalk (s : ComponentStorage β) (c : Cursor) :
    List (End × (β → β)) → Checked (List (Option (Handle × β)) × ComponentStorage β)
  | [] => .ok ([], s)
  | (e, f) :: ends => do
    let (x, c, s) ← updateAt s c f e
    let (xs, s) ← updateWalk s c ends
    return (x :: xs, s)

def run : ComponentCall C β α → Registry C → ComponentStorage β → Run (α × Registry C × ComponentStorage β)
  | shared c, r, s => c.runComponents r s
  | handles, r, s => pure (s.handles, r, s)
  | components, r, s => pure (s.components, r, s)
  | componentAt i, r, s => do return (← s.componentAt i, r, s)
  | modify i f, r, s => do return ((), r, ← s.modify i f)
  | updateComponents f, r, s => pure ((), r, s.updateComponents f)
  | entries ends, r, s => do return (← Cursor.walkBy (nextAt s) s.walk ends, r, s)
  | updateEntries ends, r, s => do
    let (es, s) ← updateWalk s s.walk ends
    return (es, r, s)
  | eraseWhere p, r, s => Swept.answer <$> s.eraseWhere r p

end ComponentCall

inductive StoreCall (C : Config) {κ : Type} (El : κ → Type) : Shape κ → Type → Type 1 where
  | component {k : κ} {α : Type} (c : ComponentCall C (El k) α) : StoreCall C El (.component k) α
  | dense {ks : List κ} {α : Type} (c : ArchetypeCall C El ks α) : StoreCall C El (.dense ks) α
  | columns {ks : List κ} {α : Type} (c : ColumnCall El ks α) : StoreCall C El (.dense ks) α
  | chunked {ks : List κ} {shift : Nat} {α : Type} (c : ArchetypeCall C El ks α) :
      StoreCall C El (.chunked ks shift) α
  | chunks {ks : List κ} {shift : Nat} {α : Type} (c : ChunkCall El ks α) : StoreCall C El (.chunked ks shift) α

variable {κ α : Type} [DecidableEq κ] {El : κ → Type} [∀ k, Footprint (El k)] {C : Config}

def StoreCall.run {shape : Shape κ} : StoreCall C El shape α → Registry C → Storage shape.Tenant (shape.Rows El) →
    Run (α × Registry C × Storage shape.Tenant (shape.Rows El))
  | component c, r, s => c.run r s
  | dense c, r, s => c.run r s
  | columns c, r, s => pure ((c.run s).1, r, (c.run s).2)
  | chunked c, r, s => c.run r s
  | chunks c, r, s => pure ((c.run s).1, r, (c.run s).2)

def StoreCall.shared : (shape : Shape κ) → StorageCall C (shape.Item El) α → StoreCall C El shape α
  | .component _, c => .component (.shared c)
  | .dense _, c => .dense (.shared c)
  | .chunked _ _, c => .chunked (.shared c)

end EntityStore
