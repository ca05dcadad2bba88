import EntityStore.Entity

/-! Computations that note events and may meet a broken assumption, at which they stop. -/

namespace EntityStore

inductive Event where
  | refusedDestroyed
  | registryFull (idLimit : Nat)
  | limitBelowLiving (limit : Nat)
  | entityDestroyed (id : EntityId)
  | storeReserved (store : StoreId)
  | addInvalid (id : EntityId)
  | storeFull (store : StoreId) (limit : Nat)
  | addNotPending (id : EntityId) (store : StoreId) (location : Location)
  | componentAbsent (component : String)
  | componentMoved (id : EntityId) (row : Nat)
  | rowMoved (id : EntityId) (row : Nat)
deriving DecidableEq

inductive Level where
  | debug
  | trace
deriving DecidableEq

def Level.describe : Level → String
  | debug => "DEBUG"
  | trace => "TRACE"

inductive FieldValue where
  | count (n : Nat)
  | form (text : String)
deriving DecidableEq

namespace Event

def level : Event → Level
  | entityDestroyed _ | componentMoved .. | rowMoved .. => .trace
  | _ => .debug

def message : Event → String
  | refusedDestroyed => "refusing to create an entity in the invalid store"
  | registryFull _ => "entity registry is full"
  | limitBelowLiving _ => "cannot lower the id limit below a living entity"
  | entityDestroyed _ => "entity destroyed"
  | storeReserved _ => "store id is reserved"
  | addInvalid _ => "add rejected: entity is not valid"
  | storeFull .. => "storage limit reached"
  | addNotPending .. => "add rejected: entity is not pending in this storage"
  | componentAbsent _ => "archetype has no such component"
  | componentMoved .. => "component moved by swap-and-pop"
  | rowMoved .. => "row moved by swap-and-pop"

def fields (C : Config) : Event → List (String × FieldValue)
  | refusedDestroyed => []
  | registryFull idLimit => [("id_limit", .count idLimit)]
  | limitBelowLiving limit => [("limit", .count limit)]
  | entityDestroyed id => [("entity", .form (C.ids.describe id))]
  | storeReserved store => [("store", .form (C.stores.describe store))]
  | addInvalid id => [("entity", .form (C.ids.describe id))]
  | storeFull store limit => [("store", .form (C.stores.describe store)), ("limit", .count limit)]
  | addNotPending id store location =>
    [("entity", .form (C.ids.describe id)), ("store", .form (C.stores.describe store)),
      ("location", .form (location.describe C))]
  | componentAbsent component => [("component", .form component)]
  | componentMoved id row | rowMoved id row => [("entity", .form (C.ids.describe id)), ("index", .count row)]

end Event

inductive Refusal where
  | staleEntity (id : EntityId)
  | notHoused (id : EntityId) (store : StoreId)
  | reservedStore (store : StoreId)
  | settings (message : String)
deriving DecidableEq

def Refusal.message : Refusal → String
  | staleEntity id => s!"entity {id} does not exist (stale, destroyed or never allocated)"
  | notHoused id store => s!"entity {id} is not housed in store {store}"
  | reservedStore store =>
    s!"store id {store} is reserved (0 is staging, the maximum value marks destroyed entities)"
  | settings message => "invalid settings: " ++ message

structure Run (α : Type) where
  events : List Event
  outcome : Checked α

namespace Run

variable {α β : Type}

@[inline]
def note (e : Event) : Run Unit := ⟨[e], .ok ()⟩

@[inline]
def fault (f : Fault) : Run α := ⟨[], .error f⟩

@[inline]
def ofChecked (x : Checked α) : Run α := ⟨[], x⟩

@[inline]
def andThen (x : Run α) (f : α → Run β) : Run β :=
  match x with
  | ⟨events, .ok a⟩ =>
    let y := f a
    ⟨events ++ y.events, y.outcome⟩
  | ⟨events, .error e⟩ => ⟨events, .error e⟩

instance : Monad Run where
  pure a := ⟨[], .ok a⟩
  bind := andThen

instance : MonadLift (Except Fault) Run := ⟨ofChecked⟩

@[simp] theorem outcome_pure (a : α) : (pure a : Run α).outcome = .ok a := rfl

@[simp] theorem outcome_note (e : Event) : (note e).outcome = .ok () := rfl

@[simp] theorem outcome_fault (f : Fault) : (fault f : Run α).outcome = .error f := rfl

@[simp] theorem outcome_ofChecked (x : Checked α) : (ofChecked x).outcome = x := rfl

@[simp] theorem outcome_lift (x : Checked α) : (liftM x : Run α).outcome = x := rfl

@[simp] theorem outcome_bind (x : Run α) (f : α → Run β) :
    (x >>= f).outcome = x.outcome >>= fun a => (f a).outcome := by
  rcases x with ⟨events, _ | a⟩ <;> rfl

theorem bind_def (x : Run α) (f : α → Run β) : x >>= f = x.andThen f := rfl

theorem andThen_assoc {γ : Type} (x : Run α) (f : α → Run β) (g : β → Run γ) :
    (x.andThen f).andThen g = x.andThen fun a => (f a).andThen g := by
  rcases x with ⟨events, _ | a⟩
  · rfl
  · rcases h : f a with ⟨events', _ | b⟩ <;> simp [andThen, h]

instance : LawfulMonad Run := LawfulMonad.mk' Run
  (fun x => by rcases x with ⟨events, _ | a⟩ <;> simp [Functor.map, andThen])
  (fun a f => by simp [bind_def, andThen, pure])
  andThen_assoc

end Run

/-- The answer to a question after the earlier ones, oldest first. -/
abbrev Predicate (α : Type) := Array α → α → Bool

structure Swept (σ α : Type) where
  state : σ
  asked : Array α
  erased : Nat

def Swept.answer {σ α : Type} (w : Swept σ α) : (Array α × Nat) × σ := ((w.asked, w.erased), w.state)

end EntityStore
