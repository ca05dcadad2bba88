import EntityStore.Component.Kind
import EntityStore.Proofs.Asked
import EntityStore.Proofs.Fresh
import EntityStore.Proofs.Storage.Alike

/-! Component storages beside archetype storages of one kind. The one keeps handles and an array, the other
identifiers and a column set; but for how they note that a row has moved, they cannot be told apart, whatever becomes of
the registry between their calls. -/

namespace EntityStore

variable {C : Config} {κ : Type} {El : κ → Type} {k : κ}

def Event.asRow : Event → Event
  | componentMoved id row => rowMoved id row
  | e => e

def Tuple.single : El k ≃ Tuple El [k] where
  toFun x := .cons x .nil
  invFun := Tuple.head
  left_inv _ := rfl
  right_inv
    | .cons _ .nil => rfl

def Likeness.single (El : κ → Type) (k : κ) : Likeness Handle EntityId (El k) (Row El [k]) where
  tenant := Handle.id
  row := Tuple.single
  note := Event.asRow
  id_tenant _ := rfl
  tenant_ofHandle _ := rfl
  note_moved _ _ := rfl

namespace Storage.Peers

variable {s : ComponentStorage (El k)} {t : ArchetypeStorage (Dense El [k])} {es : List (Handle × El k)}

theorem ids_eq_handles (hp : Peers (.single El k) s t es) : t.ids = s.handles.map Handle.id := by
  rw [hp.left.handles, hp.right.ids_eq, List.map_map, List.map_map]
  rfl

theorem columnAt_eq_components (hp : Peers (.single El k) s t es) :
    (t.columnAt (0 : Fin 1)).toList = s.components := by
  have hrows : t.rows.columns = Columns.ofRows ((es.map (Likeness.single El k).entry).map (·.2)) := hp.right.rows
  have hheads : ((es.map (Likeness.single El k).entry).map (·.2)).map Tuple.head = es.map (·.2) := by
    rw [List.map_map, List.map_map]
    rfl
  rw [columnAt, columns, hrows, hp.left.components, ← hheads]
  rfl

end Storage.Peers

/-- What can be asked of both. Requests for room are left out: their needs are told by the tenants' bytes. -/
inductive SingleMove (C : Config) (El : κ → Type) (k : κ) : Type 1 where
  | registry {α : Type} (c : RegistryCall C α)
  | storage {α : Type} (c : StorageCall C (El k) α) (hc : ¬ c.Reserves)
  | eraseWhere (p : Predicate (El k × EntityId))

/-- What is seen on the way. Each call that returns shows its answer, what it noted, the whole registry, and the limit,
identifiers and components of the storage; a fault ends the trace, and shows what had been asked until then. -/
inductive SingleTrace (C : Config) (β : Type) : Type 1 where
  | done
  | stopped (events : List Event) (asked : Asked) (f : Fault)
  | seen (answer : (α : Type) × α) (events : List Event) (registry : Registry C) (limit : Nat) (ids : List EntityId)
      (components : List β) (rest : SingleTrace C β)

namespace SingleTrace

def fault? {β : Type} : SingleTrace C β → Option Fault
  | done => none
  | stopped _ _ f => some f
  | seen _ _ _ _ _ _ rest => rest.fault?

def follow {α β : Type} (asked : Asked) (x : Run α) (rest : List Event → α → SingleTrace C β) : SingleTrace C β :=
  match x.outcome with
  | .ok a => rest (x.events.map Event.asRow) a
  | .error f => .stopped (x.events.map Event.asRow) asked f

def lookComponents {β : Type} (answer : (α : Type) × α) (events : List Event) (r : Registry C)
    (s : ComponentStorage β) (rest : SingleTrace C β) : SingleTrace C β :=
  .seen answer events r s.limit (s.handles.map Handle.id) s.components rest

def lookColumn (answer : (α : Type) × α) (events : List Event) (r : Registry C)
    (t : ArchetypeStorage (Dense El [k])) (rest : SingleTrace C (El k)) : SingleTrace C (El k) :=
  .seen answer events r t.limit t.ids (t.columnAt (0 : Fin 1)).toList rest

theorem follow_eq {α α' β : Type} {asked : Asked} {R : α → α' → Prop} {E : Fault → Prop} {x : Run α} {y : Run α'}
    {rest : List Event → α → SingleTrace C β} {rest' : List Event → α' → SingleTrace C β}
    (h : Run.Like Event.asRow R E x y) (hrest : ∀ events a b, R a b → rest' events b = rest events a) :
    follow asked y rest' = follow asked x rest := by
  obtain ⟨events, outcome⟩ := x
  obtain ⟨events', outcome'⟩ := y
  rw [Run.Like, Run.relabel, Run.relabel] at h
  dsimp only [follow]
  generalize events.map Event.asRow = es at *
  generalize events'.map Event.asRow = es' at *
  cases h with
  | error _ hf => rfl
  | ok _ hab => exact hrest _ _ _ hab

variable {s : ComponentStorage (El k)} {t : ArchetypeStorage (Dense El [k])} {es : List (Handle × El k)}

theorem look_eq (hp : Storage.Peers (.single El k) s t es) (answer : (α : Type) × α) (events : List Event)
    (r : Registry C) (rest : SingleTrace C (El k)) :
    lookColumn answer events r t rest = lookComponents answer events r s rest := by
  rw [lookColumn, lookComponents, hp.limit, hp.ids_eq_handles, hp.columnAt_eq_components]

theorem follow_matched_eq {α α' : Type} {asked : Asked} {read : α → α'}
    {x : Run (α × Registry C × ComponentStorage (El k))}
    {y : Run (α' × Registry C × ArchetypeStorage (Dense El [k]))}
    {next : Registry C → ComponentStorage (El k) → SingleTrace C (El k)}
    {next' : Registry C → ArchetypeStorage (Dense El [k]) → SingleTrace C (El k)}
    (h : Run.Like Event.asRow (Storage.Matched (.single El k) (fun _ => True) read) (fun _ => True) x y)
    (hnext : ∀ r s t es, Storage.Peers (.single El k) s t es → next' r t = next r s) :
    follow asked y (fun events a => lookColumn ⟨α', a.1⟩ events a.2.1 a.2.2 (next' a.2.1 a.2.2)) =
      follow asked x fun events a => lookComponents ⟨α', read a.1⟩ events a.2.1 a.2.2 (next a.2.1 a.2.2) := by
  apply follow_eq h
  rintro events ⟨a, r, s⟩ ⟨_, _, t⟩ ⟨rfl, rfl, -, es, hp⟩
  dsimp only
  rw [hnext r s t es hp]
  exact look_eq hp _ events r _

variable [∀ k, Footprint (El k)]

def ofComponents : List (SingleMove C El k) → Registry C → ComponentStorage (El k) → SingleTrace C (El k)
  | [], _, _ => .done
  | .registry c :: moves, r, s =>
    follow (c.asked r) (c.run r) fun events a => lookComponents ⟨_, a.1⟩ events a.2 s (ofComponents moves a.2 s)
  | .storage c _ :: moves, r, s =>
    follow .nothing ((ComponentCall.shared c).run r s) fun events a =>
      lookComponents ⟨_, (c.image Tuple.single).read a.1⟩ events a.2.1 a.2.2 (ofComponents moves a.2.1 a.2.2)
  | .eraseWhere p :: moves, r, s =>
    follow (s.asked p r) ((ComponentCall.eraseWhere p).run r s) fun events a =>
      lookComponents ⟨_, a.1⟩ events a.2.1 a.2.2 (ofComponents moves a.2.1 a.2.2)

def ofColumn [DecidableEq κ] :
    List (SingleMove C El k) → Registry C → ArchetypeStorage (Dense El [k]) → SingleTrace C (El k)
  | [], _, _ => .done
  | .registry c :: moves, r, t =>
    follow (c.asked r) (c.run r) fun events a => lookColumn ⟨_, a.1⟩ events a.2 t (ofColumn moves a.2 t)
  | .storage c _ :: moves, r, t =>
    follow .nothing ((ArchetypeCall.shared (c.image Tuple.single).call).run r t) fun events a =>
      lookColumn ⟨_, a.1⟩ events a.2.1 a.2.2 (ofColumn moves a.2.1 a.2.2)
  | .eraseWhere p :: moves, r, t =>
    let call : ArchetypeCall C El [k] (Array (El k × EntityId) × Nat) :=
      .eraseByColumn (0 : Fin [k].length) p
    follow (call.asked r t) (call.run r t) fun events a =>
      lookColumn ⟨_, a.1⟩ events a.2.1 a.2.2 (ofColumn moves a.2.1 a.2.2)

theorem ofColumn_eq [DecidableEq κ] (moves : List (SingleMove C El k)) (r : Registry C)
    (hp : Storage.Peers (.single El k) s t es) : ofColumn moves r t = ofComponents moves r s := by
  induction moves generalizing r s t es with
  | nil => rfl
  | cons move moves ih =>
    cases move with
    | registry c =>
      rw [ofColumn, ofComponents]
      refine follow_eq (Run.Like.of_ends (Run.ends_trivial (c.run r))) ?_
      rintro events a _ ⟨rfl, -⟩
      rw [ih a.2 hp]
      exact look_eq hp _ events a.2 _
    | storage c hc =>
      have hlike := c.run_like hc Registry.custody_trivial hp (r := r) trivial
      rw [← c.runComponents_eq hp.left] at hlike
      exact follow_matched_eq hlike fun r _ _ _ hp => ih r hp
    | eraseWhere p =>
      have hcolumn := Storage.Carries.reads_eraseByColumn (L := Dense El [k]) (0 : Fin [k].length)
      have hlike := hp.sweep ComponentStorage.reads_question hcolumn (fun _ _ _ => rfl) p Registry.custody_trivial
        (r := r) trivial
      have hasked : Storage.asked (Storage.columnQuestion (0 : Fin [k].length)) p t r = s.asked p r :=
        (hp.asked_eq ComponentStorage.reads_question hcolumn (fun _ _ _ => rfl) p r).trans
          (ComponentStorage.asked_eq p hp.left r).symm
      rw [ofColumn, ofComponents, ← hasked]
      exact follow_matched_eq ((ComponentStorage.eraseWhere_eq hp.left r p).symm ▸ hlike) fun r _ _ _ hp => ih r hp

end SingleTrace

section Storages

variable [DecidableEq κ] [∀ k, Footprint (El k)] {s : ComponentStorage (El k)} {t : ArchetypeStorage (Dense El [k])}

/-- Whatever is asked in turn of a component storage, and of an archetype storage of its one kind that was made to the
same limit, over equal registries of any state, both show the same. -/
theorem column_trace_eq_components (hs : s.Fresh C) (ht : t.Fresh C) (hstore : t.store = s.store)
    (hlimit : t.limit = s.limit) (r : Registry C) (moves : List (SingleMove C El k)) :
    SingleTrace.ofColumn moves r t = SingleTrace.ofComponents moves r s :=
  SingleTrace.ofColumn_eq moves r ⟨hs.common.carries, ht.carries, hstore, hlimit⟩

end Storages

def bereft : List (SingleMove Config.standard Kind.Value .flag) :=
  [.storage (.spawn () true) not_false, .storage (.spawn () false) not_false, .storage (.spawn () true) not_false,
    .storage (.take (.id 0) 0) not_false, .registry (.erase (.id 1)),
    .eraseWhere fun asked q => asked.size == 0 && q.2 == 2]

theorem column_trace_eq_components_bereft :
    SingleTrace.ofColumn bereft (.empty _) ⟨7, Storage.unlimited, #[], Layout.empty⟩ =
        SingleTrace.ofComponents bereft (.empty _) ⟨7, Storage.unlimited, #[], Layout.empty⟩ ∧
      (SingleTrace.ofComponents bereft (.empty _) ⟨7, Storage.unlimited, #[], Layout.empty⟩).fault? =
        some (.deadRelocation 1) :=
  ⟨column_trace_eq_components (.inl ⟨7, rfl⟩) (.inl ⟨7, rfl⟩) rfl rfl _ _, rfl⟩

end EntityStore
