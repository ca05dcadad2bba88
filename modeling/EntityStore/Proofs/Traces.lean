import EntityStore.Component.Kind
import EntityStore.Proofs.Asked
import EntityStore.Proofs.Fresh
import EntityStore.Proofs.Storage.Alike

/-! What is seen of a registry and an archetype storage while they are called in turn. Dense and chunked storages
cannot be told apart. -/

namespace EntityStore

inductive Move (C : Config) {κ : Type} (El : κ → Type) (ks : List κ) : Type 1 where
  | registry {α : Type} (c : RegistryCall C α)
  | storage {α : Type} (c : ArchetypeCall C El ks α)

/-- What is seen on the way. Each call that returns shows its answer, what it noted, the whole registry, and the limit,
identifiers and rows of the storage; a fault ends the trace, and shows what had been asked until then. -/
inductive Trace (C : Config) {κ : Type} (El : κ → Type) (ks : List κ) : Type 1 where
  | done
  | stopped (events : List Event) (asked : Asked) (f : Fault)
  | seen (answer : (α : Type) × α) (events : List Event) (registry : Registry C) (limit : Nat) (ids : List EntityId)
      (rows : List (Checked (Option (RowView El ks)))) (rest : Trace C El ks)

namespace Trace

variable {C : Config} {κ : Type} {El : κ → Type} {ks : List κ}

def fault? : Trace C El ks → Option Fault
  | done => none
  | stopped _ _ f => some f
  | seen _ _ _ _ _ _ rest => rest.fault?

def Meets (t : Trace C El ks) : Prop := ∀ f ∈ t.fault?, ¬ f.IsOverflow

theorem meets_of_deadRelocation {t : Trace C El ks} {id : Nat} (h : t.fault? = some (.deadRelocation id)) :
    t.Meets := by
  intro f hf
  rw [h] at hf
  cases hf
  rintro (hf | hf) <;> cases hf

def follow {β : Type} (asked : Asked) (x : Run β) (rest : List Event → β → Trace C El ks) : Trace C El ks :=
  match x.outcome with
  | .ok a => rest x.events a
  | .error f => .stopped x.events asked f

theorem not_meets_of_overflows {β : Type} {asked : Asked} {x : Run β} {rest : List Event → β → Trace C El ks}
    (h : x.Overflows) : ¬ (follow asked x rest).Meets := by
  obtain ⟨f, hf, ho⟩ := h
  intro hm
  rw [follow, hf] at hm
  exact hm f rfl ho

variable {L L' : Type} [ColumnLayout L El ks] [ColumnLayout L' El ks]

def look (a : (α : Type) × α) (events : List Event) (r : Registry C) (s : ArchetypeStorage L)
    (rest : Trace C El ks) : Trace C El ks :=
  .seen a events r s.limit s.ids ((List.range s.size).map s.row?) rest

section Moves

variable [DecidableEq κ] [Capacious L]

def ofMoves : List (Move C El ks) → Registry C → ArchetypeStorage L → Trace C El ks
  | [], _, _ => .done
  | .registry c :: moves, r, s =>
    follow (c.asked r) (c.run r) fun events a => look ⟨_, a.1⟩ events a.2 s (ofMoves moves a.2 s)
  | .storage c :: moves, r, s =>
    follow (c.asked r s) (c.run r s) fun events a => look ⟨_, a.1⟩ events a.2.1 a.2.2 (ofMoves moves a.2.1 a.2.2)

end Moves

variable [LawfulColumnLayout L El ks] [LawfulColumnLayout L' El ks] {s : ArchetypeStorage L} {t : ArchetypeStorage L'}
  {es : List (EntityId × Row El ks)}

theorem look_eq (ht : s.Twins t es) (a : (α : Type) × α) (events : List Event) (r : Registry C)
    (rest : Trace C El ks) :
    look a events r t rest = look a events r s rest := by
  have hrows : ∀ i, t.row? i = s.row? i := fun i => by rw [ht.left.row?, ht.right.row?]
  rw [look, look, ht.limit, ht.ids_eq, ht.size_eq, funext hrows]

variable [DecidableEq κ] [Capacious L] [Capacious L'] [LawfulCapacity L] [LawfulCapacity L']

theorem ofMoves_eq (moves : List (Move C El ks)) (r : Registry C) (ht : s.Twins t es)
    (hs : (ofMoves moves r s).Meets) (ht' : (ofMoves moves r t).Meets) : ofMoves moves r s = ofMoves moves r t := by
  induction moves generalizing r s t es with
  | nil => rfl
  | cons move moves ih =>
    cases move with
    | registry c =>
      simp only [ofMoves, follow] at hs ht' ⊢
      cases hx : (c.run r).outcome with
      | error f => rfl
      | ok a =>
        rw [hx] at hs ht'
        dsimp only
        rw [look_eq ht, ih a.2 ht hs ht']
    | storage c =>
      simp only [ofMoves] at hs ht' ⊢
      rcases c.alike_or_overflows Registry.custody_trivial ht (r := r) trivial with ha | ⟨-, ho | ho⟩
      · rw [c.asked_eq ht] at ht' ⊢
        generalize c.run r s = x at *
        generalize c.run r t = y at *
        cases ha with
        | error events hf => rfl
        | @ok events a b hab =>
          obtain ⟨a, r, s⟩ := a
          obtain ⟨b, r', t⟩ := b
          obtain ⟨rfl, rfl, -, es', ht₁⟩ := hab
          dsimp only [follow] at hs ht' ⊢
          dsimp only at ht₁
          rw [look_eq ht₁, ih r ht₁ hs ht']
      · exact absurd hs (not_meets_of_overflows ho)
      · exact absurd ht' (not_meets_of_overflows ho)

end Trace

section Layouts

variable {C : Config} {κ : Type} [DecidableEq κ] {El : κ → Type} [∀ k, Footprint (El k)] {k : κ} {ks : List κ}
  {shift : Nat} [Chunked.Fits El (k :: ks) shift] {s : ArchetypeStorage (Dense El (k :: ks))}
  {t : ArchetypeStorage (Chunked El (k :: ks) shift)}

/-- Whatever calls are made in turn on a dense storage, and on a chunked one that was made to the same limit, over equal
registries of any state, both show the same. -/
theorem chunked_trace_eq_dense (hs : s.Fresh C) (ht : t.Fresh C) (hstore : t.store = s.store)
    (hlimit : t.limit = s.limit) (r : Registry C) (moves : List (Move C El (k :: ks)))
    (hms : (Trace.ofMoves moves r s).Meets) (hmt : (Trace.ofMoves moves r t).Meets) :
    Trace.ofMoves moves r t = Trace.ofMoves moves r s :=
  (Trace.ofMoves_eq moves r ⟨hs.carries, ht.carries, hstore, hlimit⟩ hms hmt).symm

end Layouts

def undermined : List (Move Config.standard Kind.Value [.flag]) :=
  [.storage (.shared (.spawn () (.cons true .nil))), .storage (.shared (.spawn () (.cons false .nil))),
    .storage (.shared (.spawn () (.cons true .nil))), .storage (.shared (.reserve 5)),
    .storage (.shared (.take (.id 0) 0)), .registry (.erase (.id 1)),
    .storage (.eraseWhere fun asked v => asked.size == 0 && v.index == 0)]

instance : Chunked.Fits Kind.Value [.flag] 1 := ⟨by decide⟩

theorem chunked_trace_eq_dense_undermined :
    Trace.ofMoves undermined (.empty _)
        (⟨7, Storage.unlimited, #[], Layout.empty⟩ : ArchetypeStorage (Chunked Kind.Value [.flag] 1)) =
      Trace.ofMoves undermined (.empty _)
        (⟨7, Storage.unlimited, #[], Layout.empty⟩ : ArchetypeStorage (Dense Kind.Value [.flag])) :=
  chunked_trace_eq_dense (.inl ⟨7, rfl⟩) (.inl ⟨7, rfl⟩) rfl rfl _ _ (Trace.meets_of_deadRelocation rfl)
    (Trace.meets_of_deadRelocation rfl)

end EntityStore
