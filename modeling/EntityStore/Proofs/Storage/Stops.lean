import EntityStore.Proofs.Storage.Journal
import EntityStore.Proofs.Storage.Relocations

/-! Where the calls of storages stop. A call ends with an answer unless one of those whom it relocates is dead when its
turn comes; each call is given with the entities that it relocates and with what stops it. -/

namespace EntityStore

variable {C : Config} {v : Ledger C} {r : Registry C}

open Storage (sweepRelocations)

namespace Ledger

variable {u : Ledger C} {l : Location} {m : C.Metadata} {j id : Nat}

theorem ne_of_pick (hv : v.Valid) (hp : v.pick = some (id, u)) (hj : v.Lives j) : j ≠ id := by
  have hpick := hv.picked hp
  rintro rfl
  apply hpick.dead.not_lives
  rw [Lives, hpick.location?_eq]
  exact hj

theorem faces_create (hv : v.Valid) (hj : v.Lives j) : (v.create l m).2.faces[j]? = v.faces[j]? := by
  rcases v.create_cases l m with hc | ⟨id, u, hc, hp, -⟩
  · rw [hc]
  · have hu : u.faces[j]? = v.faces[j]? := by
      rcases pick_cases hp with ⟨-, hf⟩ | ⟨-, -, -, hf⟩
      · rw [hf]
      · rw [hf, List.getElem?_append_left hj.lt]
    rw [hc]
    refine (faces_modify u id _ j).trans ?_
    rw [hu]
    simp [Ne.symm (ne_of_pick hv hp hj)]

end Ledger

namespace Storage

variable {τ L ρ : Type} [Tenant τ] [Layout L ρ] [LawfulLayout L ρ] {s : Storage τ L}
  {es : List (τ × ρ)} {F : Fault → Prop}

theorem Carries.spawn_relocates (hs : s.Carries es) (h : r.Represents v) (m : C.Metadata) (x : ρ) :
    r.Relocates v [] F (s.spawn r m x) := by
  rw [spawn]
  split
  · exact h.relocates_nil rfl
  · rename_i hlt
    obtain ⟨r₁, hr₁, hw⟩ := h.createHandle (.pending s.store) m
    rcases v.create_cases (.pending s.store) m with hc | ⟨id, u, hc, hp, -⟩
    · rw [hc] at hr₁ hw
      have ho : (r.createHandle (.pending s.store) m).outcome = .ok (none, r₁) := hr₁
      refine Run.ends_of_ok (a := (none, r₁, s)) ?_ ⟨rfl, v, hw, fun _ _ _ => rfl⟩
      rw [Run.outcome_bind, ho]
      rfl
    · have hl : (v.create (.pending s.store) m).2.location? id = some (.pending s.store) :=
        Ledger.location?_create h.valid (by rw [hc])
      obtain ⟨hd, hh⟩ := Registry.exists_handle? ((hw.locationOf?_eq id).trans hl)
      have ha : s.Accepts r₁ (.handle hd) id :=
        ⟨hw.resolve?_of_handle? hh, Nat.not_le.1 hlt, (hw.locationOf?_eq id).trans hl⟩
      obtain ⟨s', -, -, -, hadd⟩ := hs.add ha hh x
      obtain ⟨r₂, hr₂, hw₂⟩ := hw.relocate (Ledger.lives_iff.2 ⟨_, hl⟩) (.housed s.store es.length)
      have ho : (r.createHandle (.pending s.store) m).outcome = .ok (some hd, r₁) := by
        rw [hr₁, hc, Option.bind_some, hh]
      refine Run.ends_of_ok (a := (some hd, r₂, s')) ?_ ⟨rfl, _, hw₂, fun j hj _ => ?_⟩
      · rw [Run.outcome_bind, ho, Checked.ok_bind]
        simp only [hadd, Run.outcome_bind, Run.outcome_map, hr₂]
        rfl
      · -- the new entity did not live before
        rw [Ledger.faces_relocate _ _ (Ledger.ne_of_pick h.valid hp hj), Ledger.faces_create h.valid hj]

end Storage

namespace StorageCall

variable {τ L ρ α : Type} [Tenant τ]

def relocations (r : Registry C) (s : Storage τ L) : StorageCall C ρ α → List (EntityId × Location)
  | add k _ => s.enterRelocations r k
  | take k target | remove k target => s.leaveRelocations r k (.pending target)
  | erase k => s.leaveRelocations r k (.destroyed C)
  | removeAll target => s.ids.map (·, .pending target)
  | clear => s.ids.map (·, .destroyed C)
  | _ => []

/-- A call that takes one row stops at a dead tenant in the last row, unless that is the row it takes; a call that takes
all rows, at any dead tenant and, where it destroys them, at whoever has two rows. -/
def Stops (r : Registry C) (s : Storage τ L) : StorageCall C ρ α → Prop
  | take k _ | remove k _ | erase k =>
    ∃ i id, s.indexOf? r k = some i ∧ i + 1 < s.size ∧ s.ids.getLast? = some id ∧ ¬ r.isAlive id
  | removeAll target => (∃ id ∈ s.ids, ¬ r.isAlive id) ∨ target = C.stores.invalid ∧ ¬ s.ids.Nodup
  | clear => (∃ id ∈ s.ids, ¬ r.isAlive id) ∨ ¬ s.ids.Nodup
  | _ => False

theorem stops_iff (c : StorageCall C ρ α) {s : Storage τ L} (hs : s.store ≠ C.stores.invalid) (h : r.Represents v) :
    c.Stops r s ↔ (Registry.stumble? C r.isAlive (c.relocations r s)).isSome := by
  cases c with
  | take k target | remove k target | erase k => exact (Storage.stumble?_leave hs h k _).symm
  | removeAll target =>
    rw [Stops, relocations]
    by_cases ht : target = C.stores.invalid
    · rw [Registry.stumble?_all_destroyed (Location.isDestroyed_iff.2 ht), and_iff_right ht]
    · rw [Registry.stumble?_all_placed (mt Location.isDestroyed_iff.1 ht)]
      simp [ht]
  | clear => exact (Registry.stumble?_all_destroyed (Location.isDestroyed_iff.2 rfl) _ _).symm
  | add k x =>
    rw [relocations, Storage.stumble?_enter h]
    exact iff_of_false not_false Bool.false_ne_true
  | _ => exact iff_of_false not_false Bool.false_ne_true

theorem mem_relocations (c : StorageCall C ρ α) {s : Storage τ L} {m : EntityId × Location}
    (h : m ∈ c.relocations r s) : m.1 ∈ s.ids ∨ r.locationOf? m.1 = some (.pending s.store) := by
  cases c with
  | add k x => exact .inr (Storage.mem_enterRelocations h).1.pending
  | take k target | remove k target | erase k => exact .inl (Storage.mem_leaveRelocations h).1
  | removeAll target | clear =>
    obtain ⟨id, hid, rfl⟩ := List.mem_map.1 h
    exact .inl hid
  | _ => cases h

theorem not_stops (c : StorageCall C ρ α) {s : Storage τ L} (ha : ∀ id ∈ s.ids, r.isAlive id) (hn : s.ids.Nodup) :
    ¬ c.Stops r s := by
  have hdead : ¬ ∃ id ∈ s.ids, ¬ r.isAlive id := fun ⟨id, hid, hl⟩ => hl (ha id hid)
  cases c with
  | take k target | remove k target | erase k =>
    rintro ⟨i, id, -, -, hid, hl⟩
    exact hl (ha id (List.mem_of_getLast? hid))
  | removeAll target => exact not_or.2 ⟨hdead, fun h => h.2 hn⟩
  | clear => exact not_or.2 ⟨hdead, fun h => h hn⟩
  | _ => exact not_false

variable [Layout L ρ] [LawfulLayout L ρ] [Capacious L] [LawfulCapacity L] {s : Storage τ L}
  {es : List (τ × ρ)}

theorem run_relocates (c : StorageCall C ρ α) (hs : s.Carries es) (h : r.Represents v) :
    r.Relocates v (c.relocations r s) (fun f => c.Reserves ∧ f.IsOverflow) (c.run r s) := by
  cases c with
  | get? k =>
    obtain ⟨a, ha, -⟩ := hs.twins.peers.get? r k
    exact h.relocates_nil (a := a) (s := s) (by rw [run, ha]; rfl)
  | get k =>
    obtain ⟨a, ha, -⟩ := hs.twins.peers.get r k
    exact h.relocates_nil (a := a) (s := s) (by rw [run, ha]; rfl)
  | update? k f =>
    rcases hs.twins.peers.update? r k f with ⟨ho, -⟩ | ⟨s', -, ho, -⟩
    · exact h.relocates_nil (a := false) (s := s) (by rw [run, ho]; rfl)
    · exact h.relocates_nil (a := true) (s := s') (by rw [run, ho]; rfl)
  | update k f =>
    rcases hs.twins.peers.update r k f with ⟨e, ho, -⟩ | ⟨s', -, ho, -⟩
    · exact h.relocates_nil (a := .error e) (s := s) (by rw [run, ho]; rfl)
    · exact h.relocates_nil (a := .ok ()) (s := s') (by rw [run, ho]; rfl)
  | add k x =>
    obtain ⟨a, s', -, ho⟩ := hs.add_relocates r k x
    exact h.relocates (ho r rfl rfl)
  | spawn m x => exact hs.spawn_relocates h m x
  | take k target =>
    obtain ⟨a, s', -, ho⟩ := hs.take_relocates r k target
    exact h.relocates (ho r rfl)
  | remove k target =>
    obtain ⟨a, s', -, ho⟩ := hs.remove_relocates r k target
    exact h.relocates (ho r rfl)
  | erase k =>
    obtain ⟨a, s', -, ho⟩ := hs.remove_relocates r k C.stores.invalid
    exact h.relocates (ho r rfl)
  | removeAll target => exact h.relocates (s.removeAll_outcome r target)
  | clear => exact h.relocates (s.removeAll_outcome r C.stores.invalid)
  | reserve extra =>
    rcases run_reserve extra r s with ho | ⟨f, hf, hover⟩
    · exact h.relocates_nil (by rw [ho]; rfl)
    · exact Run.ends_of_error hf (.inl ⟨⟨trivial, hover⟩, rfl⟩)
  | store | limit | size | isEmpty | ids | indexOf? | contains | setLimit | shrink => exact h.relocates_nil rfl

end StorageCall

section Archetypes

variable {κ α L : Type} {El : κ → Type} {ks : List κ}

namespace ArchetypeCall

variable [DecidableEq κ] [ColumnLayout L El ks]

def relocations (r : Registry C) (s : ArchetypeStorage L) : ArchetypeCall C El ks α → List (EntityId × Location)
  | shared c => c.relocations r s
  | eraseWhere p => sweepRelocations C (fun i id row => some ⟨i, id, row⟩) p s.store s.size s.listing 0 #[]
  | eraseByKind k _ p =>
    sweepRelocations C (fun _ id row => (row.entryOf? k).map (·, id)) p s.store s.size s.listing 0 #[]
  | eraseByColumn n p => sweepRelocations C (fun _ id row => some (row.get n, id)) p s.store s.size s.listing 0 #[]
  | _ => []

def Stops (r : Registry C) (s : ArchetypeStorage L) : ArchetypeCall C El ks α → Prop
  | shared c => c.Stops r s
  | eraseWhere p => (Registry.stumble? C r.isAlive ((eraseWhere p).relocations r s)).isSome
  | eraseByKind k name p => (Registry.stumble? C r.isAlive ((eraseByKind k name p).relocations r s)).isSome
  | eraseByColumn n p => (Registry.stumble? C r.isAlive ((eraseByColumn n p).relocations r s)).isSome
  | _ => False

theorem stops_iff (c : ArchetypeCall C El ks α) {s : ArchetypeStorage L} (hs : s.store ≠ C.stores.invalid)
    (h : r.Represents v) : c.Stops r s ↔ (Registry.stumble? C r.isAlive (c.relocations r s)).isSome := by
  cases c with
  | shared c => exact c.stops_iff hs h
  | eraseWhere | eraseByKind | eraseByColumn => exact Iff.rfl
  | _ => exact iff_of_false not_false Bool.false_ne_true

variable [LawfulColumnLayout L El ks] {s : ArchetypeStorage L} {es : List (EntityId × Row El ks)}

theorem mem_relocations (c : ArchetypeCall C El ks α) (hs : s.Carries es) {m : EntityId × Location}
    (h : m ∈ c.relocations r s) : m.1 ∈ s.ids ∨ r.locationOf? m.1 = some (.pending s.store) := by
  cases c with
  | shared c => exact c.mem_relocations h
  | eraseWhere | eraseByKind | eraseByColumn =>
    have hm := Storage.mem_sweepRelocations h
    rw [hs.listing_eq] at hm
    exact .inl (hs.ids_eq ▸ hm)
  | _ => cases h

theorem not_stops (c : ArchetypeCall C El ks α) (hs : s.Carries es) (hstore : s.store ≠ C.stores.invalid)
    (ha : ∀ id ∈ s.ids, r.isAlive id) (hn : s.ids.Nodup) : ¬ c.Stops r s := by
  have hsweep : ∀ {β : Type} (g : Nat → EntityId → Row El ks → Option β) (p : Predicate β),
      Registry.stumble? C r.isAlive (sweepRelocations C g p s.store s.size s.listing 0 #[]) = none := by
    intro β g p
    rw [hs.ids_eq] at ha hn
    rw [hs.listing_eq]
    exact Storage.stumble?_sweep hstore (fun e he => ha _ (List.mem_map_of_mem he)) hn
  cases c with
  | shared c => exact c.not_stops ha hn
  | eraseWhere | eraseByKind | eraseByColumn =>
    rw [Stops, relocations, hsweep]
    exact Bool.false_ne_true
  | _ => exact not_false

variable [Capacious L] [LawfulCapacity L]

theorem run_relocates (c : ArchetypeCall C El ks α) (hs : s.Carries es) (h : r.Represents v) :
    r.Relocates v (c.relocations r s) (fun f => c.Reserves ∧ f.IsOverflow) (c.run r s) := by
  cases c with
  | shared c => exact c.run_relocates hs h
  | component? key k => exact h.relocates_nil (by rw [run, hs.component?]; rfl)
  | updateComponent? key k f =>
    cases hi : s.indexOf? r key with
    | none => exact h.relocates_nil (a := none) (s := s) (by rw [run, Storage.updateComponent?, hi]; rfl)
    | some i =>
      obtain ⟨e, he, _⟩ := hs.exists_of_indexOf? hi
      obtain ⟨l, hl, _⟩ := hs.updateComponent? k f hi he
      exact h.relocates_nil (by rw [run, hl]; rfl)
  | row? i => exact h.relocates_nil (by rw [run, hs.row? i]; rfl)
  | updateRow? i f =>
    have ht := hs.getElem?_tenants i
    cases he : es[i]? with
    | none =>
      rw [he, Option.map_none] at ht
      exact h.relocates_nil (a := none) (s := s) (by rw [run, Storage.updateRow?, ht]; rfl)
    | some e =>
      obtain ⟨l, hl, _⟩ := hs.updateRow he f
      rw [he, Option.map_some] at ht
      exact h.relocates_nil (a := some e.1) (s := { s with rows := l }) (by rw [run, Storage.updateRow?, ht, hl]; rfl)
  | rows ends => exact h.relocates_nil (by rw [run, hs.size_eq, hs.walk (Nat.le_refl _)]; rfl)
  | updateRowsAt f =>
    obtain ⟨l, hl, _⟩ := hs.updateRowsAt f
    exact h.relocates_nil (by rw [run, hl]; rfl)
  | eraseWhere p =>
    obtain ⟨a, s', -, ho⟩ := hs.sweep_relocates C Storage.Carries.reads_eraseWhere p
    exact h.relocates (ho r)
  | eraseByKind k kindName p =>
    rw [relocations, run, Storage.eraseByKind]
    cases hn : positionOf? ks k with
    | none =>
      rw [Storage.sweepRelocations_blind fun _ _ row => by rw [Tuple.entryOf?, hn]; rfl]
      exact h.relocates_nil rfl
    | some n =>
      obtain ⟨a, s', -, ho⟩ := hs.sweep_relocates C (Storage.Carries.reads_eraseByKind hn) p
      simp only [Tuple.entryOf?, hn, Option.bind_some]
      exact h.relocates (ho r)
  | eraseByColumn n p =>
    obtain ⟨a, s', -, ho⟩ := hs.sweep_relocates C (Storage.Carries.reads_eraseByColumn n) p
    exact h.relocates (ho r)
  | describe => exact h.relocates_nil rfl

end ArchetypeCall

end Archetypes

namespace ComponentCall

variable {α β : Type}

def relocations (r : Registry C) (s : ComponentStorage β) : ComponentCall C β α → List (EntityId × Location)
  | shared c => c.relocations r s
  | eraseWhere p => sweepRelocations C (fun _ h x => some (x, h.id)) p s.store (Storage.size s) s.listing 0 #[]
  | _ => []

def Stops (r : Registry C) (s : ComponentStorage β) : ComponentCall C β α → Prop
  | shared c => c.Stops r s
  | eraseWhere p => (Registry.stumble? C r.isAlive ((eraseWhere p).relocations r s)).isSome
  | _ => False

theorem stops_iff (c : ComponentCall C β α) {s : ComponentStorage β} (hs : s.store ≠ C.stores.invalid)
    (h : r.Represents v) : c.Stops r s ↔ (Registry.stumble? C r.isAlive (c.relocations r s)).isSome := by
  cases c with
  | shared c => exact c.stops_iff hs h
  | eraseWhere p => exact Iff.rfl
  | _ => exact iff_of_false not_false Bool.false_ne_true

variable {s : ComponentStorage β} {es : List (Handle × β)}

theorem run_relocates [Footprint β] (c : ComponentCall C β α) (hs : s.Carries es) (h : r.Represents v) :
    r.Relocates v (c.relocations r s) (fun f => c.MayFault (Storage.size s) f) (c.run r s) := by
  cases c with
  | shared c =>
    rw [run, c.runComponents_eq hs]
    exact c.run_relocates hs h
  | handles | components | updateComponents => exact h.relocates_nil rfl
  | componentAt i =>
    rcases hs.run_componentAt r i with ⟨e, -, ho⟩ | ⟨hi, ho⟩
    · exact h.relocates_nil ho
    · rw [← hs.size_eq] at hi ho
      exact Run.ends_of_error ho (.inl ⟨⟨hi, rfl⟩, rfl⟩)
  | modify i f =>
    rcases hs.run_modify r i f with ⟨-, l, ho, -⟩ | ⟨hi, ho⟩
    · exact h.relocates_nil ho
    · rw [← hs.size_eq] at hi ho
      exact Run.ends_of_error ho (.inl ⟨⟨hi, rfl⟩, rfl⟩)
  | entries ends => exact h.relocates_nil (by rw [run, hs.start_walk, hs.entries (Nat.le_refl _)]; rfl)
  | updateEntries ends =>
    obtain ⟨as, l, hl, -⟩ := hs.updateEntries (c := .start es.length) (Nat.le_refl _) ends
    exact h.relocates_nil (by rw [run, hs.start_walk, hl]; rfl)
  | eraseWhere p =>
    obtain ⟨a, s', -, ho⟩ := hs.sweep_relocates C ComponentStorage.reads_question p
    rw [run, ComponentStorage.eraseWhere_eq hs]
    exact h.relocates (ho r)

theorem mem_relocations (c : ComponentCall C β α) (hs : s.Carries es) {m : EntityId × Location}
    (h : m ∈ c.relocations r s) : m.1 ∈ s.ids ∨ r.locationOf? m.1 = some (.pending s.store) := by
  cases c with
  | shared c => exact c.mem_relocations h
  | eraseWhere p =>
    have hm := Storage.mem_sweepRelocations h
    rw [hs.listing_eq] at hm
    exact .inl (hs.ids_eq ▸ hm)
  | _ => cases h

theorem not_stops (c : ComponentCall C β α) (hs : s.Carries es) (hstore : s.store ≠ C.stores.invalid)
    (ha : ∀ id ∈ s.ids, r.isAlive id) (hn : s.ids.Nodup) : ¬ c.Stops r s := by
  cases c with
  | shared c => exact c.not_stops ha hn
  | eraseWhere p =>
    rw [hs.ids_eq] at ha hn
    rw [Stops, relocations, hs.listing_eq,
      Storage.stumble?_sweep hstore (fun e he => ha _ (List.mem_map_of_mem he)) hn]
    exact Bool.false_ne_true
  | _ => exact not_false

end ComponentCall

namespace StoreCall

variable {κ α : Type} [DecidableEq κ] {El : κ → Type} [∀ k, Footprint (El k)]

def relocations (r : Registry C) : {shape : Shape κ} → Storage shape.Tenant (shape.Rows El) → StoreCall C El shape α →
    List (EntityId × Location)
  | _, s, component c => c.relocations r s
  | _, s, dense c => c.relocations r s
  | _, s, chunked c => c.relocations r s
  | _, _, _ => []

def Stops (r : Registry C) : {shape : Shape κ} → Storage shape.Tenant (shape.Rows El) → StoreCall C El shape α → Prop
  | _, s, component c => c.Stops r s
  | _, s, dense c => c.Stops r s
  | _, s, chunked c => c.Stops r s
  | _, _, _ => False

variable {shape : Shape κ} {s : Storage shape.Tenant (shape.Rows El)}

theorem stops_iff (c : StoreCall C El shape α) (hs : s.store ≠ C.stores.invalid) (h : r.Represents v) :
    c.Stops r s ↔ (Registry.stumble? C r.isAlive (c.relocations r s)).isSome := by
  cases c with
  | component c => exact c.stops_iff hs h
  | dense c => exact c.stops_iff hs h
  | chunked c => exact c.stops_iff hs h
  | columns | chunks => exact iff_of_false not_false Bool.false_ne_true

variable [shape.Proper El] {es : List (shape.Tenant × shape.Item El)}

theorem run_relocates (c : StoreCall C El shape α) (hs : s.Carries es) (h : r.Represents v) :
    r.Relocates v (c.relocations r s) (fun f => c.MayFault s.size f) (c.run r s) := by
  cases c with
  | component c => exact c.run_relocates hs h
  | dense c => exact c.run_relocates hs h
  | columns c => exact h.relocates_nil rfl
  | @chunked ks shift _ c =>
    obtain ⟨k, ks, rfl, hfits⟩ := Shape.exists_cons ‹(Shape.chunked ks shift).Proper El›
    exact c.run_relocates hs h
  | chunks c => exact h.relocates_nil rfl

theorem mem_relocations (c : StoreCall C El shape α) (hs : s.Carries es) {m : EntityId × Location}
    (h : m ∈ c.relocations r s) : m.1 ∈ s.ids ∨ r.locationOf? m.1 = some (.pending s.store) := by
  cases c with
  | component c => exact c.mem_relocations hs h
  | dense c => exact c.mem_relocations hs h
  | @chunked ks shift _ c =>
    obtain ⟨k, ks, rfl, hfits⟩ := Shape.exists_cons ‹(Shape.chunked ks shift).Proper El›
    exact c.mem_relocations hs h
  | columns | chunks => cases h

theorem not_stops (c : StoreCall C El shape α) (hs : s.Carries es) (hstore : s.store ≠ C.stores.invalid)
    (ha : ∀ id ∈ s.ids, r.isAlive id) (hn : s.ids.Nodup) : ¬ c.Stops r s := by
  cases c with
  | component c => exact c.not_stops hs hstore ha hn
  | dense c => exact c.not_stops hs hstore ha hn
  | @chunked ks shift _ c =>
    obtain ⟨k, ks, rfl, hfits⟩ := Shape.exists_cons ‹(Shape.chunked ks shift).Proper El›
    exact c.not_stops hs hstore ha hn
  | columns | chunks => exact not_false

end StoreCall

end EntityStore
