import EntityStore.Proofs.Registry.Dispatch
import EntityStore.Proofs.Storage.Columns
import EntityStore.Proofs.World.Isolation

/-! Removal of one entity, whether it is taken, moved or destroyed. -/

namespace EntityStore

variable {C : Config} {r : Registry C} {v : Ledger C} {k : Key} {i : Nat}

namespace Storage

section Gap

variable {ids : List EntityId} {id : EntityId}

theorem nodup_fillRelocations (hn : ids.Nodup) (hi : ids[i]? = some id) (store : StoreId) (l : Location) :
    ((fillRelocations store ids i ++ [(id, l)]).map Prod.fst).Nodup := by
  rw [fillRelocations]
  cases hm : (swapPop ids i)[i]? with
  | none => simp
  | some m =>
    have hne : m ≠ id := ne_of_mem_of_not_mem (List.mem_of_getElem? hm) (not_mem_swapPop hn hi)
    simp [hne]

theorem not_mem_fillRelocations (hn : ids.Nodup) (hi : ids[i]? = some id) (store : StoreId) (l : Location)
    {row j : Nat} (hrow : row ≠ i) (hj : (swapPop ids i)[row]? = some j) :
    j ∉ (fillRelocations store ids i ++ [(id, l)]).map Prod.fst := by
  have hlt := (List.getElem?_eq_some_iff.1 hj).1
  rw [List.map_append, List.mem_append, List.map_singleton, List.mem_singleton, not_or]
  constructor
  · intro hfill
    obtain ⟨m, hm, rfl⟩ := List.mem_map.1 hfill
    obtain ⟨last, hlast, rfl⟩ := List.mem_map.1 hm
    have hsame := hj.trans (Option.mem_toList.1 hlast).symm
    exact hrow ((List.getElem?_inj hlt (nodup_swapPop hn hi)).1 hsame)
  · rintro rfl
    exact not_mem_swapPop hn hi (List.mem_of_getElem? hj)

end Gap

section Leave

variable {τ L ρ : Type} [Tenant τ] {s s' : Storage τ L} {r' : Registry C} {w : Ledger C} {id : EntityId}
  {l : Location}

theorem InPlace.located (hp : s.InPlace r) (h : r.Represents v) (hi : s.ids[i]? = some id) :
    v.location? id = some (.housed s.store i) := by
  rw [← h.locationOf?_eq]
  exact (hp i id hi).2

theorem InPlace.lives (hp : s.InPlace r) (h : r.Represents v) (hid : id ∈ s.ids) : v.Lives id :=
  h.isAlive_iff.1 (hp.isAlive hid)

theorem InPlace.lives_of_mem_leaving (hp : s.InPlace r) (h : r.Represents v) (hid : id ∈ s.ids)
    {m : EntityId × Location} (hm : m ∈ fillRelocations s.store s.ids i ++ [(id, l)]) : v.Lives m.1 := by
  rcases List.mem_append.1 hm with hm | hm
  · exact hp.lives h (mem_fillRelocations hm).1
  · rw [List.mem_singleton.1 hm]
    exact hp.lives h hid

theorem InPlace.leave (hp : s.InPlace r) (h : r.Represents v) (hstore : s.store ≠ C.stores.invalid)
    (hi : s.ids[i]? = some id) (h' : r'.Represents w)
    (hd : v.Dispatched (fillRelocations s.store s.ids i ++ [(id, l)]) w) (hids : s'.ids = swapPop s.ids i)
    (hs' : s'.store = s.store) : s'.InPlace r' := by
  have hlt := (List.getElem?_eq_some_iff.1 hi).1
  intro row j hj
  rw [hids] at hj
  have hl : w.location? j = some (.housed s.store row) := by
    by_cases hrow : row = i
    · subst hrow
      have hm : (j, Location.housed s.store row) ∈ fillRelocations s.store s.ids row ++ [(id, l)] := by
        rw [fillRelocations, hj]
        exact List.mem_cons_self
      have hlives := hp.lives_of_mem_leaving h (List.mem_of_getElem? hi) hm
      exact hd.location?_sent hm hlives (mt Location.isDestroyed_iff.1 hstore)
    · rw [hd.location?_other (not_mem_fillRelocations hp.nodup_ids hi s.store l hrow hj)]
      rw [getElem?_swapPop hlt, if_neg hrow] at hj
      split at hj
      · exact hp.located h hj
      · cases hj
  rw [h'.isAlive_iff, h'.locationOf?_eq, Ledger.Lives, hl, hs']
  exact ⟨Option.some_ne_none _, rfl⟩

theorem Carries.leave [Layout L ρ] [LawfulLayout L ρ] {es : List (τ × ρ)} {e : τ × ρ} (hs : s.Carries es)
    (hi : es[i]? = some e) (h : r.Represents v) (hp : s.InPlace r) (hstore : s.store ≠ C.stores.invalid)
    (l : Location) :
    ∃ s' r₁ r' w, (s.removeAt r i).outcome = .ok (e, r₁, s') ∧ (r₁.relocate (Tenant.id e.1) l).outcome = .ok r' ∧
      s'.Carries (swapPop es i) ∧ s'.store = s.store ∧ s'.limit = s.limit ∧ s'.InPlace r' ∧ r'.Represents w ∧
      v.Dispatched (fillRelocations s.store s.ids i ++ [(Tenant.id e.1, l)]) w := by
  obtain ⟨s', hc, hstore', hlimit, ho⟩ := hs.removeAt_relocates (C := C) hi
  have hid := hs.getElem?_ids hi
  have hids : s'.ids = swapPop s.ids i := by rw [hc.ids_eq, hs.ids_eq, map_swapPop]
  obtain ⟨r', w, hr', hw, hd⟩ := h.relocateEach_dispatches
    (fun _ hm => hp.lives_of_mem_leaving h (List.mem_of_getElem? hid) hm)
    (nodup_fillRelocations hp.nodup_ids hid s.store l)
  simp only [Registry.relocateEach_append, Registry.relocateEach_single, Run.outcome_bind] at hr'
  obtain ⟨r₁, hr₁, hrest⟩ := Checked.bind_eq_ok.1 hr'
  refine ⟨s', r₁, r', w, ?_, hrest, hc, hstore', hlimit, hp.leave h hstore hid hw hd hids hstore', hw, hd⟩
  rw [ho, hr₁, Checked.map_ok]

end Leave

section Removal

variable {κ : Type} {El : κ → Type} [∀ k, Footprint (El k)] {shape : Shape κ} [shape.Proper El]
  {s : Storage shape.Tenant (shape.Rows El)} {es : List (shape.Tenant × shape.Item El)}

def leaving {τ L : Type} [Tenant τ] (s : Storage τ L) (i : Nat) (id : EntityId) (l : Location) :
    List (EntityId × Location) :=
  (if i + 1 < s.size then s.ids.getLast?.toList.map (·, .housed s.store i) else []) ++ [(id, l)]

theorem Carries.take_vacates (hs : s.Carries es) (h : r.Represents v) (hp : s.InPlace r)
    (hstore : s.store ≠ C.stores.invalid) (hi : s.indexOf? r k = some i) (target : StoreId) :
    ∃ x r' s', (s.take r k target).outcome = .ok (some x, r', s') ∧ shape.Vacated s i x s' ∧
      r.Dispatched (s.leaving i k.entity (.pending target)) r' := by
  obtain ⟨e, he, hk, -⟩ := hs.exists_of_indexOf? hi
  obtain ⟨s', r₁, r', w, hr₁, hr', hc, hstore', hlimit, -, hw, hd⟩ := hs.leave he h hp hstore (.pending target)
  have hid := hs.getElem?_ids he
  have hleaving : s.leaving i k.entity (.pending target) =
      fillRelocations s.store s.ids i ++ [(Tenant.id e.1, .pending target)] := by
    rw [leaving, fillRelocations_eq (List.getElem?_eq_some_iff.1 hid).1, length_ids, Registry.entity_of_resolve? hk]
  refine ⟨e.2, r', s', ?_, hs.vacated he hc hstore' hlimit, ?_⟩
  · rw [take, hi]
    simp only [Run.outcome_bind, hr₁, Checked.ok_bind, hr']
    rfl
  · rw [hleaving]
    exact h.dispatched hw hd fun _ hm => hp.lives_of_mem_leaving h (List.mem_of_getElem? hid) hm

omit [shape.Proper El] in
theorem take_misses (hi : s.indexOf? r k = none) (target : StoreId) :
    (s.take r k target).outcome = .ok (none, r, s) := by
  rw [take, hi]
  rfl

end Removal

end Storage

inductive StorageCall.Leaves {C : Config} {ρ : Type} (k : Key) :
    {α : Type} → StorageCall C ρ α → StoreId → (Option ρ → α) → Prop
  | take (target : StoreId) : Leaves k (.take k target) target id
  | remove (target : StoreId) : Leaves k (.remove k target) target Option.isSome
  | erase : Leaves k (.erase k) C.stores.invalid Option.isSome

theorem StorageCall.Leaves.outcome {τ L ρ α : Type} [Tenant τ] [Layout L ρ] [Capacious L] {c : StorageCall C ρ α}
    {target : StoreId} {f : Option ρ → α} (hc : c.Leaves k target f) (r : Registry C) (s : Storage τ L) :
    (c.run r s).outcome = (fun a => (f a.1, a.2)) <$> (s.take r k target).outcome := by
  cases hc with
  | take => exact (id_map _).symm
  | remove | erase => exact Run.outcome_bind _ _

end EntityStore

namespace EntityStore.World

variable {C : Config} {ι κ : Type} {El : κ → Type} {shapes : ι → Shape κ} [DecidableEq ι] [DecidableEq κ]
  [∀ k, Footprint (El k)] {w₀ w : World C El shapes} {v : Ledger C} {i : ι}

structure Removes (w : World C El shapes) (i : ι) : Prop where
  vacates {α : Type} {c : StorageCall C ((shapes i).Item El) α} {k : Key} {target : StoreId}
    {f : Option ((shapes i).Item El) → α} {row : Nat} :
    c.Leaves k target f → (w.stores i).indexOf? w.registry k = some row →
    ∃ x r s, ((WorldCall.store i (.shared (shapes i) c)).run w).outcome = .ok (f (some x), w.put i r s) ∧
      (shapes i).Vacated (w.stores i) row x s ∧
      w.registry.Dispatched ((w.stores i).leaving row k.entity (.pending target)) r
  misses {α : Type} {c : StorageCall C ((shapes i).Item El) α} {k : Key} {target : StoreId}
    {f : Option ((shapes i).Item El) → α} :
    c.Leaves k target f → (w.stores i).indexOf? w.registry k = none →
    ((WorldCall.store i (.shared (shapes i) c)).run w).outcome = .ok (f none, w)

variable [∀ i, (shapes i).Proper El]

theorem Steady.removes (hw : w.Steady v) (hp : (w.stores i).InPlace w.registry) : w.Removes i := by
  obtain ⟨es, hs⟩ := hw.carries i
  constructor
  case vacates =>
    intro α c k target f row hc hrow
    obtain ⟨x, r, s, ho, hvacated, hd⟩ := hs.take_vacates hw.represents hp (hw.store_ne i) hrow target
    refine ⟨x, r, s, outcome_shared hs rfl ?_, hvacated, hd⟩
    rw [hc.outcome, ho, Checked.map_ok]
  case misses =>
    intro α c k target f hc hrow
    apply outcome_idle
    rw [StoreCall.run_shared hs, hc.outcome, Storage.take_misses hrow, Checked.map_ok]

/-- The row of an entity is taken out of each column and the gap is filled with the last row; the registry learns where
both entities are now, and nothing else. -/
theorem removal_exact (h₀ : w₀.Fresh) (h : Leads (fun _ _ => True) w₀ w) (hp : (w.stores i).InPlace w.registry) :
    w.Removes i := by
  obtain ⟨v, hw⟩ := h₀.leads_steady h
  exact hw.removes hp

theorem removal_exact_pair : (housedPair.stores false).indexOf? housedPair.registry (.id 0) = some 0 ∧
    (housedPair.stores false).leaving 0 0 (.pending 2) = [(1, .housed 1 0), (0, .pending 2)] ∧
    housedPair.Removes false :=
  ⟨rfl, rfl, removal_exact pair_fresh housedPair_leads (housedPair_inPlace.stores false)⟩

end EntityStore.World
