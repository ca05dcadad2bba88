import EntityStore.Proofs.World.Removal

/-! Removal in bulk. -/

namespace EntityStore

section

variable {C : Config} {κ : Type} {El : κ → Type} [∀ k, Footprint (El k)] {r r' : Registry C} {v w : Ledger C}

theorem Shape.holds_unique : (shape : Shape κ) → [shape.Proper El] → {l l' : shape.Rows El} →
    {rows : List (shape.Item El)} → LawfulLayout.Holds l rows → LawfulLayout.Holds l' rows → l' = l
  | component _, _, _, _, _, h, h' => Eq.trans h' (Eq.symm h)
  | dense _, _, ⟨_⟩, ⟨_⟩, _, h, h' => congrArg Dense.mk (Eq.trans h' (Eq.symm h))
  | chunked [] shift, hproper, _, _, _, _, _ => absurd rfl (hproper.ne_nil [] shift rfl)
  | chunked (_ :: _) _, _, _, _, _, h, h' => Chunked.Cut.unique h h'

namespace Storage

section Shapes

variable {shape : Shape κ} [shape.Proper El] {s t : Storage shape.Tenant (shape.Rows El)}
  {es : List (shape.Tenant × shape.Item El)}

theorem Carries.unique (hs : s.Carries es) (ht : t.Carries es) (hstore : t.store = s.store)
    (hlimit : t.limit = s.limit) : t = s := by
  have htenants : t.tenants = s.tenants := ht.tenants.trans hs.tenants.symm
  have hrows : t.rows = s.rows := shape.holds_unique hs.rows ht.rows
  cases s
  cases t
  simp only at hstore hlimit htenants hrows
  rw [hstore, hlimit, htenants, hrows]

end Shapes

variable {τ L ρ : Type} [Tenant τ] {s : Storage τ L} {es : List (τ × ρ)} {id : EntityId} {l : Location} {i : Nat}

theorem InPlace.indexOf?_id (hp : s.InPlace r) (hi : s.ids[i]? = some id) : s.indexOf? r (.id id) = some i :=
  hp.indexOf?_of_resolve? (if_pos (hp i id hi).1) hi

variable [Layout L ρ] [LawfulLayout L ρ]

/-- A storage without one of its entities. Whoever was moved, before that entity was sent away, is still here. -/
structure Without (s : Storage τ L) (v : Ledger C) (id : EntityId) (l : Location) (r' : Registry C) (w : Ledger C)
    (s' : Storage τ L) : Prop where
  carries : ∃ es, s'.Carries es
  store : s'.store = s.store
  limit : s'.limit = s.limit
  inPlace : s'.InPlace r'
  tenants : (id :: s'.ids).Perm s.ids
  represents : r'.Represents w
  dispatched : ∃ ls, v.Dispatched (ls ++ [(id, l)]) w ∧ ∀ m ∈ ls, ¬ m.2.isDestroyed C ∧ m.1 ∈ s'.ids

theorem Carries.remove_without (hs : s.Carries es) (h : r.Represents v) (hp : s.InPlace r)
    (hstore : s.store ≠ C.stores.invalid) (hid : id ∈ s.ids) (target : StoreId) :
    ∃ r' s' w, (s.remove r (.id id) target).outcome = .ok (true, r', s') ∧
      s.Without v id (.pending target) r' w s' := by
  obtain ⟨i, hi⟩ := List.mem_iff_getElem?.1 hid
  have hindex := hp.indexOf?_id hi
  obtain ⟨e, he, hk, -⟩ := hs.exists_of_indexOf? hindex
  obtain rfl : id = Tenant.id e.1 := Registry.entity_of_resolve? hk
  obtain ⟨s', r₁, r', w, hr₁, hr', hc, hstore', hlimit, hp', hw, hd⟩ := hs.leave he h hp hstore (.pending target)
  have hids : s'.ids = swapPop s.ids i := by rw [hc.ids_eq, hs.ids_eq, map_swapPop]
  refine ⟨r', s', w, ?_, ⟨_, hc⟩, hstore', hlimit, hp', ?_, hw, _, hd, fun m hm => ?_⟩
  · simp only [remove, take, hindex, Run.outcome_bind, hr₁, Checked.ok_bind, hr']
    rfl
  · rw [hids]
    exact cons_swapPop_perm hi
  · obtain ⟨last, hlast, rfl⟩ := List.mem_map.1 hm
    refine ⟨mt Location.isDestroyed_iff.1 hstore, ?_⟩
    rw [hids]
    exact List.mem_of_getElem? (Option.mem_toList.1 hlast)

theorem map_fst_sent (ids : List EntityId) (l : Location) : (ids.map (·, l)).map Prod.fst = ids := by
  rw [List.map_map]
  exact List.map_id ids

theorem Without.overtake {s' : Storage τ L} {u : Ledger C} {ids : List EntityId} {target : StoreId}
    (hw : s.Without v id (.pending target) r' w s') (hids : s'.ids ⊆ ids) (hid : id ∉ ids)
    (hd : w.Dispatched (ids.map (·, .pending target)) u) :
    v.Dispatched ((id :: ids).map (·, .pending target)) u := by
  obtain ⟨ls, hls, hhere⟩ := hw.dispatched
  apply hls.overtake hd
  · intro m hm
    obtain ⟨hplaced, hmem⟩ := hhere m hm
    rw [map_fst_sent]
    exact ⟨hplaced, hids hmem⟩
  · rwa [map_fst_sent]

omit [LawfulLayout L ρ] in
theorem InPlace.removeAll_dispatches (h : r.Represents v) (hp : s.InPlace r) (target : StoreId) :
    ∃ r' w, (s.removeAll r target).outcome =
        .ok (s.size, r', { s with tenants := #[], rows := Layout.clear s.rows }) ∧
      r'.Represents w ∧ v.Dispatched (s.ids.map (·, .pending target)) w := by
  have hlive : ∀ m ∈ s.ids.map (·, Location.pending target), v.Lives m.1 :=
    List.forall_mem_map.2 fun _ hid => hp.lives h hid
  obtain ⟨r', w, hr', hw, hd⟩ := h.relocateEach_dispatches hlive (by rw [map_fst_sent]; exact hp.nodup_ids)
  refine ⟨r', w, ?_, hw, hd⟩
  rw [removeAll_outcome, hr', Checked.map_ok]

end Storage

end

variable {C : Config} {ι κ : Type} {El : κ → Type} {shapes : ι → Shape κ}

def WorldCall.dismiss (i : ι) (target : StoreId) (id : EntityId) : WorldCall C El shapes Bool :=
  .store i (.shared (shapes i) (.remove (.id id) target))

namespace World

variable [DecidableEq ι] [DecidableEq κ] [∀ k, Footprint (El k)] {w₀ w w' : World C El shapes} {v : Ledger C} {i : ι}

structure Emptied (w : World C El shapes) (i : ι) (target : StoreId) (w' : World C El shapes) : Prop where
  atOnce : ((WorldCall.store i (.shared (shapes i) (.removeAll target))).run w).outcome =
    .ok ((w.stores i).size, w')
  inTurn : (WorldCall.runEach ((w.stores i).ids.map (WorldCall.dismiss i target)) w).outcome =
    .ok (List.replicate (w.stores i).size true, w')
  size : (w'.stores i).size = 0
  store : (w'.stores i).store = (w.stores i).store
  limit : (w'.stores i).limit = (w.stores i).limit
  others (j : ι) : j ≠ i → w'.stores j = w.stores j

variable [∀ i, (shapes i).Proper El]

theorem runEach_dismiss {ids : List EntityId} {s : Storage (shapes i).Tenant ((shapes i).Rows El)}
    {es : List ((shapes i).Tenant × (shapes i).Item El)} (hi : w.stores i = s) (hs : s.Carries es)
    (h : w.registry.Represents v) (hp : s.InPlace w.registry) (hstore : s.store ≠ C.stores.invalid)
    (hids : ids.Perm s.ids) (target : StoreId) :
    ∃ r' s' u, (WorldCall.runEach (ids.map (WorldCall.dismiss i target)) w).outcome =
        .ok (List.replicate ids.length true, w.put i r' s') ∧
      s'.Carries ([] : List ((shapes i).Tenant × (shapes i).Item El)) ∧ s'.store = s.store ∧ s'.limit = s.limit ∧
      r'.Represents u ∧ v.Dispatched (ids.map (·, .pending target)) u := by
  induction ids generalizing w v s es with
  | nil =>
    have hnil : es = [] := by
      have hlength := hids.length_eq
      rw [hs.ids_eq, List.length_map] at hlength
      exact List.length_eq_zero_iff.1 hlength.symm
    subst hnil hi
    refine ⟨w.registry, w.stores i, v, ?_, hs, rfl, rfl, h, Ledger.dispatched_self (List.forall_mem_nil _)⟩
    rw [put, Function.update_eq_self]
    rfl
  | cons id ids ih =>
    obtain ⟨r₁, s₁, v₁, ho, hw⟩ := hs.remove_without h hp hstore (hids.mem_iff.1 List.mem_cons_self) target
    obtain ⟨es₁, hs₁⟩ := hw.carries
    have hids₁ : ids.Perm s₁.ids := (hids.trans hw.tenants.symm).cons_inv
    have hfresh : id ∉ ids := (List.nodup_cons.1 (hids.nodup_iff.2 hp.nodup_ids)).1
    obtain ⟨r', s', u, hrest, hs', hstore', hlimit', hu, hd⟩ :=
      ih (w.stores_put i r₁ s₁) hs₁ hw.represents hw.inPlace (hw.store ▸ hstore) hids₁
    refine ⟨r', s', u, ?_, hs', hstore'.trans hw.store, hlimit'.trans hw.limit, hu,
      hw.overtake (fun _ hid => hids₁.mem_iff.2 hid) hfresh hd⟩
    rw [put_put] at hrest
    exact outcome_runEach (outcome_shared hs hi ho) hrest

theorem Steady.emptied (hw : w.Steady v) (hp : (w.stores i).InPlace w.registry) (target : StoreId) :
    ∃ w', w.Emptied i target w' := by
  obtain ⟨es, hs⟩ := hw.carries i
  obtain ⟨r', s', u, heach, hs', hstore', hlimit', hu, hd⟩ :=
    runEach_dismiss rfl hs hw.represents hp (hw.store_ne i) (.refl _) target
  obtain ⟨r, u', hall, hu', hd'⟩ := hp.removeAll_dispatches hw.represents target
  obtain rfl : u' = u := hd.unique hd'
  obtain rfl : r = r' := hu.unique hu'
  have hempty := hs'.unique hs.clear hstore'.symm hlimit'.symm
  refine ⟨w.put i r s', ?_, ?_, ?_, ?_, ?_, fun j hj => Function.update_of_ne hj _ _⟩
  · apply outcome_shared hs rfl
    rw [← hempty]
    exact hall
  · rw [heach, Storage.length_ids]
  all_goals rw [stores_put]
  · exact hs'.size_eq
  · exact hstore'
  · exact hlimit'

/-- Whether all entities of a storage are removed at once or one after the other in the order of their rows, the same
world is left, with the same free list; and to clear a storage is to remove all where entities are destroyed. -/
theorem removal_in_bulk (h₀ : w₀.Fresh) (h : Leads (fun _ _ => True) w₀ w) (hp : (w.stores i).InPlace w.registry) :
    (∀ target, ∃ w', w.Emptied i target w') ∧
    (WorldCall.store i (.shared (shapes i) .clear)).run w =
      (WorldCall.store i (.shared (shapes i) (.removeAll C.stores.invalid))).run w := by
  obtain ⟨v, hw⟩ := h₀.leads_steady h
  obtain ⟨es, hs⟩ := hw.carries i
  refine ⟨hw.emptied hp, ?_⟩
  rw [WorldCall.run, WorldCall.run, StoreCall.run_shared hs, StoreCall.run_shared hs]
  rfl

theorem removal_in_bulk_pair : ∃ w' : World Config.standard Kind.Value pairShapes,
    w'.registry.freeList = .ok [0, 1] ∧ (w'.stores true).ids = [2] ∧ housedPair.Emptied false 65535 w' := by
  let call : WorldCall Config.standard Kind.Value pairShapes Nat :=
    .store false (.component (.shared (.removeAll 65535)))
  have hcall : (call.run housedPair).outcome = .ok (2, housedPair.after call) := rfl
  obtain ⟨w', hw'⟩ := (removal_in_bulk pair_fresh housedPair_leads (housedPair_inPlace.stores false)).1 65535
  obtain rfl := (Prod.mk.inj (Except.ok.inj (hcall.symm.trans hw'.atOnce))).2
  exact ⟨_, rfl, rfl, hw'⟩

end World

end EntityStore
