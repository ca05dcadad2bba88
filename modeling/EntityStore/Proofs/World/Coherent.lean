import EntityStore.Proofs.World

/-! Coherent worlds: each storage is settled, and no two have one identifier. While entities that are housed are left to
their storages, worlds stay coherent, and every storage is a map from entities to rows that changes as its calls say. -/

namespace EntityStore

variable {C : Config} {ι κ : Type} {El : κ → Type} [∀ k, Footprint (El k)] {shapes : ι → Shape κ}
  [∀ i, (shapes i).Proper El]

theorem Seat.exists_handle? {τ : Type} [Tenant τ] {v : Ledger C} {r : Registry C} {store : StoreId} {i : Nat} {t : τ}
    (h : Seat v store i t) (hr : r.Represents v) :
    ∃ hd, r.handle? (Tenant.id t) = some hd ∧ t = Tenant.ofHandle hd := by
  obtain ⟨g, hg, ht⟩ := h.handle
  refine ⟨_, ?_, ht⟩
  rw [hr.handle?_eq, h.location?, hg]
  rfl

def Shape.handles? : (shape : Shape κ) → Storage shape.Tenant (shape.Rows El) → Option (List Handle)
  | component _, s => some (ComponentStorage.handles s)
  | dense _, _ => none
  | chunked _ _, _ => none

theorem Shape.handles_eq {shape : Shape κ} [shape.Proper El] {s : Storage shape.Tenant (shape.Rows El)} {v : Ledger C}
    {es : List (shape.Tenant × shape.Item El)} {r : Registry C} {hs : List Handle} (hsettled : s.Settled v es)
    (hr : r.Represents v) (hhs : shape.handles? s = some hs) : hs.map some = s.ids.map r.handle? := by
  cases shape with
  | component k =>
    cases hhs
    rw [hsettled.carries.ids_eq, Storage.Carries.handles hsettled.carries, List.map_map, List.map_map]
    refine List.map_congr_left fun e he => ?_
    obtain ⟨i, hi⟩ := List.mem_iff_getElem?.1 he
    obtain ⟨hd, hh, ht⟩ := (hsettled.seat hi).exists_handle? hr
    exact (hh.trans (congrArg some ht.symm)).symm
  | dense ks => cases hhs
  | chunked ks shift => cases hhs

structure World.Coherent (w : World C El shapes) (v : Ledger C) : Prop where
  represents : w.registry.Represents v
  settled (i : ι) : ∃ es, (w.stores i).Settled v es
  distinct : Function.Injective fun i => (w.stores i).store

namespace WorldCall

variable {α : Type} [DecidableEq ι] [DecidableEq κ]

def Serves (w : World C El shapes) : WorldCall C El shapes α → α × World C El shapes → Prop
  | registry _, a => a.2.stores = w.stores
  | store i c, a => (∀ j, j ≠ i → a.2.stores j = w.stores j) ∧
      (a.2.stores i).contents = (c.change (w.stores i).size a.1).apply (w.stores i).ids (w.stores i).contents ∧
      c.Tells w.registry (w.stores i).ids (w.stores i).contents a.1

variable {w : World C El shapes} {v : Ledger C}

theorem run_serves (c : WorldCall C El shapes α) (hw : w.Coherent v) (hc : c.Considerate w) :
    (c.run w).Ends (fun a => (∃ v', a.2.Coherent v') ∧ c.Serves w a) fun f => c.MayFault w f := by
  cases c with
  | registry c =>
    refine Run.Ends.map ((c.run_ends hw.represents).imp ?_ fun _ hf => hf)
    rintro ⟨a, r⟩ ⟨v', hr, hk⟩
    refine ⟨⟨v', hr, fun i => ?_, hw.distinct⟩, rfl⟩
    obtain ⟨es, hs⟩ := hw.settled i
    refine ⟨es, hs.carries, hs.seated.keeps fun t ht => ?_, hs.store_ne⟩
    obtain ⟨j, hj⟩ := hs.seated.seat_of_mem ht
    refine hk _ hj.lives (hc i _ ?_)
    rw [hs.contains_eq hw.represents, hw.represents.resolve?_id_iff.2 ⟨rfl, hj.lives⟩, Option.bind_some]
    obtain ⟨e, he, rfl⟩ := List.mem_map.1 ht
    rw [hs.contents_eq_some_iff.2 ⟨e.1, he, rfl⟩]
    rfl
  | store i c =>
    obtain ⟨es, hs⟩ := hw.settled i
    have hids := (w.stores i).length_ids
    have hrun := c.run_serves hs hw.represents
    rw [hids] at hrun
    refine Run.Ends.map (hrun.imp ?_ fun _ hf => hf)
    rintro ⟨a, r, s⟩ ⟨⟨⟨v', es', hstep⟩, hcontents⟩, htells⟩
    have hstore : ∀ j, (Function.update w.stores i s j).store = (w.stores j).store :=
      (Function.forall_update_iff w.stores fun j s => s.store = (w.stores j).store).2 ⟨hstep.store, fun _ _ => rfl⟩
    -- tenants of the others live outside of this storage, where the call left everybody in place
    have hsettled : ∀ j, ∃ es, (Function.update w.stores i s j).Settled v' es := by
      refine (Function.forall_update_iff w.stores fun _ s => ∃ es, s.Settled v' es).2 ⟨⟨es', hstep.settled⟩, ?_⟩
      intro j hj
      obtain ⟨es, hs'⟩ := hw.settled j
      exact ⟨es, hs'.carries, hs'.seated.beyond hstep.beyond fun h => hj (hw.distinct h), hs'.store_ne⟩
    refine ⟨⟨v', hstep.represents, hsettled, fun j j' h => hw.distinct ?_⟩, fun j hj => ?_, ?_, htells⟩
    · simpa only [hstore] using h
    · exact Function.update_of_ne hj s w.stores
    · rw [hids] at hcontents
      simp only [Function.update_self]
      exact hcontents

end WorldCall

namespace World

variable {w₀ w : World C El shapes} {v : Ledger C}

structure Agrees (w : World C El shapes) : Prop where
  housed (i : ι) (row id : Nat) : (w.stores i).ids[row]? = some id →
    w.registry.isAlive id ∧ w.registry.locationOf? id = some (.housed (w.stores i).store row)
  once (i j : ι) (row row' id : Nat) : (w.stores i).ids[row]? = some id → (w.stores j).ids[row']? = some id →
    i = j ∧ row = row'
  indexOf? (i : ι) (k : Key) (row : Nat) : (w.stores i).indexOf? w.registry k = some row ↔
    w.registry.isValid k ∧ (w.stores i).ids[row]? = some k.entity
  handles (i : ι) (hs : List Handle) : (shapes i).handles? (w.stores i) = some hs →
    hs.map some = (w.stores i).ids.map w.registry.handle?

theorem Coherent.agrees (hw : w.Coherent v) : w.Agrees := by
  have hrow : ∀ (i : ι) (row id : Nat), (w.stores i).ids[row]? = some id →
      v.location? id = some (.housed (w.stores i).store row) := by
    intro i row id hid
    obtain ⟨es, hs⟩ := hw.settled i
    rw [hs.getElem?_ids] at hid
    obtain ⟨e, he, rfl⟩ := Option.map_eq_some_iff.1 hid
    exact (hs.seat he).location?
  refine ⟨?_, ?_, ?_, ?_⟩
  · intro i row id hid
    refine ⟨hw.represents.isAlive_iff.2 ?_, (hw.represents.locationOf?_eq id).trans (hrow i row id hid)⟩
    rw [Ledger.Lives, hrow i row id hid]
    exact Option.some_ne_none _
  · intro i j row row' id hi hj
    have hl := (hrow i row id hi).symm.trans (hrow j row' id hj)
    rw [Option.some_inj, Location.housed, Location.housed, Location.mk.injEq, Option.some_inj] at hl
    exact ⟨hw.distinct hl.1, hl.2⟩
  · intro i k row
    obtain ⟨es, hs⟩ := hw.settled i
    rw [hs.indexOf?_iff hw.represents, hs.getElem?_ids, Registry.isValid, Option.isSome_iff_exists]
    constructor
    · rintro ⟨e, he, hk⟩
      exact ⟨⟨_, hk⟩, by rw [he, Option.map_some, Registry.entity_of_resolve? hk]⟩
    · rintro ⟨⟨id, hk⟩, hid⟩
      obtain ⟨e, he, hid⟩ := Option.map_eq_some_iff.1 hid
      exact ⟨e, he, by rw [hid, hk, Registry.entity_of_resolve? hk]⟩
  · intro i hs hhs
    obtain ⟨es, hsettled⟩ := hw.settled i
    exact Shape.handles_eq hsettled hw.represents hhs

theorem Fresh.coherent (h₀ : w₀.Fresh) (hd : Function.Injective fun i => (w₀.stores i).store) :
    ∃ v, w₀.Coherent v := by
  obtain ⟨v, hv⟩ := h₀.registry.represents
  exact ⟨v, hv, fun i => ⟨[], (h₀.stores i).common.settled v⟩, hd⟩

variable [DecidableEq ι] [DecidableEq κ]

theorem Leads.coherent (h : Leads WorldCall.Considerate w₀ w) (h₀ : ∃ v, w₀.Coherent v) : ∃ v, w.Coherent v := by
  refine h.invariant (I := fun w => ∃ v, w.Coherent v) h₀ ?_
  rintro α w c a w' ⟨v, hw⟩ hc ho
  exact ((c.run_serves hw hc).ok ho).1

theorem pair_leads : ∃ w, Leads WorldCall.Considerate pair w ∧ (w.stores false).ids = [] ∧
    (w.stores true).ids = [1, 0] := by
  refine ⟨_, .step (.store true (.chunked (.shared (.add (.id 0) (.cons false (.cons 3 .nil))))))
    (.step (.store false (.component (.shared (.take (.id 0) 2))))
    (.step (.registry (.erase (.id 2)))
    (.step (.registry (.create .staged ()))
    (.step (.store true (.chunked (.shared (.spawn () (.cons true (.cons 7 .nil))))))
    (.step (.store false (.component (.shared (.spawn () true)))) .refl trivial rfl) trivial rfl)
    (fun _ _ _ => trivial) rfl) ?_ rfl) trivial rfl) trivial rfl, rfl, rfl⟩
  rintro (_ | _) id h hk <;> cases hk <;> cases h

/-- Wherever calls lead that leave housed entities to their storages, the registry and the storages agree, and no such
call stops because an entity is dead. -/
theorem considerate_agrees (h₀ : w₀.Fresh) (hd : Function.Injective fun i => (w₀.stores i).store)
    (h : Leads WorldCall.Considerate w₀ w) : w.Agrees ∧ ∀ {α : Type} (c : WorldCall C El shapes α),
      c.Considerate w → ∀ id, (c.run w).outcome ≠ .error (.deadRelocation id) := by
  obtain ⟨v, hw⟩ := h.coherent (h₀.coherent hd)
  exact ⟨hw.agrees, fun c hc id ho => c.not_deadRelocation_of_mayFault id ((c.run_serves hw hc).error ho)⟩

theorem considerate_agrees_pair : ∃ w, Leads WorldCall.Considerate pair w ∧ (w.stores true).ids = [1, 0] ∧ w.Agrees :=
  have ⟨w, hw, _, hids⟩ := pair_leads
  ⟨w, hw, hids, (considerate_agrees pair_fresh pair_distinct hw).1⟩

/-- Wherever calls lead that leave housed entities to their storages, each storage is a map from the entities it houses
to their rows. A further call changes the maps, and answers of them, as it says. -/
theorem considerate_serves (h₀ : w₀.Fresh) (hd : Function.Injective fun i => (w₀.stores i).store)
    (h : Leads WorldCall.Considerate w₀ w) :
    (∀ i, (w₀.stores i).contents = fun _ => none) ∧
    (∀ i, (w.stores i).ids.Nodup ∧ ∀ id : Nat, id ∈ (w.stores i).ids ↔ ((w.stores i).contents id).isSome) ∧
    ∀ {α : Type} (c : WorldCall C El shapes α), c.Considerate w →
      (c.run w).Ends (c.Serves w) fun f => c.MayFault w f := by
  obtain ⟨v, hw⟩ := h.coherent (h₀.coherent hd)
  refine ⟨fun i => ?_, fun i => ?_, fun c hc => (c.run_serves hw hc).imp (fun _ ha => ha.2) fun _ hf => hf⟩
  · obtain ⟨v₀, hw₀⟩ := h₀.coherent hd
    exact ((h₀.stores i).common.settled v₀).contents_empty [] fun _ => none
  · obtain ⟨es, hs⟩ := hw.settled i
    exact ⟨hs.nodup_ids, fun id => hs.mem_ids_iff⟩

theorem considerate_serves_pair : ∃ w, Leads WorldCall.Considerate pair w ∧ (w.stores true).ids = [1, 0] ∧
    ((w.stores true).contents 0).isSome :=
  have ⟨w, hw, _, hids⟩ := pair_leads
  ⟨w, hw, hids, (((considerate_serves pair_fresh pair_distinct hw).2.1 true).2 0).1 (hids ▸ by decide)⟩

end World

end EntityStore
