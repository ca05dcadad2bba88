import EntityStore.Proofs.Registry.Dispatch
import EntityStore.Proofs.World.Journal

/-! Entities of a world that are destroyed in one sweep over the registry, and one by one. -/

namespace EntityStore

variable {C : Config} {ι κ : Type} {El : κ → Type} {shapes : ι → Shape κ} {v : Ledger C} {ids : List EntityId}

def WorldCall.expel (id : EntityId) : WorldCall C El shapes Bool := .registry (.erase (.id id))

namespace World

variable [DecidableEq ι] [DecidableEq κ] [∀ k, Footprint (El k)] {w₀ w w' : World C El shapes}
  {p : Predicate (EntityId × Record C)}

def culled (w : World C El shapes) (p : Predicate (EntityId × Record C)) : List EntityId :=
  (p.hits #[] w.registry.entities).map Prod.fst

structure Culled (w : World C El shapes) (p : Predicate (EntityId × Record C)) (w' : World C El shapes) : Prop where
  atOnce : ((WorldCall.registry (.eraseWhere p)).run w).outcome =
    .ok ((w.registry.entities.toArray, (w.culled p).length), w')
  inTurn : (WorldCall.runEach ((w.culled p).map WorldCall.expel) w).outcome =
    .ok (List.replicate (w.culled p).length true, w')
  alive (id : EntityId) : w'.registry.isAlive id ↔ w.registry.isAlive id ∧ id ∉ w.culled p
  dispatched : w.registry.Dispatched ((w.culled p).map (·, .destroyed C)) w'.registry
  stores : w'.stores = w.stores

structure Culls (w : World C El shapes) : Prop where
  ascending : w.registry.entities.Pairwise fun a b => (a.1 : Nat) < b.1
  everyone (id : EntityId) (e : Record C) : (id, e) ∈ w.registry.entities ↔ w.registry.records[id]? = some e ∧ e.isLive
  sweeps (p : Predicate (EntityId × Record C)) : ∃ w', w.Culled p w'
  clears : ∃ w', w.Culled (fun _ _ => true) w' ∧ ((WorldCall.registry .clear).run w).outcome = .ok ((), w')

theorem runEach_expel (w : World C El shapes) (h : w.registry.Represents v) (hl : ∀ id ∈ ids, v.Lives id)
    (hn : ids.Nodup) :
    ∃ r, (WorldCall.runEach (ids.map WorldCall.expel) w).outcome =
        .ok (List.replicate ids.length true, { w with registry := r }) ∧
      r.Represents (v.destroyAll ids) := by
  induction ids generalizing w v with
  | nil => exact ⟨w.registry, rfl, h⟩
  | cons id ids ih =>
    obtain ⟨hid, hids⟩ := List.forall_mem_cons.1 hl
    rw [List.nodup_cons] at hn
    have hk : w.registry.resolve? (.id id) = some id := by
      rw [Registry.resolve?, if_pos (h.isAlive_iff.2 hid)]
    obtain ⟨r₁, hr₁, h₁⟩ := h.erase (.id id)
    rw [hk] at hr₁ h₁
    have hids₁ : ∀ j ∈ ids, (v.destroy id).Lives j := by
      intro j hj
      exact Ledger.lives_destroy.2 ⟨hids j hj, ne_of_mem_of_not_mem hj hn.1⟩
    obtain ⟨r, hr, hv⟩ := ih { w with registry := r₁ } h₁ hids₁ hn.2
    exact ⟨r, outcome_runEach (outcome_registry hr₁) hr, hv⟩

omit [DecidableEq κ] [∀ k, Footprint (El k)] [DecidableEq ι] in
theorem culled_sublist (h : w.registry.Represents v) : (w.culled p).Sublist (v.entities.map Prod.fst) := by
  rw [culled, h.entities_eq]
  exact (p.hits_sublist _ _).map _

omit [DecidableEq κ] [∀ k, Footprint (El k)] [DecidableEq ι] in
theorem lives_of_mem_culled (h : w.registry.Represents v) {id : EntityId} (hid : id ∈ w.culled p) : v.Lives id := by
  obtain ⟨e, he, rfl⟩ := List.mem_map.1 ((culled_sublist h).subset hid)
  exact Ledger.lives_of_mem_entities he

theorem exists_culled (h : w.registry.Represents v) (p : Predicate (EntityId × Record C)) :
    ∃ r, r.Represents (v.destroyAll (w.culled p)) ∧ w.Culled p { w with registry := r } := by
  have hl : ∀ id ∈ w.culled p, v.Lives id := fun _ hid => lives_of_mem_culled h hid
  have hn : (w.culled p).Nodup := (culled_sublist h).nodup v.nodup_entities
  obtain ⟨r, hr, hv⟩ := h.eraseWhere p
  obtain ⟨r', heach, hv'⟩ := runEach_expel w h hl hn
  obtain rfl : r' = r := hv.unique hv'
  refine ⟨r', hv, outcome_registry ?_, heach, fun id => ?_, ?_, rfl⟩
  · rw [RegistryCall.run, Run.outcome_map, hr, culled, List.length_map]
    rfl
  · rw [hv.isAlive_iff, h.isAlive_iff]
    exact Ledger.lives_destroyAll
  · exact h.dispatched hv (Ledger.dispatched_destroyAll hl hn) (by simpa using hl)

theorem culls_of_represents (h : w.registry.Represents v) : w.Culls where
  ascending := h.pairwise_entities
  everyone := h.mem_entities_iff
  sweeps p := by
    obtain ⟨r, -, hr⟩ := exists_culled h p
    exact ⟨_, hr⟩
  clears := by
    have hall : w.culled (fun _ _ => true) = v.entities.map Prod.fst := by
      rw [culled, Predicate.hits_always, h.entities_eq]
    obtain ⟨r, hv, hr⟩ := exists_culled h fun _ _ => true
    obtain ⟨r', hclear, hv'⟩ := h.clear
    rw [hall] at hv
    obtain rfl : r' = r := hv.unique hv'
    refine ⟨_, hr, outcome_registry ?_⟩
    rw [RegistryCall.run, Run.outcome_map, hclear]
    rfl

variable [∀ i, (shapes i).Proper El]

/-- However the free slots lie between the living, and whatever the predicate remembers, a sweep over the registry is
erasure one by one; to clear the registry is to sweep it with a predicate that always says yes. -/
theorem cull_exact (h₀ : w₀.Fresh) (h : Leads (fun _ _ => True) w₀ w) : w.Culls := by
  obtain ⟨v, hw⟩ := h₀.leads_steady h
  exact culls_of_represents hw.represents

theorem cull_exact_pair : ∃ w w' : World Config.standard Kind.Value pairShapes, Leads (fun _ _ => True) pair w ∧
    w.registry.freeList = .ok [3, 1] ∧ w.Culled (fun asked _ => asked.size % 2 == 0) w' ∧
    w'.registry.freeList = .ok [3, 1, 0, 4] := by
  let p : Predicate (EntityId × Record Config.standard) := fun asked _ => asked.size % 2 == 0
  let call : WorldCall Config.standard Kind.Value pairShapes (Array (EntityId × Record Config.standard) × Nat) :=
    .registry (.eraseWhere p)
  have h : ∃ w, Leads (fun _ _ => True) pair w ∧ w.registry.freeList = .ok [3, 1] ∧
      (call.run w).outcome = .ok ((w.registry.entities.toArray, 2), w.after call) ∧
      (w.after call).registry.freeList = .ok [3, 1, 0, 4] :=
    ⟨_, .step (.registry (.erase (.id 1)))
      (.step (.registry (.erase (.id 3)))
      (.step (.registry (.create .staged ()))
      (.step (.registry (.create .staged ()))
      (.step (.registry (.create .staged ()))
      (.step (.registry (.create .staged ()))
      (.step (.registry (.create .staged ())) .refl trivial rfl) trivial rfl) trivial rfl) trivial rfl) trivial rfl)
      trivial rfl) trivial rfl, rfl, rfl, rfl⟩
  obtain ⟨w, hw, hfree, hcall, hfree'⟩ := h
  obtain ⟨w', hw'⟩ := (cull_exact pair_fresh hw).sweeps p
  obtain rfl := (Prod.mk.inj (Except.ok.inj (hcall.symm.trans hw'.atOnce))).2
  exact ⟨w, _, hw, hfree, hw', hfree'⟩

end World

end EntityStore
