import EntityStore.Proofs.World

/-! Sound registries. Whatever is called, also where entities are moved or destroyed behind the storages that house
them, the registry stays sound and the only faults are those of a request for too much room, of a position beyond the
last row, and of a storage that meets a dead tenant. -/

namespace EntityStore

variable {C : Config}

namespace Registry

structure Sound (r : Registry C) : Prop where
  free : ∃ ids : List EntityId, r.freeList = .ok ids ∧ ids.Nodup ∧
    (∀ id : Nat, id ∈ ids ↔ ∃ e, r.records[id]? = some e ∧ ¬ e.isLive) ∧
    r.freeHead = ids.head? ∧ r.freeTail = ids.getLast?
  freeHead : r.freeHead = none ↔ ∀ (id : Nat) (e : Record C), r.records[id]? = some e → e.isLive
  freeTail : r.freeTail = none ↔ ∀ (id : Nat) (e : Record C), r.records[id]? = some e → e.isLive
  living : r.living = r.records.toList.countP Record.isLive
  size_le : r.records.size ≤ r.idLimit
  idLimit_le : r.idLimit ≤ C.ids.invalid
  lt_highWater (id : Nat) : r.isAlive id → id < r.highWater
  highWater_le : r.highWater ≤ r.records.size
  sorted : (r.entities.map (·.1)).Pairwise fun a b : Nat => a < b
  mem_entities (id : Nat) (e : Record C) : (id, e) ∈ r.entities ↔ r.records[id]? = some e ∧ e.isLive
  invalid : r.resolve? (.id C.ids.invalid) = none
  empty : r.resolve? (.handle (.empty C)) = none

namespace Represents

variable {r : Registry C} {v : Ledger C}

theorem dead_iff (h : r.Represents v) (id : Nat) : v.Dead id ↔ ∃ e, r.records[id]? = some e ∧ ¬ e.isLive := by
  constructor
  · rintro ⟨hlt, hl⟩
    obtain ⟨e, he, hf⟩ := h.exists_record hlt
    refine ⟨e, he, ?_⟩
    rw [Ledger.location?, hf, Option.bind_some] at hl
    rw [← Record.isSome_face, hl]
    exact Bool.false_ne_true
  · rintro ⟨e, he, hl⟩
    have hf := h.getElem?_face id
    rw [he, Option.map_some] at hf
    refine ⟨(List.getElem?_eq_some_iff.1 hf).1, ?_⟩
    rw [← Record.isSome_face, Option.not_isSome_iff_eq_none] at hl
    rw [Ledger.location?, hf, Option.bind_some, hl]

theorem queue_eq_nil_iff (h : r.Represents v) :
    v.queue = [] ↔ ∀ (id : Nat) (e : Record C), r.records[id]? = some e → e.isLive := by
  simp only [List.eq_nil_iff_forall_not_mem, h.valid.mem_queue, h.dead_iff, not_exists, not_and, not_not]

theorem not_lives_invalid (h : r.Represents v) : ¬ v.Lives C.ids.invalid := by
  intro hl
  have := hl.lt
  have := h.valid.length_le
  have := h.valid.limit_le
  omega

theorem sound (h : r.Represents v) : r.Sound where
  free := by
    refine ⟨v.queue, h.freeList_eq, h.threaded.nodup, fun id => ?_, h.threaded.chain.head_eq, h.threaded.tail⟩
    rw [h.valid.mem_queue, h.dead_iff]
  freeHead := by rw [h.threaded.chain.head_eq, List.head?_eq_none_iff, h.queue_eq_nil_iff]
  freeTail := by rw [h.threaded.tail, List.getLast?_eq_none_iff, h.queue_eq_nil_iff]
  living := by
    rw [h.living, Ledger.living, ← h.faces, faces, List.countP_map]
    congr 1
    funext e
    exact e.isSome_face
  size_le := by
    rw [h.size_eq, h.idLimit]
    exact h.valid.length_le
  idLimit_le := by
    rw [h.idLimit]
    exact h.valid.limit_le
  lt_highWater id hid := by
    rw [h.highWater]
    exact h.valid.lt_highWater id (h.isAlive_iff.1 hid)
  highWater_le := by
    rw [h.size_eq, h.highWater]
    exact h.valid.highWater_le
  sorted := by
    rw [h.entities_eq, List.pairwise_map]
    exact Ledger.pairwise_entitiesFrom v _ _
  mem_entities := h.mem_entities_iff
  invalid := by
    refine Option.eq_none_iff_forall_ne_some.2 fun id hk => h.not_lives_invalid ?_
    have hid : C.ids.invalid = id := entity_of_resolve? hk
    exact hid ▸ h.lives_of_resolve? hk
  empty := by
    refine Option.eq_none_iff_forall_ne_some.2 fun id hk => h.not_lives_invalid ?_
    have hid : C.ids.invalid = id := entity_of_resolve? hk
    exact hid ▸ h.lives_of_resolve? hk

end Represents

end Registry

variable {ι κ α : Type} {El : κ → Type} [∀ k, Footprint (El k)] {shapes : ι → Shape κ} [∀ i, (shapes i).Proper El]
  {w₀ w : World C El shapes}

structure World.Kept (w : World C El shapes) : Prop where
  represents : ∃ v, w.registry.Represents v
  carries (i : ι) : ∃ es, (w.stores i).Carries es

theorem World.Fresh.kept (h₀ : w₀.Fresh) : w₀.Kept :=
  ⟨h₀.registry.represents, fun i => ⟨[], (h₀.stores i).common.carries⟩⟩

def WorldCall.MeetsDead (f : Fault) : WorldCall C El shapes α → Prop
  | registry _ => False
  | store _ _ => ∃ id, f = .deadRelocation id

variable [DecidableEq ι] [DecidableEq κ]

theorem WorldCall.run_kept (c : WorldCall C El shapes α) (hw : w.Kept) :
    (c.run w).Ends (fun a => a.2.Kept) fun f => c.MeetsDead f ∨ c.MayFault w f := by
  cases c with
  | registry c =>
    obtain ⟨v, hv⟩ := hw.represents
    refine Run.Ends.map ((c.run_ends hv).imp ?_ fun _ hf => .inr hf)
    rintro ⟨a, r⟩ ⟨v', hr, -⟩
    exact ⟨⟨v', hr⟩, hw.carries⟩
  | store i c =>
    obtain ⟨es, hs⟩ := hw.carries i
    refine Run.Ends.map ((c.run_kept Registry.custody_represents hs hw.represents).imp ?_ fun _ hf => hf)
    rintro ⟨a, r, s⟩ ⟨hr, hs'⟩
    exact ⟨hr, (Function.forall_update_iff w.stores fun _ s => ∃ es, s.Carries es).2 ⟨hs', fun j _ => hw.carries j⟩⟩

namespace World

/-- Wherever calls lead, whatever they ask, the registry is sound, and a further call stops only where too much room is
asked for, where a position is beyond the last row, or where a storage meets a dead tenant. -/
theorem registry_sound (h₀ : w₀.Fresh) (h : Leads (fun _ _ => True) w₀ w) :
    w.registry.Sound ∧
    (∀ {α : Type} (c : WorldCall C El shapes α) (f : Fault), (c.run w).outcome = .error f →
      c.MeetsDead f ∨ c.MayFault w f) ∧
    ∀ (s : RegistrySettings) (f : Fault), (Registry.ofSettings C s).outcome = .error f → f = .capacityOverflow := by
  have hw : w.Kept := h.invariant h₀.kept fun w c a w' hw _ ho => (c.run_kept hw).ok ho
  obtain ⟨v, hv⟩ := hw.represents
  exact ⟨hv.sound, fun c f hf => (c.run_kept hw).error hf, fun s f hf => (Registry.ofSettings_ends C s).error hf⟩

theorem registry_sound_pair : ∃ w, Leads (fun _ _ => True) pair w ∧ (w.stores false).ids = [0, 1] ∧
    w.registry.freeList = .ok [0] ∧ w.registry.Sound := by
  have h : ∃ w, Leads (fun _ _ => True) pair w ∧ (w.stores false).ids = [0, 1] ∧ w.registry.freeList = .ok [0] :=
    ⟨_, .step (.registry (.erase (.id 0)))
      (.step (.store false (.component (.shared (.spawn () false))))
      (.step (.store false (.component (.shared (.spawn () true)))) .refl trivial rfl) trivial rfl) trivial rfl,
      rfl, rfl⟩
  obtain ⟨w, hw, hids, hfree⟩ := h
  exact ⟨w, hw, hids, hfree, (registry_sound pair_fresh hw).1⟩

end World

end EntityStore
