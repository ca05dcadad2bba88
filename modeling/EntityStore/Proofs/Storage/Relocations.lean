import EntityStore.Proofs.Registry.Relocations
import EntityStore.Proofs.Storage.Carries

/-! What storages ask of the registry: nothing but to relocate entities, one after the other. Which ones, where to, and
what becomes of the storage is told by its entries; the registry that carries it out has no say in it. -/

namespace EntityStore

variable {C : Config} {α β σ : Type} {r : Registry C} {v : Ledger C} {ls : List (EntityId × Location)}

def Registry.Relocates (r : Registry C) (v : Ledger C) (ls : List (EntityId × Location)) (F : Fault → Prop)
    (x : Run (α × Registry C × σ)) : Prop :=
  x.Ends
    (fun a => Registry.stumble? C r.isAlive ls = none ∧
      ∃ w, a.2.1.Represents w ∧ ∀ j : Nat, v.Lives j → j ∉ ls.map Prod.fst → w.faces[j]? = v.faces[j]?)
    fun f => F f ∧ ls = [] ∨ ∃ id, Registry.stumble? C r.isAlive ls = some id ∧ f = .deadRelocation id

namespace Registry.Represents

variable {F : Fault → Prop} {x : Run (α × Registry C × σ)} {a : α} {s : σ}

theorem relocates (h : r.Represents v) (ho : x.outcome = (fun r' => (a, r', s)) <$> (r.relocateEach ls).outcome) :
    r.Relocates v ls F x := by
  have hx : x.outcome = ((fun r' => (a, r', s)) <$> r.relocateEach ls).outcome := ho.trans (Run.outcome_map _ _).symm
  rw [Relocates, Run.Ends, hx]
  apply Run.Ends.map
  refine (h.relocateEach_ends ls).imp ?_ fun _ hf => .inr hf
  rintro r' ⟨hnone, w, hw, hfaces⟩
  exact ⟨hnone, w, hw, fun j _ hj => hfaces j hj⟩

theorem relocates_nil (h : r.Represents v) (ho : x.outcome = .ok (a, r, s)) : r.Relocates v [] F x :=
  h.relocates ho

end Registry.Represents

namespace Run

theorem outcome_answer {x : Run (α × Registry C × σ)} {y : Checked (Registry C)} {a : α} {s : σ} (f : α → β)
    (h : x.outcome = (fun r => (a, r, s)) <$> y) :
    (x >>= fun b => pure (f b.1, b.2.1, b.2.2)).outcome = (fun r => (f a, r, s)) <$> y := by
  rw [outcome_bind, h]
  cases y with
  | ok r => rfl
  | error f => rfl

end Run

namespace Storage

variable {τ L ρ : Type}

def fillRelocations (store : StoreId) (ids : List EntityId) (i : Nat) : List (EntityId × Location) :=
  (swapPop ids i)[i]?.toList.map (·, .housed store i)

def leaveRelocations [Tenant τ] (s : Storage τ L) (r : Registry C) (k : Key) (l : Location) :
    List (EntityId × Location) :=
  (s.indexOf? r k).elim [] fun i => fillRelocations s.store s.ids i ++ [(k.entity, l)]

def accepted? (s : Storage τ L) (r : Registry C) (k : Key) : Option EntityId :=
  (r.resolve? k).filter fun id => s.size < s.limit ∧ r.locationOf? id = some (.pending s.store)

def enterRelocations (s : Storage τ L) (r : Registry C) (k : Key) : List (EntityId × Location) :=
  (s.accepted? r k).toList.map (·, .housed s.store s.size)

def sweepRelocations [Tenant τ] (C : Config) (g : Nat → τ → ρ → Option α) (p : Predicate α) (store : StoreId) :
    (n : Nat) → (es : List (τ × ρ)) → (i : Nat) → Array α → List (EntityId × Location)
  | 0, _, _, _ => []
  | n + 1, es, i, asked =>
    match es[i]? with
    | none => []
    | some e =>
      match g i e.1 e.2 with
      | none => sweepRelocations C g p store n es (i + 1) asked
      | some q =>
        if p asked q then
          fillRelocations store (es.map fun e => Tenant.id e.1) i ++ [(Tenant.id e.1, .destroyed C)] ++
            sweepRelocations C g p store n (swapPop es i) i (asked.push q)
        else sweepRelocations C g p store n es (i + 1) (asked.push q)

theorem sweepRelocations_blind [Tenant τ] {g : Nat → τ → ρ → Option α} (h : ∀ i t x, g i t x = none) (p : Predicate α)
    (store : StoreId) (n : Nat) (es : List (τ × ρ)) (i : Nat) (asked : Array α) :
    sweepRelocations C g p store n es i asked = [] := by
  induction n generalizing i with
  | zero => rfl
  | succ n ih =>
    rw [sweepRelocations]
    cases es[i]? with
    | none => rfl
    | some e =>
      dsimp only
      rw [h]
      exact ih (i + 1)

def listing [Layout L ρ] (s : Storage τ L) : List (τ × ρ) :=
  s.tenants.toList.zipIdx.filterMap fun e => (Layout.read s.rows e.2).toOption.map (e.1, ·)

theorem accepted?_eq_some_iff {s : Storage τ L} {k : Key} {id : Nat} :
    s.accepted? r k = some id ↔ s.Accepts r k id := by
  rw [accepted?, Option.filter_eq_some_iff]
  simp only [decide_eq_true_eq]
  exact ⟨fun ⟨hk, hroom, hl⟩ => ⟨hk, hroom, hl⟩, fun ⟨hk, hroom, hl⟩ => ⟨hk, hroom, hl⟩⟩

theorem Carries.listing_eq [Layout L ρ] [LawfulLayout L ρ] {s : Storage τ L} {es : List (τ × ρ)} (hs : s.Carries es) :
    s.listing = es := by
  have key : ∀ (es : List (τ × ρ)) (k : Nat),
      (∀ (i : Nat) e, es[i]? = some e → Layout.read s.rows (k + i) = .ok e.2) →
        ((es.map (·.1)).zipIdx k).filterMap (fun e => (Layout.read s.rows e.2).toOption.map (e.1, ·)) = es := by
    intro es
    induction es with
    | nil => exact fun _ _ => rfl
    | cons e es ih =>
      intro k hread
      have he : Layout.read s.rows k = .ok e.2 := hread 0 e rfl
      have hes := ih (k + 1) fun i e' hi => by
        rw [Nat.add_assoc, Nat.add_comm 1 i]
        exact hread (i + 1) e' hi
      rw [List.map_cons, List.zipIdx_cons, List.filterMap_cons, he, hes]
      rfl
  rw [listing, hs.tenants]
  apply key es 0
  intro i e hi
  rw [Nat.zero_add]
  exact hs.read hi

variable [Tenant τ] [Layout L ρ]

theorem relocateAll_eq (r : Registry C) (target : StoreId) (ids : List EntityId) :
    relocateAll r target ids = r.relocateEach (ids.map (·, .pending target)) := by
  induction ids generalizing r with
  | nil => rfl
  | cons id ids ih => simp only [relocateAll, List.map_cons, Registry.relocateEach, ih]

theorem fillGap_outcome (r : Registry C) (store : StoreId) (i : Nat) (moved : Option τ) :
    (fillGap r store i moved).outcome =
      (r.relocateEach (moved.toList.map fun t => (Tenant.id t, .housed store i))).outcome := by
  cases moved with
  | none => rfl
  | some t =>
    simp only [fillGap, Option.toList_some, List.map_cons, List.map_nil, Registry.relocateEach_single,
      Run.outcome_bind, Run.outcome_note, Checked.ok_bind, Run.outcome_pure]
    exact bind_pure _

theorem removeAll_outcome (s : Storage τ L) (r : Registry C) (target : StoreId) :
    (s.removeAll r target).outcome = (fun r => (s.size, r, { s with tenants := #[], rows := Layout.clear s.rows })) <$>
      (r.relocateEach (s.ids.map (·, .pending target))).outcome := by
  rw [removeAll, relocateAll_eq, Run.outcome_bind]
  cases (r.relocateEach (s.ids.map (·, .pending target))).outcome with
  | ok r => rfl
  | error f => rfl

variable [LawfulLayout L ρ] {s : Storage τ L} {es : List (τ × ρ)} {e : τ × ρ} {i : Nat}

namespace Carries

theorem removeAt_relocates (hs : s.Carries es) (hi : es[i]? = some e) :
    ∃ s', s'.Carries (swapPop es i) ∧ s'.store = s.store ∧ s'.limit = s.limit ∧
      ∀ r : Registry C, (s.removeAt r i).outcome =
        (fun r => (e, r, s')) <$> (r.relocateEach (fillRelocations s.store s.ids i)).outcome := by
  obtain ⟨s', hc, hstore, hlimit, hrun⟩ := hs.removeAt hi
  have hmoved : fillRelocations s.store s.ids i =
      ((swapPop es i)[i]?.map (·.1)).toList.map fun t => (Tenant.id t, .housed s.store i) := by
    rw [fillRelocations, hs.ids_eq, ← map_swapPop, List.getElem?_map]
    cases (swapPop es i)[i]? with
    | none => rfl
    | some e => rfl
  refine ⟨s', hc, hstore, hlimit, fun r => ?_⟩
  rw [hrun, Run.outcome_map, fillGap_outcome, hmoved]

theorem removeAt_sends (hs : s.Carries es) (hi : es[i]? = some e) :
    ∃ s', s'.Carries (swapPop es i) ∧ s'.store = s.store ∧ ∀ (r : Registry C) (l : Location)
      (f : (τ × ρ) → Registry C → Storage τ L → Run σ),
        (s.removeAt r i >>= fun a => a.2.1.relocate (Tenant.id a.1.1) l >>= fun r => f a.1 r a.2.2).outcome =
          (r.relocateEach (fillRelocations s.store s.ids i ++ [(Tenant.id e.1, l)])).outcome >>= fun r =>
            (f e r s').outcome := by
  obtain ⟨s', hc, hstore, -, ho⟩ := hs.removeAt_relocates hi
  refine ⟨s', hc, hstore, fun r l f => ?_⟩
  rw [Run.outcome_bind, ho, Registry.relocateEach_append, Run.outcome_bind]
  cases (r.relocateEach (fillRelocations s.store s.ids i)).outcome with
  | error f => rfl
  | ok r₁ => simp only [Checked.map_ok, Checked.ok_bind, Registry.relocateEach_single, Run.outcome_bind]

theorem take_relocates (hs : s.Carries es) (r : Registry C) (k : Key) (target : StoreId) :
    ∃ a s', (∃ es', s'.Carries es') ∧ ∀ r₁ : Registry C, s.indexOf? r₁ k = s.indexOf? r k →
      (s.take r₁ k target).outcome =
        (fun r => (a, r, s')) <$> (r₁.relocateEach (s.leaveRelocations r k (.pending target))).outcome := by
  cases hi : s.indexOf? r k with
  | none =>
    refine ⟨none, s, ⟨es, hs⟩, fun r₁ hr₁ => ?_⟩
    rw [take, hr₁, leaveRelocations, hi]
    rfl
  | some i =>
    obtain ⟨e, he, hk, -⟩ := hs.exists_of_indexOf? hi
    obtain ⟨s', hc, -, ho⟩ := hs.removeAt_sends (C := C) he
    refine ⟨some e.2, s', ⟨_, hc⟩, fun r₁ hr₁ => ?_⟩
    rw [take, hr₁, leaveRelocations, hi, Option.elim_some, Registry.entity_of_resolve? hk]
    have hrun := ho r₁ (.pending target) fun e r s => pure (some e.2, r, s)
    refine hrun.trans ?_
    cases (r₁.relocateEach (fillRelocations s.store s.ids i ++ [(Tenant.id e.1, .pending target)])).outcome with
    | error f => rfl
    | ok r₂ => rfl

theorem remove_relocates (hs : s.Carries es) (r : Registry C) (k : Key) (target : StoreId) :
    ∃ a s', (∃ es', s'.Carries es') ∧ ∀ r₁ : Registry C, s.indexOf? r₁ k = s.indexOf? r k →
      (s.remove r₁ k target).outcome =
        (fun r => (a, r, s')) <$> (r₁.relocateEach (s.leaveRelocations r k (.pending target))).outcome := by
  obtain ⟨a, s', hc, ho⟩ := hs.take_relocates r k target
  exact ⟨a.isSome, s', hc, fun r₁ hr₁ => Run.outcome_answer Option.isSome (ho r₁ hr₁)⟩

theorem add_relocates (hs : s.Carries es) (r : Registry C) (k : Key) (x : ρ) :
    ∃ a s', (∃ es', s'.Carries es') ∧ ∀ r₁ : Registry C, s.accepted? r₁ k = s.accepted? r k →
      r₁.handle? k.entity = r.handle? k.entity →
        (s.add r₁ k x).outcome = (fun r => (a, r, s')) <$> (r₁.relocateEach (s.enterRelocations r k)).outcome := by
  cases hk : s.accepted? r k with
  | none =>
    refine ⟨false, s, ⟨es, hs⟩, fun r₁ hr₁ _ => ?_⟩
    rw [enterRelocations, hk]
    refine add_outcome_of_refused x fun id hid => ?_
    rw [← accepted?_eq_some_iff, hr₁] at hid
    cases hid
  | some id =>
    have ha := accepted?_eq_some_iff.1 hk
    obtain ⟨hd, hh⟩ := Registry.exists_handle? ha.pending
    obtain ⟨s', hc, -, -, hadd⟩ := hs.enter (C := C) hd x
    refine ⟨true, s', ⟨_, hc⟩, fun r₁ hr₁ hh₁ => ?_⟩
    rw [Registry.entity_of_resolve? ha.resolves, hh] at hh₁
    rw [hadd (accepted?_eq_some_iff.1 hr₁) hh₁, enterRelocations, hk, Run.outcome_map, hs.size_eq]
    exact congrArg _ (congrArg Run.outcome (Registry.relocateEach_single r₁ id _).symm)

end Carries

section Sweep

variable {view : Storage τ L → Nat → Checked (Option α)} {g : Nat → τ → ρ → Option α}

theorem Carries.sweepFrom_relocates (C : Config) (hview : Reads view g) (p : Predicate α) {n : Nat} (hs : s.Carries es)
    (hn : i + n = es.length) (asked : Array α) (erased : Nat) :
    ∃ asked' erased' s', (∃ es', s'.Carries es') ∧ ∀ r : Registry C,
      (sweepFrom view p n i ⟨(r, s), asked, erased⟩).outcome = (fun r => ⟨(r, s'), asked', erased'⟩) <$>
        (r.relocateEach (sweepRelocations C g p s.store n es i asked)).outcome := by
  induction n generalizing i s es asked erased with
  | zero => exact ⟨asked, erased, s, ⟨es, hs⟩, fun _ => rfl⟩
  | succ n ih =>
    obtain ⟨e, hi⟩ : ∃ e, es[i]? = some e := ⟨es[i], List.getElem?_eq_getElem (by omega)⟩
    simp only [sweepFrom, hview s es i e hs hi, sweepRelocations, hi]
    cases hq : g i e.1 e.2 with
    | none => exact ih hs (by omega) asked erased
    | some q =>
      dsimp only
      by_cases hp : p asked q
      · simp only [if_pos hp]
        obtain ⟨s₁, hs₁, hstore, ho⟩ := hs.removeAt_sends (C := C) hi
        obtain ⟨asked', erased', s', hc, hrest⟩ :=
          ih hs₁ (i := i) (by rw [length_swapPop]; omega) (asked.push q) (erased + 1)
        refine ⟨asked', erased', s', hc, fun r => ?_⟩
        refine (ho r (.destroyed C) fun _ r s => sweepFrom view p n i ⟨(r, s), asked.push q, erased + 1⟩).trans ?_
        rw [hs.ids_eq, ← hstore]
        generalize fillRelocations s₁.store _ i ++ [(Tenant.id e.1, Location.destroyed C)] = gone
        rw [Registry.relocateEach_append, Run.outcome_bind, map_bind]
        exact congrArg _ (funext hrest)
      · simp only [if_neg hp]
        exact ih hs (by omega) (asked.push q) erased

theorem Carries.sweep_relocates (C : Config) (hview : Reads view g) (p : Predicate α) (hs : s.Carries es) :
    ∃ a s', (∃ es', s'.Carries es') ∧ ∀ r : Registry C, (Swept.answer <$> s.sweep view p r).outcome =
      (fun r => (a, r, s')) <$>
        (r.relocateEach (sweepRelocations C g p s.store s.size s.listing 0 #[])).outcome := by
  have hn : 0 + s.size = es.length := by rw [Nat.zero_add, hs.size_eq]
  obtain ⟨asked, erased, s', hc, ho⟩ := hs.sweepFrom_relocates C hview p hn #[] 0
  refine ⟨(asked, erased), s', hc, fun r => ?_⟩
  rw [Run.outcome_map, sweep, ho, hs.listing_eq, ← comp_map]
  rfl

end Sweep

section Members

omit [Layout L ρ] [LawfulLayout L ρ]

variable {store : StoreId} {ids : List EntityId} {k : Key} {l : Location} {m : EntityId × Location}

theorem fillRelocations_eq (hi : i < ids.length) : fillRelocations store ids i =
    if i + 1 < ids.length then ids.getLast?.toList.map (·, .housed store i) else [] := by
  rw [fillRelocations, getElem?_swapPop hi]
  split
  · rw [if_pos rfl]
  · rfl

theorem mem_fillRelocations (h : m ∈ fillRelocations store ids i) : m.1 ∈ ids ∧ m.2 = .housed store i := by
  obtain ⟨id, hid, rfl⟩ := List.mem_map.1 h
  exact ⟨mem_of_mem_swapPop (List.mem_of_getElem? (Option.mem_toList.1 hid)), rfl⟩

theorem mem_ids_of_indexOf? (h : s.indexOf? r k = some i) : k.entity ∈ s.ids := by
  obtain ⟨id, hk, -, ht⟩ := indexOf?_eq_some_iff.1 h
  rw [Registry.entity_of_resolve? hk]
  exact List.mem_of_getElem? ht

theorem mem_leaveRelocations (h : m ∈ s.leaveRelocations r k l) :
    m.1 ∈ s.ids ∧ (m.2 = l ∨ ∃ i, m.2 = .housed s.store i) := by
  rw [leaveRelocations] at h
  cases hi : s.indexOf? r k with
  | none =>
    rw [hi] at h
    cases h
  | some i =>
    rw [hi, Option.elim_some, List.mem_append, List.mem_singleton] at h
    rcases h with h | rfl
    · obtain ⟨hid, hl⟩ := mem_fillRelocations h
      exact ⟨hid, .inr ⟨i, hl⟩⟩
    · exact ⟨mem_ids_of_indexOf? hi, .inl rfl⟩

omit [Tenant τ] in
theorem mem_enterRelocations (h : m ∈ s.enterRelocations r k) :
    s.Accepts r k m.1 ∧ m.2 = .housed s.store s.size := by
  obtain ⟨id, hid, rfl⟩ := List.mem_map.1 h
  exact ⟨accepted?_eq_some_iff.1 (Option.mem_toList.1 hid), rfl⟩

theorem mem_sweepRelocations {g : Nat → τ → ρ → Option α} {p : Predicate α} {n : Nat} {asked : Array α}
    (h : m ∈ sweepRelocations C g p store n es i asked) : m.1 ∈ es.map fun e => Tenant.id e.1 := by
  induction n generalizing es i asked with
  | zero => cases h
  | succ n ih =>
    rw [sweepRelocations] at h
    cases hi : es[i]? with
    | none =>
      rw [hi] at h
      cases h
    | some e =>
      rw [hi] at h
      dsimp only at h
      cases hq : g i e.1 e.2 with
      | none =>
        rw [hq] at h
        exact ih h
      | some q =>
        rw [hq] at h
        dsimp only at h
        split at h
        · rw [List.mem_append, List.mem_append, List.mem_singleton] at h
          rcases h with (h | rfl) | h
          · exact (mem_fillRelocations h).1
          · exact List.mem_map_of_mem (f := fun e => Tenant.id e.1) (List.mem_of_getElem? hi)
          · have hm := ih h
            rw [map_swapPop] at hm
            exact mem_of_mem_swapPop hm
        · exact ih h

variable {alive : EntityId → Bool}

theorem stumble?_leave (hs : s.store ≠ C.stores.invalid) (h : r.Represents v) (k : Key) (l : Location) :
    (Registry.stumble? C r.isAlive (s.leaveRelocations r k l)).isSome ↔
      ∃ i id, s.indexOf? r k = some i ∧ i + 1 < s.size ∧ s.ids.getLast? = some id ∧ ¬ r.isAlive id := by
  rw [leaveRelocations]
  cases hi : s.indexOf? r k with
  | none => simp [Registry.stumble?]
  | some i =>
    obtain ⟨id, hk, -, ht⟩ := indexOf?_eq_some_iff.1 hi
    have hself : Registry.stumble? C r.isAlive [(k.entity, l)] = none := by
      rw [Registry.entity_of_resolve? hk]
      exact if_pos (h.isAlive_iff.2 (h.lives_of_resolve? hk))
    rw [Option.elim_some, fillRelocations_eq (List.getElem?_eq_some_iff.1 ht).1, length_ids]
    by_cases hlast : i + 1 < s.size
    · obtain ⟨m, hm⟩ : ∃ m, s.ids.getLast? = some m := by
        rw [← Option.isSome_iff_exists, List.getLast?_isSome]
        rintro hnil
        rw [hnil] at ht
        cases ht
      rw [if_pos hlast, hm, Option.toList_some, List.map_singleton, List.singleton_append]
      by_cases ha : r.isAlive m
      · rw [Registry.stumble?_placed ha (mt Location.isDestroyed_iff.1 hs), hself]
        simp [ha]
      · rw [Registry.stumble?_dead ha]
        simp [ha, hlast]
    · rw [if_neg hlast, List.nil_append, hself]
      simp [hlast]

omit [Tenant τ] in
theorem stumble?_enter (h : r.Represents v) (k : Key) :
    Registry.stumble? C r.isAlive (s.enterRelocations r k) = none := by
  rw [enterRelocations]
  cases hk : s.accepted? r k with
  | none => rfl
  | some id => exact if_pos (h.isAlive_iff.2 (h.lives_of_resolve? (accepted?_eq_some_iff.1 hk).resolves))

theorem stumble?_sweep (hs : store ≠ C.stores.invalid) {g : Nat → τ → ρ → Option α} {p : Predicate α} {n : Nat}
    {asked : Array α} (halive : ∀ e ∈ es, alive (Tenant.id e.1)) (hn : (es.map fun e => Tenant.id e.1).Nodup) :
    Registry.stumble? C alive (sweepRelocations C g p store n es i asked) = none := by
  induction n generalizing es i asked alive with
  | zero => rfl
  | succ n ih =>
    rw [sweepRelocations]
    cases hi : es[i]? with
    | none => rfl
    | some e =>
      dsimp only
      cases hq : g i e.1 e.2 with
      | none => exact ih halive hn
      | some q =>
        dsimp only
        split
        · have he := halive e (List.mem_of_getElem? hi)
          have hperm := cons_swapPop_perm hi
          have hn' := (hperm.map fun e => Tenant.id e.1).nodup_iff.2 hn
          rw [List.map_cons, List.nodup_cons] at hn'
          rw [List.append_assoc, Registry.stumble?_append_placed, List.singleton_append,
            Registry.stumble?_destroyed he (Location.isDestroyed_iff.2 rfl)]
          · -- the one who is destroyed has no other row
            refine ih (fun e' he' => ?_) hn'.2
            rw [Function.update_of_ne (ne_of_mem_of_not_mem (List.mem_map_of_mem he') hn'.1)]
            exact halive e' (hperm.subset (List.mem_cons_of_mem e he'))
          · intro m hm
            obtain ⟨hid, hl⟩ := mem_fillRelocations hm
            obtain ⟨e', he', hid⟩ := List.mem_map.1 hid
            rw [← hid, hl]
            exact ⟨halive e' he', mt Location.isDestroyed_iff.1 hs⟩
        · exact ih halive hn

end Members

end Storage

end EntityStore
