import EntityStore.Proofs.World.Isolation

/-! Calls of two storages that hand entities over, in either order. -/

namespace EntityStore

variable {C : Config} {τ L ρ τ' L' ρ' α β : Type} [Tenant τ] [Tenant τ'] {r : Registry C} {s : Storage τ L}
  {t : Storage τ' L'} {k : Key} {id : Nat}

structure Storage.Apart (r : Registry C) (s : Storage τ L) (t : Storage τ' L') : Prop where
  left : s.InPlace r
  right : t.InPlace r
  valid : s.store ≠ C.stores.invalid
  valid' : t.store ≠ C.stores.invalid
  store_ne : s.store ≠ t.store

theorem Storage.Apart.symm (h : s.Apart r t) : t.Apart r s :=
  ⟨h.right, h.left, h.valid', h.valid, h.store_ne.symm⟩

namespace StorageCall

/-- The call destroys nobody, and takes in nobody whom the other storage houses. -/
def Transfers (r : Registry C) (t : Storage τ' L') : StorageCall C ρ α → Prop
  | take _ target | remove _ target | removeAll target => target ≠ C.stores.invalid
  | add k _ => ¬ t.contains r k
  | _ => False

def Sees (r r' : Registry C) (s : Storage τ L) : StorageCall C ρ α → Prop
  | take k _ | remove k _ => s.indexOf? r' k = s.indexOf? r k
  | add k _ => s.accepted? r' k = s.accepted? r k ∧ r'.handle? k.entity = r.handle? k.entity
  | _ => True

theorem sees_self (c : StorageCall C ρ α) : c.Sees r r s := by
  cases c with
  | take | remove => rfl
  | add => exact ⟨rfl, rfl⟩
  | _ => trivial

namespace Transfers

variable {c : StorageCall C ρ α} {d : StorageCall C ρ' β} {m : EntityId × Location}

theorem run_relocates [Layout L ρ] [LawfulLayout L ρ] [Capacious L] {es : List (τ × ρ)} (hc : c.Transfers r t)
    (hs : s.Carries es) : ∃ a s', ∀ r' : Registry C, c.Sees r r' s →
      (c.run r' s).outcome = (fun r => (a, r, s')) <$> (r'.relocateEach (c.relocations r s)).outcome := by
  cases c with
  | add k x =>
    obtain ⟨a, s', -, ho⟩ := hs.add_relocates r k x
    exact ⟨a, s', fun r' hr' => ho r' hr'.1 hr'.2⟩
  | take k target =>
    obtain ⟨a, s', -, ho⟩ := hs.take_relocates r k target
    exact ⟨a, s', ho⟩
  | remove k target =>
    obtain ⟨a, s', -, ho⟩ := hs.remove_relocates r k target
    exact ⟨a, s', ho⟩
  | removeAll target => exact ⟨_, _, fun r' _ => s.removeAll_outcome r' target⟩
  | _ => exact hc.elim

theorem mem_relocations (hc : c.Transfers r t) (hs : s.store ≠ C.stores.invalid) (hm : m ∈ c.relocations r s) :
    ¬ m.2.isDestroyed C ∧ (m.1 ∈ s.ids ∨ r.locationOf? m.1 = some (.pending s.store) ∧ m.2.store = s.store) := by
  rw [Location.isDestroyed_iff]
  cases c with
  | add k x =>
    obtain ⟨ha, hl⟩ := Storage.mem_enterRelocations hm
    rw [hl]
    exact ⟨hs, .inr ⟨ha.pending, rfl⟩⟩
  | take k target | remove k target =>
    obtain ⟨hid, hl | ⟨i, hl⟩⟩ := Storage.mem_leaveRelocations hm
    · rw [hl]
      exact ⟨hc, .inl hid⟩
    · rw [hl]
      exact ⟨hs, .inl hid⟩
  | removeAll target =>
    obtain ⟨id, hid, rfl⟩ := List.mem_map.1 hm
    exact ⟨hc, .inl hid⟩
  | _ => exact hc.elim

theorem places (hc : c.Transfers r t) (hs : s.store ≠ C.stores.invalid) (hin : s.InPlace r) :
    r.Places (c.relocations r s) := by
  intro m hm
  obtain ⟨hl, hid | ⟨hpending, -⟩⟩ := hc.mem_relocations hs hm
  · exact ⟨hin.isAlive hid, hl⟩
  · obtain ⟨hd, hh⟩ := Registry.exists_handle? hpending
    rw [Registry.isAlive_eq, hh]
    exact ⟨rfl, hl⟩

end Transfers

section Apart

variable {c : StorageCall C ρ α} {d : StorageCall C ρ' β}

theorem not_relocated (h : s.Apart r t) (d : StorageCall C ρ' β) (hid : id ∈ s.ids) :
    id ∉ (d.relocations r t).map Prod.fst :=
  h.left.not_relocated h.right h.store_ne (fun _ hm => d.mem_relocations hm) hid

theorem relocations_apart (h : s.Apart r t) (c : StorageCall C ρ α) (d : StorageCall C ρ' β) :
    ∀ m ∈ c.relocations r s, ∀ n ∈ d.relocations r t, m.1 ≠ n.1 := by
  intro m hm n hn hid
  -- whoever is relocated is housed or pending, and nobody is so here and there
  rcases c.mem_relocations hm with htenant | hpending
  · exact not_relocated h d htenant (hid ▸ List.mem_map_of_mem hn)
  · rcases d.mem_relocations hn with htenant' | hpending'
    · exact h.right.not_pending htenant' _ (hid ▸ hpending)
    · rw [hid, hpending', Option.some_inj, Location.pending, Location.pending, Location.mk.injEq] at hpending
      exact h.store_ne hpending.1.symm

theorem Transfers.pending_iff (hc : ¬ t.contains r k) (hd : d.Transfers r s) (h : s.Apart r t)
    (hk : r.resolve? k = some id) : (r.placeEach (d.relocations r t)).locationOf? id = some (.pending s.store) ↔
      r.locationOf? id = some (.pending s.store) := by
  by_cases hid : id ∈ (d.relocations r t).map Prod.fst
  · -- only its own tenants does the other storage make pending here
    obtain ⟨l, hl, ho⟩ := (hd.places h.valid' h.right).exists_location hid
    obtain ⟨-, htenant | ⟨hpending, hstore⟩⟩ := hd.mem_relocations h.valid' hl
    · exact absurd (h.right.contains hk htenant) hc
    · have hlocation : ∀ l : Location, l.store = t.store → some l ≠ some (.pending s.store) := by
        intro l hl hpending
        rw [Option.some_inj.1 hpending] at hl
        exact h.store_ne hl
      rw [ho, hpending]
      exact iff_of_false (hlocation l hstore) (hlocation _ rfl)
  · rw [Registry.locationOf?_placeEach r hid]

theorem Transfers.sees (hc : c.Transfers r t) (hd : d.Transfers r s) (h : s.Apart r t) :
    c.Sees r (r.placeEach (d.relocations r t)) s := by
  have hplaces := hd.places h.valid' h.right
  cases c with
  | take k target | remove k target =>
    exact Storage.indexOf?_congr k (Registry.resolve?_placeEach hplaces k) fun id hid =>
      Registry.locationOf?_placeEach r (not_relocated h d hid)
  | add k x =>
    refine ⟨?_, Registry.handle?_placeEach (fun m hm => (hplaces m hm).1) k.entity⟩
    rw [Storage.accepted?, Storage.accepted?, Registry.resolve?_placeEach hplaces]
    cases hk : r.resolve? k with
    | none => rfl
    | some id => simp only [Option.filter_some, hd.pending_iff hc h hk]
  | removeAll target => trivial
  | _ => exact hc.elim

theorem Transfers.commute [Layout L ρ] [LawfulLayout L ρ] [Capacious L] [Layout L' ρ'] [LawfulLayout L' ρ']
    [Capacious L'] {es : List (τ × ρ)} {es' : List (τ' × ρ')} (hc : c.Transfers r t) (hd : d.Transfers r s)
    (hs : s.Carries es) (ht : t.Carries es') (h : s.Apart r t) :
    ∃ a b s' t' r₁ r₂ r', (c.run r s).outcome = .ok (a, r₁, s') ∧ (d.run r₁ t).outcome = .ok (b, r', t') ∧
      (d.run r t).outcome = .ok (b, r₂, t') ∧ (c.run r₂ s).outcome = .ok (a, r', s') := by
  obtain ⟨a, s', hrun⟩ := hc.run_relocates hs
  obtain ⟨b, t', hrun'⟩ := hd.run_relocates ht
  have hplaces := hc.places h.valid h.left
  have hplaces' := hd.places h.valid' h.right
  refine ⟨a, b, s', t', r.placeEach (c.relocations r s), r.placeEach (d.relocations r t),
    (r.placeEach (c.relocations r s)).placeEach (d.relocations r t), ?_, ?_, ?_, ?_⟩
  · rw [hrun r c.sees_self, hplaces.relocateEach]
    rfl
  · rw [hrun' _ (hd.sees hc h.symm), (hplaces.of_placeEach hplaces').relocateEach]
    rfl
  · rw [hrun' r d.sees_self, hplaces'.relocateEach]
    rfl
  · rw [hrun _ (hc.sees hd h), (hplaces'.of_placeEach hplaces).relocateEach,
      r.placeEach_comm (relocations_apart h c d)]
    rfl

end Apart

end StorageCall

end EntityStore

namespace EntityStore.World

variable {C : Config} {ι κ α β : Type} {El : κ → Type} {shapes : ι → Shape κ}
  {w₀ w : World C El shapes} {v : Ledger C} {i j : ι}

variable [DecidableEq ι] [DecidableEq κ] [∀ k, Footprint (El k)] [∀ i, (shapes i).Proper El]

omit [DecidableEq ι] [DecidableEq κ] in
theorem InPlace.apart (hp : w.InPlace) (hw : w.Steady v) (hij : i ≠ j) :
    (w.stores i).Apart w.registry (w.stores j) where
  left := hp.stores i
  right := hp.stores j
  valid := hw.store_ne i
  valid' := hw.store_ne j
  store_ne h := hij (hp.distinct h)

/-- Where every row is in place, calls of two storages that destroy nobody and take in nobody whom the other one houses
are answered alike in either order, and lead to the same world. -/
theorem transfers_commute (h₀ : w₀.Fresh) (h : Leads (fun _ _ => True) w₀ w) (hp : w.InPlace) (hij : i ≠ j)
    {c : StorageCall C ((shapes i).Item El) α} {d : StorageCall C ((shapes j).Item El) β}
    (hc : c.Transfers w.registry (w.stores j)) (hd : d.Transfers w.registry (w.stores i)) :
    ∃ a b w₁ w₂ w', ((WorldCall.store i (.shared (shapes i) c)).run w).outcome = .ok (a, w₁) ∧
      ((WorldCall.store j (.shared (shapes j) d)).run w₁).outcome = .ok (b, w') ∧
      ((WorldCall.store j (.shared (shapes j) d)).run w).outcome = .ok (b, w₂) ∧
      ((WorldCall.store i (.shared (shapes i) c)).run w₂).outcome = .ok (a, w') := by
  obtain ⟨v, hw⟩ := h₀.leads_steady h
  obtain ⟨es, hs⟩ := hw.carries i
  obtain ⟨es', ht⟩ := hw.carries j
  obtain ⟨a, b, s, t, r₁, r₂, r, hfirst, hsecond, hfirst', hsecond'⟩ := hc.commute hd hs ht (hp.apart hw hij)
  have hcomm := Function.update_comm hij s t w.stores
  have hw' : ((WorldCall.store i (.shared (shapes i) c)).run ⟨r₂, Function.update w.stores j t⟩).outcome =
      .ok (a, ⟨r, Function.update (Function.update w.stores i s) j t⟩) := by
    rw [hcomm]
    exact outcome_shared hs (Function.update_of_ne hij t w.stores) hsecond'
  exact ⟨a, b, _, _, _, outcome_shared hs rfl hfirst,
    outcome_shared ht (Function.update_of_ne hij.symm s w.stores) hsecond, outcome_shared ht rfl hfirst', hw'⟩

theorem transfers_commute_pair : ∃ w₁ w₂ w',
    ((WorldCall.store false (.shared (pairShapes false) (.take (.id 0) 2))).run housedPair).outcome =
        .ok (some true, w₁) ∧
      ((WorldCall.store true (.shared (pairShapes true) (.remove (.id 2) 1))).run w₁).outcome = .ok (true, w') ∧
      ((WorldCall.store true (.shared (pairShapes true) (.remove (.id 2) 1))).run housedPair).outcome = .ok (true, w₂) ∧
      ((WorldCall.store false (.shared (pairShapes false) (.take (.id 0) 2))).run w₂).outcome =
        .ok (some true, w') := by
  let c : StorageCall Config.standard Bool (Option Bool) := .take (.id 0) 2
  let d : StorageCall Config.standard (Row Kind.Value [.flag, .word8]) Bool := .remove (.id 2) 1
  have hc : c.Transfers housedPair.registry (housedPair.stores true) :=
    show 2 ≠ Config.standard.stores.invalid by decide
  have hd : d.Transfers housedPair.registry (housedPair.stores false) :=
    show 1 ≠ Config.standard.stores.invalid by decide
  obtain ⟨a, b, w₁, w₂, w', hfirst, hsecond, hfirst', hsecond'⟩ :=
    transfers_commute pair_fresh housedPair_leads housedPair_inPlace Bool.false_ne_true hc hd
  obtain rfl : some true = a := Option.some.inj (congrArg (fun o => o.toOption.map Prod.fst) hfirst)
  obtain rfl : true = b := Option.some.inj (congrArg (fun o => o.toOption.map Prod.fst) hfirst')
  exact ⟨w₁, w₂, w', hfirst, hsecond, hfirst', hsecond'⟩

end EntityStore.World
