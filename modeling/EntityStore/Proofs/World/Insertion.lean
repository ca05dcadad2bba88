import EntityStore.Proofs.Registry.Creation
import EntityStore.Proofs.World.Chunks

/-! Insertion: registry and storage change together or not at all. -/

namespace EntityStore

variable {C : Config}

theorem Ledger.relocate_occupy {l' : Location} (h : ¬ l'.isDestroyed C) (v : Ledger C) (id : Nat) (l : Location)
    (m : C.Metadata) : (v.occupy id l m).relocate id l' = v.occupy id l' m := by
  rw [relocate, if_neg h]
  simp [occupy, modify, List.modify_modify_eq, Function.comp_def]

namespace Storage

variable {κ : Type} {El : κ → Type} {shape : Shape κ} {s : Storage shape.Tenant (shape.Rows El)}
  {es : List (shape.Tenant × shape.Item El)} {r r' : Registry C} {v : Ledger C} {k : Key} {id : Nat} {hd : Handle}
  {m : C.Metadata}

theorem accepts_of_made (h : r'.Represents v) (hroom : s.size < s.limit) (hmade : r.Made (.pending s.store) m id r') :
    s.Accepts r' (.handle ⟨id, (r.records[id]?.getD .vacant).generation⟩) id where
  resolves := h.resolve?_of_handle? hmade.handle?
  room := hroom
  pending := hmade.locationOf?

theorem exists_made (h : r.Represents v) (hs : s.store ≠ C.stores.invalid)
    (ho : (r.createHandle (.pending s.store) m).outcome = .ok (some hd, r')) :
    ∃ u, v.pick = some (hd.id, u) ∧ r'.Represents (u.occupy hd.id (.pending s.store) m) ∧
      r.Made (.pending s.store) m hd.id r' ∧ hd = ⟨hd.id, (r.records[hd.id]?.getD .vacant).generation⟩ := by
  have hl : ¬ (Location.pending s.store).isDestroyed C := mt Location.isDestroyed_iff.1 hs
  by_cases hlt : r.living < r.idLimit
  · obtain ⟨id, u, r₁, hp, hr₁, hw⟩ := h.create_makes hl hlt m
    have hmade := h.makes hp hw
    rw [Registry.Represents.createHandle_of_create hr₁ hmade] at ho
    cases ho
    exact ⟨u, hp, hw, hmade, rfl⟩
  · rw [h.createHandle_refuses (.inr (Nat.not_lt.1 hlt))] at ho
    cases ho

variable [∀ k, Footprint (El k)] [shape.Proper El]

theorem Carries.add_appends (hs : s.Carries es) (h : r.Represents v) (hstore : s.store ≠ C.stores.invalid)
    (ha : s.Accepts r k id) (x : shape.Item El) :
    ∃ hd s', r.handle? id = some hd ∧
      (s.add r k x).outcome = .ok (true, r.place (id, .housed s.store s.size), s') ∧
      shape.Appended s (Tenant.ofHandle hd) x s' := by
  obtain ⟨hd, hh⟩ := Registry.exists_handle? ha.pending
  obtain ⟨s', hs', hstore', hlimit, hadd⟩ := hs.add ha hh x
  have hlive : r.isAlive id := h.isAlive_iff.2 (h.lives_of_resolve? ha.resolves)
  refine ⟨hd, s', hh, ?_, hs.appended hs' hstore' hlimit⟩
  rw [hadd, Run.outcome_map, ← hs.size_eq, Registry.relocate_eq_place hlive (mt Location.isDestroyed_iff.1 hstore)]
  rfl

theorem Carries.add_of_createHandle (hs : s.Carries es) (h : r.Represents v) (hstore : s.store ≠ C.stores.invalid)
    (hroom : s.size < s.limit) (ho : (r.createHandle (.pending s.store) m).outcome = .ok (some hd, r'))
    (x : shape.Item El) :
    ∃ r'' s', (s.add r' (.handle hd) x).outcome = .ok (true, r'', s') ∧ r.Made (.housed s.store s.size) m hd.id r'' ∧
      (∃ w, r''.Represents w) ∧ r''.handle? hd.id = some hd ∧ shape.Appended s (Tenant.ofHandle hd) x s' := by
  obtain ⟨u, hp, hw, hmade, hhd⟩ := exists_made h hstore ho
  have ha : s.Accepts r' (.handle hd) hd.id := by
    rw [hhd]
    exact accepts_of_made hw hroom hmade
  have hh : r'.handle? hd.id = some hd := by rw [hmade.handle?, ← hhd]
  obtain ⟨s', hs', hstore', hlimit, hadd⟩ := hs.add ha hh x
  obtain ⟨r'', hr'', hw'⟩ := hw.relocate (hw.lives_of_resolve? ha.resolves) (.housed s.store es.length)
  rw [Ledger.relocate_occupy (mt Location.isDestroyed_iff.1 hstore), ← hs.size_eq] at hw'
  have hmade' := h.makes hp hw'
  refine ⟨r'', s', ?_, hmade', ⟨_, hw'⟩, by rw [hmade'.handle?, ← hhd], hs.appended hs' hstore' hlimit⟩
  rw [hadd, Run.outcome_map, hr'']
  rfl

theorem Carries.spawn_houses (hs : s.Carries es) (h : r.Represents v) (hstore : s.store ≠ C.stores.invalid)
    (hroom : s.size < s.limit) (hlt : r.living < r.idLimit) (m : C.Metadata) (x : shape.Item El) :
    ∃ hd r' s', (s.spawn r m x).outcome = .ok (some hd, r', s') ∧ r.Made (.housed s.store s.size) m hd.id r' ∧
      (∃ w, r'.Represents w) ∧ r'.handle? hd.id = some hd ∧ shape.Appended s (Tenant.ofHandle hd) x s' := by
  have hl : ¬ (Location.pending s.store).isDestroyed C := mt Location.isDestroyed_iff.1 hstore
  obtain ⟨id, u, r₁, hp, hr₁, hw⟩ := h.create_makes hl hlt m
  have ho := Registry.Represents.createHandle_of_create hr₁ (h.makes hp hw)
  obtain ⟨r', s', hadd, hmade⟩ := hs.add_of_createHandle h hstore hroom ho x
  refine ⟨_, r', s', ?_, hmade⟩
  rw [spawn, if_neg (Nat.not_le.2 hroom)]
  simp only [Run.outcome_bind, ho, hadd, Checked.ok_bind]
  rfl

omit [shape.Proper El] in
theorem spawn_refuses (h : r.Represents v) (hfull : s.limit ≤ s.size ∨ r.idLimit ≤ r.living) (m : C.Metadata)
    (x : shape.Item El) : (s.spawn r m x).outcome = .ok (none, r, s) := by
  rw [spawn]
  split
  · rfl
  · rename_i hroom
    rw [Run.outcome_bind, h.createHandle_refuses (.inr (hfull.resolve_left hroom))]
    rfl

end Storage

end EntityStore

namespace EntityStore.World

variable {C : Config} {ι κ : Type} {El : κ → Type} {shapes : ι → Shape κ} [DecidableEq ι] [DecidableEq κ]
  [∀ k, Footprint (El k)] {w₀ w : World C El shapes} {v : Ledger C} {i : ι}

structure Spawned (w : World C El shapes) (i : ι) (m : C.Metadata) (x : (shapes i).Item El) (hd : Handle)
    (r : Registry C) (s : Storage (shapes i).Tenant ((shapes i).Rows El)) : Prop where
  made : w.registry.Made (.housed (w.stores i).store (w.stores i).size) m hd.id r
  isValid : r.isValid (.handle hd)
  metadata? : r.metadata? (.handle hd) = some m
  indexOf? : s.indexOf? r (.handle hd) = some (w.stores i).size
  appended : (shapes i).Appended (w.stores i) (Tenant.ofHandle hd) x s

structure Inserts (w : World C El shapes) (i : ι) : Prop where
  adds (k : Key) (id : Nat) (x : (shapes i).Item El) : (w.stores i).Accepts w.registry k id →
    ∃ hd s, w.registry.handle? id = some hd ∧
      ((WorldCall.store i (.shared (shapes i) (.add k x))).run w).outcome =
        .ok (true, w.put i (w.registry.place (id, .housed (w.stores i).store (w.stores i).size)) s) ∧
      (shapes i).Appended (w.stores i) (Tenant.ofHandle hd) x s
  refuses (k : Key) (x : (shapes i).Item El) : (∀ id, ¬ (w.stores i).Accepts w.registry k id) →
    ((WorldCall.store i (.shared (shapes i) (.add k x))).run w).outcome = .ok (false, w)
  spawns (m : C.Metadata) (x : (shapes i).Item El) : (w.stores i).size < (w.stores i).limit →
    w.registry.living < w.registry.idLimit →
    ∃ hd r s, ((WorldCall.store i (.shared (shapes i) (.spawn m x))).run w).outcome = .ok (some hd, w.put i r s) ∧
      w.Spawned i m x hd r s
  turnsAway (m : C.Metadata) (x : (shapes i).Item El) :
    (w.stores i).limit ≤ (w.stores i).size ∨ w.registry.idLimit ≤ w.registry.living →
    ((WorldCall.store i (.shared (shapes i) (.spawn m x))).run w).outcome = .ok (none, w)
  -- whoever was created to be housed is never erased again
  completes (m : C.Metadata) (x : (shapes i).Item El) (hd : Handle) (r : Registry C) :
    (w.stores i).size < (w.stores i).limit →
    (w.registry.createHandle (.pending (w.stores i).store) m).outcome = .ok (some hd, r) →
    ∃ r' s, ((StoreCall.shared (shapes i) (.add (.handle hd) x)).run r (w.stores i)).outcome = .ok (true, r', s)

omit [DecidableEq ι] [DecidableEq κ] [∀ k, Footprint (El k)] in
theorem spawned_of_made {m : C.Metadata} {x : (shapes i).Item El} {hd : Handle} {r : Registry C}
    {s : Storage (shapes i).Tenant ((shapes i).Rows El)} {u : Ledger C} (hr : r.Represents u)
    (hmade : w.registry.Made (.housed (w.stores i).store (w.stores i).size) m hd.id r)
    (hh : r.handle? hd.id = some hd) (happended : (shapes i).Appended (w.stores i) (Tenant.ofHandle hd) x s) :
    w.Spawned i m x hd r s := by
  have hk : r.resolve? (.handle hd) = some hd.id := hr.resolve?_of_handle? hh
  refine ⟨hmade, by rw [Registry.isValid, hk]; rfl, ?_, ?_, happended⟩
  · rw [Registry.metadata?, hk]
    simp [hmade.record]
  · have htenant : s.ids[(w.stores i).size]? = some hd.id := by
      rw [Storage.ids, happended.tenants, Storage.size, ← Array.length_toList]
      simp [Tenant.id_ofHandle]
    refine Storage.indexOf?_eq_some_iff.2 ⟨hd.id, hk, ?_, htenant⟩
    rw [happended.store]
    exact hmade.locationOf?

variable [∀ i, (shapes i).Proper El]

theorem Steady.inserts (hw : w.Steady v) (i : ι) : w.Inserts i := by
  obtain ⟨es, hs⟩ := hw.carries i
  have hstore := hw.store_ne i
  constructor
  case adds =>
    intro k id x ha
    obtain ⟨hd, s, hh, ho, happended⟩ := hs.add_appends hw.represents hstore ha x
    exact ⟨hd, s, hh, outcome_shared hs rfl ho, happended⟩
  case refuses =>
    intro k x ha
    apply outcome_idle
    rw [StoreCall.run_shared hs]
    exact Storage.add_outcome_of_refused x ha
  case spawns =>
    intro m x hroom hlt
    obtain ⟨hd, r, s, ho, hmade, ⟨u, hr⟩, hh, happended⟩ := hs.spawn_houses hw.represents hstore hroom hlt m x
    exact ⟨hd, r, s, outcome_shared hs rfl ho, spawned_of_made hr hmade hh happended⟩
  case turnsAway =>
    intro m x hfull
    apply outcome_idle
    rw [StoreCall.run_shared hs]
    exact Storage.spawn_refuses hw.represents hfull m x
  case completes =>
    intro m x hd r hroom ho
    obtain ⟨r', s, hadd, -⟩ := hs.add_of_createHandle hw.represents hstore hroom ho x
    exact ⟨r', s, by rw [StoreCall.run_shared hs]; exact hadd⟩

/-- Wherever calls have led, an entity that is pending in a storage is housed in its last row if there is room, and a
new entity is created exactly where it can be housed; a refusal changes nothing. -/
theorem insertion_whole (h₀ : w₀.Fresh) (h : Leads (fun _ _ => True) w₀ w) (i : ι) : w.Inserts i := by
  obtain ⟨v, hw⟩ := h₀.leads_steady h
  exact hw.inserts i

def pendingTwin : World Config.standard Kind.Value twinShapes :=
  housedTwin.after (.registry (.create (.pending 2) ()))

def waitingRow : Row Kind.Value [.word8, .flag, .word8] := .cons 7 (.cons false (.cons 9 .nil))

theorem insertion_whole_twin : (pendingTwin.stores true).ids = [0, 3, 2] ∧
    ∃ hd s, pendingTwin.registry.handle? 1 = some hd ∧
      ((WorldCall.store true (.shared (twinShapes true) (.add (.handle hd) waitingRow))).run pendingTwin).outcome =
        .ok (true, pendingTwin.put true (pendingTwin.registry.place (1, .housed 2 3)) s) ∧
      (twinShapes true).Appended (pendingTwin.stores true) (Tenant.ofHandle hd) waitingRow s := by
  have h := insertion_whole twin_fresh (housedTwin_leads.after (.registry (.create (.pending 2) ())) trivial) true
  have haccepts : (pendingTwin.stores true).Accepts pendingTwin.registry (.handle ⟨1, 1⟩) 1 := ⟨rfl, by decide, rfl⟩
  obtain ⟨hd, s, hh, ho, happended⟩ := h.adds (.handle ⟨1, 1⟩) 1 waitingRow haccepts
  cases hh
  exact ⟨rfl, _, s, rfl, ho, happended⟩

end EntityStore.World
