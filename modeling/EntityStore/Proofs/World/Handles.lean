import EntityStore.Proofs.World.Journal

/-! Calls by key, in a registry, in a storage and in a world. -/

namespace EntityStore

section

variable {C : Config} {α β κ : Type} {id : EntityId} {k k' : Key} {a : α}

inductive RegistryCall.Keyed (C : Config) : {α : Type} → (Key → RegistryCall C α) → α → Prop
  | isValid : Keyed C (fun k => .ask (·.isValid k)) false
  | location? : Keyed C (fun k => .ask (·.location? k)) none
  | metadata? : Keyed C (fun k => .ask (·.metadata? k)) none
  | updateMetadata (f : C.Metadata → C.Metadata) : Keyed C (.updateMetadata · f) false
  | setLocation (l : Location) : Keyed C (.setLocation · l) false
  | erase : Keyed C .erase false

namespace RegistryCall.Keyed

variable {r : Registry C} {c : Key → RegistryCall C α}

theorem run_eq (hc : Keyed C c a) (h : r.resolve? k = r.resolve? k') : (c k).run r = (c k').run r := by
  cases hc with
  | isValid => simp only [RegistryCall.run, Registry.isValid, h]
  | location? => simp only [RegistryCall.run, Registry.location?, h]
  | metadata? => simp only [RegistryCall.run, Registry.metadata?, h]
  | updateMetadata f => simp only [RegistryCall.run, Registry.updateMetadata?, h]
  | setLocation l => simp only [RegistryCall.run, Registry.setLocation, h]
  | erase => simp only [RegistryCall.run, Registry.erase, Registry.setLocation, h]

theorem refused (hc : Keyed C c a) (h : r.resolve? k = none) : ((c k).run r).outcome = .ok (a, r) := by
  cases hc with
  | isValid => simp only [RegistryCall.run, Registry.isValid, h]; rfl
  | location? => simp only [RegistryCall.run, Registry.location?, h]; rfl
  | metadata? => simp only [RegistryCall.run, Registry.metadata?, h]; rfl
  | updateMetadata f => simp only [RegistryCall.run, Registry.updateMetadata?, h]; rfl
  | setLocation l => simp only [RegistryCall.run, Registry.setLocation, h]; rfl
  | erase => simp only [RegistryCall.run, Registry.erase, Registry.setLocation, h]; rfl

end RegistryCall.Keyed

namespace Registry

variable {r : Registry C} {h : Handle}

theorem isAlive_of_isValidHandle (hv : r.isValidHandle h) : r.isAlive h.id := by
  rw [isValidHandle] at hv
  rw [isAlive]
  cases he : r.records[h.id]? with
  | none => simp [he] at hv
  | some e =>
    rw [he, Option.any_some, Bool.and_eq_true] at hv
    exact hv.1

theorem resolve?_of_isValid (hv : r.isValid (.handle h)) : r.resolve? (.handle h) = r.resolve? (.id h.id) := by
  rw [isValid, resolve?, Option.isSome_ite] at hv
  rw [resolve?, resolve?, if_pos hv, if_pos (isAlive_of_isValidHandle hv)]

theorem resolve?_of_not_isValid (hv : ¬ r.isValid k) : r.resolve? k = none := Option.not_isSome_iff_eq_none.1 hv

end Registry

namespace Storage

variable {τ L ρ : Type} [Tenant τ] [Layout L ρ] {s : Storage τ L} {r : Registry C}

theorem indexOf?_eq_of_resolve? (s : Storage τ L) (h : r.resolve? k = r.resolve? k') :
    s.indexOf? r k = s.indexOf? r k' := by
  rw [indexOf?, indexOf?, h]

theorem indexOf?_eq_none (s : Storage τ L) (h : r.resolve? k = none) : s.indexOf? r k = none := by
  rw [indexOf?, h]
  rfl

theorem isValid_of_indexOf? {i : Nat} (h : s.indexOf? r k = some i) : r.isValid k := by
  obtain ⟨id, hid, -⟩ := indexOf?_eq_some_iff.1 h
  rw [Registry.isValid, hid]
  rfl

structure Checks (s : Storage τ L) (r : Registry C) (k : Key) (x : Except Refusal β) : Prop where
  stale : x = .error (.staleEntity k.entity) ↔ ¬ r.isValid k
  notHoused : x = .error (.notHoused k.entity s.store) ↔ r.isValid k ∧ s.indexOf? r k = none
  ok : (∃ b, x = .ok b) ↔ (s.indexOf? r k).isSome

theorem checks_miss (h : s.indexOf? r k = none) : s.Checks r k (.error (s.miss r k) : Except Refusal β) := by
  rw [miss]
  by_cases hk : r.isValid k
  · rw [if_pos hk]
    exact ⟨by simp [hk], by simp [hk, h], by simp [h]⟩
  · rw [if_neg hk]
    exact ⟨by simp [hk], by simp [hk], by simp [h]⟩

theorem checks_found {i : Nat} (h : s.indexOf? r k = some i) (b : β) : s.Checks r k (.ok b) := by
  have hk := isValid_of_indexOf? h
  exact ⟨by simp [hk], by simp [h], by simp [h]⟩

end Storage

inductive StorageCall.Keyed (C : Config) (ρ : Type) (id : EntityId) :
    {α : Type} → (Key → StorageCall C ρ α) → α → Prop
  | indexOf? : Keyed C ρ id .indexOf? none
  | contains : Keyed C ρ id .contains false
  | get? : Keyed C ρ id .get? none
  | get : Keyed C ρ id .get (.error (.staleEntity id))
  | update? (f : ρ → ρ) : Keyed C ρ id (.update? · f) false
  | update (f : ρ → ρ) : Keyed C ρ id (.update · f) (.error (.staleEntity id))
  | add (x : ρ) : Keyed C ρ id (.add · x) false
  | take (target : StoreId) : Keyed C ρ id (.take · target) none
  | remove (target : StoreId) : Keyed C ρ id (.remove · target) false
  | erase : Keyed C ρ id .erase false

namespace StorageCall.Keyed

variable {τ L ρ : Type} [Tenant τ] [Layout L ρ] [Capacious L] {s : Storage τ L} {r : Registry C}
  {c : Key → StorageCall C ρ α}

theorem run_eq (hc : Keyed C ρ id c a) (he : k.entity = k'.entity) (h : r.resolve? k = r.resolve? k') :
    (c k).run r s = (c k').run r s := by
  have hi := s.indexOf?_eq_of_resolve? h
  have hm : s.miss r k = s.miss r k' := by rw [Storage.miss, Storage.miss, Registry.isValid, Registry.isValid, h, he]
  cases hc with
  | indexOf? => simp only [StorageCall.run, hi]
  | contains => simp only [StorageCall.run, Storage.contains, hi]
  | get? => simp only [StorageCall.run, Storage.get?, hi]
  | get => simp only [StorageCall.run, Storage.get, hi, hm]
  | update? f => simp only [StorageCall.run, Storage.update?, hi]
  | update f => simp only [StorageCall.run, Storage.update, hi, hm]
  | add x => simp only [StorageCall.run, Storage.add, h, he]
  | take target => simp only [StorageCall.run, Storage.take, hi]
  | remove target => simp only [StorageCall.run, Storage.remove, Storage.take, hi]
  | erase => simp only [StorageCall.run, Storage.erase, Storage.remove, Storage.take, hi]

theorem refused (hc : Keyed C ρ k.entity c a) (h : r.resolve? k = none) :
    ((c k).run r s).outcome = .ok (a, r, s) := by
  have hi := s.indexOf?_eq_none h
  have hm : s.miss r k = .staleEntity k.entity := by rw [Storage.miss, Registry.isValid, h]; rfl
  cases hc with
  | indexOf? => simp only [StorageCall.run, hi]; rfl
  | contains => simp only [StorageCall.run, Storage.contains, hi]; rfl
  | get? => simp only [StorageCall.run, Storage.get?, hi]; rfl
  | get => simp only [StorageCall.run, Storage.get, hi, hm]; rfl
  | update? f => simp only [StorageCall.run, Storage.update?, hi]; rfl
  | update f => simp only [StorageCall.run, Storage.update, hi, hm]; rfl
  | add x => simp only [StorageCall.run, Storage.add, h]; rfl
  | take target => simp only [StorageCall.run, Storage.take, hi]; rfl
  | remove target => simp only [StorageCall.run, Storage.remove, Storage.take, hi]; rfl
  | erase => simp only [StorageCall.run, Storage.erase, Storage.remove, Storage.take, hi]; rfl

end StorageCall.Keyed

namespace StorageCall

variable {τ L ρ : Type} [Tenant τ] [Layout L ρ] [LawfulLayout L ρ] [Capacious L] {s : Storage τ L}
  {es : List (τ × ρ)}

theorem get_checks (hs : s.Carries es) (r : Registry C) (k : Key) :
    ∃ x, ((get k : StorageCall C ρ _).run r s).outcome = .ok (x, r, s) ∧ s.Checks r k x := by
  cases hi : s.indexOf? r k with
  | none =>
    refine ⟨_, ?_, Storage.checks_miss hi⟩
    simp only [run, Storage.get, hi]
    rfl
  | some i =>
    obtain ⟨e, he, -⟩ := hs.exists_of_indexOf? hi
    refine ⟨_, ?_, Storage.checks_found hi e.2⟩
    simp only [run, Storage.get, hi, hs.read he]
    rfl

theorem update_checks (hs : s.Carries es) (r : Registry C) (k : Key) (f : ρ → ρ) :
    ∃ x s', ((update k f : StorageCall C ρ _).run r s).outcome = .ok (x, r, s') ∧ s.Checks r k x := by
  cases hi : s.indexOf? r k with
  | none =>
    refine ⟨_, s, ?_, Storage.checks_miss hi⟩
    simp only [run, Storage.update, hi]
    rfl
  | some i =>
    obtain ⟨e, he, -⟩ := hs.exists_of_indexOf? hi
    obtain ⟨l, hl, -⟩ := hs.updateRow he f
    refine ⟨_, { s with rows := l }, ?_, Storage.checks_found hi ()⟩
    simp only [run, Storage.update, hi, hl]
    rfl

end StorageCall

variable {El : κ → Type} {ks : List κ}

inductive ArchetypeCall.Keyed (C : Config) (El : κ → Type) (ks : List κ) :
    {α : Type} → (Key → ArchetypeCall C El ks α) → α → Prop
  | component? (kind : κ) : Keyed C El ks (.component? · kind) none
  | updateComponent? (kind : κ) (f : El kind → El kind) : Keyed C El ks (.updateComponent? · kind f) none

namespace ArchetypeCall.Keyed

variable [DecidableEq κ] {L : Type} [ColumnLayout L El ks] [Capacious L] {s : ArchetypeStorage L} {r : Registry C}
  {c : Key → ArchetypeCall C El ks α}

theorem run_eq (hc : Keyed C El ks c a) (h : r.resolve? k = r.resolve? k') : (c k).run r s = (c k').run r s := by
  have hi := s.indexOf?_eq_of_resolve? h
  cases hc with
  | component? kind => simp only [ArchetypeCall.run, Storage.component?, hi]
  | updateComponent? kind f => simp only [ArchetypeCall.run, Storage.updateComponent?, hi]

theorem refused (hc : Keyed C El ks c a) (h : r.resolve? k = none) : ((c k).run r s).outcome = .ok (a, r, s) := by
  have hi := s.indexOf?_eq_none h
  cases hc with
  | component? kind => simp only [ArchetypeCall.run, Storage.component?, hi]; rfl
  | updateComponent? kind f => simp only [ArchetypeCall.run, Storage.updateComponent?, hi]; rfl

end ArchetypeCall.Keyed

inductive StoreCall.Keyed (C : Config) (El : κ → Type) (id : EntityId) :
    {shape : Shape κ} → {α : Type} → (Key → StoreCall C El shape α) → α → Prop
  | shared (shape : Shape κ) {α : Type} {c : Key → StorageCall C (shape.Item El) α} {a : α} :
      StorageCall.Keyed C (shape.Item El) id c a → Keyed C El id (fun k => .shared shape (c k)) a
  | dense {ks : List κ} {α : Type} {c : Key → ArchetypeCall C El ks α} {a : α} :
      ArchetypeCall.Keyed C El ks c a → Keyed C El id (fun k => .dense (c k)) a
  | chunked {ks : List κ} {shift : Nat} {α : Type} {c : Key → ArchetypeCall C El ks α} {a : α} :
      ArchetypeCall.Keyed C El ks c a →
        Keyed C El id (fun k => (.chunked (c k) : StoreCall C El (.chunked ks shift) α)) a

namespace StoreCall.Keyed

variable [DecidableEq κ] [∀ k, Footprint (El k)] {shape : Shape κ} [shape.Proper El] {c : Key → StoreCall C El shape α}
  {r : Registry C} {s : Storage shape.Tenant (shape.Rows El)} {es : List (shape.Tenant × shape.Item El)}

theorem run_eq (hs : s.Carries es) (hc : Keyed C El id c a) (he : k.entity = k'.entity)
    (h : r.resolve? k = r.resolve? k') :
    (c k).run r s = (c k').run r s := by
  cases hc with
  | shared _ hc =>
    rw [run_shared hs, run_shared hs]
    exact hc.run_eq he h
  | dense hc => exact hc.run_eq h
  | chunked hc => exact hc.run_eq h

theorem refused (hs : s.Carries es) (hc : Keyed C El k.entity c a) (h : r.resolve? k = none) :
    ((c k).run r s).outcome = .ok (a, r, s) := by
  cases hc with
  | shared _ hc =>
    rw [run_shared hs]
    exact hc.refused h
  | dense hc => exact hc.refused h
  | chunked hc => exact hc.refused h

end StoreCall.Keyed

end

variable {C : Config} {ι κ α : Type} {El : κ → Type} {shapes : ι → Shape κ} {a : α}

inductive WorldCall.Keyed (C : Config) (El : κ → Type) (shapes : ι → Shape κ) (id : EntityId) :
    {α : Type} → (Key → WorldCall C El shapes α) → α → Prop
  | registry {α : Type} {c : Key → RegistryCall C α} {a : α} :
      RegistryCall.Keyed C c a → Keyed C El shapes id (fun k => .registry (c k)) a
  | store (i : ι) {α : Type} {c : Key → StoreCall C El (shapes i) α} {a : α} :
      StoreCall.Keyed C El id c a → Keyed C El shapes id (fun k => .store i (c k)) a

variable [DecidableEq ι] [DecidableEq κ] [∀ k, Footprint (El k)] {w₀ w : World C El shapes} {v : Ledger C}

namespace WorldCall.Keyed

variable {k k' : Key} {c : Key → WorldCall C El shapes α}

variable [∀ i, (shapes i).Proper El]

theorem run_eq (hw : w.Steady v) (hc : Keyed C El shapes k.entity c a) (he : k.entity = k'.entity)
    (h : w.registry.resolve? k = w.registry.resolve? k') : (c k).run w = (c k').run w := by
  cases hc with
  | registry hc => rw [WorldCall.run, WorldCall.run, hc.run_eq h]
  | store i hc =>
    obtain ⟨es, hs⟩ := hw.carries i
    rw [WorldCall.run, WorldCall.run, hc.run_eq hs he h]

theorem refused (hw : w.Steady v) (hc : Keyed C El shapes k.entity c a) (h : w.registry.resolve? k = none) :
    ((c k).run w).outcome = .ok (a, w) := by
  cases hc with
  | registry hc =>
    rw [WorldCall.run, Run.outcome_map, hc.refused h]
    rfl
  | store i hc =>
    obtain ⟨es, hs⟩ := hw.carries i
    rw [WorldCall.run, Run.outcome_map, hc.refused hs h, Checked.map_ok, Function.update_eq_self]

end WorldCall.Keyed

namespace World

structure HeedsKeys (w : World C El shapes) : Prop where
  valid (h : Handle) : w.registry.isValid (.handle h) → ∀ {α : Type} {c : Key → WorldCall C El shapes α} {a : α},
    WorldCall.Keyed C El shapes h.id c a → (c (.handle h)).run w = (c (.id h.id)).run w
  stale (h : Handle) : ¬ w.registry.isValid (.handle h) → ∀ {α : Type} {c : Key → WorldCall C El shapes α} {a : α},
    WorldCall.Keyed C El shapes h.id c a → ((c (.handle h)).run w).outcome = .ok (a, w)
  get (i : ι) (k : Key) : ∃ x, ((WorldCall.store i (.shared (shapes i) (.get k))).run w).outcome = .ok (x, w) ∧
    (w.stores i).Checks w.registry k x
  update (i : ι) (k : Key) (f : (shapes i).Item El → (shapes i).Item El) : ∃ x w',
    ((WorldCall.store i (.shared (shapes i) (.update k f))).run w).outcome = .ok (x, w') ∧
      (w.stores i).Checks w.registry k x

variable [∀ i, (shapes i).Proper El]

theorem Steady.heedsKeys (hw : w.Steady v) : w.HeedsKeys where
  valid h hv _ _ _ hc := hc.run_eq hw rfl (Registry.resolve?_of_isValid hv)
  stale h hv _ _ _ hc := hc.refused hw (Registry.resolve?_of_not_isValid hv)
  get i k := by
    obtain ⟨es, hs⟩ := hw.carries i
    obtain ⟨x, ho, hx⟩ := StorageCall.get_checks hs w.registry k
    refine ⟨x, ?_, hx⟩
    rw [WorldCall.run, Run.outcome_map, StoreCall.run_shared hs, ho, Checked.map_ok, Function.update_eq_self]
  update i k f := by
    obtain ⟨es, hs⟩ := hw.carries i
    obtain ⟨x, s, ho, hx⟩ := StorageCall.update_checks hs w.registry k f
    refine ⟨x, ⟨w.registry, Function.update w.stores i s⟩, ?_, hx⟩
    rw [WorldCall.run, Run.outcome_map, StoreCall.run_shared hs, ho]
    rfl

/-- Wherever calls lead, a call by a valid handle is the call by its identifier, a call by a stale one is refused and
changes nothing, and checked access says why it is refused. -/
theorem handles_heeded (h₀ : w₀.Fresh) (h : Leads (fun _ _ => True) w₀ w) : w.HeedsKeys := by
  obtain ⟨v, hw⟩ := h₀.leads_steady h
  exact hw.heedsKeys

def eraseFlag (k : Key) : WorldCall Config.standard Kind.Value pairShapes Bool :=
  .store false (.component (.shared (.erase k)))

theorem handles_heeded_pair : ∃ w, Leads (fun _ _ => True) pair w ∧ (w.stores false).contains w.registry (.id 0) ∧
    ((eraseFlag (.handle ⟨0, 0⟩)).run w).outcome = .ok (false, w) ∧
      (eraseFlag (.handle ⟨0, 1⟩)).run w = (eraseFlag (.id 0)).run w := by
  let spawn : WorldCall Config.standard Kind.Value pairShapes (Option Handle) :=
    .store false (.component (.shared (.spawn () true)))
  have h : Leads (fun _ _ => True) pair _ :=
    .step spawn (.step (eraseFlag (.handle ⟨0, 0⟩)) (.step spawn .refl trivial rfl) trivial rfl) trivial rfl
  have hc : WorldCall.Keyed Config.standard Kind.Value pairShapes 0 eraseFlag false :=
    .store false (.shared (pairShapes false) .erase)
  have hw := handles_heeded pair_fresh h
  exact ⟨_, h, rfl, hw.stale ⟨0, 0⟩ (by decide) hc, hw.valid ⟨0, 1⟩ rfl hc⟩

end World

end EntityStore
