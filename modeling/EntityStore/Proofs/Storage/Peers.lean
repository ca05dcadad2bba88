import EntityStore.Calls
import EntityStore.Proofs.Registry.Represents
import EntityStore.Proofs.Storage.Carries
import EntityStore.Proofs.Walk
import Mathlib.Logic.Equiv.Basic

/-! Storages whose tenants and rows correspond. Twins are those in which they are the same. -/

namespace EntityStore

variable {C : Config}

namespace Registry

/-- Relocation and creation, all that a storage does to a registry, keep a property of registries, and meet no other
faults than the given ones. -/
structure Custody (I : Registry C → Prop) (E : Fault → Prop) : Prop where
  relocate {r : Registry C} : I r → ∀ id l, (r.relocate id l).Ends I E
  createHandle {r : Registry C} : I r → ∀ l m, (r.createHandle l m).Ends (fun a => I a.2) E

theorem custody_trivial : Custody (C := C) (fun _ => True) fun _ => True :=
  ⟨fun _ _ _ => Run.ends_trivial _, fun _ _ _ => Run.ends_trivial _⟩

variable {I : Registry C → Prop} {E : Fault → Prop} {r : Registry C}

theorem Custody.erase (hI : Custody I E) (h : I r) (k : Key) : (r.erase k).Ends (fun a => I a.2) E := by
  rw [Registry.erase, setLocation]
  cases r.resolve? k with
  | none => exact Run.ends_pure h
  | some id => exact (hI.relocate h id _).bind fun _ hr => Run.ends_pure hr

end Registry

namespace Storage

theorem relocateAll_ends {I : Registry C → Prop} {E : Fault → Prop} {r : Registry C} (hI : Registry.Custody I E)
    (h : I r) (target : StoreId) (ids : List EntityId) : (relocateAll r target ids).Ends I E := by
  induction ids generalizing r with
  | nil => exact Run.ends_pure h
  | cons id ids ih => exact (hI.relocate h id _).bind fun _ hr => ih hr

end Storage

variable {τ τ' ρ ρ' : Type}

/-- How tenants and rows of one storage look in another, and what both make of a note. -/
structure Likeness (τ τ' ρ ρ' : Type) [Tenant τ] [Tenant τ'] where
  tenant : τ → τ'
  row : ρ ≃ ρ'
  note : Event → Event
  id_tenant (t : τ) : Tenant.id (tenant t) = Tenant.id t
  tenant_ofHandle (h : Handle) : tenant (Tenant.ofHandle h) = Tenant.ofHandle h
  note_moved (id : EntityId) (i : Nat) : note (Tenant.moved τ' id i) = note (Tenant.moved τ id i)

namespace Likeness

variable [Tenant τ] [Tenant τ']

def entry (φ : Likeness τ τ' ρ ρ') (e : τ × ρ) : τ' × ρ' := (φ.tenant e.1, φ.row e.2)

theorem conj_row (φ : Likeness τ τ' ρ ρ') (f : ρ → ρ) (x : ρ) : φ.row.conj f (φ.row x) = φ.row (f x) := by
  rw [Equiv.conj_apply, Equiv.symm_apply_apply]

def same (τ ρ : Type) [Tenant τ] : Likeness τ τ ρ ρ :=
  ⟨id, Equiv.refl ρ, id, fun _ => rfl, fun _ => rfl, fun _ _ => rfl⟩

theorem entry_same : (same τ ρ).entry = id := rfl

end Likeness

namespace Storage

variable {L L' : Type} [Tenant τ] [Tenant τ'] [Layout L ρ] [LawfulLayout L ρ] [Layout L' ρ'] [LawfulLayout L' ρ']

structure Peers (φ : Likeness τ τ' ρ ρ') (s : Storage τ L) (t : Storage τ' L') (es : List (τ × ρ)) : Prop where
  left : s.Carries es
  right : t.Carries (es.map φ.entry)
  store : t.store = s.store
  limit : t.limit = s.limit

def Matched {α α' : Type} (φ : Likeness τ τ' ρ ρ') (I : Registry C → Prop) (read : α → α')
    (a : α × Registry C × Storage τ L) (b : α' × Registry C × Storage τ' L') : Prop :=
  b.1 = read a.1 ∧ a.2.1 = b.2.1 ∧ I a.2.1 ∧ ∃ es, Peers φ a.2.2 b.2.2 es

namespace Peers

variable {φ : Likeness τ τ' ρ ρ'} {I : Registry C → Prop} {E : Fault → Prop} {s : Storage τ L} {t : Storage τ' L'}
  {es : List (τ × ρ)} {e : τ × ρ} {i : Nat} {r : Registry C} {k : Key}

theorem answer {α α' : Type} {read : α → α'} (hp : Peers φ s t es) (h : I r) (a : α) :
    Run.Like φ.note (Matched φ I read) E (pure (a, r, s)) (pure (read a, r, t)) :=
  .of_pure ⟨rfl, rfl, h, es, hp⟩

theorem size_eq (hp : Peers φ s t es) : t.size = s.size := by
  rw [hp.left.size_eq, hp.right.size_eq, List.length_map]

theorem ids_eq (hp : Peers φ s t es) : t.ids = s.ids := by
  rw [hp.left.ids_eq, hp.right.ids_eq, List.map_map]
  exact List.map_congr_left fun e _ => φ.id_tenant e.1

theorem indexOf?_eq (hp : Peers φ s t es) (r : Registry C) (k : Key) : t.indexOf? r k = s.indexOf? r k := by
  apply Option.ext
  intro i
  rw [indexOf?_eq_some_iff, indexOf?_eq_some_iff, hp.ids_eq, hp.store]

theorem miss_eq (hp : Peers φ s t es) (r : Registry C) (k : Key) : t.miss r k = s.miss r k := by
  rw [miss, miss, hp.store]

theorem accepts_iff (hp : Peers φ s t es) (id : Nat) : t.Accepts r k id ↔ s.Accepts r k id := by
  constructor
  · rintro ⟨hk, hroom, hpend⟩
    exact ⟨hk, by rwa [hp.size_eq, hp.limit] at hroom, by rwa [hp.store] at hpend⟩
  · rintro ⟨hk, hroom, hpend⟩
    exact ⟨hk, by rwa [hp.size_eq, hp.limit], by rwa [hp.store]⟩

theorem getElem?_entry (φ : Likeness τ τ' ρ ρ') (hi : es[i]? = some e) : (es.map φ.entry)[i]? = some (φ.entry e) := by
  rw [List.getElem?_map, hi, Option.map_some]

theorem read (hp : Peers φ s t es) (hi : es[i]? = some e) :
    Layout.read s.rows i = .ok e.2 ∧ Layout.read t.rows i = .ok (φ.row e.2) :=
  ⟨hp.left.read hi, hp.right.read (getElem?_entry φ hi)⟩

theorem updateRow (hp : Peers φ s t es) (hi : es[i]? = some e) (f : ρ → ρ) :
    ∃ s' t', s.updateRow i f = .ok s' ∧ t.updateRow i (φ.row.conj f) = .ok t' ∧
      Peers φ s' t' (es.set i (e.1, f e.2)) := by
  obtain ⟨l, hl, hc⟩ := hp.left.updateRow hi f
  obtain ⟨l', hl', hc'⟩ := hp.right.updateRow (getElem?_entry φ hi) (φ.row.conj f)
  refine ⟨_, _, hl, hl', hc, ?_, hp.store, hp.limit⟩
  rw [List.map_set, Likeness.entry, ← φ.conj_row]
  exact hc'

theorem get? (hp : Peers φ s t es) (r : Registry C) (k : Key) :
    ∃ a, s.get? r k = .ok a ∧ t.get? r k = .ok (a.map φ.row) := by
  rw [Storage.get?, Storage.get?]
  rw [hp.indexOf?_eq]
  cases hi : s.indexOf? r k with
  | none => exact ⟨none, rfl, rfl⟩
  | some i =>
    obtain ⟨e, he, _⟩ := hp.left.exists_of_indexOf? hi
    obtain ⟨hs, ht⟩ := hp.read he
    refine ⟨some e.2, ?_, ?_⟩
    · simp only [hs, Checked.map_ok]
    · simp only [ht, Checked.map_ok, Option.map_some]

theorem get (hp : Peers φ s t es) (r : Registry C) (k : Key) :
    ∃ a, s.get r k = .ok a ∧ t.get r k = .ok (a.map φ.row) := by
  rw [Storage.get, Storage.get]
  rw [hp.indexOf?_eq, hp.miss_eq]
  cases hi : s.indexOf? r k with
  | none => exact ⟨.error (s.miss r k), rfl, rfl⟩
  | some i =>
    obtain ⟨e, he, _⟩ := hp.left.exists_of_indexOf? hi
    obtain ⟨hs, ht⟩ := hp.read he
    refine ⟨.ok e.2, ?_, ?_⟩
    · simp only [hs, Checked.map_ok]
    · simp only [ht, Checked.map_ok, Except.map]

theorem update? (hp : Peers φ s t es) (r : Registry C) (k : Key) (f : ρ → ρ) :
    s.update? r k f = .ok none ∧ t.update? r k (φ.row.conj f) = .ok none ∨
      ∃ s' t', s.update? r k f = .ok (some s') ∧ t.update? r k (φ.row.conj f) = .ok (some t') ∧
        ∃ es', Peers φ s' t' es' := by
  rw [Storage.update?, Storage.update?]
  rw [hp.indexOf?_eq]
  cases hi : s.indexOf? r k with
  | none => exact .inl ⟨rfl, rfl⟩
  | some i =>
    obtain ⟨e, he, _⟩ := hp.left.exists_of_indexOf? hi
    obtain ⟨s', t', hs, ht, hp'⟩ := hp.updateRow he f
    refine .inr ⟨s', t', ?_, ?_, _, hp'⟩
    · simp only [hs, Checked.map_ok]
    · simp only [ht, Checked.map_ok]

theorem update (hp : Peers φ s t es) (r : Registry C) (k : Key) (f : ρ → ρ) :
    (∃ e, s.update r k f = .ok (.error e) ∧ t.update r k (φ.row.conj f) = .ok (.error e)) ∨
      ∃ s' t', s.update r k f = .ok (.ok s') ∧ t.update r k (φ.row.conj f) = .ok (.ok t') ∧
        ∃ es', Peers φ s' t' es' := by
  rw [Storage.update, Storage.update]
  rw [hp.indexOf?_eq, hp.miss_eq]
  cases hi : s.indexOf? r k with
  | none => exact .inl ⟨s.miss r k, rfl, rfl⟩
  | some i =>
    obtain ⟨e, he, _⟩ := hp.left.exists_of_indexOf? hi
    obtain ⟨s', t', hs, ht, hp'⟩ := hp.updateRow he f
    refine .inr ⟨s', t', ?_, ?_, _, hp'⟩
    · simp only [hs, Checked.map_ok]
    · simp only [ht, Checked.map_ok]

theorem setLimit (hp : Peers φ s t es) (n : Nat) : Peers φ (s.setLimit n) (t.setLimit n) es :=
  ⟨⟨hp.left.tenants, hp.left.rows⟩, ⟨hp.right.tenants, hp.right.rows⟩, hp.store, rfl⟩

theorem fillGap (hI : Registry.Custody I E) (h : I r) (store : StoreId) (i : Nat) (moved : Option τ) :
    Run.Like φ.note (fun r₁ r₂ => r₁ = r₂ ∧ I r₁) E (Storage.fillGap r store i moved)
      (Storage.fillGap r store i (moved.map φ.tenant)) := by
  cases moved with
  | none => exact .of_pure ⟨rfl, h⟩
  | some m =>
    rw [Option.map_some, Storage.fillGap, Storage.fillGap, φ.id_tenant]
    refine (Run.Like.of_ends (hI.relocate h _ _)).bind ?_
    rintro r₁ _ ⟨rfl, hr⟩
    exact (Run.Like.of_note (φ.note_moved _ i).symm).bind fun _ _ _ => .of_pure ⟨rfl, hr⟩

theorem removeAt (hI : Registry.Custody I E) (hp : Peers φ s t es) (h : I r) (hi : es[i]? = some e) :
    Run.Like φ.note (fun a b => ∃ r₁ s' t', a = (e, r₁, s') ∧ b = (φ.entry e, r₁, t') ∧ I r₁ ∧
      Peers φ s' t' (swapPop es i)) E (s.removeAt r i) (t.removeAt r i) := by
  obtain ⟨s', hc, hstore, hlimit, hs⟩ := hp.left.removeAt hi
  obtain ⟨t', hc', hstore', hlimit', ht⟩ := hp.right.removeAt (getElem?_entry φ hi)
  rw [← map_swapPop] at hc' ht
  have hpeers : Peers φ s' t' (swapPop es i) :=
    ⟨hc, hc', hstore'.trans (hp.store.trans hstore.symm), hlimit'.trans (hp.limit.trans hlimit.symm)⟩
  have hmoved : ((swapPop es i).map φ.entry)[i]?.map (·.1) = ((swapPop es i)[i]?.map (·.1)).map φ.tenant := by
    rw [List.getElem?_map, Option.map_map, Option.map_map]
    rfl
  rw [hs, ht, hp.store, hmoved]
  refine Run.Like.map ((fillGap hI h _ _ _).imp ?_)
  rintro r₁ _ ⟨rfl, hr⟩
  exact ⟨r₁, s', t', rfl, rfl, hr, hpeers⟩

theorem take (hI : Registry.Custody I E) (hp : Peers φ s t es) (h : I r) (k : Key) (target : StoreId) :
    Run.Like φ.note (Matched φ I (Option.map φ.row)) E (s.take r k target) (t.take r k target) := by
  rw [Storage.take, Storage.take]
  rw [hp.indexOf?_eq]
  cases hi : s.indexOf? r k with
  | none => exact hp.answer h none
  | some i =>
    obtain ⟨e, he, _⟩ := hp.left.exists_of_indexOf? hi
    refine (hp.removeAt hI h he).bind ?_
    rintro _ _ ⟨r₁, s', t', rfl, rfl, hr, hp'⟩
    dsimp only
    rw [Likeness.entry, φ.id_tenant]
    refine (Run.Like.of_ends (hI.relocate hr _ _)).bind ?_
    rintro r₂ _ ⟨rfl, hr₂⟩
    exact hp'.answer hr₂ (some e.2)

theorem remove (hI : Registry.Custody I E) (hp : Peers φ s t es) (h : I r) (k : Key) (target : StoreId) :
    Run.Like φ.note (Matched φ I id) E (s.remove r k target) (t.remove r k target) := by
  refine (hp.take hI h k target).bind ?_
  rintro ⟨x, r₁, s'⟩ ⟨_, _, t'⟩ ⟨rfl, rfl, hr, es', hp'⟩
  dsimp only
  rw [Option.isSome_map]
  exact hp'.answer hr x.isSome

theorem removeAll (hI : Registry.Custody I E) (hp : Peers φ s t es) (h : I r) (target : StoreId) :
    Run.Like φ.note (Matched φ I id) E (s.removeAll r target) (t.removeAll r target) := by
  rw [Storage.removeAll, Storage.removeAll]
  rw [hp.ids_eq, hp.size_eq]
  refine (Run.Like.of_ends (relocateAll_ends hI h target s.ids)).bind ?_
  rintro r₁ _ ⟨rfl, hr⟩
  exact answer ⟨hp.left.clear, hp.right.clear, hp.store, hp.limit⟩ hr _

theorem add (hI : Registry.Custody I E) (hp : Peers φ s t es) (h : I r) (k : Key) (x : ρ) :
    Run.Like φ.note (Matched φ I id) E (s.add r k x) (t.add r k (φ.row x)) := by
  -- peers ask the registry the same and have the same room, so that both accept or neither does
  by_cases ha : ∃ id, s.Accepts r k id
  · obtain ⟨id, ha⟩ := ha
    obtain ⟨hd, hh⟩ := Registry.exists_handle? ha.pending
    obtain ⟨s', hc, hstore, hlimit, hs⟩ := hp.left.add ha hh x
    obtain ⟨t', hc', hstore', hlimit', ht⟩ := hp.right.add ((hp.accepts_iff id).2 ha) hh (φ.row x)
    have hmap : (es ++ [(Tenant.ofHandle hd, x)]).map φ.entry = es.map φ.entry ++ [(Tenant.ofHandle hd, φ.row x)] := by
      rw [List.map_append, List.map_singleton, Likeness.entry, φ.tenant_ofHandle]
    have hpeers : Peers φ s' t' (es ++ [(Tenant.ofHandle hd, x)]) :=
      ⟨hc, hmap ▸ hc', hstore'.trans (hp.store.trans hstore.symm), hlimit'.trans (hp.limit.trans hlimit.symm)⟩
    rw [hs, ht, hp.store, List.length_map]
    refine Run.Like.map ((Run.Like.of_ends (hI.relocate h _ _)).imp ?_)
    rintro r₁ _ ⟨rfl, hr⟩
    exact ⟨rfl, rfl, hr, _, hpeers⟩
  · rw [add_of_refused x fun id hid => ha ⟨id, hid⟩,
      add_of_refused (φ.row x) fun id hid => ha ⟨id, (hp.accepts_iff id).1 hid⟩, hp.store, hp.limit, hp.size_eq]
    have hnoted : (turnAway r s.store s.limit s.size k).Ends (fun _ => True) E :=
      Run.ends_of_ok (turnAway_outcome r s.store s.limit s.size k) trivial
    exact Run.Like.map ((Run.Like.of_ends hnoted).imp fun _ _ _ => ⟨rfl, rfl, h, _, hp⟩)

theorem spawn (hI : Registry.Custody I E) (hp : Peers φ s t es) (h : I r) (m : C.Metadata) (x : ρ) :
    Run.Like φ.note (Matched φ I id) E (s.spawn r m x) (t.spawn r m (φ.row x)) := by
  rw [Storage.spawn, Storage.spawn]
  rw [hp.limit, hp.size_eq, hp.store]
  split
  · exact (Run.Like.of_note rfl).bind fun _ _ _ => hp.answer h none
  · refine (Run.Like.of_ends (hI.createHandle h _ m)).bind ?_
    rintro ⟨hd, r₁⟩ _ ⟨rfl, hr⟩
    cases hd with
    | none => exact hp.answer hr none
    | some hd =>
      refine (hp.add hI hr (.handle hd) x).bind ?_
      rintro ⟨added, r₂, s'⟩ ⟨added', r', t'⟩ ⟨hadded, hregistry, hr₂, es', hp'⟩
      obtain rfl : added' = added := hadded
      obtain rfl : r₂ = r' := hregistry
      cases added' with
      | true => exact hp'.answer hr₂ (some hd)
      | false =>
        refine (Run.Like.of_ends (hI.erase hr₂ (.handle hd))).bind ?_
        rintro ⟨_, r₃⟩ _ ⟨rfl, hr₃⟩
        exact hp'.answer hr₃ none

section Sweep

variable {β : Type} {view : Storage τ L → Nat → Checked (Option β)} {view' : Storage τ' L' → Nat → Checked (Option β)}
  {g : Nat → τ → ρ → Option β} {g' : Nat → τ' → ρ' → Option β}

theorem sweepFrom (hview : Reads view g) (hview' : Reads view' g')
    (hg : ∀ i t x, g' i (φ.tenant t) (φ.row x) = g i t x) (p : Predicate β) (hI : Registry.Custody I E) {n : Nat}
    (hp : Peers φ s t es) (h : I r) (hn : i + n = es.length) (asked : Array β) (erased : Nat) :
    Run.Like φ.note (fun a b => Matched φ I id a.answer b.answer) E
      (Storage.sweepFrom view p n i ⟨(r, s), asked, erased⟩)
      (Storage.sweepFrom view' p n i ⟨(r, t), asked, erased⟩) := by
  -- `n` rows are still to be asked about; one that is erased leaves its place to the last
  induction n generalizing i r s t es asked erased with
  | zero => exact .of_pure ⟨rfl, rfl, h, es, hp⟩
  | succ n ih =>
    obtain ⟨e, hi⟩ : ∃ e, es[i]? = some e := ⟨es[i], List.getElem?_eq_getElem (by omega)⟩
    have hnext : i + 1 + n = es.length := by omega
    rw [Storage.sweepFrom, Storage.sweepFrom, hview s es i e hp.left hi,
      hview' t (es.map φ.entry) i _ hp.right (getElem?_entry φ hi), Likeness.entry, hg]
    cases g i e.1 e.2 with
    | none => exact ih hp h hnext asked erased
    | some q =>
      dsimp only
      split
      · refine (hp.removeAt hI h hi).bind ?_
        rintro _ _ ⟨r₁, s', t', rfl, rfl, hr, hp'⟩
        dsimp only
        rw [Likeness.entry, φ.id_tenant]
        refine (Run.Like.of_ends (hI.relocate hr _ _)).bind ?_
        rintro r₂ _ ⟨rfl, hr₂⟩
        exact ih hp' hr₂ (by rw [length_swapPop]; omega) (asked.push q) (erased + 1)
      · exact ih hp h hnext (asked.push q) erased

theorem sweep (hview : Reads view g) (hview' : Reads view' g') (hg : ∀ i t x, g' i (φ.tenant t) (φ.row x) = g i t x)
    (p : Predicate β) (hI : Registry.Custody I E) (hp : Peers φ s t es) (h : I r) :
    Run.Like φ.note (Matched φ I id) E (Swept.answer <$> s.sweep view p r) (Swept.answer <$> t.sweep view' p r) := by
  refine Run.Like.map ?_
  rw [Storage.sweep, Storage.sweep, hp.size_eq]
  exact sweepFrom hview hview' hg p hI hp h (by rw [Nat.zero_add, hp.left.size_eq]) #[] 0

end Sweep

end Peers

end Storage

end EntityStore

namespace EntityStore.Storage

variable {τ L L' ρ : Type} [Layout L ρ] [LawfulLayout L ρ] [Layout L' ρ] [LawfulLayout L' ρ] {C : Config}

structure Twins (s : Storage τ L) (t : Storage τ L') (es : List (τ × ρ)) : Prop where
  left : s.Carries es
  right : t.Carries es
  store : t.store = s.store
  limit : t.limit = s.limit

def Kin {α : Type} (I : Registry C → Prop) (a : α × Registry C × Storage τ L) (b : α × Registry C × Storage τ L') :
    Prop :=
  a.1 = b.1 ∧ a.2.1 = b.2.1 ∧ I a.2.1 ∧ ∃ es, Twins a.2.2 b.2.2 es

variable {I : Registry C → Prop} {E : Fault → Prop} {s : Storage τ L} {t : Storage τ L'} {es : List (τ × ρ)}
  {e : τ × ρ} {i : Nat} {r : Registry C} {k : Key}

namespace Twins

theorem size_eq (ht : Twins s t es) : t.size = s.size := by
  rw [ht.left.size_eq, ht.right.size_eq]

theorem kin {α : Type} (ht : Twins s t es) (h : I r) (a : α) : Kin I (a, r, s) (a, r, t) := ⟨rfl, rfl, h, es, ht⟩

theorem answer {α : Type} (ht : Twins s t es) (h : I r) (a : α) :
    Run.Alike (Kin I) E (pure (a, r, s)) (pure (a, r, t)) := .of_pure (ht.kin h a)

theorem updateRow (ht : Twins s t es) (hi : es[i]? = some e) (f : ρ → ρ) :
    ∃ s' t', s.updateRow i f = .ok s' ∧ t.updateRow i f = .ok t' ∧ Twins s' t' (es.set i (e.1, f e.2)) := by
  obtain ⟨l, hl, hc⟩ := ht.left.updateRow hi f
  obtain ⟨l', hl', hc'⟩ := ht.right.updateRow hi f
  exact ⟨_, _, hl, hl', hc, hc', ht.store, ht.limit⟩

variable [Tenant τ]

theorem peers (ht : Twins s t es) : Peers (.same τ ρ) s t es where
  left := ht.left
  right := by
    rw [Likeness.entry_same, List.map_id]
    exact ht.right
  store := ht.store
  limit := ht.limit

theorem ids_eq (ht : Twins s t es) : t.ids = s.ids := ht.peers.ids_eq

theorem indexOf?_eq (ht : Twins s t es) (r : Registry C) (k : Key) : t.indexOf? r k = s.indexOf? r k :=
  ht.peers.indexOf?_eq r k

end Twins

variable [Tenant τ]

theorem Peers.twins (hp : Peers (.same τ ρ) s t es) : Twins s t es where
  left := hp.left
  right := by
    have hright := hp.right
    rwa [Likeness.entry_same, List.map_id] at hright
  store := hp.store
  limit := hp.limit

theorem alike_of_like {α : Type} {x : Run (α × Registry C × Storage τ L)} {y : Run (α × Registry C × Storage τ L')}
    (h : Run.Like id (Matched (.same τ ρ) I id) E x y) : Run.Alike (Kin I) E x y := by
  refine h.alike.imp ?_
  rintro a b ⟨hanswer, hregistry, hr, es, hp⟩
  exact ⟨hanswer.symm, hregistry, hr, es, hp.twins⟩

theorem Twins.sweep {β : Type} {view : Storage τ L → Nat → Checked (Option β)}
    {view' : Storage τ L' → Nat → Checked (Option β)} {g : Nat → τ → ρ → Option β} (hview : Reads view g)
    (hview' : Reads view' g) (p : Predicate β) (hI : Registry.Custody I E) (ht : Twins s t es) (h : I r) :
    Run.Alike (Kin I) E (Swept.answer <$> s.sweep view p r) (Swept.answer <$> t.sweep view' p r) :=
  alike_of_like (ht.peers.sweep hview hview' (fun _ _ _ => rfl) p hI h)

end EntityStore.Storage
