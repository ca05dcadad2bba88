import EntityStore.Proofs.Layout.Lawful
import EntityStore.Proofs.Registry.Chain
import EntityStore.Storage

/-! Storages that carry lists of entries: a tenant and its row at each position. On such a storage an operation
meets no fault of its own; what is left of it is what it asks of the registry. -/

namespace EntityStore

namespace Storage

variable {τ L ρ : Type} {C : Config}

section Entries

variable [Layout L ρ] [LawfulLayout L ρ]

structure Carries (s : Storage τ L) (es : List (τ × ρ)) : Prop where
  tenants : s.tenants = (es.map (·.1)).toArray
  rows : LawfulLayout.Holds s.rows (es.map (·.2))

variable {s : Storage τ L} {es : List (τ × ρ)} {e : τ × ρ} {i : Nat}

theorem getElem?_rows (hi : es[i]? = some e) : (es.map (·.2))[i]? = some e.2 := by
  rw [List.getElem?_map, hi, Option.map_some]

theorem getElem?_tenant (hi : es[i]? = some e) : (es.map (·.1))[i]? = some e.1 := by
  rw [List.getElem?_map, hi, Option.map_some]

theorem map_fst_set (hi : es[i]? = some e) (x : ρ) : (es.set i (e.1, x)).map (·.1) = es.map (·.1) := by
  obtain ⟨hlt, rfl⟩ := List.getElem?_eq_some_iff.1 hi
  have hlt' : i < (es.map (·.1)).length := by rwa [List.length_map]
  have hset := List.set_getElem_self hlt'
  rw [List.getElem_map] at hset
  rw [List.map_set]
  exact hset

theorem set_eq_mapIdx (hi : es[i]? = some e) (f : ρ → ρ) :
    es.set i (e.1, f e.2) = es.mapIdx fun j e' => (e'.1, if j = i then f e'.2 else e'.2) := by
  have hlt := (List.getElem?_eq_some_iff.1 hi).1
  apply List.ext_getElem?
  intro j
  rw [List.getElem?_set, List.getElem?_mapIdx]
  by_cases hj : i = j
  · subst hj
    simp only [hlt, hi, if_true, Option.map_some]
  · cases es[j]? <;> simp [hj, Ne.symm hj]

def Reads {α : Type} (view : Storage τ L → Nat → Checked (Option α)) (g : Nat → τ → ρ → Option α) : Prop :=
  ∀ (s : Storage τ L) (es : List (τ × ρ)) (i : Nat) (e : τ × ρ), s.Carries es → es[i]? = some e →
    view s i = .ok (g i e.1 e.2)

namespace Carries

theorem size_eq (h : s.Carries es) : s.size = es.length := by
  rw [size, h.tenants]
  simp

theorem getElem?_tenants (h : s.Carries es) (i : Nat) : s.tenants[i]? = es[i]?.map (·.1) := by
  rw [h.tenants, List.getElem?_toArray, List.getElem?_map]

theorem read (h : s.Carries es) (hi : es[i]? = some e) : Layout.read s.rows i = .ok e.2 :=
  LawfulLayout.read h.rows (getElem?_rows hi)

theorem updateRow (h : s.Carries es) (hi : es[i]? = some e) (f : ρ → ρ) :
    ∃ l, s.updateRow i f = .ok { s with rows := l } ∧ Carries { s with rows := l } (es.set i (e.1, f e.2)) := by
  obtain ⟨l, hl, hr⟩ := LawfulLayout.update f h.rows (getElem?_rows hi)
  refine ⟨l, by rw [Storage.updateRow, hl]; rfl, ?_, ?_⟩
  · rw [map_fst_set hi]
    exact h.tenants
  · rwa [List.map_set]

theorem clear (h : s.Carries es) :
    Carries { s with tenants := #[], rows := Layout.clear s.rows } ([] : List (τ × ρ)) :=
  ⟨rfl, LawfulLayout.holds_clear h.rows⟩

end Carries

end Entries

section Lookup

variable [Tenant τ]

theorem length_ids (s : Storage τ L) : s.ids.length = s.size := by
  rw [ids, List.length_map]
  rfl

theorem indexOf?_eq_some_iff {s : Storage τ L} {r : Registry C} {k : Key} {i : Nat} :
    s.indexOf? r k = some i ↔
      ∃ id, r.resolve? k = some id ∧ r.locationOf? id = some (.housed s.store i) ∧ s.ids[i]? = some id := by
  have hids : ∀ j : Nat, s.ids[j]? = s.tenants[j]?.map Tenant.id := fun j => by
    rw [ids, List.getElem?_map, Array.getElem?_toList]
  simp only [indexOf?, Option.bind_eq_bind, Option.bind_eq_some_iff]
  constructor
  · rintro ⟨id, hk, ⟨store, row⟩, hl, h⟩
    split at h
    · rename_i hs
      obtain ⟨j, hj, hi⟩ := Option.bind_eq_some_iff.1 h
      split at hi
      · rename_i ht
        cases hi
        simp only at hs hj
        subst hs hj
        exact ⟨id, hk, hl, (hids i).trans ht⟩
      · cases hi
    · cases h
  · rintro ⟨id, hk, hl, ht⟩
    exact ⟨id, hk, _, hl, (if_pos rfl).trans (if_pos ((hids i).symm.trans ht))⟩

end Lookup

section Removal

variable [Tenant τ] [Layout L ρ] [LawfulLayout L ρ]

def fillGap (r : Registry C) (store : StoreId) (i : Nat) : Option τ → Run (Registry C)
  | none => return r
  | some moved => do
    let r ← r.relocate (Tenant.id moved) (.housed store i)
    Run.note (Tenant.moved τ (Tenant.id moved) i)
    return r

namespace Carries

variable {s : Storage τ L} {es : List (τ × ρ)} {e : τ × ρ} {i : Nat} {r : Registry C} {k : Key}

theorem ids_eq (h : s.Carries es) : s.ids = es.map fun e => Tenant.id e.1 := by
  rw [ids, h.tenants, List.map_map]
  rfl

theorem getElem?_ids (h : s.Carries es) (hi : es[i]? = some e) : s.ids[i]? = some (Tenant.id e.1) := by
  rw [h.ids_eq, List.getElem?_map, hi, Option.map_some]

theorem exists_of_indexOf? (h : s.Carries es) (hi : s.indexOf? r k = some i) :
    ∃ e, es[i]? = some e ∧ r.resolve? k = some (Tenant.id e.1) ∧
      r.locationOf? (Tenant.id e.1) = some (.housed s.store i) := by
  obtain ⟨id, hk, hl, ht⟩ := indexOf?_eq_some_iff.1 hi
  rw [h.ids_eq, List.getElem?_map] at ht
  obtain ⟨e, he, rfl⟩ := Option.map_eq_some_iff.1 ht
  exact ⟨e, he, hk, hl⟩

theorem removeAt (h : s.Carries es) (hi : es[i]? = some e) :
    ∃ s', s'.Carries (swapPop es i) ∧ s'.store = s.store ∧ s'.limit = s.limit ∧ ∀ r : Registry C,
      s.removeAt r i = (fun r => (e, r, s')) <$> fillGap r s.store i ((swapPop es i)[i]?.map (·.1)) := by
  obtain ⟨store, limit, tenants, rows⟩ := s
  obtain ⟨ht, hr⟩ := h
  obtain rfl : tenants = (es.map (·.1)).toArray := ht
  have hti := getElem?_tenant hi
  obtain ⟨rows', hrows, hholds⟩ := LawfulLayout.swapPop hr (getElem?_rows hi)
  rw [← map_swapPop] at hholds
  refine ⟨⟨store, limit, ((swapPop es i).map (·.1)).toArray, rows'⟩, ⟨rfl, hholds⟩, rfl, rfl, fun r => ?_⟩
  simp only [Storage.removeAt, Column.swapPop_toArray hti, hrows, ← map_swapPop, Run.lift_ok, pure_bind,
    List.getElem?_toArray, List.getElem?_map]
  cases (swapPop es i)[i]?.map (·.1) with
  | none => simp only [fillGap, map_pure]
  | some moved => simp only [fillGap, map_bind, map_pure]

end Carries

end Removal

section Insertion

variable [Tenant τ] [Layout L ρ] {s : Storage τ L} {r : Registry C} {k : Key} {id : Nat}

structure Accepts (s : Storage τ L) (r : Registry C) (k : Key) (id : Nat) : Prop where
  resolves : r.resolve? k = some id
  room : s.size < s.limit
  pending : r.locationOf? id = some (.pending s.store)

def turnAway (r : Registry C) (store : StoreId) (limit size : Nat) (k : Key) : Run Unit :=
  match r.resolve? k with
  | none => Run.note (.addInvalid k.entity)
  | some id =>
    if limit ≤ size then Run.note (.storeFull store limit)
    else
      match r.locationOf? id with
      | some l => Run.note (.addNotPending id store l)
      | none => pure ()

theorem add_of_refused (x : ρ) (h : ∀ id, ¬ s.Accepts r k id) :
    s.add r k x = (fun _ => (false, r, s)) <$> turnAway r s.store s.limit s.size k := by
  cases hk : r.resolve? k with
  | none =>
    simp only [Storage.add, turnAway, hk]
    rfl
  | some id =>
    by_cases hle : s.limit ≤ s.size
    · simp only [Storage.add, turnAway, hk, if_pos hle]
      rfl
    · simp only [Storage.add, turnAway, hk, if_neg hle]
      cases hl : r.locationOf? id with
      | none => rfl
      | some l =>
        have hp : ¬ l.isPendingIn s.store := fun hp =>
          h id ⟨hk, Nat.not_le.1 hle, hl.trans (congrArg some (Location.isPendingIn_iff.1 hp))⟩
        obtain ⟨hd, hh⟩ := Registry.exists_handle? hl
        simp only [Tenant.acquire_of_handle? hh, if_neg hp]
        rfl

theorem turnAway_outcome (r : Registry C) (store : StoreId) (limit size : Nat) (k : Key) :
    (turnAway r store limit size k).outcome = .ok () := by
  rw [turnAway]
  split
  · rfl
  · split
    · rfl
    · split <;> rfl

theorem add_outcome_of_refused (x : ρ) (h : ∀ id, ¬ s.Accepts r k id) :
    (s.add r k x).outcome = .ok (false, r, s) := by
  rw [add_of_refused x h, Run.outcome_map, turnAway_outcome]
  rfl

variable [LawfulLayout L ρ]

theorem Carries.enter {es : List (τ × ρ)} (h : s.Carries es) (hd : Handle) (x : ρ) :
    ∃ s', s'.Carries (es ++ [(Tenant.ofHandle hd, x)]) ∧ s'.store = s.store ∧ s'.limit = s.limit ∧
      ∀ {r : Registry C} {k : Key} {id : Nat}, s.Accepts r k id → r.handle? id = some hd →
        s.add r k x = (fun r => (true, r, s')) <$> r.relocate id (.housed s.store es.length) := by
  have hsize := h.size_eq
  obtain ⟨rows, hrows, hholds⟩ := LawfulLayout.push x h.rows
  refine ⟨⟨s.store, s.limit, s.tenants.push (Tenant.ofHandle hd), rows⟩, ⟨?_, ?_⟩, rfl, rfl, fun ha hh => ?_⟩
  · rw [h.tenants, List.push_toArray, List.map_append]
    rfl
  · rwa [List.map_append]
  · rw [Storage.add, ha.resolves]
    simp only [if_neg (Nat.not_le.2 ha.room), ha.pending, Tenant.acquire_of_handle? hh,
      Location.isPendingIn_iff.2 rfl, if_true, hrows, Run.lift_ok, pure_bind, ← hsize]
    rfl

theorem Carries.add {es : List (τ × ρ)} (h : s.Carries es) (ha : s.Accepts r k id) {hd : Handle}
    (hh : r.handle? id = some hd) (x : ρ) :
    ∃ s', s'.Carries (es ++ [(Tenant.ofHandle hd, x)]) ∧ s'.store = s.store ∧ s'.limit = s.limit ∧
      s.add r k x = (fun r => (true, r, s')) <$> r.relocate id (.housed s.store es.length) := by
  obtain ⟨s', hc, hstore, hlimit, ho⟩ := h.enter (C := C) hd x
  exact ⟨s', hc, hstore, hlimit, ho ha hh⟩

end Insertion

end Storage

end EntityStore
