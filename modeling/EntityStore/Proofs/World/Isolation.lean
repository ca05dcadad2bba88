import EntityStore.Proofs.Storage.Stops
import EntityStore.Proofs.World.Journal

/-! Storages whose rows are in place do not meddle with each other. -/

namespace EntityStore

section

variable {C : Config} {r r' : Registry C} {k : Key} {id : Nat}

namespace Registry

theorem resolve?_of_face (h : r'.records[k.entity]?.map Record.face = r.records[k.entity]?.map Record.face) :
    r'.resolve? k = r.resolve? k := resolve?_of_handle? (handle?_of_face h)

theorem location?_of_face (h : r'.records[k.entity]?.map Record.face = r.records[k.entity]?.map Record.face) :
    r'.location? k = r.location? k := by
  rw [location?, location?, resolve?_of_face h]
  refine Option.bind_congr fun id hk => ?_
  obtain rfl := entity_of_resolve? hk
  exact locationOf?_of_face h

theorem metadata?_of_face (h : r'.records[k.entity]?.map Record.face = r.records[k.entity]?.map Record.face) :
    r'.metadata? k = r.metadata? k := by
  rw [metadata?, metadata?, resolve?_of_face h]
  refine Option.bind_congr fun id hk => ?_
  obtain rfl := entity_of_resolve? hk
  have hm := congrArg (Option.map Face.metadata) h
  rwa [Option.map_map, Option.map_map] at hm

end Registry

namespace Storage

variable {τ L τ' L' : Type} [Tenant τ] [Tenant τ'] {s : Storage τ L} {t : Storage τ' L'}

theorem indexOf?_congr (k : Key) (hk : r'.resolve? k = r.resolve? k)
    (hl : ∀ id : Nat, id ∈ s.ids → r'.locationOf? id = r.locationOf? id) : s.indexOf? r' k = s.indexOf? r k := by
  apply Option.ext
  intro i
  rw [indexOf?_eq_some_iff, indexOf?_eq_some_iff, hk]
  refine exists_congr fun id => and_congr_right fun _ => and_congr_left fun hid => ?_
  rw [hl id (List.mem_of_getElem? hid)]

theorem indexOf?_of_faces
    (h : ∀ id : Nat, id ∈ s.ids → r'.records[id]?.map Record.face = r.records[id]?.map Record.face) (k : Key) :
    s.indexOf? r' k = s.indexOf? r k := by
  by_cases hk : k.entity ∈ s.ids
  · exact indexOf?_congr k (Registry.resolve?_of_face (h _ hk)) fun id hid => Registry.locationOf?_of_face (h id hid)
  · have hnone : ∀ r : Registry C, s.indexOf? r k = none := by
      intro r
      rw [Option.eq_none_iff_forall_ne_some]
      exact fun i hi => hk (mem_ids_of_indexOf? hi)
    rw [hnone, hnone]

/-- Each row is that of an entity that lives and is located there. -/
def InPlace (s : Storage τ L) (r : Registry C) : Prop :=
  ∀ row id : Nat, s.ids[row]? = some id → r.isAlive id ∧ r.locationOf? id = some (.housed s.store row)

namespace InPlace

theorem exists_row (hs : s.InPlace r) (hid : id ∈ s.ids) :
    ∃ row, s.ids[row]? = some id ∧ r.locationOf? id = some (.housed s.store row) := by
  obtain ⟨row, hrow⟩ := List.mem_iff_getElem?.1 hid
  exact ⟨row, hrow, (hs row id hrow).2⟩

theorem isAlive (hs : s.InPlace r) (hid : id ∈ s.ids) : r.isAlive id := by
  obtain ⟨row, hrow, -⟩ := hs.exists_row hid
  exact (hs row id hrow).1

theorem not_pending (hs : s.InPlace r) (hid : id ∈ s.ids) (store : StoreId) :
    r.locationOf? id ≠ some (.pending store) := by
  obtain ⟨row, -, hl⟩ := hs.exists_row hid
  rw [hl]
  simp [Location.housed, Location.pending]

theorem indexOf?_of_resolve? {row : Nat} (hs : s.InPlace r) (hk : r.resolve? k = some id)
    (hid : s.ids[row]? = some id) : s.indexOf? r k = some row :=
  indexOf?_eq_some_iff.2 ⟨id, hk, (hs row id hid).2, hid⟩

theorem contains (hs : s.InPlace r) (hk : r.resolve? k = some id) (hid : id ∈ s.ids) : s.contains r k := by
  obtain ⟨row, hrow, -⟩ := hs.exists_row hid
  exact Option.isSome_iff_exists.2 ⟨row, hs.indexOf?_of_resolve? hk hrow⟩

theorem nodup_ids (hs : s.InPlace r) : s.ids.Nodup := by
  rw [List.nodup_iff_injective_getElem]
  intro a b hab
  have ha := (hs a _ (List.getElem?_eq_getElem a.isLt)).2
  have hb := (hs b _ (List.getElem?_eq_getElem b.isLt)).2
  dsimp only at hab
  rw [hab, hb, Option.some_inj, Location.housed, Location.housed, Location.mk.injEq] at ha
  exact Fin.ext (Option.some_inj.1 ha.2.symm)

theorem not_mem_ids (hs : s.InPlace r) (ht : t.InPlace r) (h : s.store ≠ t.store) (hid : id ∈ t.ids) : id ∉ s.ids := by
  intro hid'
  obtain ⟨row, -, hl⟩ := hs.exists_row hid'
  obtain ⟨row', -, hl'⟩ := ht.exists_row hid
  rw [hl, Option.some_inj, Location.housed, Location.housed, Location.mk.injEq] at hl'
  exact h hl'.1

theorem not_relocated {ls : List (EntityId × Location)} (hs : s.InPlace r) (ht : t.InPlace r) (h : s.store ≠ t.store)
    (hls : ∀ m ∈ ls, m.1 ∈ t.ids ∨ r.locationOf? m.1 = some (.pending t.store)) (hid : id ∈ s.ids) :
    id ∉ ls.map Prod.fst := by
  intro hm
  obtain ⟨m, hmem, rfl⟩ := List.mem_map.1 hm
  rcases hls m hmem with htenant | hpending
  · exact hs.not_mem_ids ht h htenant hid
  · exact hs.not_pending hid _ hpending

end InPlace

end Storage

end

variable {C : Config} {ι κ : Type} {El : κ → Type} [∀ k, Footprint (El k)] {shapes : ι → Shape κ}

def Shape.component? [DecidableEq κ] (r : Registry C) (key : Key) (k : κ) :
    (shape : Shape κ) → Storage shape.Tenant (shape.Rows El) → Checked (Option (El k))
  | component _, _ => .ok none
  | dense _, s => Storage.component? s r key k
  | chunked _ _, s => Storage.component? s r key k

theorem Shape.component?_congr [DecidableEq κ] {r r' : Registry C} {key : Key} (k : κ) (shape : Shape κ)
    {s : Storage shape.Tenant (shape.Rows El)} (h : s.indexOf? r' key = s.indexOf? r key) :
    shape.component? r' key k s = shape.component? r key k s := by
  cases shape with
  | component c => rfl
  | dense ks => rw [component?, component?, Storage.component?, Storage.component?, h]
  | chunked ks n => rw [component?, component?, Storage.component?, Storage.component?, h]

namespace World

variable {w w' : World C El shapes}

structure InPlace (w : World C El shapes) : Prop where
  stores (i : ι) : (w.stores i).InPlace w.registry
  distinct : Function.Injective fun i => (w.stores i).store

variable [DecidableEq κ]

/-- The storage and its tenants are as they were. Only for those who are not housed in it may the reason change why they
are not found. -/
structure Undisturbed (w w' : World C El shapes) (j : ι) : Prop where
  storage : w'.stores j = w.stores j
  indexOf? (k : Key) : (w'.stores j).indexOf? w'.registry k = (w.stores j).indexOf? w.registry k
  contains (k : Key) : (w'.stores j).contains w'.registry k = (w.stores j).contains w.registry k
  get? (k : Key) : (w'.stores j).get? w'.registry k = (w.stores j).get? w.registry k
  get (k : Key) : Except.toOption <$> (w'.stores j).get w'.registry k =
    Except.toOption <$> (w.stores j).get w.registry k
  component? (k : Key) (c : κ) : (shapes j).component? w'.registry k c (w'.stores j) =
    (shapes j).component? w.registry k c (w.stores j)
  isValid (k : Key) : k.entity ∈ (w.stores j).ids → w'.registry.isValid k = w.registry.isValid k
  location? (k : Key) : k.entity ∈ (w.stores j).ids → w'.registry.location? k = w.registry.location? k
  metadata? (k : Key) : k.entity ∈ (w.stores j).ids → w'.registry.metadata? k = w.registry.metadata? k

theorem undisturbed_of_faces {j : ι} (hs : w'.stores j = w.stores j) (h : ∀ id : Nat, id ∈ (w.stores j).ids →
    w'.registry.records[id]?.map Record.face = w.registry.records[id]?.map Record.face) : w.Undisturbed w' j := by
  have hindex := Storage.indexOf?_of_faces h
  refine ⟨hs, fun k => ?_, fun k => ?_, fun k => ?_, fun k => ?_, fun k c => ?_, fun k hk => ?_, fun k hk => ?_,
    fun k hk => ?_⟩
  · rw [hs, hindex]
  · rw [hs, Storage.contains, Storage.contains, hindex]
  · rw [hs, Storage.get?, Storage.get?, hindex]
  · rw [hs, Storage.get, Storage.get, hindex]
    cases (w.stores j).indexOf? w.registry k with
    | none => rfl
    | some i => rfl
  · rw [hs]
    exact (shapes j).component?_congr c (hindex k)
  · rw [Registry.isValid, Registry.isValid, Registry.resolve?_of_face (h _ hk)]
  · exact Registry.location?_of_face (h _ hk)
  · exact Registry.metadata?_of_face (h _ hk)

variable [∀ i, (shapes i).Proper El] [DecidableEq ι] {w₀ : World C El shapes} {v : Ledger C}

theorem Steady.isolated (hw : w.Steady v) (hp : w.InPlace) {α : Type} (i : ι) (c : StoreCall C El (shapes i) α) :
    ((WorldCall.store i c).run w).Ends (fun a => ∀ j, j ≠ i → w.Undisturbed a.2 j)
      fun f => c.MayFault (w.stores i).size f := by
  obtain ⟨es, hs⟩ := hw.carries i
  have hnone : Registry.stumble? C w.registry.isAlive (c.relocations w.registry (w.stores i)) = none := by
    have hstops := c.not_stops hs (hw.store_ne i) (fun id => (hp.stores i).isAlive) (hp.stores i).nodup_ids
    rw [c.stops_iff (hw.store_ne i) hw.represents] at hstops
    exact Option.not_isSome_iff_eq_none.1 hstops
  apply Run.Ends.map
  refine Run.Ends.imp (c.run_relocates hs hw.represents) ?_ ?_
  · rintro ⟨a, r, s⟩ ⟨-, v', hr, hfaces⟩ j hj
    apply undisturbed_of_faces (Function.update_of_ne hj s w.stores)
    intro id hid
    have hstill : id ∉ (c.relocations w.registry (w.stores i)).map Prod.fst :=
      (hp.stores j).not_relocated (hp.stores i) (fun h => hj (hp.distinct h)) (fun _ hm => c.mem_relocations hs hm) hid
    rw [← hr.getElem?_face, ← hw.represents.getElem?_face]
    exact hfaces id (hw.represents.isAlive_iff.1 ((hp.stores j).isAlive hid)) hstill
  · rintro f (⟨hf, -⟩ | ⟨id, hid, -⟩)
    · exact hf
    · rw [hnone] at hid
      cases hid

/-- Where every row is in place, a call of a storage stops only for a request for too much room or a position beyond the
last row, and no other storage is disturbed by it. -/
theorem storages_isolated (h₀ : w₀.Fresh) (h : Leads (fun _ _ => True) w₀ w) (hp : w.InPlace) {α : Type} (i : ι)
    (c : StoreCall C El (shapes i) α) :
    ((WorldCall.store i c).run w).Ends (fun a => ∀ j, j ≠ i → w.Undisturbed a.2 j)
      fun f => c.MayFault (w.stores i).size f := by
  obtain ⟨v, hw⟩ := h₀.leads_steady h
  exact hw.isolated hp i c

def housedPair : World Config.standard Kind.Value pairShapes :=
  let spawn : WorldCall Config.standard Kind.Value pairShapes (Option Handle) :=
    .store false (.component (.shared (.spawn () true)))
  ((pair.after spawn).after spawn).after (.store true (.chunked (.shared (.spawn () (.cons true (.cons 7 .nil))))))

theorem housedPair_leads : Leads (fun _ _ => True) pair housedPair := by
  unfold housedPair
  exact ((Leads.refl.after _ trivial).after _ trivial).after _ trivial

theorem housedPair_inPlace : housedPair.InPlace where
  stores := by rintro (_ | _) (_ | _ | row) id h <;> cases h <;> exact ⟨rfl, rfl⟩
  distinct := by rintro (_ | _) (_ | _) h <;> first | rfl | cases h

theorem storages_isolated_pair : ∃ w' : World Config.standard Kind.Value pairShapes, (w'.stores false).ids = [1] ∧
    w'.registry.location? (.id 0) = some (.pending 2) ∧ housedPair.Undisturbed w' true :=
  ⟨_, rfl, rfl, (storages_isolated pair_fresh housedPair_leads housedPair_inPlace false
    (.component (.shared (.take (.id 0) 2)))).ok rfl true (by decide)⟩

end World

end EntityStore
