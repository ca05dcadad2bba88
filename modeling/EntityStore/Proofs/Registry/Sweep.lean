import EntityStore.Proofs.Registry.Represents

/-! Sweeps over a registry, and the list of those who live. -/

namespace EntityStore

variable {C : Config}

namespace Ledger

theorem faces_destroy (v : Ledger C) {id j : Nat} (h : j ≠ id) : (v.destroy id).faces[j]? = v.faces[j]? := by
  refine (faces_modify v id _ j).trans ?_
  simp [Ne.symm h]

theorem faces_destroyAll (v : Ledger C) {ids : List EntityId} {j : Nat} (h : j ∉ ids) :
    (v.destroyAll ids).faces[j]? = v.faces[j]? := by
  induction ids generalizing v with
  | nil => rfl
  | cons id ids ih =>
    rw [List.mem_cons, not_or] at h
    rw [destroyAll, List.foldl_cons, ← destroyAll, ih _ h.2, faces_destroy v h.1]

theorem lives_destroyAll {v : Ledger C} {ids : List EntityId} {j : Nat} :
    (v.destroyAll ids).Lives j ↔ v.Lives j ∧ j ∉ ids := by
  induction ids generalizing v with
  | nil => simp [destroyAll]
  | cons id ids ih =>
    rw [destroyAll, List.foldl_cons, ← destroyAll, ih, lives_destroy, List.mem_cons, not_or, and_assoc]

theorem entitiesFrom_congr {v w : Ledger C} {n id : Nat} (h : ∀ j, id ≤ j → v.faces[j]? = w.faces[j]?) :
    v.entitiesFrom n id = w.entitiesFrom n id := by
  induction n generalizing id with
  | zero => rfl
  | succ n ih => rw [entitiesFrom, entitiesFrom, h id (Nat.le_refl _), ih fun j hj => h j (Nat.le_of_succ_le hj)]

theorem mem_entitiesFrom {v : Ledger C} {n id : Nat} {e : EntityId × Record C} (h : e ∈ v.entitiesFrom n id) :
    id ≤ (e.1 : Nat) ∧ v.faces[e.1]?.bind Face.living? = some e.2 := by
  induction n generalizing id with
  | zero => cases h
  | succ n ih =>
    rw [entitiesFrom, List.mem_append] at h
    rcases h with h | h
    · obtain ⟨e', he', rfl⟩ := Option.map_eq_some_iff.1 (Option.mem_toList.1 h)
      exact ⟨Nat.le_refl _, he'⟩
    · obtain ⟨hle, he⟩ := ih h
      exact ⟨Nat.le_of_succ_le hle, he⟩

theorem entitiesFrom_of_lives {v : Ledger C} {id : Nat} {e : Record C} (n : Nat)
    (he : v.faces[id]? = some e.face) (hl : e.isLive) :
    v.entitiesFrom (n + 1) id = (id, e) :: v.entitiesFrom n (id + 1) := by
  rw [entitiesFrom, he, Option.bind_some, Record.living?_face, if_pos hl]
  rfl

theorem entitiesFrom_of_dead {v : Ledger C} {id : Nat} {e : Record C} (n : Nat) (he : v.faces[id]? = some e.face)
    (hl : ¬ e.isLive) : v.entitiesFrom (n + 1) id = v.entitiesFrom n (id + 1) := by
  rw [entitiesFrom, he, Option.bind_some, Record.living?_face, if_neg hl]
  rfl

theorem pairwise_entitiesFrom (v : Ledger C) (n id : Nat) :
    (v.entitiesFrom n id).Pairwise fun a b => (a.1 : Nat) < b.1 := by
  induction n generalizing id with
  | zero => exact .nil
  | succ n ih =>
    rw [entitiesFrom]
    cases hf : v.faces[id]?.bind Face.living? with
    | none => exact ih (id + 1)
    | some e => exact .cons (fun b hb => Nat.lt_of_succ_le (mem_entitiesFrom hb).1) (ih (id + 1))

end Ledger

namespace Registry.Represents

open Ledger

variable {r : Registry C} {v : Ledger C}

theorem entities_eq_map (h : r.Represents v) :
    r.entities = (r.records.toList.zipIdx.filter (·.1.isLive)).map fun e => (e.2, e.1) := by
  rw [Registry.entities, ← List.filterMap_eq_map]
  apply List.filterMap_congr
  rintro ⟨e, id⟩ he
  have hid := (List.getElem?_eq_some_iff.1 (List.mem_zipIdx_iff_getElem?.1 (List.mem_filter.1 he).1)).1
  rw [Array.length_toList, h.size_eq] at hid
  rw [h.ofIndex?_eq_of_lt hid]
  rfl

theorem entities_eq (h : r.Represents v) : r.entities = v.entities := by
  have key : ∀ (es : List (Record C)) (id : Nat), (∀ i (hi : i < es.length), v.faces[id + i]? = some es[i].face) →
      ((es.zipIdx id).filter (·.1.isLive)).map (fun e => (e.2, e.1)) = v.entitiesFrom es.length id := by
    intro es
    induction es with
    | nil => exact fun _ _ => rfl
    | cons e es ih =>
      intro id hes
      have he : v.faces[id]? = some e.face := hes 0 (Nat.succ_pos _)
      have hrest := ih (id + 1) fun i hi => by
        rw [Nat.add_assoc, Nat.add_comm 1 i]
        exact hes (i + 1) (Nat.succ_lt_succ hi)
      rw [List.zipIdx_cons]
      by_cases hl : e.isLive
      · rw [List.filter_cons, if_pos hl, List.map_cons, hrest, List.length_cons, entitiesFrom_of_lives _ he hl]
      · rw [List.filter_cons, if_neg hl, hrest, List.length_cons, entitiesFrom_of_dead _ he hl]
  have hr := key r.records.toList 0 fun i hi => by
    have hi' : i < r.records.size := by simpa using hi
    rw [h.getElem?_face, Nat.zero_add, Array.getElem?_eq_getElem hi']
    rfl
  rw [h.entities_eq_map, hr, Ledger.entities, Array.length_toList, h.size_eq]

theorem eraseFrom {p : Predicate (EntityId × Record C)} {n id : Nat} (h : r.Represents v)
    (hn : id + n = v.faces.length) (asked : Array (EntityId × Record C)) (erased : Nat) :
    ∃ r', (Registry.eraseFrom p n id ⟨r, asked, erased⟩).outcome =
        .ok ⟨r', asked ++ v.entitiesFrom n id, erased + (p.hits asked (v.entitiesFrom n id)).length⟩ ∧
      r'.Represents (v.destroyAll ((p.hits asked (v.entitiesFrom n id)).map (·.1))) := by
  induction n generalizing id r v asked erased with
  | zero =>
    refine ⟨r, ?_, h⟩
    simp [Registry.eraseFrom, entitiesFrom, Predicate.hits]
  | succ n ih =>
    have hlt : id < v.faces.length := by omega
    obtain ⟨e, he, hf⟩ := h.exists_record hlt
    simp only [Registry.eraseFrom, recordAt_eq he]
    by_cases hl : e.isLive
    · have hid : v.Lives id := h.isAlive_iff.1 (by rw [Registry.isAlive, he]; exact hl)
      rw [if_pos hl, h.ofIndex?_eq_of_lt hlt, entitiesFrom_of_lives n hf hl, Predicate.hits]
      by_cases hp : p asked (id, e)
      · simp only [if_pos hp]
        obtain ⟨r₁, hr₁, hv₁⟩ := h.destroy hid
        have hn₁ : id + 1 + n = (v.destroy id).faces.length := by rw [length_destroy]; omega
        obtain ⟨r', hr', hv'⟩ := ih hv₁ hn₁ (asked.push (id, e)) (erased + 1)
        -- the slots ahead do not see that this one died
        have hrest : (v.destroy id).entitiesFrom n (id + 1) = v.entitiesFrom n (id + 1) :=
          entitiesFrom_congr fun j hj => faces_destroy v (by omega)
        rw [hrest] at hr' hv'
        refine ⟨r', ?_, hv'⟩
        simp only [Run.outcome_bind, hr₁, Checked.ok_bind, hr', List.length_cons, Nat.add_assoc, Nat.add_comm 1]
        simp
      · simp only [if_neg hp]
        have hn₁ : id + 1 + n = v.faces.length := by omega
        obtain ⟨r', hr', hv'⟩ := ih h hn₁ (asked.push (id, e)) erased
        exact ⟨r', by simpa using hr', hv'⟩
    · rw [if_neg hl, entitiesFrom_of_dead n hf hl]
      exact ih h (by omega) asked erased

theorem eraseWhere (h : r.Represents v) (p : Predicate (EntityId × Record C)) :
    ∃ r', (r.eraseWhere p).outcome = .ok ⟨r', r.entities.toArray, (p.hits #[] r.entities).length⟩ ∧
      r'.Represents (v.destroyAll ((p.hits #[] r.entities).map (·.1))) := by
  obtain ⟨r', hr, hv⟩ := h.eraseFrom (p := p) (Nat.zero_add v.faces.length) #[] 0
  rw [h.entities_eq, Ledger.entities]
  refine ⟨r', ?_, hv⟩
  rw [Registry.eraseWhere, h.size_eq, hr]
  simp

theorem destroyFrom {n id : Nat} (h : r.Represents v) (hn : id + n = v.faces.length) :
    ∃ r', (Registry.destroyFrom n id r).outcome = .ok r' ∧
      r'.Represents (v.destroyAll ((v.entitiesFrom n id).map (·.1))) := by
  induction n generalizing id r v with
  | zero => exact ⟨r, rfl, h⟩
  | succ n ih =>
    have hlt : id < v.faces.length := by omega
    obtain ⟨e, he, hf⟩ := h.exists_record hlt
    simp only [Registry.destroyFrom, recordAt_eq he]
    by_cases hl : e.isLive
    · have hid : v.Lives id := h.isAlive_iff.1 (by rw [Registry.isAlive, he]; exact hl)
      rw [if_pos hl, h.ofIndex?_eq_of_lt hlt, entitiesFrom_of_lives n hf hl]
      obtain ⟨r₁, hr₁, hv₁⟩ := h.destroy hid
      have hn₁ : id + 1 + n = (v.destroy id).faces.length := by rw [length_destroy]; omega
      obtain ⟨r', hr', hv'⟩ := ih hv₁ hn₁
      have hrest : (v.destroy id).entitiesFrom n (id + 1) = v.entitiesFrom n (id + 1) :=
        entitiesFrom_congr fun j hj => faces_destroy v (by omega)
      rw [hrest] at hv'
      refine ⟨r', ?_, hv'⟩
      simp only [Run.outcome_bind, hr₁, Checked.ok_bind, hr']
    · rw [if_neg hl, entitiesFrom_of_dead n hf hl]
      exact ih h (by omega)

theorem clear (h : r.Represents v) :
    ∃ r', r.clear.outcome = .ok r' ∧ r'.Represents (v.destroyAll (v.entities.map (·.1))) := by
  obtain ⟨r', hr, hv⟩ := h.destroyFrom (Nat.zero_add v.faces.length)
  exact ⟨r', by rw [Registry.clear, h.size_eq, hr], hv⟩

end Registry.Represents

end EntityStore

namespace EntityStore.Registry

variable {C : Config} {r r' : Registry C} {v : Ledger C} {k : Key} {id : Nat}

def livingAt? (r : Registry C) (id : Nat) : Option (Record C) := r.records[id]?.filter Record.isLive

theorem livingAt?_eq_some_iff {e : Record C} : r.livingAt? id = some e ↔ r.records[id]? = some e ∧ e.isLive :=
  Option.filter_eq_some_iff

theorem isAlive_eq_livingAt? (r : Registry C) (id : Nat) : r.isAlive id = (r.livingAt? id).isSome := by
  rw [isAlive, livingAt?]
  cases r.records[id]? with
  | none => rfl
  | some e => cases hl : e.isLive <;> simp [hl]

theorem isValidHandle_eq_livingAt? (r : Registry C) (h : Handle) :
    r.isValidHandle h = (r.livingAt? h.id).any (·.generation == h.generation) := by
  rw [isValidHandle, livingAt?]
  cases r.records[h.id]? with
  | none => rfl
  | some e => cases hl : e.isLive <;> simp [hl]

theorem handle?_eq_livingAt? (r : Registry C) (id : Nat) :
    r.handle? id = (r.livingAt? id).map fun e => ⟨id, e.generation⟩ := by
  rw [handle?, livingAt?]
  cases r.records[id]? with
  | none => rfl
  | some e => cases hl : e.isLive <;> simp [hl]

theorem locationOf?_eq_livingAt? (r : Registry C) (id : Nat) :
    r.locationOf? id = (r.livingAt? id).bind Record.location? := by
  rw [locationOf?, livingAt?]
  cases r.records[id]? with
  | none => rfl
  | some e => rcases e with ⟨_ | _, _, _⟩ <;> rfl

theorem isAlive_of_resolve? (hk : r.resolve? k = some id) : r.isAlive id := by
  obtain rfl := entity_of_resolve? hk
  cases k with
  | id id =>
    rw [resolve?, Option.ite_none_right_eq_some] at hk
    exact hk.1
  | handle k =>
    rw [resolve?, Option.ite_none_right_eq_some, isValidHandle_eq_livingAt?] at hk
    rw [isAlive_eq_livingAt?]
    exact Option.isSome_of_any hk.1

theorem getElem?_of_resolve? (hk : r.resolve? k = some id) : r.records[id]? = r.livingAt? id := by
  have halive := isAlive_of_resolve? hk
  rw [isAlive_eq_livingAt?] at halive
  obtain ⟨e, he⟩ := Option.isSome_iff_exists.1 halive
  rw [he]
  exact (livingAt?_eq_some_iff.1 he).1

section Same

variable (h : r'.livingAt? k.entity = r.livingAt? k.entity)

include h

theorem resolve?_of_livingAt? : r'.resolve? k = r.resolve? k := by
  cases k with
  | id id =>
    have hid : r'.livingAt? id = r.livingAt? id := h
    rw [resolve?, resolve?, isAlive_eq_livingAt?, isAlive_eq_livingAt?, hid]
  | handle k =>
    have hid : r'.livingAt? k.id = r.livingAt? k.id := h
    rw [resolve?, resolve?, isValidHandle_eq_livingAt?, isValidHandle_eq_livingAt?, hid]

theorem location?_of_livingAt? : r'.location? k = r.location? k := by
  have hk := resolve?_of_livingAt? h
  rw [location?, location?, hk]
  refine Option.bind_congr fun id hid => ?_
  obtain rfl := entity_of_resolve? hid
  rw [locationOf?_eq_livingAt?, locationOf?_eq_livingAt?, h]

theorem metadata?_of_livingAt? : r'.metadata? k = r.metadata? k := by
  have hk := resolve?_of_livingAt? h
  rw [metadata?, metadata?, hk]
  refine Option.bind_congr fun id hid => ?_
  obtain rfl := entity_of_resolve? hid
  rw [getElem?_of_resolve? hid, getElem?_of_resolve? (hk.trans hid), h]

end Same

namespace Represents

variable {w : Ledger C}

theorem livingAt?_eq (h : r.Represents v) (id : Nat) : r.livingAt? id = v.faces[id]?.bind Face.living? := by
  rw [h.getElem?_face, livingAt?]
  cases r.records[id]? with
  | none => rfl
  | some e => rw [Option.map_some, Option.bind_some, Record.living?_face, Option.filter_some]

theorem mem_entities_iff (h : r.Represents v) (id : Nat) (e : Record C) :
    (id, e) ∈ r.entities ↔ r.records[id]? = some e ∧ e.isLive := by
  rw [h.entities_eq_map, List.mem_map]
  constructor
  · rintro ⟨⟨e', id'⟩, hm, he⟩
    cases he
    obtain ⟨hz, hl⟩ := List.mem_filter.1 hm
    refine ⟨?_, hl⟩
    rw [List.mem_zipIdx_iff_getElem?, Array.getElem?_toList] at hz
    exact hz
  · rintro ⟨he, hl⟩
    refine ⟨(e, id), List.mem_filter.2 ⟨?_, hl⟩, rfl⟩
    rw [List.mem_zipIdx_iff_getElem?, Array.getElem?_toList]
    exact he

theorem length_entities (h : r.Represents v) : r.entities.length = r.living := by
  have hfilter : r.entities.length = (r.records.toList.zipIdx.map Prod.fst).countP Record.isLive := by
    rw [h.entities_eq_map, List.length_map, List.countP_map, List.countP_eq_length_filter]
    rfl
  rw [hfilter, List.zipIdx_map_fst, h.living, Ledger.living, ← h.faces, faces, List.countP_map]
  congr 1
  funext e
  exact e.isSome_face.symm

theorem pairwise_entities (h : r.Represents v) : r.entities.Pairwise fun a b => (a.1 : Nat) < b.1 := by
  rw [h.entities_eq]
  exact v.pairwise_entitiesFrom _ _

theorem nodup_entities (h : r.Represents v) : r.entities.Nodup :=
  h.pairwise_entities.imp fun hlt heq => Nat.ne_of_lt hlt (congrArg Prod.fst heq)

theorem entities_of_livingAt? (h : r.Represents v) (h' : r'.Represents w)
    (hl : ∀ id : Nat, r'.livingAt? id = r.livingAt? id) : r'.entities = r.entities := by
  refine List.Perm.eq_of_pairwise ?_ h'.pairwise_entities h.pairwise_entities ?_
  · intro a b _ _ hab hba
    exact absurd hab (Nat.lt_asymm hba)
  · rw [List.perm_ext_iff_of_nodup h'.nodup_entities h.nodup_entities]
    rintro ⟨id, e⟩
    rw [h'.mem_entities_iff, h.mem_entities_iff, ← livingAt?_eq_some_iff, ← livingAt?_eq_some_iff, hl]

end Represents

end EntityStore.Registry
