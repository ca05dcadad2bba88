import EntityStore.Proofs.Outcome
import EntityStore.Proofs.Registry.Ledger
import Mathlib.Data.List.Nodup

/-! The links of the free list. A chain is what is met on following them; slots are pushed behind its end
and popped off its front. -/

namespace EntityStore.Registry

variable {C : Config}

def faces (r : Registry C) : List (Face C) := r.records.toList.map Record.face

theorem getElem?_faces (r : Registry C) (id : Nat) : r.faces[id]? = r.records[id]?.map Record.face := by
  simp [faces]

theorem length_faces (r : Registry C) : r.faces.length = r.records.size := by
  simp [faces]

theorem entity_of_resolve? {r : Registry C} {k : Key} {id : Nat} (h : r.resolve? k = some id) : k.entity = id := by
  cases k <;> simp only [resolve?] at h <;> split at h <;> cases h <;> rfl

theorem exists_handle? {r : Registry C} {id : Nat} {l : Location} (h : r.locationOf? id = some l) :
    ∃ hd, r.handle? id = some hd := by
  obtain ⟨e, he, hl⟩ := Option.bind_eq_some_iff.1 h
  have hlive : e.isLive := by
    cases hs : e.slot with
    | live _ => rw [Record.isLive, hs]; rfl
    | free _ =>
      rw [Record.location?, hs] at hl
      cases hl
  exact ⟨⟨id, e.generation⟩, by rw [handle?, he, Option.bind_some, if_pos hlive]⟩

theorem recordAt_eq {r : Registry C} {id : Nat} {e : Record C} (h : r.records[id]? = some e) :
    r.recordAt id = .ok e := by
  rw [recordAt, h]

theorem faces_setRecord (r : Registry C) (id : Nat) (e : Record C) :
    (r.setRecord id e).faces = r.faces.set id e.face := by
  simp [faces, setRecord, List.map_set]

theorem faces_setRecord_self {r : Registry C} {id : Nat} {e e' : Record C} (h : r.records[id]? = some e')
    (hf : e.face = e'.face) : (r.setRecord id e).faces = r.faces := by
  have hid : r.faces[id]? = some e.face := by rw [getElem?_faces, h, hf, Option.map_some]
  obtain ⟨hlt, hg⟩ := List.getElem?_eq_some_iff.1 hid
  rw [faces_setRecord, ← hg, List.set_getElem_self]

theorem getElem?_setRecord {r : Registry C} {id : Nat} {e e' : Record C} (h : r.records[id]? = some e') (j : Nat) :
    (r.setRecord id e).records[j]? = if j = id then some e else r.records[j]? := by
  have hlt := (Array.getElem?_eq_some_iff.1 h).1
  simp only [setRecord, Array.getElem?_setIfInBounds]
  grind

/-- Following the links from a cursor meets the listed slots, all of them dead, and nothing comes after. -/
inductive Chain (records : Array (Record C)) : Option EntityId → List EntityId → Prop
  | nil : Chain records none []
  | cons {id : EntityId} {next : Option EntityId} {e : Record C} {ids : List EntityId} :
      records[id]? = some e → e.slot = .free next → Chain records next ids → Chain records (some id) (id :: ids)

namespace Chain

variable {records records' : Array (Record C)} {head : Option EntityId} {queue : List EntityId}

theorem head_eq (h : Chain records head queue) : head = queue.head? := by
  cases h <;> rfl

theorem free_of_mem (h : Chain records head queue) {id : Nat} (hid : id ∈ queue) :
    ∃ e next, records[id]? = some e ∧ e.slot = .free next := by
  induction h with
  | nil => cases hid
  | cons he hs _ ih =>
    cases hid with
    | head => exact ⟨_, _, he, hs⟩
    | tail _ hid => exact ih hid

theorem congr (h : Chain records head queue) (hr : ∀ id : Nat, id ∈ queue → records'[id]? = records[id]?) :
    Chain records' head queue := by
  induction h with
  | nil => exact .nil
  | cons he hs _ ih =>
    refine .cons ((hr _ List.mem_cons_self).trans he) hs (ih ?_)
    intro id hid
    exact hr id (List.mem_cons_of_mem _ hid)

theorem append {tail id : Nat} {e e' : Record C} (h : Chain records head (queue ++ [tail]))
    (hn : (queue ++ [tail]).Nodup) (hr : ∀ j : Nat, j ≠ tail → records'[j]? = records[j]?)
    (ht : records'[tail]? = some e') (hs : e'.slot = .free (some id)) (hid : id ≠ tail)
    (he : records[id]? = some e) (hf : e.slot = .free none) :
    Chain records' head (queue ++ [tail] ++ [id]) := by
  induction queue generalizing head with
  | nil =>
    cases h with
    | cons _ _ _ => exact .cons ht hs (.cons ((hr id hid).trans he) hf .nil)
  | cons j queue ih =>
    cases h with
    | cons hj hsj hrest =>
      have hn' := List.nodup_cons.1 hn
      have hne : j ≠ tail := by
        rintro rfl
        exact hn'.1 (List.mem_append_right _ List.mem_cons_self)
      exact .cons ((hr j hne).trans hj) hsj (ih hrest hn'.2)

theorem follow_eq {r : Registry C} (h : Chain r.records head queue) {fuel : Nat} (hf : queue.length ≤ fuel) :
    r.follow fuel head = .ok queue := by
  induction fuel generalizing head queue with
  | zero =>
    cases h with
    | nil => rfl
    | cons _ _ _ => simp at hf
  | succ fuel ih =>
    cases h with
    | nil => rfl
    | @cons id next e ids he hs hrest =>
      have hn : e.slot.next? = next := by rw [hs]; rfl
      rw [follow, recordAt_eq he, Checked.ok_bind, hn, ih hrest (by simpa using hf)]
      rfl

end Chain

structure Threaded (r : Registry C) (queue : List EntityId) : Prop where
  chain : Chain r.records r.freeHead queue
  tail : r.freeTail = queue.getLast?
  nodup : queue.Nodup

theorem Threaded.lt {r : Registry C} {queue : List EntityId} (h : r.Threaded queue) {id : Nat} (hid : id ∈ queue) :
    id < r.records.size := by
  obtain ⟨e, _, he, _⟩ := h.chain.free_of_mem hid
  exact (Array.getElem?_eq_some_iff.1 he).1

theorem Threaded.freeList_eq {r : Registry C} {queue : List EntityId} (h : r.Threaded queue) :
    r.freeList = .ok queue := by
  apply h.chain.follow_eq
  have hs : queue ⊆ List.range r.records.size := fun id hid => List.mem_range.2 (h.lt hid)
  simpa using h.nodup.length_le_of_subset hs

structure SameFaces (r r' : Registry C) : Prop where
  faces : r'.faces = r.faces
  living : r'.living = r.living
  highWater : r'.highWater = r.highWater
  idLimit : r'.idLimit = r.idLimit

theorem SameFaces.trans {r r' r'' : Registry C} (h : SameFaces r r') (h' : SameFaces r' r'') : SameFaces r r'' :=
  ⟨h'.faces.trans h.faces, h'.living.trans h.living, h'.highWater.trans h.highWater, h'.idLimit.trans h.idLimit⟩

theorem Threaded.pushFree {r : Registry C} {queue : List EntityId} {id : Nat} {e : Record C}
    (h : r.Threaded queue) (he : r.records[id]? = some e) (hf : e.slot = .free none) (hid : id ∉ queue) :
    ∃ r', r.pushFree id = .ok r' ∧ r'.Threaded (queue ++ [id]) ∧ SameFaces r r' := by
  have hn : (queue ++ [id]).Nodup := List.concat_eq_append ▸ h.nodup.concat hid
  rcases List.eq_nil_or_concat queue with rfl | ⟨queue, tail, rfl⟩
  · refine ⟨{ r with freeHead := some id, freeTail := some id }, ?_, ⟨.cons he hf .nil, rfl, hn⟩, rfl, rfl, rfl, rfl⟩
    rw [Registry.pushFree, h.tail]
    rfl
  · simp only [List.concat_eq_append] at *
    have ht : r.freeTail = some tail := by rw [h.tail, List.getLast?_concat]
    obtain ⟨t, next, hrt, hts⟩ := h.chain.free_of_mem (List.mem_append_right _ List.mem_cons_self)
    -- the link is written into the old tail, which is dead and not the new one
    have hne : id ≠ tail := by
      rintro rfl
      exact hid (List.mem_append_right _ List.mem_cons_self)
    have hset := getElem?_setRecord (e := { t with slot := .free (some id) }) hrt
    refine ⟨{ r.setRecord tail { t with slot := .free (some id) } with freeTail := some id }, ?_, ⟨?_, ?_, hn⟩,
      ?_, rfl, rfl, rfl⟩
    · rw [Registry.pushFree, ht]
      simp only [recordAt_eq hrt]
      rfl
    · refine h.chain.append h.nodup (fun j hj => ?_) (hset tail |>.trans (if_pos rfl)) rfl hne he hf
      exact (hset j).trans (if_neg hj)
    · rw [List.getLast?_concat]
    · apply faces_setRecord_self hrt
      simp [Record.face, Record.location?, Slot.location?, hts]

end EntityStore.Registry
