import EntityStore.Proofs.Registry.Chain
import EntityStore.Proofs.Registry.Ledger.Valid

/-! Registries represent ledgers: each operation of a registry does to its ledger what the ledger's own
operation does, and meets no fault on the way. -/

namespace EntityStore.Registry

variable {C : Config}

/-- The registry holds what the ledger says, be it sound or not. -/
structure Shows (r : Registry C) (v : Ledger C) : Prop where
  faces : r.faces = v.faces
  threaded : r.Threaded v.queue
  living : r.living = v.living
  highWater : r.highWater = v.highWater
  idLimit : r.idLimit = v.idLimit

structure Represents (r : Registry C) (v : Ledger C) : Prop extends r.Shows v where
  valid : v.Valid

theorem faces_setRecord_modify {r : Registry C} {id : Nat} {e e' : Record C} {f : Face C → Face C}
    (h : r.records[id]? = some e) (hf : e'.face = f e.face) : (r.setRecord id e').faces = r.faces.modify id f := by
  apply List.ext_getElem?
  intro j
  rw [getElem?_faces, getElem?_setRecord h, List.getElem?_modify, getElem?_faces]
  by_cases hj : j = id
  · subst hj
    simp [h, hf]
  · simp [hj, Ne.symm hj]

theorem Shows.occupy {r : Registry C} {v w : Ledger C} {id : Nat} (hs : r.Shows w) (hv : v.Valid) (hp : v.Picked id w)
    (l : Location) (m : C.Metadata) : ∃ r', r.occupy id l m = .ok r' ∧ r'.Represents (w.occupy id l m) := by
  have hid : id < r.records.size := by
    rw [← length_faces, hs.faces]
    exact hp.dead.1
  have he : r.records[id]? = some r.records[id] := Array.getElem?_eq_getElem hid
  have hn : id ∉ w.queue := fun hm => ((hp.mem_queue id).1 hm).2 rfl
  have ho : r.occupy id l m = .ok { r.setRecord id ⟨.live l, r.records[id].generation, m⟩ with
      living := r.living + 1, highWater := max r.highWater (id + 1) } := by
    rw [Registry.occupy, recordAt_eq he]
    rfl
  refine ⟨_, ho, ⟨?_, ⟨?_, hs.threaded.tail, hs.threaded.nodup⟩, ?_, ?_, hs.idLimit⟩, hv.occupy hp l m⟩
  · change _ = w.faces.modify id _
    rw [← hs.faces]
    exact faces_setRecord_modify he rfl
  · apply hs.threaded.chain.congr
    intro j hj
    refine (getElem?_setRecord he j).trans (if_neg ?_)
    rintro rfl
    exact hn hj
  · rw [Ledger.living_occupy w hp.dead, ← hs.living]
  · change max r.highWater _ = max w.highWater _
    rw [hs.highWater]

namespace Represents

variable {r : Registry C} {v : Ledger C}

theorem size_eq (h : r.Represents v) : r.records.size = v.faces.length := by
  rw [← h.faces, length_faces]

theorem ofIndex?_eq (h : r.Represents v) {i : Nat} (hi : i < v.idLimit) : C.ids.ofIndex? i = some i :=
  C.ids.ofIndex?_of_lt (Nat.lt_of_lt_of_le hi h.valid.limit_le)

theorem ofIndex?_eq_of_lt (h : r.Represents v) {i : Nat} (hi : i < v.faces.length) : C.ids.ofIndex? i = some i :=
  h.ofIndex?_eq (Nat.lt_of_lt_of_le hi h.valid.length_le)

theorem getElem?_face (h : r.Represents v) (id : Nat) : v.faces[id]? = r.records[id]?.map Record.face := by
  rw [← h.faces, getElem?_faces]

theorem exists_record (h : r.Represents v) {id : Nat} (hid : id < v.faces.length) :
    ∃ e, r.records[id]? = some e ∧ v.faces[id]? = some e.face := by
  rw [← h.size_eq] at hid
  refine ⟨r.records[id], Array.getElem?_eq_getElem hid, ?_⟩
  rw [h.getElem?_face, Array.getElem?_eq_getElem hid, Option.map_some]

theorem locationOf?_eq (h : r.Represents v) (id : Nat) : r.locationOf? id = v.location? id := by
  rw [Registry.locationOf?, Ledger.location?, h.getElem?_face]
  cases r.records[id]? <;> rfl

theorem isAlive_iff (h : r.Represents v) {id : Nat} : r.isAlive id ↔ v.Lives id := by
  rw [Registry.isAlive, Ledger.Lives, ← h.locationOf?_eq, Registry.locationOf?]
  cases r.records[id]? with
  | none => simp
  | some e => cases hs : e.slot <;> simp [Record.isLive, Record.location?, Slot.isLive, Slot.location?, hs]

theorem handle?_eq (h : r.Represents v) (id : Nat) :
    r.handle? id = (v.location? id).bind fun _ => (v.generation? id).map fun g => ⟨id, g⟩ := by
  rw [Registry.handle?, ← h.locationOf?_eq, Registry.locationOf?, Ledger.generation?, h.getElem?_face]
  cases r.records[id]? with
  | none => rfl
  | some e =>
    cases hs : e.slot <;> simp [Record.isLive, Record.location?, Slot.isLive, Slot.location?, Record.face, hs]

theorem resolve?_handle_iff (h : r.Represents v) {k : Handle} {id : Nat} :
    r.resolve? (.handle k) = some id ↔ k.id = id ∧ v.Lives id ∧ v.generation? id = some k.generation := by
  rw [Registry.resolve?, Registry.isValidHandle, Ledger.generation?]
  have ha : r.isAlive k.id ↔ v.Lives k.id := h.isAlive_iff
  rw [Registry.isAlive] at ha
  have hf := h.getElem?_face k.id
  cases he : r.records[k.id]? with
  | none =>
    rw [he] at ha hf
    constructor
    · intro hr
      simp at hr
    · rintro ⟨rfl, hl, -⟩
      exact absurd (ha.2 hl) (by simp)
  | some e =>
    rw [he] at ha hf
    simp only [Option.any_some] at ha ⊢
    constructor
    · intro hr
      split at hr
      · rename_i hv
        cases hr
        rw [Bool.and_eq_true, beq_iff_eq] at hv
        refine ⟨rfl, ha.1 hv.1, ?_⟩
        simp [hf, Record.face, hv.2]
      · cases hr
    · rintro ⟨rfl, hl, hg⟩
      have hge : e.generation = k.generation := by simpa [hf, Record.face] using hg
      simp [ha.2 hl, hge]

theorem resolve?_id_iff (h : r.Represents v) {k id : Nat} :
    r.resolve? (.id k) = some id ↔ k = id ∧ v.Lives id := by
  have ha : r.isAlive k ↔ v.Lives k := h.isAlive_iff
  rw [Registry.resolve?]
  constructor
  · intro hr
    split at hr
    · rename_i hk
      cases hr
      exact ⟨rfl, ha.1 hk⟩
    · cases hr
  · rintro ⟨rfl, hl⟩
    rw [if_pos (ha.2 hl)]

theorem resolve?_of_handle? (h : r.Represents v) {id : Nat} {k : Handle} (hk : r.handle? id = some k) :
    r.resolve? (.handle k) = some id := by
  rw [h.handle?_eq] at hk
  obtain ⟨l, hl, hk⟩ := Option.bind_eq_some_iff.1 hk
  obtain ⟨g, hg, rfl⟩ := Option.map_eq_some_iff.1 hk
  exact h.resolve?_handle_iff.2 ⟨rfl, Ledger.lives_iff.2 ⟨l, hl⟩, hg⟩

theorem lives_of_resolve? (h : r.Represents v) {k : Key} {id : Nat} (hk : r.resolve? k = some id) : v.Lives id := by
  cases k with
  | id _ => exact (h.resolve?_id_iff.1 hk).2
  | handle _ => exact (h.resolve?_handle_iff.1 hk).2.1

theorem freeList_eq (h : r.Represents v) : r.freeList = .ok v.queue :=
  h.threaded.freeList_eq

theorem popFree_nil (h : r.Represents v) (hq : v.queue = []) : r.popFree = .ok none := by
  have hh : r.freeHead = none := by rw [h.threaded.chain.head_eq, hq]; rfl
  rw [Registry.popFree, hh]

theorem popFree_cons (h : r.Represents v) {id : Nat} {queue : List EntityId} (hq : v.queue = id :: queue) :
    ∃ r', r.popFree = .ok (some (id, r')) ∧ r'.Shows { v with queue := queue } := by
  obtain ⟨hf, ⟨hc, ht, hn⟩, hl, hw, hi⟩ := h.toShows
  rw [hq] at hc ht hn
  obtain ⟨records, head, tail, living, highWater, idLimit⟩ := r
  cases hc with
  | @cons _ next e _ he hs hrest =>
    have hp : Registry.popFree (C := C) ⟨records, some id, tail, living, highWater, idLimit⟩ =
        .ok (some (id, ⟨records, next, if next.isNone then none else tail, living, highWater, idLimit⟩)) := by
      rw [Registry.popFree]
      simp only [recordAt_eq he, Checked.ok_bind, hs]
      rfl
    refine ⟨_, hp, hf, ⟨hrest, ?_, (List.nodup_cons.1 hn).2⟩, hl, hw, hi⟩
    cases hrest with
    | nil => rfl
    | cons _ _ _ => exact ht.trans (by simp [List.getLast?_cons])

theorem push_vacant (h : r.Represents v) (hq : v.queue = []) :
    Shows { r with records := r.records.push .vacant } { v with faces := v.faces ++ [.vacant] } := by
  obtain ⟨hf, ⟨hc, ht, hn⟩, hl, hw, hi⟩ := h.toShows
  refine ⟨?_, ⟨hc.congr fun id hid => ?_, ht, hn⟩, ?_, hw, hi⟩
  · simp only [Registry.faces, Array.toList_push, List.map_append, ← hf]
    rfl
  · rw [hq] at hid
    cases hid
  · refine hl.trans ?_
    simp [Ledger.living, Face.vacant]

theorem grow_of_lt (h : r.Represents v) (hlt : v.faces.length < v.idLimit) :
    r.grow.outcome = .ok (some v.faces.length, { r with records := r.records.push .vacant }) := by
  have hroom : ¬ r.idLimit ≤ r.records.size := by
    rw [h.size_eq, h.idLimit]
    exact Nat.not_le.2 hlt
  rw [Registry.grow, if_neg hroom, h.size_eq, h.ofIndex?_eq hlt]
  rfl

theorem grow_of_le (h : r.Represents v) (hle : v.idLimit ≤ v.faces.length) : r.grow.outcome = .ok (none, r) := by
  have hfull : r.idLimit ≤ r.records.size := by rwa [h.size_eq, h.idLimit]
  rw [Registry.grow, if_pos hfull]
  rfl

theorem create (h : r.Represents v) (l : Location) (m : C.Metadata) :
    ∃ r', (r.create l m).outcome = .ok ((v.create l m).1, r') ∧ r'.Represents (v.create l m).2 := by
  rw [Registry.create, Ledger.create]
  by_cases hd : l.isDestroyed C
  · rw [if_pos hd, if_pos hd]
    exact ⟨r, rfl, h⟩
  · rw [if_neg hd, if_neg hd]
    cases hq : v.queue with
    | cons id queue =>
      have hpick : v.pick = some (id, { v with queue := queue }) := by rw [Ledger.pick, hq]
      obtain ⟨r', hp, hs⟩ := h.popFree_cons hq
      obtain ⟨r'', ho, hr⟩ := hs.occupy h.valid (h.valid.picked hpick) l m
      refine ⟨r'', ?_, by rw [hpick]; exact hr⟩
      simp only [hpick, Run.outcome_bind, Run.outcome_lift, hp, Checked.ok_bind, ho]
      rfl
    | nil =>
      simp only [Run.outcome_bind, Run.outcome_lift, h.popFree_nil hq, Checked.ok_bind]
      by_cases hlt : v.faces.length < v.idLimit
      · have hpick : v.pick = some (v.faces.length, { v with faces := v.faces ++ [.vacant] }) := by
          simp only [Ledger.pick, hq]
          exact if_pos hlt
        obtain ⟨r', ho, hr⟩ := (h.push_vacant hq).occupy h.valid (h.valid.picked hpick) l m
        refine ⟨r', ?_, by rw [hpick]; exact hr⟩
        simp only [h.grow_of_lt hlt, hpick, Checked.ok_bind, Run.outcome_bind, Run.outcome_lift, ho]
        rfl
      · have hpick : v.pick = none := by
          simp only [Ledger.pick, hq]
          exact if_neg hlt
        rw [h.grow_of_le (Nat.not_lt.1 hlt), hpick]
        exact ⟨r, rfl, h⟩

theorem createHandle (h : r.Represents v) (l : Location) (m : C.Metadata) :
    ∃ r', (r.createHandle l m).outcome = .ok ((v.create l m).1.bind r'.handle?, r') ∧
      r'.Represents (v.create l m).2 := by
  obtain ⟨r', hc, hr⟩ := h.create l m
  refine ⟨r', ?_, hr⟩
  rw [Registry.createHandle, Run.outcome_bind, hc, Checked.ok_bind]
  cases hid : (v.create l m).1 with
  | none => rfl
  | some id =>
    have hl : (v.create l m).2.Lives id := by simp [Ledger.Lives, Ledger.location?_create h.valid hid]
    obtain ⟨e, he, hf⟩ := hr.exists_record hl.lt
    have hh : r'.handle? id = some ⟨id, e.generation⟩ := by
      have ha := hr.isAlive_iff.2 hl
      rw [Registry.isAlive, he, Option.any_some] at ha
      simp [Registry.handle?, he, ha]
    simp only [Option.bind_some, hh, recordAt_eq he, Run.outcome_bind, Run.outcome_lift, Checked.ok_bind]
    rfl

theorem setRecord (h : r.Represents v) {id : Nat} {e e' : Record C} {f : Face C → Face C}
    (he : r.records[id]? = some e) (hf : e'.face = f e.face) (hl : e.isLive) (hl' : e'.isLive) :
    (r.setRecord id e').Represents (v.modify id f) := by
  have hv : v.faces[id]? = some e.face := by rw [h.getElem?_face, he, Option.map_some]
  have hs : e.face.location?.isSome := by rwa [Record.isSome_face]
  have hs' : (f e.face).location?.isSome := by rwa [← hf, Record.isSome_face]
  have hid : v.Lives id := by
    rw [Ledger.Lives, Ledger.location?, hv]
    exact Option.isSome_iff_ne_none.1 hs
  have hn : id ∉ v.queue := fun hm => ((h.valid.mem_queue id).1 hm).not_lives hid
  refine ⟨⟨?_, ⟨?_, h.threaded.tail, h.threaded.nodup⟩, ?_, h.highWater, h.idLimit⟩, ?_⟩
  · change _ = v.faces.modify id _
    rw [← h.faces]
    exact faces_setRecord_modify he hf
  · refine h.threaded.chain.congr fun j hj => (getElem?_setRecord he j).trans (if_neg ?_)
    rintro rfl
    exact hn hj
  · have hm := Ledger.living_modify v hv f
    rw [if_pos hs, if_pos hs'] at hm
    exact h.living.trans (Nat.add_right_cancel hm).symm
  · apply h.valid.modify
    intro a ha
    rw [hv] at ha
    cases ha
    rw [← Option.not_isSome_iff_eq_none, ← Option.not_isSome_iff_eq_none]
    simp [hs, hs']

theorem exists_live_record (h : r.Represents v) {id : Nat} (hid : v.Lives id) :
    ∃ e, r.records[id]? = some e ∧ v.faces[id]? = some e.face ∧ e.isLive := by
  obtain ⟨e, he, hf⟩ := h.exists_record hid.lt
  have ha := h.isAlive_iff.2 hid
  rw [Registry.isAlive, he, Option.any_some] at ha
  exact ⟨e, he, hf, ha⟩

theorem updateMetadata? (h : r.Represents v) {k : Key} {f : C.Metadata → C.Metadata} {r' : Registry C}
    (hr : r.updateMetadata? k f = some r') :
    ∃ id, r.resolve? k = some id ∧ r'.Represents (v.modify id fun a => { a with metadata := f a.metadata }) := by
  obtain ⟨id, hk, hr⟩ := Option.bind_eq_some_iff.1 hr
  obtain ⟨e, he, rfl⟩ := Option.map_eq_some_iff.1 hr
  obtain ⟨e', he', _, hl⟩ := h.exists_live_record (h.lives_of_resolve? hk)
  rw [he] at he'
  cases he'
  exact ⟨id, hk, h.setRecord he rfl hl hl⟩

theorem release (h : r.Represents v) {id : Nat} (hid : v.Lives id) :
    ∃ r', r.release id = .ok r' ∧ r'.Represents (v.destroy id) := by
  obtain ⟨e, he, hf⟩ := h.exists_record hid.lt
  have hn : id ∉ v.queue := fun hm => ((h.valid.mem_queue id).1 hm).not_lives hid
  have hl : r.living = (v.destroy id).living + 1 := by rw [Ledger.living_destroy v hid, h.living]
  have hset := getElem?_setRecord (e := ⟨.free none, C.generations.bump e.generation, C.blank⟩) he
  have ht : Registry.Threaded { r.setRecord id ⟨.free none, C.generations.bump e.generation, C.blank⟩ with
      living := (v.destroy id).living } v.queue := by
    refine ⟨h.threaded.chain.congr fun j hj => (hset j).trans (if_neg ?_), h.threaded.tail, h.threaded.nodup⟩
    rintro rfl
    exact hn hj
  obtain ⟨r', hp, ht', hs⟩ := ht.pushFree ((hset id).trans (if_pos rfl)) rfl hn
  refine ⟨r', ?_, ⟨?_, ht', hs.living, hs.highWater.trans h.highWater, hs.idLimit.trans h.idLimit⟩,
    h.valid.destroy hid⟩
  · rw [Registry.release, recordAt_eq he, Checked.ok_bind, ← hp]
    simp only [Registry.setRecord, hl]
  · refine hs.faces.trans ?_
    change _ = v.faces.modify id _
    rw [← h.faces]
    exact faces_setRecord_modify he rfl

theorem destroy (h : r.Represents v) {id : Nat} (hid : v.Lives id) :
    ∃ r', (r.destroy id).outcome = .ok r' ∧ r'.Represents (v.destroy id) := by
  obtain ⟨r', hr, hv⟩ := h.release hid
  refine ⟨r', ?_, hv⟩
  simp only [Registry.destroy, Run.outcome_bind, Run.outcome_lift, hr, Checked.ok_bind, Run.outcome_note]
  rfl

theorem relocate (h : r.Represents v) {id : Nat} (hid : v.Lives id) (l : Location) :
    ∃ r', (r.relocate id l).outcome = .ok r' ∧ r'.Represents (v.relocate id l) := by
  have ha : r.isAlive id = true := h.isAlive_iff.2 hid
  rw [Registry.relocate, Ledger.relocate]
  rw [ha]
  by_cases hd : l.isDestroyed C
  · obtain ⟨r', hr, hv⟩ := h.destroy hid
    rw [if_pos hd, if_pos hd]
    exact ⟨r', hr, hv⟩
  · obtain ⟨e, he, _, hl⟩ := h.exists_live_record hid
    rw [if_neg hd, if_neg hd]
    refine ⟨r.setRecord id { e with slot := .live l }, ?_, h.setRecord he rfl hl rfl⟩
    simp only [Bool.not_true, Bool.false_eq_true, if_false, Run.outcome_bind, Run.outcome_lift, recordAt_eq he,
      Checked.ok_bind]
    rfl

theorem relocate_dead (h : r.Represents v) {id : Nat} (hid : ¬ v.Lives id) (l : Location) :
    (r.relocate id l).outcome = .error (.deadRelocation id) := by
  have ha : r.isAlive id = false := Bool.eq_false_iff.2 fun hl => hid (h.isAlive_iff.1 hl)
  rw [Registry.relocate, ha]
  rfl

theorem setLocation (h : r.Represents v) (k : Key) (l : Location) :
    ∃ r', (r.setLocation k l).outcome = .ok ((r.resolve? k).isSome, r') ∧
      r'.Represents ((r.resolve? k).elim v (v.relocate · l)) := by
  rw [Registry.setLocation]
  cases hk : r.resolve? k with
  | none => exact ⟨r, rfl, h⟩
  | some id =>
    obtain ⟨r', hr, hv⟩ := h.relocate (h.lives_of_resolve? hk) l
    refine ⟨r', ?_, hv⟩
    simp only [Run.outcome_bind, hr, Checked.ok_bind]
    rfl

theorem erase (h : r.Represents v) (k : Key) :
    ∃ r', (r.erase k).outcome = .ok ((r.resolve? k).isSome, r') ∧
      r'.Represents ((r.resolve? k).elim v v.destroy) := by
  obtain ⟨r', hr, hv⟩ := h.setLocation k (.destroyed C)
  refine ⟨r', hr, ?_⟩
  cases hk : r.resolve? k with
  | none => rwa [hk] at hv
  | some id =>
    rw [hk] at hv
    simpa [Ledger.relocate, Location.isDestroyed, Location.destroyed] using hv

theorem reset (h : r.Represents v) : r.reset.Represents v.reset :=
  ⟨⟨rfl, ⟨.nil, rfl, List.nodup_nil⟩, rfl, rfl, h.idLimit⟩, h.valid.reset⟩

end Represents

theorem represents_empty (C : Config) : (empty C).Represents (Ledger.empty C) :=
  ⟨⟨rfl, ⟨.nil, rfl, List.nodup_nil⟩, rfl, rfl, rfl⟩, Ledger.valid_empty⟩

end EntityStore.Registry
