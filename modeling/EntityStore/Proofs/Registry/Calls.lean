import EntityStore.Calls
import EntityStore.Proofs.Registry.Sweep

/-! Every call of a registry leads from one ledger to another. -/

namespace EntityStore.Registry

variable {C : Config} {r : Registry C} {v : Ledger C}

theorem Threaded.congr {r' : Registry C} {queue : List EntityId} (h : r.Threaded queue)
    (hr : ∀ id : Nat, id ∈ queue → r'.records[id]? = r.records[id]?) (hh : r'.freeHead = r.freeHead)
    (ht : r'.freeTail = r.freeTail) : r'.Threaded queue :=
  ⟨hh ▸ h.chain.congr hr, ht.trans h.tail, h.nodup⟩

theorem Threaded.relink {queue ids : List EntityId} (h : r.Threaded queue) (hn : ids.Nodup)
    (hd : ∀ id : Nat, id ∈ ids → id ∉ queue) (hf : ∀ id : Nat, id ∈ ids → r.faces[id]?.any (·.location?.isNone)) :
    ∃ r', r.relink ids = .ok r' ∧ r'.Threaded (queue ++ ids) ∧ SameFaces r r' := by
  induction ids generalizing r queue with
  | nil => exact ⟨r, rfl, by rwa [List.append_nil], rfl, rfl, rfl, rfl⟩
  | cons id ids ih =>
    obtain ⟨hid, hn⟩ := List.nodup_cons.1 hn
    have hdid := hd id List.mem_cons_self
    have hfid := hf id List.mem_cons_self
    rw [getElem?_faces] at hfid
    obtain ⟨e, he⟩ : ∃ e, r.records[id]? = some e := by
      cases he : r.records[id]? with
      | none => simp [he] at hfid
      | some e => exact ⟨e, rfl⟩
    have hdead : e.location? = none := by simpa [he, Record.face] using hfid
    have hset := getElem?_setRecord (e := { e with slot := .free none }) he
    have hfaces : (r.setRecord id { e with slot := .free none }).faces = r.faces :=
      faces_setRecord_self he (by rw [Record.face, Record.face, hdead]; rfl)
    have ht : (r.setRecord id { e with slot := .free none }).Threaded queue :=
      h.congr (fun j hj => (hset j).trans (if_neg (ne_of_mem_of_not_mem hj hdid))) rfl rfl
    obtain ⟨r₁, hp, ht₁, hs₁⟩ := ht.pushFree ((hset id).trans (if_pos rfl)) rfl hdid
    have hd₁ : ∀ j : Nat, j ∈ ids → j ∉ queue ++ [id] := by
      intro j hj hm
      rcases List.mem_append.1 hm with hm | hm
      · exact hd j (List.mem_cons_of_mem _ hj) hm
      · exact hid (List.mem_singleton.1 hm ▸ hj)
    have hf₁ : ∀ j : Nat, j ∈ ids → r₁.faces[j]?.any (·.location?.isNone) := by
      intro j hj
      rw [hs₁.faces, hfaces]
      exact hf j (List.mem_cons_of_mem _ hj)
    obtain ⟨r₂, hr₂, ht₂, hs₂⟩ := ih ht₁ hn hd₁ hf₁
    refine ⟨r₂, ?_, by rwa [List.append_assoc] at ht₂, SameFaces.trans ⟨hfaces, rfl, rfl, rfl⟩ (hs₁.trans hs₂)⟩
    rw [Registry.relink, recordAt_eq he]
    simp only [hp, hr₂]

theorem Shows.truncate (h : r.Shows v) {n : Nat} (hn : ∀ id : Nat, v.Lives id → id < n) :
    ∃ r', r.truncate n = .ok r' ∧ r'.Shows (v.truncate n) := by
  have hfaces : Registry.faces { r with records := r.records.take n, freeHead := none, freeTail := none } =
      v.faces.take n := by
    rw [← h.faces]
    simp [Registry.faces, List.map_take]
  have ht : Registry.Threaded { r with records := r.records.take n, freeHead := none, freeTail := none } [] :=
    ⟨.nil, rfl, List.nodup_nil⟩
  obtain ⟨r', hr, ht', hs⟩ := ht.relink (h.threaded.nodup.filter (· < n)) (fun _ _ => List.not_mem_nil) (by
    intro id hid
    obtain ⟨hid, hlt⟩ := List.mem_filter.1 hid
    obtain ⟨e, next, he, hf⟩ := h.threaded.chain.free_of_mem hid
    rw [hfaces, List.getElem?_take, if_pos (of_decide_eq_true hlt), ← h.faces, getElem?_faces, he]
    simp [Record.face, Record.location?, Slot.location?, hf])
  refine ⟨{ r' with highWater := min r'.highWater n }, ?_, hs.faces.trans hfaces,
    ⟨ht'.chain, ht'.tail, ht'.nodup⟩, ?_, ?_, hs.idLimit.trans h.idLimit⟩
  · rw [Registry.truncate, h.threaded.freeList_eq]
    simp only [Checked.ok_bind, hr]
    rfl
  · refine hs.living.trans (h.living.trans ?_)
    have hsplit : (v.faces.take n ++ v.faces.drop n).countP (·.location?.isSome) =
        (v.faces.take n).countP (·.location?.isSome) + (v.faces.drop n).countP (·.location?.isSome) :=
      List.countP_append
    have hzero : (v.faces.drop n).countP (·.location?.isSome) = 0 := by
      rw [List.countP_eq_zero]
      intro f hf hl
      obtain ⟨i, hi⟩ := List.mem_iff_getElem?.1 hf
      rw [List.getElem?_drop] at hi
      have := hn (n + i) (by
        rw [Ledger.Lives, Ledger.location?, hi]
        exact Option.isSome_iff_ne_none.1 hl)
      omega
    rw [List.take_append_drop, hzero] at hsplit
    exact hsplit
  · change min r'.highWater n = min v.highWater n
    rw [hs.highWater, ← h.highWater]

theorem Shows.prefill (h : r.Shows v) {n : Nat} (hn : v.faces.length + n ≤ C.ids.invalid) :
    ∃ r', r.prefill n = .ok r' ∧ r'.Shows (v.prefill n) := by
  induction n generalizing r v with
  | zero =>
    refine ⟨r, rfl, ?_⟩
    simpa [Ledger.prefill] using h
  | succ n ih =>
    have hid : r.records.size ∉ v.queue := fun hm => absurd (h.threaded.lt hm) (Nat.lt_irrefl _)
    have ht : Registry.Threaded { r with records := r.records.push .vacant } v.queue := by
      refine h.threaded.congr (fun id hid => ?_) rfl rfl
      exact (Array.getElem?_push_lt (h.threaded.lt hid)).trans (Array.getElem?_eq_getElem (h.threaded.lt hid)).symm
    obtain ⟨r₁, hp, ht₁, hs₁⟩ := ht.pushFree (e := .vacant) Array.getElem?_push_size rfl hid
    have hsize : r.records.size = v.faces.length := by rw [← h.faces, length_faces]
    have hshow : r₁.Shows (v.prefill 1) := by
      refine ⟨?_, ?_, ?_, hs₁.highWater.trans h.highWater, hs₁.idLimit.trans h.idLimit⟩
      · rw [hs₁.faces]
        simp only [Registry.faces, Array.toList_push, List.map_append, Ledger.prefill, ← h.faces]
        rfl
      · rw [hsize] at ht₁
        exact ht₁
      · refine hs₁.living.trans (h.living.trans ?_)
        simp [Ledger.living, Ledger.prefill, Face.vacant]
    obtain ⟨r', hr, hs⟩ := ih hshow (by simp only [Ledger.prefill, List.length_append, List.length_replicate]; omega)
    refine ⟨r', ?_, ?_⟩
    · have hindex : C.ids.ofIndex? r.records.size = some r.records.size := C.ids.ofIndex?_of_lt (by omega)
      simp only [Registry.prefill, hindex, hp]
      exact hr
    · have hsplit : (v.prefill 1).prefill n = v.prefill (n + 1) := by
        simp [Ledger.prefill, List.replicate_succ, List.range'_succ]
      rwa [hsplit] at hs

namespace Represents

theorem reserve (h : r.Represents v) (n : Nat) (ahead : Bool) :
    (∃ r', r.reserve n ahead = .ok r' ∧ r'.Represents (v.reserve n ahead)) ∨
      r.reserve n ahead = .error .capacityOverflow := by
  rw [Registry.reserve]
  simp only [checkRoom]
  split
  · left
    have hv := h.valid.reserve n ahead
    rw [Ledger.reserve] at hv ⊢
    cases ahead with
    | false => exact ⟨r, rfl, h⟩
    | true =>
      rw [if_pos rfl] at hv ⊢
      rw [h.size_eq, h.idLimit]
      have hn : v.faces.length + (min n v.idLimit - v.faces.length) ≤ C.ids.invalid := by
        have hle := h.valid.length_le
        have hlimit := h.valid.limit_le
        omega
      obtain ⟨r', hr, hs⟩ := h.toShows.prefill hn
      exact ⟨r', hr, hs, hv⟩
  · exact .inr rfl

theorem any_live_drop (h : r.Represents v) (n : Nat) :
    (r.records.drop n).any Record.isLive = (v.faces.drop n).any (·.location?.isSome) := by
  have hd : (r.records.drop n).toList = r.records.toList.drop n := by
    simp [List.take_of_length_le]
  rw [← Array.any_toList, hd, ← h.faces, Registry.faces, ← List.map_drop, List.any_map]
  congr 1
  funext e
  exact e.isSome_face.symm

theorem setIdLimit (h : r.Represents v) (n : Nat) :
    ∃ r', (r.setIdLimit n).outcome = .ok ((v.setIdLimit n).1, r') ∧ r'.Represents (v.setIdLimit n).2 := by
  have hv := h.valid.setIdLimit n
  rw [Registry.setIdLimit, Ledger.setIdLimit] at *
  dsimp only at *
  rw [h.any_live_drop]
  split
  · exact ⟨r, rfl, h⟩
  · rename_i hl
    rw [if_neg hl] at hv
    have hn : ∀ id : Nat, v.Lives id → id < min n C.ids.invalid := fun id =>
      Ledger.lt_of_none_beyond (Bool.eq_false_iff.2 hl)
    have hs : Shows { r with idLimit := min n C.ids.invalid } { v with idLimit := min n C.ids.invalid } :=
      ⟨h.faces, ⟨h.threaded.chain, h.threaded.tail, h.threaded.nodup⟩, h.living, h.highWater, rfl⟩
    by_cases hlt : min n C.ids.invalid < r.records.size
    · obtain ⟨r', hr, hs'⟩ := hs.truncate hn
      refine ⟨r', ?_, hs', hv⟩
      rw [if_pos hlt, Run.outcome_bind, Run.outcome_lift, hr]
      rfl
    · refine ⟨_, by rw [if_neg hlt]; rfl, ?_, hv⟩
      rw [h.valid.truncate_eq_self (by rw [← h.size_eq]; omega)]
      exact hs

theorem liveBound_eq (h : r.Represents v) : r.liveBound = v.liveBound := by
  rw [Registry.liveBound, Ledger.liveBound, ← h.faces, Registry.faces, ← List.map_reverse, List.dropWhile_map,
    List.length_map]
  congr 2
  funext e
  rcases e with ⟨_ | _, _, _⟩ <;> rfl

theorem trim (h : r.Represents v) : ∃ r', r.trim = .ok r' ∧ r'.Represents v.trim := by
  obtain ⟨r', hr, hs⟩ := h.toShows.truncate fun _ hid => hid.lt_liveBound
  exact ⟨r', by rw [Registry.trim, h.liveBound_eq, hr], hs, h.valid.trim⟩

end Represents

theorem ofSettings_ends (C : Config) (s : RegistrySettings) :
    (ofSettings C s).Ends (fun r => ∃ v, r.Represents v) fun f => f = .capacityOverflow := by
  have hreserve : ∀ {r : Registry C} {v : Ledger C}, r.Represents v →
      (r.reserve s.reserve s.prefill).Ends (fun r => ∃ v, r.Represents v) fun f => f = .capacityOverflow := by
    intro r v hv
    rcases hv.reserve s.reserve s.prefill with ⟨r', hr, hv'⟩ | he
    · rw [hr]
      exact ⟨_, hv'⟩
    · rw [he]
      exact rfl
  rw [ofSettings]
  cases s.idLimit with
  | none => exact Run.ends_lift (hreserve (represents_empty C))
  | some n =>
    obtain ⟨r, hr, hv⟩ := (represents_empty C).setIdLimit n
    have ho : (Prod.snd <$> (empty C).setIdLimit n).outcome = .ok r := by rw [Run.outcome_map, hr]; rfl
    refine Run.Ends.bind (P := fun r => ∃ v, r.Represents v) (Run.ends_of_ok ho ⟨_, hv⟩) ?_
    rintro r ⟨v, hv⟩
    exact Run.ends_lift (hreserve hv)

end EntityStore.Registry

namespace EntityStore

namespace RegistryCall

variable {C : Config} {α : Type}

def Reserves : RegistryCall C α → Prop
  | reserve .. => True
  | _ => False

def Spares (r : Registry C) (id : Nat) : RegistryCall C α → Prop
  | setLocation k _ | erase k => r.resolve? k ≠ some id
  | eraseWhere p => ∀ q ∈ p.hits #[] r.entities, q.1 ≠ id
  | clear | reset => ¬ r.isAlive id
  | _ => True

end RegistryCall

namespace Ledger

variable {C : Config} {v w : Ledger C} {j : Nat}

structure Keeps (v w : Ledger C) (id : Nat) : Prop where
  location? : w.location? id = v.location? id
  generation? : w.generation? id = v.generation? id

theorem Keeps.refl (v : Ledger C) (id : Nat) : v.Keeps v id := ⟨rfl, rfl⟩

theorem Keeps.trans {u : Ledger C} (h : u.Keeps v j) (h' : v.Keeps w j) : u.Keeps w j :=
  ⟨h'.location?.trans h.location?, h'.generation?.trans h.generation?⟩

theorem Keeps.lives (h : v.Keeps w j) (hj : v.Lives j) : w.Lives j := by
  rw [Lives, h.location?]
  exact hj

theorem keeps_of_faces (h : w.faces[j]? = v.faces[j]?) : v.Keeps w j :=
  ⟨by rw [Ledger.location?, h, Ledger.location?], by rw [Ledger.generation?, h, Ledger.generation?]⟩

theorem keeps_modify (v : Ledger C) {id : Nat} (f : Face C → Face C) (h : j ≠ id) : v.Keeps (v.modify id f) j := by
  apply keeps_of_faces
  simp [faces_modify, Ne.symm h]

theorem keeps_amend (v : Ledger C) (id : Nat) {f : Face C → Face C} (hl : ∀ a, (f a).location? = a.location?)
    (hg : ∀ a, (f a).generation = a.generation) : v.Keeps (v.modify id f) j := by
  constructor
  · rw [location?_modify, Ledger.location?]
    simp only [hl, ite_self]
  · rw [generation?_modify, Ledger.generation?]
    simp only [hg, ite_self]

theorem keeps_destroy (v : Ledger C) {id : Nat} (h : j ≠ id) : v.Keeps (v.destroy id) j :=
  keeps_of_faces (faces_destroy v h)

theorem keeps_destroyAll (v : Ledger C) {ids : List EntityId} (h : j ∉ ids) : v.Keeps (v.destroyAll ids) j :=
  keeps_of_faces (faces_destroyAll v h)

theorem keeps_relocate (v : Ledger C) {id : Nat} (l : Location) (h : j ≠ id) : v.Keeps (v.relocate id l) j := by
  rw [relocate]
  split
  · exact keeps_destroy v h
  · exact keeps_modify v _ h

theorem location?_relocate (hl : v.Lives j) (l : Location) :
    (v.relocate j l).location? j = if l.isDestroyed C then none else some l := by
  rw [relocate]
  split
  · rw [location?_destroy, if_pos rfl]
  · obtain ⟨a, _, ha, _⟩ := exists_face hl
    rw [location?_modify, if_pos rfl, ha, Option.bind_some]

theorem generation?_relocate {l : Location} (hd : ¬ l.isDestroyed C) :
    (v.relocate j l).generation? j = v.generation? j := by
  rw [relocate, if_neg hd, generation?_modify, if_pos rfl]
  rfl

theorem keeps_create (hv : v.Valid) (l : Location) (m : C.Metadata) (hj : v.Lives j) :
    v.Keeps (v.create l m).2 j := by
  rw [create]
  split
  · exact .refl v j
  · split
    · exact .refl v j
    · rename_i id w hp
      have hpick := hv.picked hp
      have hne : j ≠ id := by
        rintro rfl
        apply hpick.dead.not_lives
        rw [Lives, hpick.location?_eq]
        exact hj
      have hw : v.Keeps w j := ⟨hpick.location?_eq j, hpick.generation?_eq j hj⟩
      have hm := keeps_modify w (fun f => ⟨some l, f.generation, m⟩) hne
      exact hw.trans ⟨hm.location?, hm.generation?⟩

theorem keeps_reserve (v : Ledger C) (n : Nat) (ahead : Bool) (hj : v.Lives j) : v.Keeps (v.reserve n ahead) j := by
  rw [reserve]
  split
  · exact keeps_of_faces (List.getElem?_append_left hj.lt)
  · exact .refl v j

theorem keeps_truncate (v : Ledger C) {n : Nat} (h : j < n) : v.Keeps (v.truncate n) j :=
  keeps_of_faces (by rw [truncate, List.getElem?_take, if_pos h])

theorem keeps_setIdLimit (v : Ledger C) (n : Nat) (hj : v.Lives j) : v.Keeps (v.setIdLimit n).2 j := by
  rw [setIdLimit]
  dsimp only
  split
  · exact .refl v j
  · rename_i h
    have hk := keeps_truncate v (lt_of_none_beyond (Bool.eq_false_iff.2 h) hj)
    exact ⟨hk.location?, hk.generation?⟩

end Ledger

namespace RegistryCall

open Ledger

variable {C : Config} {α : Type} {r : Registry C} {v : Ledger C}

def Keeping (c : RegistryCall C α) (r : Registry C) (v : Ledger C) (a : α × Registry C) : Prop :=
  ∃ w, a.2.Represents w ∧ ∀ id : Nat, v.Lives id → c.Spares r id → v.Keeps w id

theorem run_ends (c : RegistryCall C α) (h : r.Represents v) :
    (c.run r).Ends (c.Keeping r v) fun f => f = .capacityOverflow ∧ c.Reserves := by
  cases c with
  | create l m =>
    obtain ⟨r', hr, hw⟩ := h.create l m
    exact Run.ends_of_ok hr ⟨_, hw, fun _ hj _ => keeps_create h.valid l m hj⟩
  | createHandle l m =>
    obtain ⟨r', hr, hw⟩ := h.createHandle l m
    exact Run.ends_of_ok hr ⟨_, hw, fun _ hj _ => keeps_create h.valid l m hj⟩
  | setLocation k l =>
    obtain ⟨r', hr, hw⟩ := h.setLocation k l
    refine Run.ends_of_ok hr ⟨_, hw, fun j _ hs => ?_⟩
    cases hk : r.resolve? k with
    | none => exact .refl v j
    | some id => exact keeps_relocate v l fun hj => hs (hj ▸ hk)
  | erase k =>
    obtain ⟨r', hr, hw⟩ := h.erase k
    refine Run.ends_of_ok hr ⟨_, hw, fun j _ hs => ?_⟩
    cases hk : r.resolve? k with
    | none => exact .refl v j
    | some id => exact keeps_destroy v fun hj => hs (hj ▸ hk)
  | eraseWhere p =>
    obtain ⟨r', hr, hw⟩ := h.eraseWhere p
    have ho : ((eraseWhere p).run r).outcome = .ok ((r.entities.toArray, (p.hits #[] r.entities).length), r') := by
      simp [run, hr, Swept.answer]
    refine Run.ends_of_ok ho ⟨_, hw, fun j _ hs => keeps_destroyAll v ?_⟩
    intro hj
    obtain ⟨q, hq, rfl⟩ := List.mem_map.1 hj
    exact hs q hq rfl
  | updateMetadata k f =>
    cases hu : r.updateMetadata? k f with
    | none => exact Run.ends_of_ok (a := (false, r)) (by simp [run, hu]) ⟨v, h, fun j _ _ => .refl v j⟩
    | some r' =>
      obtain ⟨id, _, hw⟩ := h.updateMetadata? hu
      exact Run.ends_of_ok (a := (true, r')) (by simp [run, hu])
        ⟨_, hw, fun _ _ _ => keeps_amend v id (fun _ => rfl) fun _ => rfl⟩
  | reserve n ahead =>
    rcases h.reserve n ahead with ⟨r', hr, hw⟩ | he
    · have ho : ((reserve n ahead).run r).outcome = .ok ((), r') := by simp [run, hr]
      exact Run.ends_of_ok ho ⟨_, hw, fun _ hj _ => keeps_reserve v n ahead hj⟩
    · have ho : ((reserve n ahead).run r).outcome = .error .capacityOverflow := by simp [run, he]
      exact Run.ends_of_error ho ⟨rfl, trivial⟩
  | setIdLimit n =>
    obtain ⟨r', hr, hw⟩ := h.setIdLimit n
    exact Run.ends_of_ok hr ⟨_, hw, fun _ hj _ => keeps_setIdLimit v n hj⟩
  | trim =>
    obtain ⟨r', hr, hw⟩ := h.trim
    have ho : (trim.run r).outcome = .ok ((), r') := by simp [run, hr]
    exact Run.ends_of_ok ho ⟨_, hw, fun _ hj _ => keeps_truncate v hj.lt_liveBound⟩
  | clear =>
    obtain ⟨r', hr, hw⟩ := h.clear
    have ho : (clear.run r).outcome = .ok ((), r') := by simp [run, hr]
    exact Run.ends_of_ok ho ⟨_, hw, fun _ hj hs => absurd (h.isAlive_iff.2 hj) hs⟩
  | reset => exact Run.ends_pure ⟨_, h.reset, fun _ hj hs => absurd (h.isAlive_iff.2 hj) hs⟩
  | ask f => exact Run.ends_pure ⟨v, h, fun j _ _ => .refl v j⟩

end RegistryCall

end EntityStore
