import EntityStore.Proofs.Registry.Relocations

/-! Where entities are sent, and what becomes of the registry. -/

namespace EntityStore.Registry

variable {C : Config} {r r' : Registry C} {v w : Ledger C} {id n : Nat} {l : Location}

theorem Chain.getElem?_next {records : Array (Record C)} {head : Option EntityId} {queue : List EntityId}
    (h : Chain records head queue) (hn : queue[n]? = some id) :
    ∃ e, records[id]? = some e ∧ e.slot = .free queue[n + 1]? := by
  induction h generalizing n with
  | nil => cases hn
  | @cons _ next e ids he hs hrest ih =>
    cases n with
    | zero =>
      cases hn
      exact ⟨e, he, by rw [hs, hrest.head_eq, List.getElem?_cons_succ, List.head?_eq_getElem?]⟩
    | succ n => exact ih hn

namespace Represents

variable {a : Face C}

theorem record_of_live (h : r.Represents v) (ha : v.faces[id]? = some a) (hl : a.location? = some l) :
    r.records[id]? = some ⟨.live l, a.generation, a.metadata⟩ := by
  rw [h.getElem?_face] at ha
  obtain ⟨⟨slot, g, d⟩, he, rfl⟩ := Option.map_eq_some_iff.1 ha
  cases slot with
  | live l' =>
    cases hl
    exact he
  | free next => cases hl

theorem record_of_free (h : r.Represents v) (ha : v.faces[id]? = some a) (hn : v.queue[n]? = some id) :
    r.records[id]? = some ⟨.free v.queue[n + 1]?, a.generation, a.metadata⟩ := by
  obtain ⟨e, he, hs⟩ := h.threaded.chain.getElem?_next hn
  rw [h.getElem?_face, he, Option.map_some, Option.some_inj] at ha
  rw [he, ← hs, ← ha]
  rfl

theorem exists_queue_index (h : r.Represents v) (ha : v.faces[id]? = some a) (hl : a.location? = none) :
    ∃ n : Nat, v.queue[n]? = some id := by
  apply List.mem_iff_getElem?.1
  rw [h.valid.mem_queue, Ledger.Dead, Ledger.location?, ha]
  exact ⟨(List.getElem?_eq_some_iff.1 ha).1, hl⟩

theorem records_congr (h : r.Represents v) (h' : r'.Represents w) (hf : w.faces[id]? = v.faces[id]?)
    (hq : ∀ n, v.queue[n]? = some id → ∃ n', w.queue[n']? = some id ∧ w.queue[n' + 1]? = v.queue[n + 1]?) :
    r'.records[id]? = r.records[id]? := by
  cases ha : v.faces[id]? with
  | none =>
    have hnone : ∀ {r : Registry C} {v : Ledger C}, r.Represents v → v.faces[id]? = none → r.records[id]? = none := by
      intro r v h ha
      rwa [h.getElem?_face, Option.map_eq_none_iff] at ha
    rw [hnone h ha, hnone h' (hf.trans ha)]
  | some a =>
    have ha' := hf.trans ha
    cases hl : a.location? with
    | some l => rw [h.record_of_live ha hl, h'.record_of_live ha' hl]
    | none =>
      obtain ⟨n, hn⟩ := h.exists_queue_index ha hl
      obtain ⟨n', hn', hnext⟩ := hq n hn
      rw [h.record_of_free ha hn, h'.record_of_free ha' hn', hnext]

theorem unique (h : r.Represents v) (h' : r'.Represents v) : r' = r := by
  have hrecords : r'.records = r.records := by
    apply Array.ext_getElem?
    exact fun id => h.records_congr h' rfl fun n hn => ⟨n, hn, rfl⟩
  have hhead : r'.freeHead = r.freeHead := by rw [h'.threaded.chain.head_eq, h.threaded.chain.head_eq]
  have htail : r'.freeTail = r.freeTail := by rw [h'.threaded.tail, h.threaded.tail]
  have hliving : r'.living = r.living := h'.living.trans h.living.symm
  have hhigh : r'.highWater = r.highWater := h'.highWater.trans h.highWater.symm
  have hlimit : r'.idLimit = r.idLimit := h'.idLimit.trans h.idLimit.symm
  cases r
  cases r'
  simp only at hrecords hhead htail hliving hhigh hlimit
  rw [hrecords, hhead, htail, hliving, hhigh, hlimit]

end Represents

end EntityStore.Registry

namespace EntityStore

variable {C : Config} {ls ls' : List (EntityId × Location)} {m : EntityId × Location} {id n : Nat} {l : Location}

def departed (C : Config) (ls : List (EntityId × Location)) : List EntityId :=
  (ls.filter fun m => m.2.isDestroyed C).map Prod.fst

theorem departed_append (ls ls' : List (EntityId × Location)) :
    departed C (ls ++ ls') = departed C ls ++ departed C ls' := by
  rw [departed, List.filter_append, List.map_append, ← departed, ← departed]

theorem departed_eq_nil (h : ∀ m ∈ ls, ¬ m.2.isDestroyed C) : departed C ls = [] := by
  rw [departed, List.filter_eq_nil_iff.2 h, List.map_nil]

theorem departed_destroyed (ids : List EntityId) : departed C (ids.map (·, .destroyed C)) = ids := by
  have hall : ∀ m ∈ ids.map (·, Location.destroyed C), m.2.isDestroyed C :=
    List.forall_mem_map.2 fun _ _ => Location.isDestroyed_iff.2 rfl
  rw [departed, List.filter_eq_self.2 hall, List.map_map]
  exact List.map_id ids

theorem exists_of_mem_departed (h : id ∈ departed C ls) : ∃ l, (id, l) ∈ ls ∧ l.isDestroyed C := by
  obtain ⟨⟨j, l⟩, hm, rfl⟩ := List.mem_map.1 h
  obtain ⟨hm, hl⟩ := List.mem_filter.1 hm
  exact ⟨l, hm, hl⟩

def Face.send (a : Face C) (l : Location) : Face C :=
  if l.isDestroyed C then ⟨none, C.generations.bump a.generation, C.blank⟩ else { a with location? := some l }

theorem Face.send_placed (h : ¬ l.isDestroyed C) (a : Face C) : a.send l = { a with location? := some l } := if_neg h

theorem Face.send_destroyed (h : l.isDestroyed C) (a : Face C) :
    a.send l = ⟨none, C.generations.bump a.generation, C.blank⟩ := if_pos h

theorem Face.send_send (h : ¬ l.isDestroyed C) (a : Face C) (l' : Location) : (a.send l).send l' = a.send l' := by
  rw [send_placed h, send, send]

namespace Ledger

variable {v w u : Ledger C}

structure Dispatched (v : Ledger C) (ls : List (EntityId × Location)) (w : Ledger C) : Prop where
  sent : ∀ m ∈ ls, w.faces[m.1]? = v.faces[m.1]?.map (·.send m.2)
  others : ∀ id : Nat, id ∉ ls.map Prod.fst → w.faces[id]? = v.faces[id]?
  queue : w.queue = v.queue ++ departed C ls
  living : w.living + (departed C ls).length = v.living
  highWater : w.highWater = v.highWater
  idLimit : w.idLimit = v.idLimit

theorem Dispatched.location?_sent (h : v.Dispatched ls w) (hm : m ∈ ls) (hl : v.Lives m.1) (hd : ¬ m.2.isDestroyed C) :
    w.location? m.1 = some m.2 := by
  obtain ⟨a, -, ha, -⟩ := exists_face hl
  rw [location?, h.sent m hm, ha, Option.map_some, Face.send_placed hd]
  rfl

theorem Dispatched.location?_other (h : v.Dispatched ls w) (hid : id ∉ ls.map Prod.fst) :
    w.location? id = v.location? id := by
  rw [location?, h.others id hid, ← location?]

theorem dispatched_self (h : ∀ m ∈ ls, v.location? m.1 = some m.2 ∧ ¬ m.2.isDestroyed C) : v.Dispatched ls v := by
  have hgone : departed C ls = [] := departed_eq_nil fun m hm => (h m hm).2
  refine ⟨fun m hm => ?_, fun _ _ => rfl, by rw [hgone, List.append_nil], by rw [hgone]; rfl, rfl, rfl⟩
  obtain ⟨a, ha, hl⟩ := Option.bind_eq_some_iff.1 (h m hm).1
  rw [ha, Option.map_some, Face.send_placed (h m hm).2, ← hl]

theorem dispatched_relocate (h : v.Lives id) (l : Location) : v.Dispatched [(id, l)] (v.relocate id l) := by
  have hothers : ∀ j : Nat, j ∉ [(id, l)].map Prod.fst → (v.relocate id l).faces[j]? = v.faces[j]? := by
    intro j hj
    exact v.faces_relocate l (mt List.mem_singleton.2 hj)
  by_cases hl : l.isDestroyed C
  · have hgone : departed C [(id, l)] = [id] := by simp [departed, hl]
    rw [relocate, if_pos hl] at hothers ⊢
    refine ⟨List.forall_mem_singleton.2 ?_, hothers, ?_, ?_, rfl, rfl⟩
    · refine (v.faces_modify id _ id).trans ?_
      simp only [if_true, Face.send_destroyed hl]
    · rw [hgone]
      rfl
    · rw [hgone]
      exact v.living_destroy h
  · have hgone : departed C [(id, l)] = [] := departed_eq_nil (List.forall_mem_singleton.2 hl)
    obtain ⟨a, l₀, ha, hl₀⟩ := exists_face h
    have hliving := v.living_modify ha fun a => { a with location? := some l }
    rw [hl₀] at hliving
    rw [relocate, if_neg hl] at hothers ⊢
    refine ⟨List.forall_mem_singleton.2 ?_, hothers, ?_, ?_, rfl, rfl⟩
    · rw [faces_modify]
      simp only [if_true, Face.send_placed hl]
    · rw [hgone, List.append_nil]
      rfl
    · rw [hgone]
      exact Nat.add_right_cancel hliving

theorem Dispatched.trans (h : v.Dispatched ls w) (h' : w.Dispatched ls' u) (hd : ∀ m ∈ ls, m.1 ∉ ls'.map Prod.fst) :
    v.Dispatched (ls ++ ls') u where
  sent m hm := by
    rcases List.mem_append.1 hm with hm | hm
    · rw [h'.others _ (hd m hm), h.sent m hm]
    · have hfresh : m.1 ∉ ls.map Prod.fst := by
        intro hm'
        obtain ⟨e, he, hem⟩ := List.mem_map.1 hm'
        exact hd e he (hem ▸ List.mem_map_of_mem hm)
      rw [h'.sent m hm, h.others _ hfresh]
  others id hid := by
    rw [List.map_append, List.mem_append, not_or] at hid
    rw [h'.others id hid.2, h.others id hid.1]
  queue := by rw [h'.queue, h.queue, departed_append, List.append_assoc]
  living := by
    have := h.living
    have := h'.living
    rw [departed_append, List.length_append]
    omega
  highWater := h'.highWater.trans h.highWater
  idLimit := h'.idLimit.trans h.idLimit

theorem Dispatched.overtake (h : v.Dispatched (ls ++ [m]) w) (h' : w.Dispatched ls' u)
    (hls : ∀ e ∈ ls, ¬ e.2.isDestroyed C ∧ e.1 ∈ ls'.map Prod.fst) (hm : m.1 ∉ ls'.map Prod.fst) :
    v.Dispatched (m :: ls') u := by
  have hgone : departed C (ls ++ [m]) = departed C [m] := by
    rw [departed_append, departed_eq_nil fun e he => (hls e he).1, List.nil_append]
  have hcons : departed C (m :: ls') = departed C [m] ++ departed C ls' := departed_append [m] ls'
  refine ⟨List.forall_mem_cons.2 ⟨?_, fun e he => ?_⟩, fun id hid => ?_, ?_, ?_, h'.highWater.trans h.highWater,
    h'.idLimit.trans h.idLimit⟩
  · rw [h'.others _ hm, h.sent m (List.mem_append_right _ List.mem_cons_self)]
  · rw [h'.sent e he]
    by_cases hfirst : e.1 ∈ ls.map Prod.fst
    · obtain ⟨e', he', heq⟩ := List.mem_map.1 hfirst
      rw [← heq, h.sent e' (List.mem_append_left _ he'), Option.map_map]
      exact congrArg (fun f => v.faces[e'.1]?.map f) (funext fun a => a.send_send (hls e' he').1 e.2)
    · rw [h.others]
      rw [List.map_append, List.mem_append, List.map_singleton, List.mem_singleton, not_or]
      exact ⟨hfirst, fun heq => hm (heq ▸ List.mem_map_of_mem he)⟩
  · rw [List.map_cons, List.mem_cons, not_or] at hid
    rw [h'.others id hid.2, h.others]
    rw [List.map_append, List.mem_append, List.map_singleton, List.mem_singleton, not_or]
    refine ⟨fun hfirst => hid.2 ?_, hid.1⟩
    obtain ⟨e, he, rfl⟩ := List.mem_map.1 hfirst
    exact (hls e he).2
  · rw [h'.queue, h.queue, hgone, hcons, List.append_assoc]
  · have := h.living
    have := h'.living
    rw [hgone] at *
    rw [hcons, List.length_append]
    omega

theorem dispatched_destroyAll {ids : List EntityId} (hl : ∀ id ∈ ids, v.Lives id) (hn : ids.Nodup) :
    v.Dispatched (ids.map (·, .destroyed C)) (v.destroyAll ids) := by
  induction ids generalizing v with
  | nil => exact dispatched_self (List.forall_mem_nil _)
  | cons id ids ih =>
    obtain ⟨hid, hids⟩ := List.forall_mem_cons.1 hl
    rw [List.nodup_cons] at hn
    have hfirst : v.Dispatched [(id, .destroyed C)] (v.destroy id) := by
      have hrelocate := dispatched_relocate hid (.destroyed C)
      rwa [relocate, if_pos (Location.isDestroyed_iff.2 rfl)] at hrelocate
    have hrest : (v.destroy id).Dispatched (ids.map (·, .destroyed C)) ((v.destroy id).destroyAll ids) := by
      apply ih _ hn.2
      intro j hj
      exact lives_destroy.2 ⟨hids j hj, ne_of_mem_of_not_mem hj hn.1⟩
    apply hfirst.trans hrest
    simpa using hn.1

theorem Dispatched.unique (h : v.Dispatched ls w) (h' : v.Dispatched ls u) : u = w := by
  have hfaces : u.faces = w.faces := by
    apply List.ext_getElem?
    intro id
    by_cases hid : id ∈ ls.map Prod.fst
    · obtain ⟨m, hm, rfl⟩ := List.mem_map.1 hid
      exact (h'.sent m hm).trans (h.sent m hm).symm
    · exact (h'.others id hid).trans (h.others id hid).symm
  have hqueue : u.queue = w.queue := h'.queue.trans h.queue.symm
  have hhigh : u.highWater = w.highWater := h'.highWater.trans h.highWater.symm
  have hlimit : u.idLimit = w.idLimit := h'.idLimit.trans h.idLimit.symm
  cases w
  cases u
  simp only at hfaces hqueue hhigh hlimit
  rw [hfaces, hqueue, hhigh, hlimit]

end Ledger

namespace Registry

variable {r r' : Registry C} {v w : Ledger C}

theorem Represents.relocateEach_dispatches (h : r.Represents v) (hl : ∀ m ∈ ls, v.Lives m.1)
    (hn : (ls.map Prod.fst).Nodup) :
    ∃ r' w, (r.relocateEach ls).outcome = .ok r' ∧ r'.Represents w ∧ v.Dispatched ls w := by
  induction ls generalizing r v with
  | nil => exact ⟨r, v, rfl, h, Ledger.dispatched_self (List.forall_mem_nil _)⟩
  | cons m ls ih =>
    obtain ⟨hm, hls⟩ := List.forall_mem_cons.1 hl
    rw [List.map_cons, List.nodup_cons] at hn
    obtain ⟨r₁, hr₁, h₁⟩ := h.relocate hm m.2
    have hls₁ : ∀ e ∈ ls, (v.relocate m.1 m.2).Lives e.1 := by
      intro e he
      rw [Ledger.lives_relocate hm, if_neg (ne_of_mem_of_not_mem (List.mem_map_of_mem he) hn.1)]
      exact hls e he
    obtain ⟨r', w, hr', hw, hd⟩ := ih h₁ hls₁ hn.2
    refine ⟨r', w, ?_, hw, (Ledger.dispatched_relocate hm m.2).trans hd (List.forall_mem_singleton.2 hn.1)⟩
    rw [relocateEach, Run.outcome_bind, hr₁]
    exact hr'

/-- Each of them has gone where it was sent. Of the other records only that of the last free slot is written, which is
linked to the first of those who departed. -/
structure Dispatched (r : Registry C) (ls : List (EntityId × Location)) (r' : Registry C) : Prop where
  placed : ∀ m ∈ ls, ¬ m.2.isDestroyed C →
    r'.records[m.1]? = r.records[m.1]?.map fun e => { e with slot := .live m.2 }
  freed (n id : Nat) : (departed C ls)[n]? = some id → r'.records[id]? = r.records[id]?.map fun e =>
    ⟨.free (departed C ls)[n + 1]?, C.generations.bump e.generation, C.blank⟩
  tail (id : Nat) : r.freeTail = some id →
    r'.records[id]? = r.records[id]?.map fun e => { e with slot := .free (departed C ls).head? }
  others (id : Nat) : id ∉ ls.map Prod.fst → r.freeTail ≠ some id → r'.records[id]? = r.records[id]?
  freeList : ∃ queue, r.freeList = .ok queue ∧ r'.freeList = .ok (queue ++ departed C ls)
  living : r'.living + (departed C ls).length = r.living
  highWater : r'.highWater = r.highWater
  idLimit : r'.idLimit = r.idLimit

theorem Represents.dispatched (h : r.Represents v) (h' : r'.Represents w) (hd : v.Dispatched ls w)
    (hl : ∀ m ∈ ls, v.Lives m.1) : r.Dispatched ls r' where
  placed m hm hlm := by
    obtain ⟨a, l, ha, hloc⟩ := Ledger.exists_face (hl m hm)
    have ha' := hd.sent m hm
    rw [ha, Option.map_some, Face.send_placed hlm] at ha'
    rw [h.record_of_live ha hloc, h'.record_of_live ha' rfl]
    rfl
  freed n id hn := by
    obtain ⟨l, hm, hlm⟩ := exists_of_mem_departed (List.mem_of_getElem? hn)
    obtain ⟨a, l₀, ha, hloc⟩ := Ledger.exists_face (hl _ hm)
    have ha' := hd.sent _ hm
    rw [ha, Option.map_some, Face.send_destroyed hlm] at ha'
    have hnext : ∀ k, w.queue[v.queue.length + k]? = (departed C ls)[k]? := by
      intro k
      rw [hd.queue, List.getElem?_append_right (Nat.le_add_right _ _), Nat.add_sub_cancel_left]
    rw [h.record_of_live ha hloc, h'.record_of_free ha' ((hnext n).trans hn), Nat.add_assoc, hnext]
    rfl
  tail id hid := by
    rw [h.threaded.tail, List.getLast?_eq_getElem?] at hid
    have hlt := (List.getElem?_eq_some_iff.1 hid).1
    obtain ⟨e, he, hf⟩ := h.exists_record ((h.valid.mem_queue id).1 (List.mem_of_getElem? hid)).1
    have hdead := ((h.valid.mem_queue id).1 (List.mem_of_getElem? hid)).not_lives
    have hstill : id ∉ ls.map Prod.fst := by
      intro hid'
      obtain ⟨m, hm, rfl⟩ := List.mem_map.1 hid'
      exact hdead (hl m hm)
    have hid' : w.queue[v.queue.length - 1]? = some id := by rw [hd.queue, List.getElem?_append_left hlt, hid]
    have hnext : w.queue[v.queue.length - 1 + 1]? = (departed C ls).head? := by
      rw [hd.queue, Nat.sub_add_cancel (by omega), List.getElem?_append_right (Nat.le_refl _), Nat.sub_self,
        List.head?_eq_getElem?]
    rw [h'.record_of_free ((hd.others id hstill).trans hf) hid', he, hnext]
    rfl
  others id hid htail := by
    refine h.records_congr h' (hd.others id hid) fun n hn => ⟨n, ?_, ?_⟩
    · rw [hd.queue, List.getElem?_append_left (List.getElem?_eq_some_iff.1 hn).1, hn]
    · have hlast : n + 1 < v.queue.length := by
        have hlt := (List.getElem?_eq_some_iff.1 hn).1
        by_contra hge
        rw [h.threaded.tail, List.getLast?_eq_getElem?] at htail
        exact htail (by rw [← hn]; congr 1; omega)
      rw [hd.queue, List.getElem?_append_left hlast]
  freeList := ⟨v.queue, h.freeList_eq, by rw [h'.freeList_eq, hd.queue]⟩
  living := by rw [h'.living, h.living, hd.living]
  highWater := by rw [h'.highWater, h.highWater, hd.highWater]
  idLimit := by rw [h'.idLimit, h.idLimit, hd.idLimit]

end Registry

end EntityStore
