import EntityStore.Proofs.Registry.Creation

/-! The order in which slots are handed out for the first time. Slots from the high-water mark on are as they were made
and wait in ascending order, so that the first of them to be taken is always the one at the mark. -/

namespace EntityStore

variable {C : Config} {id : Nat}

namespace Posting

def created? : Posting C → Option EntityId
  | create id _ _ => some id
  | _ => none

variable {p : Posting C} {ps : List (Posting C)}

theorem creates_iff : p.Creates id ↔ p.created? = some id := by
  cases p with
  | create j l m => exact Option.some_inj.symm
  | _ => exact iff_of_false not_false nofun

theorem exists_creates_iff : (∃ p ∈ ps, p.Creates id) ↔ id ∈ ps.filterMap created? := by
  simp only [creates_iff, List.mem_filterMap]

theorem Plain.created?_eq (h : p.Plain) : p.created? = none := by
  cases p with
  | create j l m => exact absurd h not_false
  | _ => rfl

theorem created_of_plain (h : ∀ p ∈ ps, p.Plain) : ps.filterMap created? = [] :=
  List.filterMap_eq_nil_iff.2 fun p hp => (h p hp).created?_eq

theorem Batch.created_cases (h : Batch ps) : ps.filterMap created? = [] ∨ ∃ id, ps.filterMap created? = [id] := by
  cases h with
  | plain hps => exact .inl (created_of_plain hps)
  | cut hps =>
    refine .inl (List.filterMap_eq_nil_iff.2 fun p hp => ?_)
    cases p with
    | create j l m => exact absurd (hps _ hp) not_false
    | _ => rfl
  | made id _ _ | housed id _ _ _ => exact .inr ⟨id, rfl⟩

end Posting

namespace Ledger

variable {u v w : Ledger C} {p : Posting C} {ps : List (Posting C)}

structure Untouched (v : Ledger C) : Prop where
  vacant : ∀ id : Nat, v.highWater ≤ id → id < v.faces.length → v.faces[id]? = some .vacant
  queued : v.queue.filter (v.highWater ≤ ·) = List.range' v.highWater (v.faces.length - v.highWater)

theorem untouched_empty : (empty C).Untouched := ⟨fun _ _ h => absurd h (Nat.not_lt_zero _), rfl⟩

theorem filter_le_range' {start mark : Nat} (h : mark ≤ start) (n : Nat) :
    (List.range' start n).filter (mark ≤ ·) = List.range' start n := by
  apply List.filter_eq_self.2
  intro id hid
  exact decide_eq_true (Nat.le_trans h (List.mem_range'_1.1 hid).1)

theorem filter_lt_range' (start n limit : Nat) :
    (List.range' start n).filter (· < limit) = List.range' start (min n (limit - start)) := by
  induction n generalizing start with
  | zero => simp
  | succ n ih =>
    rw [List.range'_succ, List.filter_cons, ih]
    by_cases hlt : start < limit
    · obtain ⟨k, hk⟩ : ∃ k, limit - start = k + 1 := ⟨limit - start - 1, by omega⟩
      have hk' : limit - (start + 1) = k := by omega
      rw [if_pos (decide_eq_true hlt), hk, hk', Nat.add_min_add_right, List.range'_succ]
    · have hzero : limit - start = 0 := by omega
      have hzero' : limit - (start + 1) = 0 := by omega
      rw [if_neg (by simpa using hlt), hzero, hzero', Nat.min_zero, Nat.min_zero, List.range'_zero, List.range'_zero]

theorem filter_le_cons {mark stop : Nat} {rest : List EntityId}
    (h : (id :: rest).filter (mark ≤ ·) = List.range' mark (stop - mark)) (hid : mark ≤ id) :
    id = mark ∧ rest.filter (mark + 1 ≤ ·) = List.range' (mark + 1) (stop - (mark + 1)) := by
  rw [List.filter_cons, if_pos (decide_eq_true hid)] at h
  cases hn : stop - mark with
  | zero =>
    rw [hn] at h
    cases h
  | succ n =>
    rw [hn, List.range'_succ] at h
    obtain ⟨rfl, hrest⟩ := List.cons.inj h
    have hbeyond := congrArg (List.filter (id + 1 ≤ ·)) hrest
    rw [filter_le_range' (Nat.le_refl _), List.filter_filter] at hbeyond
    refine ⟨rfl, ?_⟩
    rw [Nat.sub_add_eq, hn, Nat.add_sub_cancel, ← hbeyond]
    apply List.filter_congr
    intro j _
    rw [← Bool.decide_and, decide_eq_decide]
    omega

theorem lt_max_succ_iff {j mark : Nat} (h : j ≤ mark) : id < max mark (j + 1) ↔ id < mark ∨ id = j := by omega

theorem highWater_occupy (hv : v.Valid) (hp : v.pick = some (id, u)) (l : Location) (m : C.Metadata) :
    (u.occupy id l m).highWater = max v.highWater (id + 1) := by
  rw [← (hv.picked hp).highWater_eq]
  rfl

theorem untouched_occupy {mark : Nat} (l : Location) (m : C.Metadata) (hmark : (u.occupy id l m).highWater = mark)
    (hid : id < mark) (hfaces : ∀ j : Nat, mark ≤ j → j < u.faces.length → u.faces[j]? = some .vacant)
    (hqueue : u.queue.filter (mark ≤ ·) = List.range' mark (u.faces.length - mark)) : (u.occupy id l m).Untouched := by
  refine ⟨fun j hj hlt => ?_, ?_⟩
  · rw [hmark] at hj
    rw [length_occupy] at hlt
    refine (faces_modify u id _ j).trans ?_
    rw [hfaces j hj hlt, Option.map_some, if_neg (Nat.ne_of_lt (Nat.lt_of_lt_of_le hid hj))]
  · rw [hmark, length_occupy]
    exact hqueue

namespace Untouched

theorem modify (h : v.Untouched) (hid : id < v.highWater) (f : Face C → Face C) : (v.modify id f).Untouched := by
  refine ⟨fun j hj hlt => ?_, ?_⟩
  · rw [length_modify] at hlt
    have hne : id ≠ j := Nat.ne_of_lt (Nat.lt_of_lt_of_le hid hj)
    rw [faces_modify, h.vacant j hj hlt, Option.map_some, if_neg hne]
  · rw [length_modify]
    exact h.queued

theorem destroy (h : v.Untouched) (hid : id < v.highWater) : (v.destroy id).Untouched := by
  have hmodify := h.modify hid fun f => ⟨none, C.generations.bump f.generation, C.blank⟩
  refine ⟨hmodify.vacant, Eq.trans ?_ hmodify.queued⟩
  have hnew : [id].filter (v.highWater ≤ ·) = [] := List.filter_eq_nil_iff.2 (by simpa using hid)
  change (v.queue ++ [id]).filter (v.highWater ≤ ·) = v.queue.filter (v.highWater ≤ ·)
  rw [List.filter_append, hnew, List.append_nil]

theorem occupy (h : v.Untouched) (hv : v.Valid) (hp : v.pick = some (id, u)) (l : Location) (m : C.Metadata) :
    id ≤ v.highWater ∧ (u.occupy id l m).Untouched := by
  have hmark := highWater_occupy hv hp l m
  have hwaiting := h.queued
  rcases pick_cases hp with ⟨hqueue, hfaces⟩ | ⟨hqueue, hrest, rfl, hfaces⟩
  · rw [hqueue] at hwaiting
    by_cases hid : v.highWater ≤ id
    · obtain ⟨rfl, hrest⟩ := filter_le_cons hwaiting hid
      rw [Nat.max_eq_right (Nat.le_add_right _ 1)] at hmark
      refine ⟨Nat.le_refl _, untouched_occupy l m hmark (Nat.lt_succ_self _) ?_ ?_⟩
      · intro j hj hlt
        rw [hfaces] at hlt ⊢
        exact h.vacant j (Nat.le_of_succ_le hj) hlt
      · rw [hfaces]
        exact hrest
    · rw [Nat.max_eq_left (Nat.not_le.1 hid)] at hmark
      rw [List.filter_cons, if_neg (by simpa using hid)] at hwaiting
      refine ⟨Nat.le_of_not_le hid, untouched_occupy l m hmark (Nat.not_le.1 hid) ?_ ?_⟩
      · rw [hfaces]
        exact h.vacant
      · rw [hfaces]
        exact hwaiting
  · -- no slot waits, and so the mark is at the end
    have hend : v.highWater = v.faces.length := by
      have hlength := congrArg List.length hwaiting
      rw [hqueue, List.filter_nil, List.length_nil, List.length_range'] at hlength
      have := hv.highWater_le
      omega
    have hlength : u.faces.length = v.faces.length + 1 := by rw [hfaces, List.length_append, List.length_singleton]
    rw [hend, Nat.max_eq_right (Nat.le_add_right _ 1)] at hmark
    refine ⟨Nat.le_of_eq hend.symm, untouched_occupy l m hmark (Nat.lt_succ_self _) ?_ ?_⟩
    · intro j hj hlt
      omega
    · rw [hrest, hlength, Nat.sub_self]
      rfl

theorem prefill (h : v.Untouched) (hv : v.Valid) (n : Nat) : (v.prefill n).Untouched := by
  have hle := hv.highWater_le
  refine ⟨fun j hj hlt => ?_, ?_⟩
  · rw [length_prefill] at hlt
    rw [Ledger.prefill, List.getElem?_append]
    split
    · exact h.vacant j hj ‹_›
    · rw [List.getElem?_replicate_of_lt (by omega)]
  · have hadded : v.highWater + (v.faces.length - v.highWater) = v.faces.length := by omega
    have hcount : v.faces.length + n - v.highWater = v.faces.length - v.highWater + n := by omega
    rw [length_prefill]
    change (v.queue ++ List.range' v.faces.length n).filter (v.highWater ≤ ·) =
      List.range' v.highWater (v.faces.length + n - v.highWater)
    rw [List.filter_append, h.queued, filter_le_range' hle, hcount, ← List.range'_append_1, hadded]

theorem truncate (h : v.Untouched) (n : Nat) : (v.truncate n).Untouched := by
  have hmark : (v.truncate n).highWater = min v.highWater n := rfl
  refine ⟨fun j hj hlt => ?_, ?_⟩
  · rw [length_truncate, Nat.lt_min] at hlt
    rw [Ledger.truncate, List.getElem?_take, if_pos hlt.1]
    exact h.vacant j (by omega) hlt.2
  · rw [hmark, length_truncate]
    change (v.queue.filter (· < n)).filter (min v.highWater n ≤ ·) = _
    rcases Nat.le_total v.highWater n with hn | hn
    · have hkept := congrArg (List.filter (· < n)) h.queued
      rw [filter_lt_range', List.filter_comm] at hkept
      rw [Nat.min_eq_left hn, hkept]
      congr 1
      omega
    · rw [Nat.min_eq_right hn, List.filter_filter, List.filter_eq_nil_iff.2 fun j _ => by simp]
      rw [Nat.sub_eq_zero_of_le (Nat.min_le_left _ _)]
      rfl

end Untouched

theorem Posts.untouched (h : v.Posts p w) (hv : v.Valid) (hu : v.Untouched) : w.Untouched := by
  cases h with
  | create m hp _ => exact (hu.occupy hv hp _ m).2
  | place hl _ => exact hu.modify (hv.lt_highWater _ hl) _
  | destroy hl => exact hu.destroy (hv.lt_highWater _ hl)
  | amend f hl => exact hu.modify (hv.lt_highWater _ hl) _
  | extend _ => exact hu.prefill hv _
  | truncate n => exact hu.truncate n
  | limit _ _ => exact ⟨hu.vacant, hu.queued⟩

theorem Posts.lt_highWater_iff (h : v.Posts p w) (hv : v.Valid) (hu : v.Untouched) :
    id < w.highWater ↔ (id < v.highWater ∨ p.Creates id) ∧ p.Retains id := by
  cases h with
  | @create j u l m hp _ =>
    have hj := (hu.occupy hv hp l m).1
    rw [highWater_occupy hv hp, lt_max_succ_iff hj]
    exact (or_congr_right eq_comm).trans (and_iff_left trivial).symm
  | truncate n =>
    have hmin : id < (v.truncate n).highWater ↔ id < v.highWater ∧ id < n := Nat.lt_min
    exact hmin.trans (and_congr_left' (or_iff_left not_false).symm)
  | _ => simp [Posting.Creates, Posting.Retains, Ledger.modify, Ledger.destroy, Ledger.prefill]

theorem Posted.untouched (h : v.Posted ps w) (hv : v.Valid) (hu : v.Untouched) : w.Untouched := by
  induction h with
  | nil => exact hu
  | snoc hw hp ih => exact hp.untouched (hw.valid hv) ih

theorem Posted.lt_highWater_iff (h : v.Posted ps w) (hv : v.Valid) (hu : v.Untouched) (hps : ∀ p ∈ ps, p.Retains id) :
    id < w.highWater ↔ id < v.highWater ∨ id ∈ ps.filterMap Posting.created? := by
  rw [← Posting.exists_creates_iff]
  induction h with
  | nil => simp
  | snoc hw hp ih =>
    rw [List.forall_mem_append, List.forall_mem_singleton] at hps
    rw [hp.lt_highWater_iff (hw.valid hv) (hw.untouched hv hu), and_iff_left hps.2, ih hps.1]
    simp only [List.mem_append, List.mem_singleton, or_and_right, exists_or, exists_eq_left, or_assoc]

theorem Posted.le_highWater (h : v.Posted ps w) (hv : v.Valid) (hu : v.Untouched) (hps : ∀ p ∈ ps, ¬ p.Creates id)
    (hid : v.highWater ≤ id) : w.highWater ≤ id := by
  induction h with
  | nil => exact hid
  | snoc hw hp ih =>
    rw [List.forall_mem_append, List.forall_mem_singleton] at hps
    rw [← Nat.not_lt, hp.lt_highWater_iff (hw.valid hv) (hw.untouched hv hu), or_iff_left hps.2]
    exact fun hlt => Nat.not_lt.2 (ih hps.1) hlt.1

theorem Posts.created {l : Location} {m : C.Metadata} (h : v.Posts (.create id l m) w) (hv : v.Valid)
    (hu : v.Untouched) : ¬ v.Lives id ∧ id ≤ v.highWater ∧ w.highWater = max v.highWater (id + 1) := by
  cases h with
  | create _ hp _ =>
    have hpick := hv.picked hp
    refine ⟨fun hl => hpick.dead.not_lives ?_, (hu.occupy hv hp l m).1, highWater_occupy hv hp l m⟩
    rwa [Lives, hpick.location?_eq]

namespace Posted

theorem created (h : v.Posted ps w) (hv : v.Valid) (hu : v.Untouched) (hb : Posting.Batch ps)
    (hid : id ∈ ps.filterMap Posting.created?) :
    ¬ v.Lives id ∧ id ≤ v.highWater ∧ w.highWater = max v.highWater (id + 1) := by
  obtain ⟨p, hp, hpid⟩ := Posting.exists_creates_iff.2 hid
  cases hb with
  | plain hps => exact absurd hpid ((hps p hp).not_creates id)
  | cut hps => exact absurd hpid ((hps p hp).not_creates id)
  | made j l m =>
    obtain rfl : id = j := List.mem_singleton.1 hid
    exact h.posts.created hv hu
  | housed j l l' m =>
    obtain rfl : id = j := List.mem_singleton.1 hid
    obtain ⟨u, hposted, hplaced⟩ := snoc_inv (show v.Posted ([.create id l m] ++ [.place id l']) w from h)
    cases hplaced with
    | place _ _ => exact hposted.posts.created hv hu

theorem highWater_eq (h : v.Posted ps w) (hv : v.Valid) (hu : v.Untouched) (hb : Posting.Batch ps)
    (hlength : v.faces.length ≤ w.faces.length) (hnone : ps.filterMap Posting.created? = []) :
    w.highWater = v.highWater := by
  have hiff : ∀ id : Nat, id < w.faces.length → (id < w.highWater ↔ id < v.highWater) := by
    intro id hid
    rw [h.lt_highWater_iff hv hu (h.retains hb hid), hnone]
    exact or_iff_left List.not_mem_nil
  have hv' := hv.highWater_le
  have hw' := (h.valid hv).highWater_le
  apply Nat.le_antisymm
  · by_contra hlt
    exact Nat.lt_irrefl _ ((hiff v.highWater (by omega)).1 (by omega))
  · by_contra hlt
    exact Nat.lt_irrefl _ ((hiff w.highWater (by omega)).2 (by omega))

theorem range_highWater (h : v.Posted ps w) (hv : v.Valid) (hu : v.Untouched) (hb : Posting.Batch ps)
    (hlength : v.faces.length ≤ w.faces.length) (hkept : ∀ id : Nat, v.Lives id → w.Lives id)
    (hfull : ∀ id : Nat, id < v.highWater → v.Lives id) :
    List.range v.highWater ++ ps.filterMap Posting.created? = List.range w.highWater ∧
      ∀ id : Nat, id < w.highWater → w.Lives id := by
  rcases hb.created_cases with hnone | ⟨id, hsome⟩
  · rw [h.highWater_eq hv hu hb hlength hnone, hnone, List.append_nil]
    exact ⟨rfl, fun id hid => hkept id (hfull id hid)⟩
  · have hid : id ∈ ps.filterMap Posting.created? := hsome ▸ List.mem_singleton_self id
    obtain ⟨hdead, hle, hmark⟩ := h.created hv hu hb hid
    obtain rfl : id = v.highWater := Nat.le_antisymm hle (Nat.not_lt.1 fun hlt => hdead (hfull id hlt))
    rw [Nat.max_eq_right (Nat.le_add_right _ 1)] at hmark
    rw [hsome, hmark, List.range_succ]
    refine ⟨rfl, fun j hj => ?_⟩
    rcases Nat.lt_succ_iff_lt_or_eq.1 hj with hj | rfl
    · exact hkept j (hfull j hj)
    · have hlt : v.highWater < w.faces.length := Nat.lt_of_lt_of_le (hmark ▸ hj) (h.valid hv).highWater_le
      exact h.lives_of_batch hv hb hlt (Posting.exists_creates_iff.2 hid)

end Posted

end Ledger

namespace Registry

variable {r : Registry C} {v : Ledger C}

/-- Slots from the high-water mark on show nothing, and wait for their first entity in ascending order. -/
structure Numbered (r : Registry C) : Prop where
  maxId? : r.maxId? = if r.highWater = 0 then none else some (r.highWater - 1)
  untouched (id : Nat) : r.highWater ≤ id → id < r.records.size →
    ∃ next, r.records[id]? = some ⟨.free next, Generations.initial, C.blank⟩
  waiting : ∃ ids, r.freeList = .ok ids ∧
    ids.filter (r.highWater ≤ ·) = List.range' r.highWater (r.records.size - r.highWater)

theorem Represents.maxId?_eq (h : r.Represents v) :
    r.maxId? = if v.highWater = 0 then none else some (v.highWater - 1) := by
  rw [Registry.maxId?, h.highWater]
  cases hmark : v.highWater with
  | zero => rfl
  | succ n =>
    have hlt : n < C.ids.invalid := by
      have := h.valid.highWater_le
      have := h.valid.length_le
      have := h.valid.limit_le
      omega
    exact if_pos hlt

theorem Represents.numbered (h : r.Represents v) (hu : v.Untouched) : r.Numbered where
  maxId? := by rw [h.maxId?_eq, h.highWater]
  untouched id hid hlt := by
    rw [h.highWater] at hid
    rw [h.size_eq] at hlt
    have hface := hu.vacant id hid hlt
    have hdead : v.Dead id := ⟨hlt, by rw [Ledger.location?, hface]; rfl⟩
    obtain ⟨n, hn⟩ := List.mem_iff_getElem?.1 ((h.valid.mem_queue id).2 hdead)
    exact ⟨_, h.record_of_free hface hn⟩
  waiting := ⟨v.queue, h.freeList_eq, by rw [h.highWater, h.size_eq]; exact hu.queued⟩

end Registry

end EntityStore
