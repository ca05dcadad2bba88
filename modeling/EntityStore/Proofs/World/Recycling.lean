import EntityStore.Proofs.Registry.Queue
import EntityStore.Proofs.World.Journal

/-! Recycling. The free list is a queue: slots are used again in the order in which they were freed, whatever is called
in between. -/

namespace EntityStore

variable {C : Config} {r : Registry C} {queue : List EntityId}

namespace Storage

variable {τ L : Type}

theorem foldl_recycle_relocate (target : StoreId) (ids queue : List EntityId) :
    (ids.map (Posting.relocate (C := C) · (.pending target))).foldl Posting.recycle queue =
      if target = C.stores.invalid then queue ++ ids else queue := by
  by_cases ht : target = C.stores.invalid
  · subst ht
    rw [if_pos rfl, ← Posting.foldl_recycle_destroy]
    exact congrArg (List.foldl _ _) (List.map_congr_left fun id _ => Posting.relocate_destroyed id)
  · have hl : ¬ (Location.pending target).isDestroyed C := fun hl => ht (eq_of_beq hl)
    rw [if_neg ht]
    induction ids with
    | nil => rfl
    | cons id ids ih => rw [List.map_cons, List.foldl_cons, Posting.recycle_relocate, if_neg hl, ih]

theorem foldl_recycle_fill {store : StoreId} (hs : store ≠ C.stores.invalid) (ids : List EntityId) (i : Nat)
    (queue : List EntityId) : (fillPostings (C := C) store ids i).foldl Posting.recycle queue = queue := by
  rw [fillPostings]
  cases (swapPop ids i)[i]? with
  | none => rfl
  | some id =>
    change (Posting.relocate (C := C) id (.housed store i)).recycle queue = queue
    rw [Posting.relocate_housed hs]
    rfl

theorem foldl_recycle_leave [Tenant τ] {s : Storage τ L} (hs : s.store ≠ C.stores.invalid) (r : Registry C) (k : Key)
    (target : StoreId) (queue : List EntityId) :
    (s.leavePostings r k (.pending target)).foldl Posting.recycle queue =
      if target = C.stores.invalid then queue ++ [k.entity] else queue := by
  have hfill : ((s.indexOf? r k).elim [] (fillPostings (C := C) s.store s.ids)).foldl Posting.recycle queue =
      queue := by
    cases s.indexOf? r k with
    | none => rfl
    | some i => exact foldl_recycle_fill hs s.ids i queue
  rw [leavePostings, List.foldl_append, hfill]
  exact foldl_recycle_relocate target [k.entity] queue

theorem foldl_recycle_sweep {α : Type} {store : StoreId} (hs : store ≠ C.stores.invalid) (ident : α → EntityId)
    (p : Predicate α) (ids : List EntityId) (i : Nat) (asked : Array α) (qs : List α) (queue : List EntityId) :
    (sweepPostings (C := C) ident p store ids i asked qs).foldl Posting.recycle queue =
      queue ++ (p.hits asked qs).map ident := by
  induction qs generalizing ids i asked queue with
  | nil => exact (List.append_nil queue).symm
  | cons q qs ih =>
    rw [sweepPostings, Predicate.hits]
    split
    · rw [List.foldl_append, List.foldl_append, foldl_recycle_fill hs, ih, List.map_cons]
      exact List.append_assoc queue [ident q] _
    · exact ih _ _ _ _

end Storage

namespace StorageCall

variable {τ L ρ α : Type} [Tenant τ] {s : Storage τ L}

def requeue (s : Storage τ L) (queue : List EntityId) : StorageCall C ρ α → α → List EntityId
  | spawn _ _, some _ => queue.tail
  | take k target, some _ => if target = C.stores.invalid then queue ++ [k.entity] else queue
  | remove k target, true => if target = C.stores.invalid then queue ++ [k.entity] else queue
  | erase k, true => queue ++ [k.entity]
  | removeAll target, _ => if target = C.stores.invalid then queue ++ s.ids else queue
  | clear, _ => queue ++ s.ids
  | _, _ => queue

theorem foldl_recycle (c : StorageCall C ρ α) (hs : s.store ≠ C.stores.invalid) (a : α) :
    (c.postings r s a).foldl Posting.recycle queue = c.requeue s queue a := by
  have hhoused : ∀ (id : EntityId) (queue : List EntityId),
      (Posting.relocate (C := C) id (.housed s.store s.size)).recycle queue = queue := by
    intro id queue
    rw [Posting.relocate_housed hs]
    rfl
  cases c with
  | add k x =>
    cases a with
    | false => rfl
    | true => exact hhoused _ _
  | spawn m x =>
    cases a with
    | none => rfl
    | some h => exact hhoused _ _
  | take k target =>
    cases a with
    | none => rfl
    | some x => exact Storage.foldl_recycle_leave hs r k target queue
  | remove k target =>
    cases a with
    | false => rfl
    | true => exact Storage.foldl_recycle_leave hs r k target queue
  | erase k =>
    cases a with
    | false => rfl
    | true => exact (Storage.foldl_recycle_leave hs r k _ queue).trans (if_pos rfl)
  | removeAll target => exact Storage.foldl_recycle_relocate target s.ids queue
  | clear => exact (Storage.foldl_recycle_relocate _ s.ids queue).trans (if_pos rfl)
  | _ => rfl

end StorageCall

section Archetypes

variable {κ α L : Type} {El : κ → Type} {ks : List κ}

namespace ArchetypeCall

def requeue (s : ArchetypeStorage L) (queue : List EntityId) : ArchetypeCall C El ks α → α → List EntityId
  | shared c, a => c.requeue s queue a
  | eraseWhere p, a => queue ++ (p.hits #[] a.1.toList).map (·.id)
  | eraseByKind _ _ p, a => queue ++ (p.hits #[] a.1.toList).map (·.2)
  | eraseByColumn _ p, a => queue ++ (p.hits #[] a.1.toList).map (·.2)
  | _, _ => queue

theorem foldl_recycle (c : ArchetypeCall C El ks α) {s : ArchetypeStorage L} (hs : s.store ≠ C.stores.invalid) (a : α) :
    (c.postings r s a).foldl Posting.recycle queue = c.requeue s queue a := by
  cases c with
  | shared c => exact c.foldl_recycle hs a
  | eraseWhere | eraseByKind | eraseByColumn => exact Storage.foldl_recycle_sweep hs _ _ _ _ _ _ _
  | _ => rfl

end ArchetypeCall

end Archetypes

namespace ComponentCall

variable {α β : Type}

def requeue (s : ComponentStorage β) (queue : List EntityId) : ComponentCall C β α → α → List EntityId
  | shared c, a => c.requeue s queue a
  | eraseWhere p, a => queue ++ (p.hits #[] a.1.toList).map (·.2)
  | _, _ => queue

theorem foldl_recycle (c : ComponentCall C β α) {s : ComponentStorage β} (hs : s.store ≠ C.stores.invalid) (a : α) :
    (c.postings r s a).foldl Posting.recycle queue = c.requeue s queue a := by
  cases c with
  | shared c => exact c.foldl_recycle hs a
  | eraseWhere p => exact Storage.foldl_recycle_sweep hs _ _ _ _ _ _ _
  | _ => rfl

end ComponentCall

variable {ι κ α : Type} {El : κ → Type}

namespace StoreCall

def requeue (queue : List EntityId) : {shape : Shape κ} → Storage shape.Tenant (shape.Rows El) →
    StoreCall C El shape α →
    α → List EntityId
  | _, s, component c, a => c.requeue s queue a
  | _, s, dense c, a => c.requeue s queue a
  | _, s, chunked c, a => c.requeue s queue a
  | _, _, _, _ => queue

theorem foldl_recycle {shape : Shape κ} (c : StoreCall C El shape α) {s : Storage shape.Tenant (shape.Rows El)}
    (hs : s.store ≠ C.stores.invalid) (a : α) :
    (c.postings r s a).foldl Posting.recycle queue = c.requeue queue s a := by
  cases c with
  | component c => exact c.foldl_recycle hs a
  | dense c => exact c.foldl_recycle hs a
  | chunked c => exact c.foldl_recycle hs a
  | columns c => rfl
  | chunks c => rfl

end StoreCall

variable [∀ k, Footprint (El k)] {shapes : ι → Shape κ} [∀ i, (shapes i).Proper El] {w₀ w w' : World C El shapes}
  {v v' : Ledger C} {x y : Nat}

namespace WorldCall

def requeue (w w' : World C El shapes) (queue : List EntityId) : WorldCall C El shapes α → α → List EntityId
  | registry c, a => c.requeue w.registry w'.registry queue a
  | store i c, a => c.requeue queue (w.stores i) a

theorem queue_eq (c : WorldCall C El shapes α) {a : α} (hw : w.Steady v) (hw' : w'.Steady v')
    (h : v.Posted (c.postings w a) v') : v'.queue = c.requeue w w' v.queue a := by
  cases c with
  | registry c => exact c.queue_eq hw.represents hw'.represents h
  | store i c =>
    rw [h.queue_eq]
    exact c.foldl_recycle (hw.store_ne i) a

variable [DecidableEq ι] [DecidableEq κ]

def Withholds (y x : Nat) (w : World C El shapes) (c : WorldCall C El shapes α) : Prop :=
  ∀ a w', (c.run w).outcome = .ok (a, w') →
    y < w'.registry.records.size ∧ x < w'.registry.records.size ∧ ¬ w'.registry.isAlive y

end WorldCall

namespace World

theorem Steady.freeList (hw : w.Steady v) : w.registry.freeList = .ok v.queue := hw.represents.freeList_eq

theorem Steady.not_alive_of_mem (hw : w.Steady v) (hx : x ∈ v.queue) : ¬ w.registry.isAlive x := by
  rw [hw.represents.isAlive_iff]
  exact ((hw.represents.valid.mem_queue x).1 hx).not_lives

variable [DecidableEq ι] [DecidableEq κ]

theorem Steady.ordered (hw : w.Steady v) (hs : [y, x].Sublist v.queue)
    (h : Leads (WorldCall.Withholds y x) w w') : ∃ v', w'.Steady v' ∧ [y, x].Sublist v'.queue := by
  refine h.invariant (I := fun w => ∃ v, w.Steady v ∧ [y, x].Sublist v.queue) ⟨v, hw, hs⟩ ?_
  rintro α w c a w' ⟨v, hw, hs⟩ hc ho
  obtain ⟨v', hw', hp⟩ := (c.run_posts hw).ok ho
  obtain ⟨hy, hx, hdead⟩ := hc a w' ho
  have hb := c.postings_batch hw a
  rw [hw'.represents.size_eq] at hy hx
  refine ⟨v', hw', hp.ordered (fun p hpm hpc => hdead ?_) (hp.retains hb hy) (hp.retains hb hx) hs⟩
  exact hw'.represents.isAlive_iff.2 (hp.lives_of_batch hw.represents.valid hb hy ⟨p, hpm, hpc⟩)

structure Recycles (w : World C El shapes) (queue : List EntityId) : Prop where
  freeList : w.registry.freeList = .ok queue
  ascending : (w.registry.entities.map (·.1)).Pairwise fun a b : Nat => a < b
  create (l : Location) (m : C.Metadata) : ¬ l.isDestroyed C →
    (w.registry.create l m).Ends (fun a => a.1 = queue.head?.or
      (if w.registry.records.size < w.registry.idLimit then some w.registry.records.size else none)) fun _ => False
  call {α : Type} (c : WorldCall C El shapes α) (a : α) (w' : World C El shapes) : (c.run w).outcome = .ok (a, w') →
    w'.registry.freeList = .ok (c.requeue w w' queue a)
  ordered (y x : Nat) (w' : World C El shapes) : [y, x].Sublist queue → Leads (WorldCall.Withholds y x) w w' →
    ¬ w'.registry.isAlive x
  freed {α : Type} (c : WorldCall C El shapes α) (a : α) (w' w'' : World C El shapes) (y x : Nat) :
    (c.run w).outcome = .ok (a, w') → y ∈ queue → w.registry.isAlive x → ¬ w'.registry.isAlive x →
    x < w'.registry.records.size → Leads (WorldCall.Withholds y x) w' w'' → ¬ w''.registry.isAlive x

theorem Steady.recycles (hw : w.Steady v) : w.Recycles v.queue where
  freeList := hw.freeList
  ascending := hw.represents.sound.sorted
  create l m hl := by
    obtain ⟨r, hr, -⟩ := hw.represents.create l m
    apply Run.ends_of_ok hr
    rw [Ledger.create_fst hl, hw.represents.size_eq, hw.represents.idLimit]
  call c a w' ho := by
    obtain ⟨v', hw', hp⟩ := (c.run_posts hw).ok ho
    rw [hw'.freeList, c.queue_eq hw hw' hp]
  ordered y x w' hs h := by
    obtain ⟨v', hw', hs'⟩ := hw.ordered hs h
    exact hw'.not_alive_of_mem (hs'.subset (by simp))
  freed c a w' w'' y x ho hy hx hx' hlt h := by
    obtain ⟨v', hw', hp⟩ := (c.run_posts hw).ok ho
    rw [hw.represents.isAlive_iff] at hx
    rw [hw'.represents.isAlive_iff, Ledger.Lives, not_not] at hx'
    rw [hw'.represents.size_eq] at hlt
    have hs := hp.ordered_of_dies hw.represents.valid (c.postings_batch hw a) hy hx ⟨hlt, hx'⟩
    obtain ⟨v'', hw'', hs'⟩ := hw'.ordered hs h
    exact hw''.not_alive_of_mem (hs'.subset (by simp))

/-- Wherever calls lead, the free slots stand in a queue from which entities are created, each call does to the queue
what it says, and nobody overtakes in it. -/
theorem free_slots_queue (h₀ : w₀.Fresh) (h : Leads (fun _ _ => True) w₀ w) : ∃ queue, w.Recycles queue := by
  obtain ⟨v, hw⟩ := h₀.leads_steady h
  exact ⟨v.queue, hw.recycles⟩

theorem free_slots_queue_pair : ∃ w, Leads (fun _ _ => True) pair w ∧ w.registry.freeList = .ok [1, 0] ∧
    w.Recycles [1, 0] := by
  have h : ∃ w, Leads (fun _ _ => True) pair w ∧ w.registry.freeList = .ok [1, 0] :=
    ⟨_, .step (.registry (.erase (.id 0)))
      (.step (.registry (.erase (.id 1)))
      (.step (.registry (.create .staged ()))
      (.step (.registry (.create .staged ())) .refl trivial rfl) trivial rfl) trivial rfl) trivial rfl, rfl⟩
  obtain ⟨w, hw, hfree⟩ := h
  obtain ⟨queue, hq⟩ := free_slots_queue pair_fresh hw
  obtain rfl : queue = [1, 0] := Except.ok.inj (hq.freeList.symm.trans hfree)
  exact ⟨w, hw, hfree, hq⟩

end World

end EntityStore
