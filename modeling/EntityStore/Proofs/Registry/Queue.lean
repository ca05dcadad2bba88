import EntityStore.Proofs.Registry.Journal

/-! The queue of free slots: what postings do to it, and who stands before whom. -/

namespace EntityStore

variable {C : Config}

namespace Posting

theorem recycle_relocate (id : EntityId) (l : Location) (queue : List EntityId) :
    (relocate (C := C) id l).recycle queue = if l.isDestroyed C then queue ++ [id] else queue := by
  rw [relocate]
  split
  · rfl
  · rfl

theorem foldl_recycle_destroy (ids queue : List EntityId) :
    (ids.map (destroy (C := C))).foldl recycle queue = queue ++ ids := by
  induction ids generalizing queue with
  | nil => rw [List.map_nil, List.foldl_nil, List.append_nil]
  | cons id ids ih => rw [List.map_cons, List.foldl_cons, ih, recycle, List.append_assoc, List.singleton_append]

theorem Plain.recycle_eq {p : Posting C} (h : p.Plain) (queue : List EntityId) :
    ∃ freed, p.recycle queue = queue ++ freed := by
  cases p with
  | destroy id => exact ⟨[id], rfl⟩
  | extend start n => exact ⟨List.range' start n, rfl⟩
  | place | amend | limit => exact ⟨[], (List.append_nil queue).symm⟩
  | create | truncate => exact absurd h not_false

theorem foldl_recycle_of_plain {ps : List (Posting C)} (h : ∀ p ∈ ps, p.Plain) (queue : List EntityId) :
    ∃ freed, ps.foldl recycle queue = queue ++ freed := by
  induction ps generalizing queue with
  | nil => exact ⟨[], (List.append_nil queue).symm⟩
  | cons p ps ih =>
    rw [List.forall_mem_cons] at h
    obtain ⟨freed, hp⟩ := h.1.recycle_eq queue
    obtain ⟨freed', hps⟩ := ih h.2 (queue ++ freed)
    exact ⟨freed ++ freed', by rw [List.foldl_cons, hp, hps, List.append_assoc]⟩

end Posting

namespace Ledger

variable {v w : Ledger C} {p : Posting C} {ps : List (Posting C)} {x y : Nat}

theorem Valid.filter_queue (hv : v.Valid) : v.queue.filter (· < v.faces.length) = v.queue := by
  apply List.filter_eq_self.2
  exact fun id hid => decide_eq_true ((hv.mem_queue id).1 hid).1

theorem Posted.queue_of_cuts (h : v.Posted ps w) (hv : v.Valid) (hps : ∀ p ∈ ps, p.Cuts) :
    w.queue = v.queue.filter (· < w.faces.length) := by
  induction h with
  | nil => exact hv.filter_queue.symm
  | snoc _ hp ih =>
    rw [List.forall_mem_append, List.forall_mem_singleton] at hps
    cases hp with
    | truncate n =>
      rw [length_truncate, truncate, ih hps.1, List.filter_filter]
      apply List.filter_congr
      intro id _
      rw [← Bool.decide_and, decide_eq_decide, Nat.lt_min]
    | limit _ _ => exact ih hps.1
    | _ => exact absurd hps.2 not_false

theorem Posts.ordered (h : v.Posts p w) (hc : ¬ p.Creates y) (hy : p.Retains y) (hx : p.Retains x)
    (hs : [y, x].Sublist v.queue) : [y, x].Sublist w.queue := by
  cases h with
  | @create id u l m hp _ =>
    change [y, x].Sublist u.queue
    rcases pick_cases hp with ⟨hq, -⟩ | ⟨hq, -⟩
    · rw [hq] at hs
      cases hs with
      | cons _ hs => exact hs
      | cons_cons _ hs => exact absurd rfl hc
    · rw [hq] at hs
      cases hs
  | place _ _ | amend _ _ | limit _ _ => exact hs
  | destroy _ => exact hs.trans (List.sublist_append_left _ _)
  | extend _ => exact hs.trans (List.sublist_append_left _ _)
  | truncate n =>
    have hn := hs.filter (· < n)
    rwa [List.filter_eq_self.2 (by simpa [Posting.Retains] using And.intro hy hx)] at hn

theorem Posted.ordered (h : v.Posted ps w) (hc : ∀ p ∈ ps, ¬ p.Creates y) (hy : ∀ p ∈ ps, p.Retains y)
    (hx : ∀ p ∈ ps, p.Retains x) (hs : [y, x].Sublist v.queue) : [y, x].Sublist w.queue := by
  induction h with
  | nil => exact hs
  | snoc _ hp ih =>
    rw [List.forall_mem_append, List.forall_mem_singleton] at hc hy hx
    exact hp.ordered hc.2 hy.2 hx.2 (ih hc.1 hy.1 hx.1)

theorem Posted.ordered_of_dies (h : v.Posted ps w) (hv : v.Valid) (hb : Posting.Batch ps) (hy : y ∈ v.queue)
    (hx : v.Lives x) (hxw : w.Dead x) : [y, x].Sublist w.queue := by
  have hcount : ps.countP (·.destroys x) = 1 := by
    rcases h.batch_cases hv hb hxw.1 with ⟨-, -, hcount⟩ | ⟨hlives, -⟩
    · exact hcount
    · exact absurd (hlives hx) hxw.not_lives
  -- a batch that destroys neither makes nor cuts, and so only appends to the queue
  have hplain : ∀ p ∈ ps, p.Plain := by
    cases hb with
    | plain hps => exact hps
    | cut hps =>
      obtain ⟨p, hp, hpx⟩ := List.countP_pos_iff.1 (hcount ▸ Nat.one_pos)
      cases p with
      | destroy id => exact absurd (hps _ hp) not_false
      | _ => exact absurd hpx Bool.false_ne_true
    | made _ _ _ | housed _ _ _ _ => exact absurd hcount (by simp [Posting.destroys])
  obtain ⟨freed, hq⟩ := Posting.foldl_recycle_of_plain hplain v.queue
  rw [← h.queue_eq] at hq
  have hmem : x ∈ w.queue := ((h.valid hv).mem_queue x).2 hxw
  rw [hq, List.mem_append] at hmem
  have hfreed : x ∈ freed := hmem.resolve_left fun hxv => ((hv.mem_queue x).1 hxv).not_lives hx
  rw [hq]
  exact (List.singleton_sublist.2 hy).append (List.singleton_sublist.2 hfreed)

theorem create_fst {l : Location} (hl : ¬ l.isDestroyed C) (v : Ledger C) (m : C.Metadata) :
    (v.create l m).1 = v.queue.head?.or (if v.faces.length < v.idLimit then some v.faces.length else none) := by
  rw [create, if_neg hl, pick]
  cases v.queue with
  | cons id queue => rfl
  | nil =>
    rw [List.head?_nil, Option.none_or]
    by_cases hlt : v.faces.length < v.idLimit
    · simp only [if_pos hlt]
    · simp only [if_neg hlt]

end Ledger

namespace RegistryCall

variable {α : Type} {r r' : Registry C} {v w : Ledger C}

def requeue (r r' : Registry C) (queue : List EntityId) : RegistryCall C α → α → List EntityId
  | create _ _, some _ => queue.tail
  | createHandle _ _, some _ => queue.tail
  | setLocation k l, true => if l.isDestroyed C then queue ++ [k.entity] else queue
  | erase k, true => queue ++ [k.entity]
  | eraseWhere p, _ => queue ++ (p.hits #[] r.entities).map (·.1)
  | reserve n true, _ => queue ++ List.range' r.records.size (min n r.idLimit - r.records.size)
  | setIdLimit _, true => queue.filter (· < r'.records.size)
  | trim, _ => queue.filter (· < r'.records.size)
  | clear, _ => queue ++ r.entities.map (·.1)
  | reset, _ => []
  | _, _ => queue

theorem queue_eq (c : RegistryCall C α) {a : α} (hr : r.Represents v) (hr' : r'.Represents w)
    (h : v.Posted (c.postings r a) w) : w.queue = c.requeue r r' v.queue a := by
  have hdestroy : ∀ es : List (EntityId × Record C), (es.map fun e => (.destroy e.1 : Posting C)).foldl Posting.recycle
      v.queue = v.queue ++ es.map (·.1) := by
    intro es
    rw [← Posting.foldl_recycle_destroy, List.map_map]
    rfl
  have hcut : (∀ p ∈ c.postings r a, p.Cuts) → w.queue = v.queue.filter (· < r'.records.size) := by
    intro hps
    rw [hr'.size_eq]
    exact h.queue_of_cuts hr.valid hps
  have hfold := h.queue_eq
  cases c with
  | create l m | createHandle l m =>
    cases a with
    | none => exact hfold
    | some _ => exact hfold
  | setLocation k l =>
    cases a with
    | false => exact hfold
    | true =>
      rw [hfold]
      exact Posting.recycle_relocate k.entity l v.queue
  | erase k | updateMetadata k f =>
    cases a with
    | false => exact hfold
    | true => exact hfold
  | eraseWhere p =>
    rw [hfold]
    exact hdestroy _
  | clear =>
    rw [hfold]
    exact hdestroy _
  | reserve n ahead =>
    cases ahead with
    | false => exact hfold
    | true => exact hfold
  | setIdLimit n =>
    cases a with
    | false => exact hfold
    | true => exact hcut (by simp [postings, Posting.Cuts])
  | trim => exact hcut (by simp [postings, Posting.Cuts])
  | reset =>
    rw [hfold]
    exact List.filter_eq_nil_iff.2 fun id _ => by simp
  | ask f => exact hfold

end RegistryCall

end EntityStore
