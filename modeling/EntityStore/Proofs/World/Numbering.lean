import EntityStore.Proofs.Registry.Numbering
import EntityStore.Proofs.World.Generations

/-! The order in which identifiers are handed out. Whatever has been called, the high-water mark tells exactly which
slots were in use since they were made, and a slot that was not yet in use is taken when the mark comes to it. -/

namespace EntityStore

variable {C : Config} {ι κ α : Type} {El : κ → Type} {shapes : ι → Shape κ}

namespace RegistryCall

def issuedId? : RegistryCall C α → α → Option EntityId
  | create _ _, id => id
  | createHandle _ _, h => h.map Handle.id
  | _, _ => none

theorem created_postings (c : RegistryCall C α) (r : Registry C) (a : α) :
    (c.postings r a).filterMap Posting.created? = (c.issuedId? a).toList := by
  cases c with
  | create l m | createHandle l m => cases a <;> rfl
  | setLocation k l =>
    cases a with
    | false => rfl
    | true => exact Posting.created_of_plain (List.forall_mem_singleton.2 (Posting.plain_relocate _ _))
  | erase k | updateMetadata k f | setIdLimit n => cases a <;> rfl
  | reserve n ahead => cases ahead <;> rfl
  | eraseWhere | clear => exact Posting.created_of_plain (List.forall_mem_map.2 fun _ _ => trivial)
  | _ => rfl

end RegistryCall

namespace StorageCall

theorem created_postings {τ L ρ : Type} [Tenant τ] (c : StorageCall C ρ α) (r : Registry C) (s : Storage τ L) (a : α) :
    (c.postings r s a).filterMap Posting.created? = ((c.issued? a).map Handle.id).toList := by
  cases c with
  | add k x =>
    cases a with
    | false => rfl
    | true => exact Posting.created_of_plain (List.forall_mem_singleton.2 (Posting.plain_relocate _ _))
  | spawn m x =>
    cases a with
    | none => rfl
    | some h =>
      have hhoused : [Posting.relocate h.id (.housed s.store s.size)].filterMap (Posting.created? (C := C)) = [] :=
        Posting.created_of_plain (List.forall_mem_singleton.2 (Posting.plain_relocate _ _))
      exact congrArg (h.id :: ·) hhoused
  | take k target =>
    cases a with
    | none => rfl
    | some x => exact Posting.created_of_plain (Storage.forall_leavePostings Posting.plain_relocate s r k _)
  | remove k target | erase k =>
    cases a with
    | false => rfl
    | true => exact Posting.created_of_plain (Storage.forall_leavePostings Posting.plain_relocate s r k _)
  | removeAll | clear => exact Posting.created_of_plain (List.forall_mem_map.2 fun _ _ => Posting.plain_relocate _ _)
  | _ => rfl

end StorageCall

theorem StoreCall.created_postings {shape : Shape κ} (c : StoreCall C El shape α) (r : Registry C)
    (s : Storage shape.Tenant (shape.Rows El)) (a : α) :
    (c.postings r s a).filterMap Posting.created? = ((c.issued? a).map Handle.id).toList := by
  cases c with
  | component c =>
    cases c with
    | shared c => exact c.created_postings r s a
    | eraseWhere p => exact Posting.created_of_plain (Storage.forall_sweepPostings Posting.plain_relocate _ _ _ _ _ _ _)
    | _ => rfl
  | dense c | chunked c =>
    cases c with
    | shared c => exact c.created_postings r s a
    | eraseWhere | eraseByKind | eraseByColumn =>
      exact Posting.created_of_plain (Storage.forall_sweepPostings Posting.plain_relocate _ _ _ _ _ _ _)
    | _ => rfl
  | columns | chunks => rfl

namespace WorldCall

def issuedId? : WorldCall C El shapes α → α → Option EntityId
  | registry c, a => c.issuedId? a
  | store _ c, a => (c.issued? a).map Handle.id

theorem created_postings (c : WorldCall C El shapes α) (w : World C El shapes) (a : α) :
    (c.postings w a).filterMap Posting.created? = (c.issuedId? a).toList := by
  cases c with
  | registry c => exact c.created_postings w.registry a
  | store i c => exact c.created_postings w.registry (w.stores i) a

end WorldCall

namespace World

variable [DecidableEq ι] [DecidableEq κ] [∀ k, Footprint (El k)] {w₀ w w' : World C El shapes} {v : Ledger C}
  {ids : List EntityId} {id : Nat}

inductive Used (w₀ : World C El shapes) : List EntityId → World C El shapes → Prop
  | refl : Used w₀ [] w₀
  | step {ids : List EntityId} {w w' : World C El shapes} {α : Type} {a : α} (c : WorldCall C El shapes α) :
      Used w₀ ids w → (c.run w).outcome = .ok (a, w') →
      Used w₀ ((ids ++ (c.issuedId? a).toList).filter (· < w'.registry.records.size)) w'

inductive Grown (w₀ : World C El shapes) : List EntityId → World C El shapes → Prop
  | refl : Grown w₀ [] w₀
  | step {ids : List EntityId} {w w' : World C El shapes} {α : Type} {a : α} (c : WorldCall C El shapes α) :
      Grown w₀ ids w → (c.run w).outcome = .ok (a, w') →
      (∀ id, w.registry.isAlive id → w'.registry.isAlive id) →
      w.registry.records.size ≤ w'.registry.records.size → Grown w₀ (ids ++ (c.issuedId? a).toList) w'

variable [∀ i, (shapes i).Proper El]

omit [DecidableEq ι] [DecidableEq κ] in
theorem Steady.untouched (hw : w.Steady v) : v.Untouched := by
  obtain ⟨ps, hps⟩ := hw.posted
  exact hps.untouched Ledger.valid_empty Ledger.untouched_empty

omit [∀ i, (shapes i).Proper El] [DecidableEq ι] [DecidableEq κ] in
theorem Fresh.highWater_eq (h₀ : w₀.Fresh) : w₀.registry.highWater = 0 := by
  obtain ⟨ps, ⟨v, hv, hps⟩, hc⟩ := h₀.registry.bare
  have hle : v.highWater ≤ 0 :=
    hps.le_highWater Ledger.valid_empty Ledger.untouched_empty (fun p hp => hc p hp 0) (Nat.le_refl 0)
  rw [hv.highWater]
  exact Nat.le_zero.1 hle

omit [∀ i, (shapes i).Proper El] in
theorem Leads.used (h : Leads (fun _ _ => True) w₀ w) : ∃ ids, Used w₀ ids w := by
  induction h with
  | refl => exact ⟨[], .refl⟩
  | step c _ _ ho ih =>
    obtain ⟨ids, hids⟩ := ih
    exact ⟨_, .step c hids ho⟩

theorem Used.mem_iff (h : Used w₀ ids w) (h₀ : w₀.Fresh) :
    (∃ v, w.Steady v) ∧ ∀ id : Nat, id ∈ ids ↔ id < w.registry.highWater := by
  induction h with
  | refl =>
    obtain ⟨v, hw, -⟩ := h₀.steady
    refine ⟨⟨v, hw⟩, fun id => ?_⟩
    rw [h₀.highWater_eq]
    exact iff_of_false List.not_mem_nil (Nat.not_lt_zero id)
  | @step ids w w' α a c _ ho ih =>
    obtain ⟨⟨v, hw⟩, hids⟩ := ih
    obtain ⟨v', hw', hp⟩ := (c.run_posts hw).ok ho
    refine ⟨⟨v', hw'⟩, fun id => ?_⟩
    rw [List.mem_filter, decide_eq_true_iff, List.mem_append, hids, ← c.created_postings w a, hw.represents.highWater,
      hw'.represents.highWater, hw'.represents.size_eq]
    by_cases hid : id < v'.faces.length
    · rw [and_iff_left hid, hp.lt_highWater_iff hw.represents.valid hw.untouched
        (hp.retains (c.postings_batch hw a) hid)]
    · have hle := hw'.represents.valid.highWater_le
      exact iff_of_false (fun hlt => hid hlt.2) fun hlt => hid (Nat.lt_of_lt_of_le hlt hle)

theorem Grown.eq_range (h : Grown w₀ ids w) (h₀ : w₀.Fresh) :
    ∃ v, w.Steady v ∧ ids = List.range v.highWater ∧ ∀ id : Nat, id < v.highWater → v.Lives id := by
  induction h with
  | refl =>
    obtain ⟨v, hw, -⟩ := h₀.steady
    have hzero : v.highWater = 0 := by rw [← hw.represents.highWater, h₀.highWater_eq]
    refine ⟨v, hw, by rw [hzero, List.range_zero], fun id hid => ?_⟩
    rw [hzero] at hid
    exact absurd hid (Nat.not_lt_zero id)
  | @step ids w w' α a c _ ho hkept hsize ih =>
    obtain ⟨v, hw, rfl, hfull⟩ := ih
    obtain ⟨v', hw', hp⟩ := (c.run_posts hw).ok ho
    rw [hw.represents.size_eq, hw'.represents.size_eq] at hsize
    have hlives : ∀ id : Nat, v.Lives id → v'.Lives id := by
      intro id hid
      exact hw'.represents.isAlive_iff.1 (hkept id (hw.represents.isAlive_iff.2 hid))
    obtain ⟨hrange, hfull'⟩ :=
      hp.range_highWater hw.represents.valid hw.untouched (c.postings_batch hw a) hsize hlives hfull
    rw [c.created_postings w a] at hrange
    exact ⟨v', hw', hrange, hfull'⟩

theorem Steady.issues (hw : w.Steady v) {c : WorldCall C El shapes α} {a : α} (ho : (c.run w).outcome = .ok (a, w'))
    (hid : c.issuedId? a = some id) :
    (id < w.registry.highWater ∧ w'.registry.maxId? = w.registry.maxId?) ∨
      (id = w.registry.highWater ∧ w'.registry.maxId? = some id) := by
  obtain ⟨v', hw', hp⟩ := (c.run_posts hw).ok ho
  have hcreated : id ∈ (c.postings w a).filterMap Posting.created? := by
    rw [c.created_postings w a, hid]
    exact List.mem_singleton_self id
  obtain ⟨-, hle, hmark⟩ := hp.created hw.represents.valid hw.untouched (c.postings_batch hw a) hcreated
  rw [hw'.represents.maxId?_eq, hw.represents.maxId?_eq, hw.represents.highWater, hmark]
  rcases Nat.lt_or_eq_of_le hle with hlt | heq
  · rw [Nat.max_eq_left hlt]
    exact .inl ⟨hlt, rfl⟩
  · rw [heq, Nat.max_eq_right (Nat.le_add_right _ 1)]
    exact .inr ⟨rfl, rfl⟩

structure Numbers (w₀ w : World C El shapes) : Prop where
  numbered : w.registry.Numbered
  traced : ∃ ids, Used w₀ ids w
  used (ids : List EntityId) : Used w₀ ids w → ∀ id : Nat, id ∈ ids ↔ id < w.registry.highWater
  issues {α : Type} (c : WorldCall C El shapes α) (a : α) (w' : World C El shapes) (id : Nat) :
    (c.run w).outcome = .ok (a, w') → c.issuedId? a = some id →
    (id < w.registry.highWater ∧ w'.registry.maxId? = w.registry.maxId?) ∨
      (id = w.registry.highWater ∧ w'.registry.maxId? = some id)
  grown (ids : List EntityId) : Grown w₀ ids w → ids = List.range ids.length

/-- Wherever calls lead, the slots in use since they were made are those below the high-water mark, whoever is created
takes one of them or raises the mark by one, and as long as nobody dies and no slot is dropped, identifiers are handed
out without a gap. -/
theorem numbers_in_order (h₀ : w₀.Fresh) (h : Leads (fun _ _ => True) w₀ w) : Numbers w₀ w := by
  obtain ⟨v, hw⟩ := h₀.leads_steady h
  refine ⟨hw.represents.numbered hw.untouched, h.used, fun ids hids => (hids.mem_iff h₀).2, ?_, fun ids hids => ?_⟩
  · intro α c a w' id ho hid
    exact hw.issues ho hid
  · obtain ⟨v', -, rfl, -⟩ := hids.eq_range h₀
    rw [List.length_range]

theorem numbers_in_order_pair : ∃ w, Used pair [0, 1] w ∧ w.registry.freeList = .ok [2, 3, 0] ∧
    w.registry.maxId? = some 1 ∧ Numbers pair w := by
  have h : ∃ ids w, Used pair ids w ∧ ids = [0, 1] ∧ Leads (fun _ _ => True) pair w ∧
      w.registry.freeList = .ok [2, 3, 0] ∧ w.registry.maxId? = some 1 :=
    ⟨_, _, .step (.registry (.erase (.id 0)))
      (.step (.registry (.create .staged ()))
      (.step (.registry (.create .staged ()))
      (.step (.registry (.reserve 4 true)) .refl rfl) rfl) rfl) rfl, rfl,
      .step (.registry (.erase (.id 0)))
      (.step (.registry (.create .staged ()))
      (.step (.registry (.create .staged ()))
      (.step (.registry (.reserve 4 true)) .refl trivial rfl) trivial rfl) trivial rfl) trivial rfl, rfl, rfl⟩
  obtain ⟨ids, w, hused, rfl, hw, hfree, hmax⟩ := h
  exact ⟨w, hused, hfree, hmax, numbers_in_order pair_fresh hw⟩

end World

end EntityStore
