import EntityStore.Proofs.Registry.Creation
import EntityStore.Proofs.World.Journal

/-! Capacity. Whatever has been called, an entity can be created as long as fewer live than there may be, and a slot is
added only where every slot is in use. -/

namespace EntityStore

variable {C : Config} {ι κ α : Type} {El : κ → Type} {shapes : ι → Shape κ}

def RegistryCall.Prefills : RegistryCall C α → Prop
  | reserve _ true => True
  | _ => False

theorem RegistryCall.not_extends {c : RegistryCall C α} (hc : ¬ c.Prefills) (r : Registry C) (a : α) :
    ∀ p ∈ c.postings r a, ¬ p.Extends := by
  cases c with
  | create l m | createHandle l m =>
    cases a with
    | none => exact List.forall_mem_nil _
    | some _ => exact List.forall_mem_singleton.2 not_false
  | setLocation k l =>
    cases a with
    | false => exact List.forall_mem_nil _
    | true => exact List.forall_mem_singleton.2 (Posting.not_extends_relocate _ _)
  | erase k | updateMetadata k f =>
    cases a with
    | false => exact List.forall_mem_nil _
    | true => exact List.forall_mem_singleton.2 not_false
  | eraseWhere | clear => exact List.forall_mem_map.2 fun _ _ => not_false
  | reserve n ahead =>
    cases ahead with
    | false => exact List.forall_mem_nil _
    | true => exact absurd trivial hc
  | setIdLimit n =>
    cases a with
    | false => exact List.forall_mem_nil _
    | true => exact List.forall_mem_cons.2 ⟨not_false, List.forall_mem_singleton.2 not_false⟩
  | trim | reset => exact List.forall_mem_singleton.2 not_false
  | ask f => exact List.forall_mem_nil _

namespace WorldCall

def Prefills : WorldCall C El shapes α → Prop
  | registry c => c.Prefills
  | store _ _ => False

theorem not_extends {c : WorldCall C El shapes α} (hc : ¬ c.Prefills) (w : World C El shapes) (a : α) :
    ∀ p ∈ c.postings w a, ¬ p.Extends := by
  cases c with
  | registry c => exact RegistryCall.not_extends hc w.registry a
  | store i c => exact c.forall_postings (fun _ _ _ => not_false) Posting.not_extends_relocate w.registry (w.stores i) a

variable [DecidableEq ι] [DecidableEq κ] [∀ k, Footprint (El k)]

def Retains (w : World C El shapes) (c : WorldCall C El shapes α) : Prop :=
  ∀ a w', (c.run w).outcome = .ok (a, w') → w.registry.records.size ≤ w'.registry.records.size

end WorldCall

namespace World

variable [DecidableEq ι] [DecidableEq κ] [∀ k, Footprint (El k)] [∀ i, (shapes i).Proper El]
  {w₀ w w' : World C El shapes}
  {v : Ledger C}

theorem Steady.grows (hw : w.Steady v) {c : WorldCall C El shapes α} (hc : ¬ c.Prefills) {a : α}
    (ho : (c.run w).outcome = .ok (a, w')) (hlt : w.registry.records.size < w'.registry.records.size) :
    v.queue = [] ∧ w'.registry.living = w.registry.living + 1 := by
  obtain ⟨v', hw', hp⟩ := (c.run_posts hw).ok ho
  rw [hw.represents.size_eq, hw'.represents.size_eq] at hlt
  rw [hw.represents.living, hw'.represents.living]
  exact hp.grows hw.represents.valid (c.postings_batch hw a) (WorldCall.not_extends hc w a) hlt

omit [DecidableEq ι] [DecidableEq κ] in
theorem Steady.isAlive_of_queue_nil (hw : w.Steady v) (hq : v.queue = []) {id : Nat}
    (hid : id < w.registry.records.size) : w.registry.isAlive id := by
  rw [hw.represents.size_eq] at hid
  rw [hw.represents.isAlive_iff]
  intro hl
  have hmem := (hw.represents.valid.mem_queue id).2 ⟨hid, hl⟩
  rw [hq] at hmem
  cases hmem

theorem Steady.le_size_of_reserve (hw : w.Steady v) {n : Nat} {a : Unit}
    (ho : ((WorldCall.registry (.reserve n true)).run w).outcome = .ok (a, w')) :
    min n w.registry.idLimit ≤ w'.registry.records.size := by
  obtain ⟨v', hw', hp⟩ := ((WorldCall.registry (.reserve n true)).run_posts hw).ok ho
  have hlength := hp.posts.length_extend
  rw [← hw.represents.size_eq, ← hw'.represents.size_eq] at hlength
  dsimp only at hlength
  omega

theorem Steady.size_le_of_reserved (hw : w.Steady v) {n : Nat} (hn : n ≤ w.registry.records.size)
    (h : Leads WorldCall.Retains w w') {c : WorldCall C El shapes α} (hc : ¬ c.Prefills) {a : α} {u : World C El shapes}
    (ho : (c.run w').outcome = .ok (a, u)) (hliving : u.registry.living ≤ n) :
    u.registry.records.size ≤ w'.registry.records.size := by
  obtain ⟨v', hw', hn'⟩ : ∃ v', w'.Steady v' ∧ n ≤ w'.registry.records.size := by
    refine h.invariant (I := fun w => ∃ v, w.Steady v ∧ n ≤ w.registry.records.size) ⟨v, hw, hn⟩ ?_
    rintro β w c a w' ⟨v, hw, hn⟩ hretains ho
    obtain ⟨v', hw', -⟩ := (c.run_posts hw).ok ho
    exact ⟨v', hw', Nat.le_trans hn (hretains a w' ho)⟩
  by_contra hlt
  obtain ⟨hq, hmade⟩ := hw'.grows hc ho (Nat.not_le.1 hlt)
  have hfull := hw'.represents.valid.queue_eq_nil_iff.1 hq
  rw [← hw'.represents.living, ← hw'.represents.size_eq] at hfull
  omega

structure KeepsCapacity (w : World C El shapes) : Prop where
  makes (l : Location) (m : C.Metadata) : ¬ l.isDestroyed C → w.registry.living < w.registry.idLimit →
    ∃ id r', (w.registry.create l m).outcome = .ok (some id, r') ∧
      (w.registry.createHandle l m).outcome =
        .ok (some ⟨id, (w.registry.records[id]?.getD .vacant).generation⟩, r') ∧
      w.registry.Made l m id r'
  refuses (l : Location) (m : C.Metadata) : l.isDestroyed C ∨ w.registry.idLimit ≤ w.registry.living →
    (w.registry.create l m).outcome = .ok (none, w.registry) ∧
      (w.registry.createHandle l m).outcome = .ok (none, w.registry)
  grows {α : Type} (c : WorldCall C El shapes α) (a : α) (w' : World C El shapes) : ¬ c.Prefills →
    (c.run w).outcome = .ok (a, w') → w.registry.records.size < w'.registry.records.size →
    ∀ id, id < w.registry.records.size → w.registry.isAlive id
  reserved {α : Type} (n : Nat) (w₁ w₂ w₃ : World C El shapes) (c : WorldCall C El shapes α) (a : α) :
    ((WorldCall.registry (.reserve n true)).run w).outcome = .ok ((), w₁) → Leads WorldCall.Retains w₁ w₂ →
    ¬ c.Prefills → (c.run w₂).outcome = .ok (a, w₃) → w₃.registry.living ≤ min n w.registry.idLimit →
    w₃.registry.records.size ≤ w₂.registry.records.size

/-- Wherever calls lead, creation succeeds as long as fewer entities live than there may be, in a slot that was dead,
and else changes nothing; and as many slots as were made ahead are never added to before all of them are in use. -/
theorem capacity_kept (h₀ : w₀.Fresh) (h : Leads (fun _ _ => True) w₀ w) : w.KeepsCapacity := by
  obtain ⟨v, hw⟩ := h₀.leads_steady h
  refine ⟨fun l m hl hlt => ?_, fun l m hl => ?_, fun c a w' hc ho hlt id hid => ?_, ?_⟩
  · obtain ⟨id, u, r', hp, hr', hw'⟩ := hw.represents.create_makes hl hlt m
    have hmade := hw.represents.makes hp hw'
    exact ⟨id, r', hr', Registry.Represents.createHandle_of_create hr' hmade, hmade⟩
  · exact ⟨hw.represents.create_refuses hl m, hw.represents.createHandle_refuses hl m⟩
  · exact hw.isAlive_of_queue_nil (hw.grows hc ho hlt).1 hid
  · intro α n w₁ w₂ w₃ c a ho hleads hc hc' hliving
    obtain ⟨v₁, hw₁, -⟩ := ((WorldCall.registry (.reserve n true)).run_posts hw).ok ho
    exact hw₁.size_le_of_reserved (hw.le_size_of_reserve ho) hleads hc hc' hliving

theorem capacity_kept_pair : ∃ w, Leads (fun _ _ => True) pair w ∧ w.registry.freeList = .ok [2, 0] ∧
    w.registry.living = 1 ∧ w.KeepsCapacity := by
  have h : ∃ w, Leads (fun _ _ => True) pair w ∧ w.registry.freeList = .ok [2, 0] ∧ w.registry.living = 1 :=
    ⟨_, .step (.registry (.erase (.id 0)))
      (.step (.registry (.create .staged ()))
      (.step (.registry (.create .staged ()))
      (.step (.registry (.reserve 3 true)) .refl trivial rfl) trivial rfl) trivial rfl) trivial rfl, rfl, rfl⟩
  obtain ⟨w, hw, hfree, hliving⟩ := h
  exact ⟨w, hw, hfree, hliving, capacity_kept pair_fresh hw⟩

end World

end EntityStore
