import EntityStore.Proofs.Storage.Columns
import EntityStore.Proofs.Storage.Stops
import EntityStore.Proofs.World.Journal

/-! Misuse. Entities may be moved and destroyed behind the storages that house them, slots may be taken again, locations
may be forged, and storages may share a store. Columns stay in step all the same, and what stops a call is known. -/

namespace EntityStore

variable {C : Config} {ι κ : Type} {El : κ → Type} [∀ k, Footprint (El k)] {shapes : ι → Shape κ} [DecidableEq κ]
  {α : Type}

namespace WorldCall

def stumble? (w : World C El shapes) : WorldCall C El shapes α → Option EntityId
  | registry _ => none
  | store i c => Registry.stumble? C w.registry.isAlive (c.relocations w.registry (w.stores i))

def Stops (w : World C El shapes) : WorldCall C El shapes α → Prop
  | registry _ => False
  | store i c => c.Stops w.registry (w.stores i)

variable [∀ i, (shapes i).Proper El] [DecidableEq ι] {w : World C El shapes} {v : Ledger C}

omit [DecidableEq ι] in
theorem stops_iff (c : WorldCall C El shapes α) (hw : w.Steady v) : c.Stops w ↔ (c.stumble? w).isSome := by
  cases c with
  | registry c => exact iff_of_false not_false Bool.false_ne_true
  | store i c => exact c.stops_iff (hw.store_ne i) hw.represents

theorem run_stumbles (c : WorldCall C El shapes α) (hw : w.Steady v) :
    (c.run w).Ends (fun _ => c.stumble? w = none)
      fun f => c.MayFault w f ∧ c.stumble? w = none ∨ ∃ id, c.stumble? w = some id ∧ f = .deadRelocation id := by
  cases c with
  | registry c =>
    apply Run.Ends.map
    exact (c.run_ends hw.represents).imp (fun _ _ => rfl) fun f hf => .inl ⟨hf, rfl⟩
  | store i c =>
    obtain ⟨es, hs⟩ := hw.carries i
    apply Run.Ends.map
    refine Run.Ends.imp (c.run_relocates hs hw.represents) (fun _ ha => ha.1) ?_
    rintro f (⟨hf, hnone⟩ | hdead)
    · refine .inl ⟨hf, ?_⟩
      rw [stumble?, hnone]
      rfl
    · exact .inr hdead

end WorldCall

namespace World

variable [∀ i, (shapes i).Proper El] [DecidableEq ι] {w₀ w : World C El shapes} {v : Ledger C}

structure Withstands (w : World C El shapes) : Prop where
  aligned (i : ι) : (shapes i).Aligned (w.stores i)
  fault {α : Type} (c : WorldCall C El shapes α) (f : Fault) : (c.run w).outcome = .error f →
    c.MayFault w f ∨ ∃ id, c.stumble? w = some id ∧ f = .deadRelocation id
  dead {α : Type} (c : WorldCall C El shapes α) :
    (∃ id, (c.run w).outcome = .error (.deadRelocation id)) ↔ c.Stops w

theorem Steady.withstands (hw : w.Steady v) : w.Withstands where
  aligned i := by
    obtain ⟨es, hs⟩ := hw.carries i
    exact hs.aligned
  fault c f hf := ((c.run_stumbles hw).error hf).imp_left And.left
  dead c := by
    rw [c.stops_iff hw, Option.isSome_iff_exists]
    constructor
    · rintro ⟨id, hid⟩
      rcases (c.run_stumbles hw).error hid with ⟨hf, -⟩ | ⟨id', hs, -⟩
      · exact absurd hf (c.not_deadRelocation_of_mayFault id)
      · exact ⟨id', hs⟩
    · rintro ⟨id, hid⟩
      cases ho : (c.run w).outcome with
      | ok a =>
        have hnone := (c.run_stumbles hw).ok ho
        rw [hid] at hnone
        cases hnone
      | error f =>
        rcases (c.run_stumbles hw).error ho with ⟨-, hnone⟩ | ⟨id', hs, rfl⟩
        · rw [hid] at hnone
          cases hnone
        · exact ⟨id', rfl⟩

/-- Wherever calls lead, all columns of a storage are of one length, and a call that neither asks for too much room nor
for a position beyond the last row stops just where a tenant is dead whom it has to relocate. -/
theorem misuse_withstood (h₀ : w₀.Fresh) (h : Leads (fun _ _ => True) w₀ w) : w.Withstands := by
  obtain ⟨v, hw⟩ := h₀.leads_steady h
  exact hw.withstands

theorem misuse_withstood_pair : ∃ w : World Config.standard Kind.Value pairShapes, Leads (fun _ _ => True) pair w ∧
    w.Withstands ∧
    (WorldCall.store false (.component (.shared (.take (.id 0) 0))) : WorldCall _ _ pairShapes _).Stops w ∧
      ¬ (WorldCall.store false (.component (.shared (.take (.id 2) 0))) : WorldCall _ _ pairShapes _).Stops w := by
  let spawn : WorldCall Config.standard Kind.Value pairShapes (Option Handle) :=
    .store false (.component (.shared (.spawn () true)))
  have h : Leads (fun _ _ => True) pair _ :=
    .step (.registry (.erase (.id 1))) (.step spawn (.step spawn .refl trivial rfl) trivial rfl) trivial rfl
  have hw := misuse_withstood pair_fresh h
  refine ⟨_, h, hw, (hw.dead _).1 ⟨1, rfl⟩, ?_⟩
  rw [← hw.dead]
  rintro ⟨id, hid⟩
  cases hid

end World

end EntityStore
