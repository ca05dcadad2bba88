import EntityStore.Proofs.Storage.Postings
import EntityStore.Proofs.World.Sound

/-! The journal of a world: the postings of all the calls that led to it. -/

namespace EntityStore

variable {C : Config}

namespace Registry

def Bare (r : Registry C) : Prop := ∃ ps, r.After (.empty C) ps ∧ ∀ p ∈ ps, ∀ id, ¬ p.Creates id

theorem Bare.append {r' : Registry C} {v : Ledger C} {ps qs : List (Posting C)} (hps : (Ledger.empty C).Posted ps v)
    (hc : ∀ p ∈ ps, ∀ id, ¬ p.Creates id) (hqs : r'.After v qs) (hc' : ∀ p ∈ qs, ∀ id, ¬ p.Creates id) : r'.Bare := by
  obtain ⟨w, hw, hp⟩ := hqs
  exact ⟨ps ++ qs, ⟨w, hw, hps.trans hp⟩, List.forall_mem_append.2 ⟨hc, hc'⟩⟩

theorem bare_empty : (empty C).Bare := ⟨[], (represents_empty C).after, List.forall_mem_nil _⟩

theorem Bare.reserve {r : Registry C} (h : r.Bare) (n : Nat) (ahead : Bool) :
    (r.reserve n ahead).Ends Bare (· = .capacityOverflow) := by
  obtain ⟨ps, ⟨v, hv, hps⟩, hc⟩ := h
  refine Run.Ends.imp (x := Run.ofChecked _) (hv.reserve_posts n ahead) (fun r' hr' => ?_) fun _ hf => hf
  apply Bare.append hps hc hr'
  split
  · simp [Posting.Creates]
  · exact List.forall_mem_nil _

theorem Bare.setIdLimit (n : Nat) : ((empty C).setIdLimit n).Ends (fun a => a.2.Bare) fun _ => True := by
  refine ((RegistryCall.setIdLimit n).run_posts (represents_empty C)).imp ?_ fun _ hf => hf
  rintro ⟨lowered, r⟩ hr
  apply Bare.append .nil (List.forall_mem_nil _) hr
  cases lowered with
  | false => exact List.forall_mem_nil _
  | true => simp [RegistryCall.postings, Posting.Creates]

theorem Fresh.bare {r : Registry C} (h : r.Fresh) : r.Bare := by
  have hreserve : ∀ (s : RegistrySettings) (r : Registry C), r.Bare →
      (liftM (r.reserve s.reserve s.prefill) : Run (Registry C)).Ends Bare fun _ => True :=
    fun s r hr => Run.Ends.imp (hr.reserve s.reserve s.prefill) (fun _ h => h) fun _ _ => trivial
  rcases h with rfl | ⟨s, hs⟩
  · exact bare_empty
  · refine Run.Ends.ok (E := fun _ => True) ?_ hs
    rw [ofSettings]
    cases s.idLimit with
    | none => exact (Run.ends_pure bare_empty).bind (hreserve s)
    | some n => exact (Run.Ends.map (Bare.setIdLimit n)).bind (hreserve s)

end Registry

variable {ι κ α : Type} {El : κ → Type} [∀ k, Footprint (El k)] {shapes : ι → Shape κ} [∀ i, (shapes i).Proper El]
  {w₀ w : World C El shapes} {v v₀ : Ledger C} {ps : List (Posting C)}

namespace World

/-- The ledger of a world in which every storage keeps its rows and its tenants in step. -/
structure Steady (w : World C El shapes) (v : Ledger C) : Prop where
  represents : w.registry.Represents v
  posted : ∃ ps, (Ledger.empty C).Posted ps v
  carries (i : ι) : ∃ es, (w.stores i).Carries es
  store_ne (i : ι) : (w.stores i).store ≠ C.stores.invalid

theorem Fresh.steady (h₀ : w₀.Fresh) : ∃ v, w₀.Steady v ∧ ∀ id, ¬ v.Lives id := by
  obtain ⟨ps, ⟨v, hv, hps⟩, hc⟩ := h₀.registry.bare
  refine ⟨v, ⟨hv, ⟨ps, hps⟩, fun i => ⟨[], (h₀.stores i).common.carries⟩, fun i => ?_⟩, fun id => ?_⟩
  · obtain ⟨store, limit, hs, -, hstore⟩ := (h₀.stores i).common.eq_empty
    rw [hs]
    exact hstore
  · apply hps.not_lives Ledger.valid_empty
    · exact fun hl => absurd hl.lt (Nat.not_lt_zero id)
    · exact fun p hp => hc p hp id

end World

namespace WorldCall

def postings (w : World C El shapes) : WorldCall C El shapes α → α → List (Posting C)
  | registry c, a => c.postings w.registry a
  | store i c, a => c.postings w.registry (w.stores i) a

theorem postings_batch (c : WorldCall C El shapes α) (hw : w.Steady v) (a : α) : Posting.Batch (c.postings w a) := by
  cases c with
  | registry c => exact c.postings_batch w.registry a
  | store i c => exact c.postings_batch w.registry (hw.store_ne i) a

variable [DecidableEq ι] [DecidableEq κ]

theorem run_posts (c : WorldCall C El shapes α) (hw : w.Steady v) :
    (c.run w).Ends (fun a => ∃ v', a.2.Steady v' ∧ v.Posted (c.postings w a.1) v') fun _ => True := by
  obtain ⟨ps, hps⟩ := hw.posted
  cases c with
  | registry c =>
    refine Run.Ends.map ((c.run_posts hw.represents).imp ?_ fun _ hf => hf)
    rintro ⟨a, r⟩ ⟨v', hr, hp⟩
    exact ⟨v', ⟨hr, ⟨_, hps.trans hp⟩, hw.carries, hw.store_ne⟩, hp⟩
  | store i c =>
    obtain ⟨es, hs⟩ := hw.carries i
    have hkept := c.run_kept Registry.custody_represents hs ⟨v, hw.represents⟩
    refine Run.Ends.map (((c.run_posts hs hw.represents).and hkept).imp ?_ fun _ hf => hf)
    rintro ⟨a, r, s⟩ ⟨⟨⟨v', hr, hp⟩, hstore⟩, -, hs'⟩
    refine ⟨v', ⟨hr, ⟨_, hps.trans hp⟩, ?_, ?_⟩, hp⟩
    · exact (Function.forall_update_iff w.stores fun _ s => ∃ es, s.Carries es).2 ⟨hs', fun j _ => hw.carries j⟩
    · apply (Function.forall_update_iff w.stores fun _ s => s.store ≠ C.stores.invalid).2
      refine ⟨?_, fun j _ => hw.store_ne j⟩
      rw [hstore]
      exact hw.store_ne i

end WorldCall

namespace World

variable [DecidableEq ι] [DecidableEq κ]

theorem Leads.steady {allowed : {α : Type} → World C El shapes → WorldCall C El shapes α → Prop}
    (h : Leads allowed w₀ w) (h₀ : ∃ v, w₀.Steady v) : ∃ v, w.Steady v := by
  refine h.invariant (I := fun w => ∃ v, w.Steady v) h₀ ?_
  rintro α w c a w' ⟨v, hw⟩ - ho
  obtain ⟨v', hw', -⟩ := (c.run_posts hw).ok ho
  exact ⟨v', hw'⟩

theorem Fresh.leads_steady {allowed : {α : Type} → World C El shapes → WorldCall C El shapes α → Prop} (h₀ : w₀.Fresh)
    (h : Leads allowed w₀ w) : ∃ v, w.Steady v :=
  have ⟨v, hv, _⟩ := h₀.steady
  h.steady ⟨v, hv⟩

/-- All that was posted on the way from one world to another. -/
inductive History (w₀ : World C El shapes) : List (Posting C) → World C El shapes → Prop
  | refl : History w₀ [] w₀
  | step {ps : List (Posting C)} {w w' : World C El shapes} {α : Type} {a : α} (c : WorldCall C El shapes α) :
      History w₀ ps w → (c.run w).outcome = .ok (a, w') → History w₀ (ps ++ c.postings w a) w'

theorem History.steady (h : History w₀ ps w) (h₀ : w₀.Steady v₀) : ∃ v, w.Steady v ∧ v₀.Posted ps v := by
  induction h with
  | refl => exact ⟨v₀, h₀, .nil⟩
  | step c _ ho ih =>
    obtain ⟨v, hw, hps⟩ := ih
    obtain ⟨v', hw', hp⟩ := (c.run_posts hw).ok ho
    exact ⟨v', hw', hps.trans hp⟩

end World

end EntityStore
