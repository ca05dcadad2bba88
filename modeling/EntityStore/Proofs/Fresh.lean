import EntityStore.Proofs.Storage.Component
import EntityStore.Proofs.Storage.Settled

/-! Registries and storages as they are made. -/

namespace EntityStore

variable {C : Config}

def Registry.Fresh (r : Registry C) : Prop := r = empty C ∨ ∃ s, (ofSettings C s).outcome = .ok r

theorem Registry.Fresh.represents {r : Registry C} (h : r.Fresh) : ∃ v, r.Represents v := by
  rcases h with rfl | ⟨s, hs⟩
  · exact ⟨_, represents_empty C⟩
  · exact (ofSettings_ends C s).ok hs

namespace Storage

variable {τ L ρ : Type} [Tenant τ] [Layout L ρ] [Capacious L]

def Fresh (C : Config) (s : Storage τ L) : Prop :=
  (∃ store, (empty C store).outcome = .ok (.ok s)) ∨
    ∃ store settings, (ofSettings C store settings).outcome = .ok (.ok s)

namespace Fresh

variable {s : Storage τ L}

theorem eq_empty (h : s.Fresh C) :
    ∃ store limit, s = ⟨store, limit, #[], Layout.empty⟩ ∧ store ≠ 0 ∧ store ≠ C.stores.invalid := by
  have hempty : ∀ {store : StoreId} {s : Storage τ L}, (empty C store).outcome = .ok (.ok s) →
      s = ⟨store, unlimited, #[], Layout.empty⟩ ∧ store ≠ 0 ∧ store ≠ C.stores.invalid := by
    intro store s hs
    rw [empty, ensureStorage] at hs
    split at hs
    · cases hs
    · rename_i hstore
      cases hs
      exact ⟨rfl, not_or.1 hstore⟩
  rcases h with ⟨store, hs⟩ | ⟨store, settings, hs⟩
  · obtain ⟨rfl, hstore⟩ := hempty hs
    exact ⟨store, _, rfl, hstore⟩
  · rw [ofSettings, Run.outcome_bind] at hs
    obtain ⟨a, ha, hs⟩ := Checked.bind_eq_ok.1 hs
    cases a with
    | error e => cases hs
    | ok s₀ =>
      obtain ⟨rfl, hstore⟩ := hempty ha
      dsimp only at hs
      rw [Run.outcome_bind] at hs
      obtain ⟨_, _, hs⟩ := Checked.bind_eq_ok.1 hs
      cases hs
      exact ⟨store, _, rfl, hstore⟩

variable [LawfulLayout L ρ]

theorem carries (h : s.Fresh C) : s.Carries [] := by
  obtain ⟨store, limit, rfl, -⟩ := h.eq_empty
  exact ⟨rfl, LawfulLayout.holds_empty⟩

theorem settled (h : s.Fresh C) (v : Ledger C) : s.Settled v [] := by
  have hc := h.carries
  obtain ⟨store, limit, rfl, -, hstore⟩ := h.eq_empty
  exact ⟨hc, (fun i t ht => nomatch ht), hstore⟩

end Fresh

end Storage

def ComponentStorage.Fresh {β : Type} [Footprint β] (C : Config) (s : ComponentStorage β) : Prop :=
  (∃ store, (ComponentStorage.empty C store).outcome = .ok (.ok s)) ∨
    ∃ store settings, (ComponentStorage.ofSettings C store settings).outcome = .ok (.ok s)

theorem ComponentStorage.Fresh.common {β : Type} [Footprint β] {s : ComponentStorage β} (h : s.Fresh C) :
    Storage.Fresh C s := by
  rcases h with h | ⟨store, settings, h⟩
  · exact .inl h
  · exact .inr ⟨store, settings, by rwa [← ComponentStorage.ofSettings_eq]⟩

namespace Shape

variable {κ : Type} {El : κ → Type} [∀ k, Footprint (El k)]

def Fresh (C : Config) : (shape : Shape κ) → Storage shape.Tenant (shape.Rows El) → Prop
  | component _, s => ComponentStorage.Fresh C s
  | dense _, s => Storage.Fresh C s
  | chunked _ _, s => Storage.Fresh C s

theorem Fresh.common : {shape : Shape κ} → {s : Storage shape.Tenant (shape.Rows El)} → shape.Fresh C s →
    Storage.Fresh C s
  | component _, _, h => ComponentStorage.Fresh.common h
  | dense _, _, h => h
  | chunked _ _, _, h => h

end Shape

end EntityStore
