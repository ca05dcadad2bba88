import EntityStore.Proofs.Registry.Calls
import EntityStore.Proofs.Storage.Archetype
import EntityStore.Proofs.Storage.Component
import EntityStore.Proofs.Storage.Peers

/-! What sweeps ask. The questions are told whether or not the sweep comes to its end. -/

namespace EntityStore

variable {C : Config}

structure Asked where
  Question : Type
  questions : Array Question

namespace Asked

def nothing : Asked := ⟨Empty, #[]⟩

end Asked

namespace Registry

variable {p : Predicate (EntityId × Record C)} {n i : Nat} {r : Registry C} {qs : Array (EntityId × Record C)}

def askedFrom (p : Predicate (EntityId × Record C)) :
    (n : Nat) → (i : Nat) → Registry C → Array (EntityId × Record C) → Array (EntityId × Record C)
  | 0, _, _, asked => asked
  | n + 1, i, r, asked =>
    match r.recordAt i with
    | .error _ => asked
    | .ok e =>
      if e.isLive then
        match C.ids.ofIndex? i with
        | none => asked
        | some id =>
          if p asked (id, e) then
            match (r.destroy id).outcome with
            | .error _ => asked.push (id, e)
            | .ok r => askedFrom p n (i + 1) r (asked.push (id, e))
          else askedFrom p n (i + 1) r (asked.push (id, e))
      else askedFrom p n (i + 1) r asked

theorem asked_of_eraseFrom {erased : Nat} {w : Swept (Registry C) (EntityId × Record C)}
    (h : (eraseFrom p n i ⟨r, qs, erased⟩).outcome = .ok w) : w.asked = askedFrom p n i r qs := by
  induction n generalizing i r qs erased with
  | zero =>
    cases h
    rfl
  | succ n ih =>
    rw [eraseFrom] at h
    rw [askedFrom]
    cases hr : r.recordAt i with
    | error f =>
      rw [hr] at h
      cases h
    | ok e =>
      rw [hr] at h
      dsimp only at h ⊢
      split at h
      · rw [if_pos ‹_›]
        cases hid : C.ids.ofIndex? i with
        | none =>
          rw [hid] at h
          cases h
          rfl
        | some id =>
          rw [hid] at h
          dsimp only at h ⊢
          split at h
          · rw [if_pos ‹_›]
            rw [Run.outcome_bind] at h
            obtain ⟨r', hr', h⟩ := Checked.bind_eq_ok.1 h
            rw [hr']
            exact ih h
          · rw [if_neg ‹_›]
            exact ih h
      · rw [if_neg ‹_›]
        exact ih h

end Registry

def RegistryCall.asked {α : Type} : RegistryCall C α → Registry C → Asked
  | eraseWhere p, r => ⟨_, Registry.askedFrom p r.records.size 0 r #[]⟩
  | _, _ => .nothing

namespace Storage

variable {τ L ρ α : Type} [Tenant τ] [Layout L ρ] {p : Predicate α} {n i : Nat} {r : Registry C}
  {view : Storage τ L → Nat → Checked (Option α)} {s : Storage τ L} {qs : Array α}

def eraseAt (s : Storage τ L) (r : Registry C) (i : Nat) : Run (Registry C × Storage τ L) := do
  let ((tenant, _), r, s) ← s.removeAt r i
  let r ← r.relocate (Tenant.id tenant) (.destroyed C)
  return (r, s)

def askedFrom (view : Storage τ L → Nat → Checked (Option α)) (p : Predicate α) :
    (n : Nat) → (i : Nat) → Registry C → Storage τ L → Array α → Array α
  | 0, _, _, _, asked => asked
  | n + 1, i, r, s, asked =>
    match view s i with
    | .error _ => asked
    | .ok none => askedFrom view p n (i + 1) r s asked
    | .ok (some q) =>
      if p asked q then
        match (s.eraseAt r i).outcome with
        | .error _ => asked.push q
        | .ok (r, s) => askedFrom view p n i r s (asked.push q)
      else askedFrom view p n (i + 1) r s (asked.push q)

def asked (view : Storage τ L → Nat → Checked (Option α)) (p : Predicate α) (s : Storage τ L) (r : Registry C) :
    Asked :=
  ⟨α, askedFrom view p s.size 0 r s #[]⟩

theorem asked_of_sweepFrom {erased : Nat} {w : Swept (Registry C × Storage τ L) α}
    (h : (sweepFrom view p n i ⟨(r, s), qs, erased⟩).outcome = .ok w) : w.asked = askedFrom view p n i r s qs := by
  induction n generalizing i r s qs erased with
  | zero =>
    cases h
    rfl
  | succ n ih =>
    rw [sweepFrom] at h
    rw [askedFrom]
    cases hq : view s i with
    | error f =>
      rw [hq] at h
      cases h
    | ok q =>
      rw [hq] at h
      cases q with
      | none => exact ih h
      | some q =>
        dsimp only at h ⊢
        split at h
        · rw [if_pos ‹_›, eraseAt]
          rw [Run.outcome_bind] at h ⊢
          obtain ⟨⟨⟨t, x⟩, r₁, s₁⟩, hleft, h⟩ := Checked.bind_eq_ok.1 h
          dsimp only at h
          rw [Run.outcome_bind] at h
          obtain ⟨r₂, hr₂, h⟩ := Checked.bind_eq_ok.1 h
          rw [hleft, Checked.ok_bind]
          dsimp only
          rw [Run.outcome_bind, hr₂]
          exact ih h
        · rw [if_neg ‹_›]
          exact ih h

theorem asked_of_sweep {a : Array α × Nat} {r' : Registry C} {s' : Storage τ L}
    (h : (Swept.answer <$> s.sweep view p r).outcome = .ok (a, r', s')) : asked view p s r = ⟨α, a.1⟩ := by
  rw [Run.outcome_map] at h
  cases ho : (s.sweep view p r).outcome with
  | error f =>
    rw [ho] at h
    cases h
  | ok w =>
    rw [ho] at h
    have ha : ((w.asked, w.erased), w.state) = (a, r', s') := Except.ok.inj h
    rw [asked, ← asked_of_sweepFrom ho]
    exact congrArg (Asked.mk α) (congrArg (·.1.1) ha)

end Storage

namespace ComponentStorage

variable {β : Type} {p : Predicate (β × EntityId)} {n i : Nat} {r : Registry C} {s : ComponentStorage β}
  {es : List (Handle × β)} {qs : Array (β × EntityId)}

def eraseAt (s : ComponentStorage β) (r : Registry C) (i : Nat) : Run (Registry C × ComponentStorage β) := do
  let ((h, _), r, s) ← s.removeAt r i
  let r ← r.relocate h.id (.destroyed C)
  return (r, s)

def askedFrom (p : Predicate (β × EntityId)) :
    (rounds : Nat) → (i : Nat) → Registry C → ComponentStorage β → Array (β × EntityId) → Array (β × EntityId)
  | 0, _, _, _, asked => asked
  | rounds + 1, i, r, s, asked =>
    if i < s.rows.size then
      match s.question i with
      | .ok (some q) =>
        if p asked q then
          match (s.eraseAt r i).outcome with
          | .error _ => asked.push q
          | .ok (r, s) => askedFrom p rounds i r s (asked.push q)
        else askedFrom p rounds (i + 1) r s (asked.push q)
      | _ => asked
    else asked

def asked (p : Predicate (β × EntityId)) (s : ComponentStorage β) (r : Registry C) : Asked :=
  ⟨_, askedFrom p s.rows.size 0 r s #[]⟩

theorem eraseAt_eq (s : ComponentStorage β) (r : Registry C) (i : Nat) : s.eraseAt r i = Storage.eraseAt s r i := by
  rw [eraseAt, removeAt_eq]
  rfl

theorem askedFrom_eq (p : Predicate (β × EntityId)) (h : s.Carries es) (hn : i + n = es.length) (r : Registry C)
    (qs : Array (β × EntityId)) : askedFrom p n i r s qs = Storage.askedFrom question p n i r s qs := by
  induction n generalizing i r s es qs with
  | zero => rfl
  | succ n ih =>
    obtain ⟨e, hi⟩ : ∃ e, es[i]? = some e := ⟨es[i], List.getElem?_eq_getElem (by omega)⟩
    have hnext : i + 1 + n = es.length := by omega
    have hlt : i < s.rows.size := by
      rw [← size, size_eq h, h.size_eq]
      omega
    rw [askedFrom, Storage.askedFrom, if_pos hlt, reads_question s es i e h hi, eraseAt_eq]
    dsimp only
    split
    · obtain ⟨s', hc, -, -, hs⟩ := h.removeAt hi
      rw [Storage.eraseAt, hs r]
      simp only [map_eq_pure_bind, bind_assoc, pure_bind, Run.outcome_bind]
      cases (Storage.fillGap r s.store i ((swapPop es i)[i]?.map (·.1))).outcome with
      | error f => rfl
      | ok r₁ =>
        rw [Checked.ok_bind]
        cases (r₁.relocate (Tenant.id e.1) (.destroyed C)).outcome with
        | error f => rfl
        | ok r₂ => exact ih hc (by rw [length_swapPop]; omega) r₂ _
    · exact ih h hnext r _

theorem asked_eq (p : Predicate (β × EntityId)) (h : s.Carries es) (r : Registry C) :
    asked p s r = Storage.asked question p s r := by
  have hsize : s.rows.size = Storage.size s := size_eq h
  rw [asked, Storage.asked, hsize]
  exact congrArg (Asked.mk _) (askedFrom_eq p h (by rw [Nat.zero_add, h.size_eq]) r #[])

theorem asked_of_eraseWhere {a : Array (β × EntityId) × Nat} {r' : Registry C} {s' : ComponentStorage β}
    (h : s.Carries es) (ho : (Swept.answer <$> s.eraseWhere r p).outcome = .ok (a, r', s')) :
    asked p s r = ⟨_, a.1⟩ := by
  rw [eraseWhere_eq h] at ho
  rw [asked_eq p h]
  exact Storage.asked_of_sweep ho

end ComponentStorage

namespace Storage

variable {τ τ' ρ ρ' L L' α : Type} [Tenant τ] [Tenant τ'] [Layout L ρ] [LawfulLayout L ρ] [Layout L' ρ']
  [LawfulLayout L' ρ'] {φ : Likeness τ τ' ρ ρ'} {s : Storage τ L} {t : Storage τ' L'} {es : List (τ × ρ)} {e : τ × ρ}
  {n i : Nat} {r : Registry C} {view : Storage τ L → Nat → Checked (Option α)}
  {view' : Storage τ' L' → Nat → Checked (Option α)} {g : Nat → τ → ρ → Option α} {g' : Nat → τ' → ρ' → Option α}

theorem Peers.eraseAt (hp : Peers φ s t es) (hi : es[i]? = some e) (r : Registry C) :
    Run.Like φ.note (fun a b => a.1 = b.1 ∧ Peers φ a.2 b.2 (swapPop es i)) (fun _ => True) (s.eraseAt r i)
      (t.eraseAt r i) := by
  refine (hp.removeAt Registry.custody_trivial (r := r) trivial hi).bind ?_
  rintro _ _ ⟨r₁, s', t', rfl, rfl, -, hp'⟩
  dsimp only
  rw [Likeness.entry, φ.id_tenant]
  refine (Run.Like.of_ends (Run.ends_trivial _)).bind ?_
  rintro r₂ _ ⟨rfl, -⟩
  exact .of_pure ⟨rfl, hp'⟩

theorem Peers.askedFrom_eq (hview : Reads view g) (hview' : Reads view' g')
    (hg : ∀ i t x, g' i (φ.tenant t) (φ.row x) = g i t x) (p : Predicate α) (hp : Peers φ s t es)
    (hn : i + n = es.length) (r : Registry C) (asked : Array α) :
    askedFrom view' p n i r t asked = askedFrom view p n i r s asked := by
  induction n generalizing i r s t es asked with
  | zero => rfl
  | succ n ih =>
    obtain ⟨e, hi⟩ : ∃ e, es[i]? = some e := ⟨es[i], List.getElem?_eq_getElem (by omega)⟩
    have hnext : i + 1 + n = es.length := by omega
    rw [askedFrom, askedFrom, hview s es i e hp.left hi, hview' t (es.map φ.entry) i _ hp.right (getElem?_entry φ hi),
      Likeness.entry, hg]
    cases g i e.1 e.2 with
    | none => exact ih hp hnext r asked
    | some q =>
      dsimp only
      split
      · rcases (hp.eraseAt hi r).outcome with ⟨f, hs, ht⟩ | ⟨⟨r₁, s'⟩, ⟨_, t'⟩, hs, ht, rfl, hp'⟩
        · rw [hs, ht]
        · rw [hs, ht]
          exact ih hp' (by rw [length_swapPop]; omega) r₁ (asked.push q)
      · exact ih hp hnext r (asked.push q)

theorem Peers.asked_eq (hview : Reads view g) (hview' : Reads view' g')
    (hg : ∀ i t x, g' i (φ.tenant t) (φ.row x) = g i t x) (p : Predicate α) (hp : Peers φ s t es) (r : Registry C) :
    asked view' p t r = asked view p s r := by
  rw [asked, asked, hp.size_eq]
  exact congrArg (Asked.mk α) (hp.askedFrom_eq hview hview' hg p (by rw [Nat.zero_add, hp.left.size_eq]) r #[])

theorem Twins.asked_eq {L' : Type} [Layout L' ρ] [LawfulLayout L' ρ] {t : Storage τ L'}
    {view' : Storage τ L' → Nat → Checked (Option α)} (hview : Reads view g) (hview' : Reads view' g) (p : Predicate α)
    (ht : Twins s t es) (r : Registry C) : asked view' p t r = asked view p s r :=
  ht.peers.asked_eq hview hview' (fun _ _ _ => rfl) p r

end Storage

namespace ArchetypeCall

variable {κ α L L' : Type} [DecidableEq κ] {El : κ → Type} {ks : List κ} [ColumnLayout L El ks] [ColumnLayout L' El ks]

def asked : ArchetypeCall C El ks α → Registry C → ArchetypeStorage L → Asked
  | eraseWhere p, r, s => Storage.asked Storage.rowQuestion p s r
  | eraseByKind k _ p, r, s => (positionOf? ks k).elim .nothing fun n => Storage.asked (Storage.kindQuestion k n) p s r
  | eraseByColumn n p, r, s => Storage.asked (Storage.columnQuestion n) p s r
  | _, _, _ => .nothing

variable [LawfulColumnLayout L El ks] [LawfulColumnLayout L' El ks] {s : ArchetypeStorage L} {t : ArchetypeStorage L'}
  {es : List (EntityId × Row El ks)}

open Storage.Carries

theorem asked_eq (c : ArchetypeCall C El ks α) (ht : Storage.Twins s t es) (r : Registry C) :
    c.asked r t = c.asked r s := by
  cases c with
  | eraseWhere p => exact ht.asked_eq reads_eraseWhere reads_eraseWhere p r
  | eraseByKind k _ p =>
    rw [asked, asked]
    cases hn : positionOf? ks k with
    | none => rfl
    | some n => exact ht.asked_eq (reads_eraseByKind hn) (reads_eraseByKind hn) p r
  | eraseByColumn n p => exact ht.asked_eq (reads_eraseByColumn n) (reads_eraseByColumn n) p r
  | _ => rfl

end ArchetypeCall

end EntityStore
