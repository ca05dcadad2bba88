import EntityStore.Proofs.Registry.Journal
import EntityStore.Proofs.Storage.Alike

/-! The journals of storages: what each of their calls posts in the registry. This holds also of storages whose
tenants were moved or destroyed behind their backs, as far as their calls return. -/

namespace EntityStore

variable {C : Config}

namespace Registry

variable {r : Registry C} {v : Ledger C} {ps : List (Posting C)}

theorem Represents.relocate_posts (h : r.Represents v) (id : EntityId) (l : Location) :
    (r.relocate id l).Ends (·.After v [.relocate id l]) fun _ => True := by
  by_cases hid : v.Lives id
  · obtain ⟨r', hr, hw⟩ := h.relocate hid l
    exact Run.ends_of_ok hr ⟨_, hw, .single (Ledger.posts_relocate hid l)⟩
  · exact Run.ends_of_error (h.relocate_dead hid l) trivial

theorem After.relocate (h : r.After v ps) (id : EntityId) (l : Location) :
    (r.relocate id l).Ends (·.After v (ps ++ [.relocate id l])) fun _ => True := by
  obtain ⟨w, hw, hps⟩ := h
  refine (hw.relocate_posts id l).imp ?_ fun _ _ => trivial
  rintro r' ⟨u, hu, hp⟩
  exact ⟨u, hu, hps.trans hp⟩

end Registry

namespace Storage

variable {τ L ρ : Type}

def fillPostings (store : StoreId) (ids : List EntityId) (i : Nat) : List (Posting C) :=
  (swapPop ids i)[i]?.toList.map (Posting.relocate · (.housed store i))

def leavePostings [Tenant τ] (s : Storage τ L) (r : Registry C) (k : Key) (l : Location) : List (Posting C) :=
  (s.indexOf? r k).elim [] (fillPostings s.store s.ids) ++ [.relocate k.entity l]

def sweepPostings {α : Type} (ident : α → EntityId) (p : Predicate α) (store : StoreId) :
    (ids : List EntityId) → (i : Nat) → Array α → List α → List (Posting C)
  | _, _, _, [] => []
  | ids, i, asked, q :: qs =>
    if p asked q then
      fillPostings store ids i ++ [.destroy (ident q)] ++
        sweepPostings ident p store (swapPop ids i) i (asked.push q) qs
    else sweepPostings ident p store ids (i + 1) (asked.push q) qs

section Relocations

variable {P : Posting C → Prop} (hP : ∀ id l, P (.relocate id l))

include hP

theorem forall_fillPostings (store : StoreId) (ids : List EntityId) (i : Nat) : ∀ p ∈ fillPostings store ids i, P p :=
  List.forall_mem_map.2 fun _ _ => hP _ _

theorem forall_leavePostings [Tenant τ] (s : Storage τ L) (r : Registry C) (k : Key) (l : Location) :
    ∀ p ∈ s.leavePostings r k l, P p := by
  rw [leavePostings, List.forall_mem_append, List.forall_mem_singleton]
  refine ⟨?_, hP _ _⟩
  cases s.indexOf? r k with
  | none => exact List.forall_mem_nil _
  | some i => exact forall_fillPostings hP _ _ i

theorem forall_sweepPostings {α : Type} (ident : α → EntityId) (p : Predicate α) (store : StoreId) (ids : List EntityId)
    (i : Nat) (asked : Array α) (qs : List α) : ∀ q ∈ sweepPostings ident p store ids i asked qs, P q := by
  induction qs generalizing ids i asked with
  | nil => exact List.forall_mem_nil _
  | cons q qs ih =>
    rw [sweepPostings]
    split
    · rw [List.forall_mem_append, List.forall_mem_append, List.forall_mem_singleton, ← Posting.relocate_destroyed]
      exact ⟨⟨forall_fillPostings hP _ _ i, hP _ _⟩, ih _ _ _⟩
    · exact ih _ _ _

end Relocations

structure Notes (s : Storage τ L) (v : Ledger C) (ps : List (Posting C)) (r' : Registry C) (s' : Storage τ L) : Prop
    where
  after : r'.After v ps
  store : s'.store = s.store

theorem notes_nil {s : Storage τ L} {v : Ledger C} {r : Registry C} (h : r.Represents v) : s.Notes v [] r s :=
  ⟨h.after, rfl⟩

variable [Layout L ρ] {s : Storage τ L} {es : List (τ × ρ)} {e : τ × ρ} {i : Nat} {v : Ledger C} {r : Registry C}

variable [Tenant τ]

theorem relocateAll_posts (h : r.Represents v) (target : StoreId) (ids : List EntityId) :
    (relocateAll r target ids).Ends (·.After v (ids.map (Posting.relocate · (.pending target)))) fun _ => True := by
  induction ids generalizing r v with
  | nil => exact Run.ends_pure h.after
  | cons id ids ih =>
    refine (h.relocate_posts id _).bind ?_
    rintro r₁ ⟨w, hw, hp⟩
    refine (ih hw).imp ?_ fun _ _ => trivial
    rintro r₂ ⟨u, hu, hps⟩
    exact ⟨u, hu, hp.trans hps⟩

theorem removeAll_posts (s : Storage τ L) (h : r.Represents v) (target : StoreId) :
    (s.removeAll r target).Ends (fun a => s.Notes v (s.ids.map (Posting.relocate · (.pending target))) a.2.1 a.2.2)
      fun _ => True :=
  (relocateAll_posts h target s.ids).bind fun _ hr => Run.ends_pure ⟨hr, rfl⟩

variable [LawfulLayout L ρ]

theorem Carries.removeAt_posts (hs : s.Carries es) (h : r.Represents v) (hi : es[i]? = some e) :
    (s.removeAt r i).Ends (fun a => a.1 = e ∧ a.2.1.After v (fillPostings s.store s.ids i) ∧
      a.2.2.Carries (swapPop es i) ∧ a.2.2.store = s.store) fun _ => True := by
  obtain ⟨s', hc, hstore, -, hrun⟩ := hs.removeAt hi
  have hmoved : (swapPop s.ids i)[i]? = ((swapPop es i)[i]?.map (·.1)).map Tenant.id := by
    rw [hs.ids_eq, ← map_swapPop, List.getElem?_map, Option.map_map]
    rfl
  have hfill : (fillGap r s.store i ((swapPop es i)[i]?.map (·.1))).Ends (·.After v (fillPostings s.store s.ids i))
      fun _ => True := by
    rw [fillPostings, hmoved]
    cases (swapPop es i)[i]?.map (·.1) with
    | none => exact Run.ends_pure h.after
    | some m =>
      refine (h.relocate_posts _ _).bind fun r₁ hr₁ => ?_
      exact (Run.ends_note _ (P := fun _ => True) trivial).bind fun _ _ => Run.ends_pure hr₁
  rw [hrun]
  exact Run.Ends.map (hfill.imp (fun r₁ hr₁ => ⟨rfl, hr₁, hc, hstore⟩) fun _ _ => trivial)

theorem Carries.take_posts (hs : s.Carries es) (h : r.Represents v) (k : Key) (target : StoreId) :
    (s.take r k target).Ends (fun a => s.Notes v (a.1.elim [] fun _ => s.leavePostings r k (.pending target))
      a.2.1 a.2.2) fun _ => True := by
  rw [take, leavePostings]
  cases hi : s.indexOf? r k with
  | none => exact Run.ends_pure (notes_nil h)
  | some i =>
    obtain ⟨e, he, hk, _⟩ := hs.exists_of_indexOf? hi
    obtain hid := Registry.entity_of_resolve? hk
    refine (hs.removeAt_posts h he).bind ?_
    rintro ⟨⟨t, x⟩, r₁, s₁⟩ ⟨rfl, hr₁, -, hstore⟩
    refine (hr₁.relocate _ _).bind fun r₂ hr₂ => Run.ends_pure ⟨?_, hstore⟩
    rw [hid]
    exact hr₂

theorem Carries.remove_posts (hs : s.Carries es) (h : r.Represents v) (k : Key) (target : StoreId) :
    (s.remove r k target).Ends (fun a => s.Notes v (if a.1 then s.leavePostings r k (.pending target) else [])
      a.2.1 a.2.2) fun _ => True := by
  refine (hs.take_posts h k target).bind ?_
  rintro ⟨x, r₁, s₁⟩ ha
  cases x with
  | none => exact Run.ends_pure ha
  | some x => exact Run.ends_pure ha

theorem Carries.add_posts (hs : s.Carries es) (h : r.Represents v) (k : Key) (x : ρ) :
    (s.add r k x).Ends (fun a => s.Notes v (if a.1 then [.relocate k.entity (.housed s.store s.size)] else [])
      a.2.1 a.2.2 ∧ (a.1 = true ↔ ∃ id, s.Accepts r k id)) fun _ => True := by
  by_cases ha : ∃ id, s.Accepts r k id
  · obtain ⟨id, ha⟩ := ha
    obtain rfl := Registry.entity_of_resolve? ha.resolves
    obtain ⟨hd, hh⟩ := Registry.exists_handle? ha.pending
    obtain ⟨s', _, hstore, -, hrun⟩ := hs.add ha hh x
    rw [hrun, ← hs.size_eq]
    refine Run.Ends.map ((h.relocate_posts _ _).imp ?_ fun _ _ => trivial)
    exact fun r₁ hr₁ => ⟨⟨hr₁, hstore⟩, iff_of_true rfl ⟨_, ha⟩⟩
  · refine Run.ends_of_ok (add_outcome_of_refused x fun id hid => ha ⟨id, hid⟩) ⟨notes_nil h, ?_⟩
    exact iff_of_false Bool.false_ne_true ha

theorem Carries.spawn_posts (hs : s.Carries es) (h : r.Represents v) (m : C.Metadata) (x : ρ) :
    (s.spawn r m x).Ends (fun a => s.Notes v (a.1.elim [] fun hd =>
        [.create hd.id (.pending s.store) m, .relocate hd.id (.housed s.store s.size)]) a.2.1 a.2.2 ∧
      ∀ hd, a.1 = some hd → a.2.1.handle? hd.id = some hd) fun _ => True := by
  have hnone : ∀ {r' : Registry C}, r'.After v [] → s.Notes v [] r' s ∧ ∀ hd, none = some hd →
      r'.handle? hd.id = some hd := fun hr => ⟨⟨hr, rfl⟩, fun hd hhd => nomatch hhd⟩
  rw [spawn]
  split
  · exact (Run.ends_note _ (P := fun _ => True) trivial).bind fun _ _ => Run.ends_pure (hnone h.after)
  · rename_i hlt
    refine (h.createHandle_posts (.pending s.store) m).bind ?_
    rintro ⟨hd, r₁⟩ ⟨hr₁, hfresh⟩
    cases hd with
    | none => exact Run.ends_pure (hnone hr₁)
    | some hd =>
      obtain ⟨w, hw, hp⟩ := hr₁
      obtain ⟨hh, hl, hdest⟩ := hfresh hd rfl
      -- the new entity is pending here, so that it is never turned away
      have ha : s.Accepts r₁ (.handle hd) hd.id := ⟨hw.resolve?_of_handle? hh, Nat.not_le.1 hlt, hl⟩
      refine (hs.add_posts hw (.handle hd) x).bind ?_
      rintro ⟨added, r₂, s₂⟩ ⟨⟨hr₂, hstore⟩, hadded⟩
      obtain rfl : added = true := hadded.2 ⟨_, ha⟩
      refine Run.ends_pure ⟨⟨?_, hstore⟩, ?_⟩
      · obtain ⟨u, hu, hps⟩ := hr₂
        exact ⟨u, hu, hp.trans hps⟩
      · rintro _ ⟨⟩
        exact hw.handle?_of_after (l := .housed s.store s.size) hdest hh hr₂

section Sweep

variable {α : Type} {view : Storage τ L → Nat → Checked (Option α)} {g : Nat → τ → ρ → Option α} {ident : α → EntityId}

theorem Carries.sweepFrom_posts (hview : Reads view g)
    (hg : ∀ i t x, ∃ q, g i t x = some q ∧ ident q = Tenant.id t) (p : Predicate α) {n : Nat} (hs : s.Carries es)
    (h : r.Represents v) (hn : i + n = es.length) (asked : Array α) (erased : Nat) :
    (sweepFrom view p n i ⟨(r, s), asked, erased⟩).Ends (fun w => ∃ qs : List α, w.asked = asked ++ qs.toArray ∧
      s.Notes v (sweepPostings ident p s.store s.ids i asked qs) w.state.1 w.state.2) fun _ => True := by
  induction n generalizing i r s v es asked erased with
  | zero => exact Run.ends_pure ⟨[], by simp, notes_nil h⟩
  | succ n ih =>
    obtain ⟨e, hi⟩ : ∃ e, es[i]? = some e := ⟨es[i], List.getElem?_eq_getElem (by omega)⟩
    obtain ⟨q, hq, hid⟩ := hg i e.1 e.2
    rw [sweepFrom, hview s es i e hs hi, hq]
    dsimp only
    by_cases hp : p asked q
    · rw [if_pos hp]
      refine (hs.removeAt_posts h hi).bind ?_
      rintro ⟨⟨t, x⟩, r₁, s₁⟩ ⟨rfl, hr₁, hs₁, hstore⟩
      refine (hr₁.relocate _ (.destroyed C)).bind ?_
      rintro r₂ ⟨w, hw, hps⟩
      have hids : s₁.ids = swapPop s.ids i := by rw [hs₁.ids_eq, hs.ids_eq, map_swapPop]
      refine (ih hs₁ hw (by rw [length_swapPop]; omega) (asked.push q) (erased + 1)).imp ?_ fun _ _ => trivial
      rintro w' ⟨qs, hasked, ⟨u, hu, hqs⟩, hstore'⟩
      rw [hids, hstore] at hqs
      refine ⟨q :: qs, by rw [hasked]; simp, ⟨u, hu, ?_⟩, hstore'.trans hstore⟩
      rw [sweepPostings, if_pos hp, hid]
      rw [Posting.relocate_destroyed] at hps
      exact hps.trans hqs
    · rw [if_neg hp]
      refine (ih hs h (by omega) (asked.push q) erased).imp ?_ fun _ _ => trivial
      rintro w' ⟨qs, hasked, hnotes⟩
      refine ⟨q :: qs, by rw [hasked]; simp, ?_⟩
      rwa [sweepPostings, if_neg hp]

theorem Carries.sweep_posts (hview : Reads view g) (hg : ∀ i t x, ∃ q, g i t x = some q ∧ ident q = Tenant.id t)
    (p : Predicate α) (hs : s.Carries es) (h : r.Represents v) :
    (Swept.answer <$> s.sweep view p r).Ends (fun a =>
      s.Notes v (sweepPostings ident p s.store s.ids 0 #[] a.1.1.toList) a.2.1 a.2.2) fun _ => True := by
  have hrun := hs.sweepFrom_posts hview hg p h (n := s.size) (by rw [Nat.zero_add, hs.size_eq]) #[] 0
  refine Run.Ends.map (hrun.imp ?_ fun _ _ => trivial)
  rintro w ⟨qs, hasked, hnotes⟩
  have hqs : w.asked.toList = qs := by rw [hasked]; simp
  exact hqs ▸ hnotes

end Sweep

end Storage

end EntityStore
