import EntityStore.Proofs.Registry.Calls
import EntityStore.Proofs.Storage.Carries

/-! The tenants of a storage live where its rows are. -/

namespace EntityStore

variable {C : Config} {v w : Ledger C} {j : Nat}

namespace Ledger

def KeepsBeyond (v w : Ledger C) (store : StoreId) : Prop :=
  ∀ (id : Nat) (l : Location), v.location? id = some l → l.store ≠ store → v.Keeps w id

theorem KeepsBeyond.refl (v : Ledger C) (store : StoreId) : v.KeepsBeyond v store := fun id _ _ _ => .refl v id

theorem KeepsBeyond.trans {u : Ledger C} {store : StoreId} (h : u.KeepsBeyond v store) (h' : v.KeepsBeyond w store) :
    u.KeepsBeyond w store := by
  intro id l hl hs
  have hk := h id l hl hs
  exact hk.trans (h' id l (hk.location?.trans hl) hs)

theorem keepsBeyond_relocate {store : StoreId} {l l' : Location} (hl : v.location? j = some l)
    (hs : l.store = store) :
    v.KeepsBeyond (v.relocate j l') store := by
  intro id l'' hid hne
  apply keeps_relocate
  rintro rfl
  rw [hl] at hid
  cases hid
  exact hne hs

end Ledger

variable {τ : Type} [Tenant τ] {store : StoreId} {i : Nat} {t : τ} {ts : List τ}

/-- The tenant lives at the row, and is what is remembered under its handle. -/
structure Seat (v : Ledger C) (store : StoreId) (i : Nat) (t : τ) : Prop where
  location? : v.location? (Tenant.id t) = some (.housed store i)
  handle : ∃ g, v.generation? (Tenant.id t) = some g ∧ t = Tenant.ofHandle ⟨Tenant.id t, g⟩

namespace Seat

theorem lives (h : Seat v store i t) : v.Lives (Tenant.id t) := by
  rw [Ledger.Lives, h.location?]
  exact Option.some_ne_none _

theorem keeps (h : Seat v store i t) (hk : v.Keeps w (Tenant.id t)) : Seat w store i t := by
  obtain ⟨g, hg, ht⟩ := h.handle
  exact ⟨hk.location?.trans h.location?, g, hk.generation?.trans hg, ht⟩

theorem unique {store' : StoreId} {i' : Nat} {τ' : Type} [Tenant τ'] {t' : τ'} (h : Seat v store i t)
    (h' : Seat v store' i' t') (he : Tenant.id t = Tenant.id t') : store = store' ∧ i = i' := by
  have hl := h.location?
  rw [he, h'.location?] at hl
  cases hl
  exact ⟨rfl, rfl⟩

theorem relocate {store' : StoreId} {i' : Nat} (h : Seat v store i t) (hs : store' ≠ C.stores.invalid) :
    Seat (v.relocate (Tenant.id t) (.housed store' i')) store' i' t := by
  have hd : ¬ (Location.housed store' i').isDestroyed C := by simpa [Location.isDestroyed, Location.housed] using hs
  obtain ⟨g, hg, ht⟩ := h.handle
  refine ⟨?_, g, (Ledger.generation?_relocate hd).trans hg, ht⟩
  rw [Ledger.location?_relocate h.lives, if_neg hd]

end Seat

def Seated (v : Ledger C) (store : StoreId) (ts : List τ) : Prop := ∀ i t, ts[i]? = some t → Seat v store i t

namespace Seated

theorem keeps (h : Seated v store ts) (hk : ∀ t ∈ ts, v.Keeps w (Tenant.id t)) : Seated w store ts := by
  intro i t ht
  exact (h i t ht).keeps (hk t (List.mem_of_getElem? ht))

theorem seat_of_mem (h : Seated v store ts) (ht : t ∈ ts) : ∃ i, Seat v store i t := by
  obtain ⟨i, hi⟩ := List.mem_iff_getElem?.1 ht
  exact ⟨i, h i t hi⟩

theorem beyond {store' : StoreId} (h : Seated v store ts) (hk : v.KeepsBeyond w store') (hs : store ≠ store') :
    Seated w store ts := by
  refine h.keeps fun t ht => ?_
  obtain ⟨i, hi⟩ := h.seat_of_mem ht
  exact hk _ _ hi.location? hs

theorem nodup (h : Seated v store ts) : (ts.map Tenant.id).Nodup := by
  rw [List.nodup_iff_injective_get]
  intro a b hab
  simp only [List.get_eq_getElem, List.getElem_map] at hab
  have ha : ts[a]? = some ts[a] := List.getElem?_eq_getElem (by simpa using a.isLt)
  have hb : ts[b]? = some ts[b] := List.getElem?_eq_getElem (by simpa using b.isLt)
  exact Fin.ext ((h a _ ha).unique (h b _ hb) hab).2

theorem concat (h : Seated v store ts) (ht : Seat v store ts.length t) : Seated v store (ts ++ [t]) := by
  intro i t' hi
  rw [List.getElem?_append] at hi
  split at hi
  · exact h i t' hi
  · rename_i hlt
    obtain ⟨hi0, rfl⟩ := List.getElem?_eq_some_iff.1 hi
    have hi0 : i = ts.length := by
      rw [List.length_singleton] at hi0
      omega
    subst hi0
    simpa using ht

end Seated

def Ledger.fillGap (v : Ledger C) (store : StoreId) (i : Nat) : Option τ → Ledger C
  | none => v
  | some moved => v.relocate (Tenant.id moved) (.housed store i)

namespace Seated

theorem not_mem_swapPop (h : Seated v store ts) (hi : ts[i]? = some t) :
    Tenant.id t ∉ (swapPop ts i).map Tenant.id := by
  have hp := (cons_swapPop_perm hi).map Tenant.id
  exact (List.nodup_cons.1 (hp.nodup_iff.2 h.nodup)).1

theorem keeps_fillGap (h : ∀ m, (swapPop ts i)[i]? = some m → j ≠ Tenant.id m) :
    v.Keeps (v.fillGap store i (swapPop ts i)[i]?) j := by
  cases hm : (swapPop ts i)[i]? with
  | none => exact .refl v j
  | some m => exact Ledger.keeps_relocate v _ (h m hm)

theorem fillGap (h : Seated v store ts) (hs : store ≠ C.stores.invalid) (hi : ts[i]? = some t) :
    Seated (v.fillGap store i (swapPop ts i)[i]?) store (swapPop ts i) := by
  have hlt := (List.getElem?_eq_some_iff.1 hi).1
  intro j u hu
  have hj := (getElem?_swapPop hlt).symm.trans hu
  split at hj
  · split at hj
    · rename_i hlen hji
      subst hji
      rw [hu]
      rw [List.getLast?_eq_getElem?] at hj
      exact (h _ u hj).relocate hs
    · rename_i hlen hji
      refine (h j u hj).keeps (keeps_fillGap fun m hm hne => ?_)
      have hm' := (getElem?_swapPop hlt).symm.trans hm
      rw [if_pos rfl] at hm'
      split at hm'
      · rw [List.getLast?_eq_getElem?] at hm'
        have := ((h j u hj).unique (h _ m hm') hne).2
        omega
      · cases hm'
  · cases hj

end Seated

theorem Registry.Represents.fillGap {r : Registry C} (h : r.Represents v) (store : StoreId) (i : Nat)
    (moved : Option τ) (hm : ∀ m, moved = some m → v.Lives (Tenant.id m)) :
    ∃ r', (Storage.fillGap r store i moved).outcome = .ok r' ∧ r'.Represents (v.fillGap store i moved) := by
  cases moved with
  | none => exact ⟨r, rfl, h⟩
  | some m =>
    obtain ⟨r', hr, hv⟩ := h.relocate (hm m rfl) (.housed store i)
    refine ⟨r', ?_, hv⟩
    rw [Storage.fillGap, Run.outcome_bind, hr]
    rfl

theorem Registry.Represents.relocateAll {r : Registry C} {ids : List EntityId} (h : r.Represents v) (hn : ids.Nodup)
    (hl : ∀ id : Nat, id ∈ ids → v.Lives id) (target : StoreId) :
    ∃ r' w, (Storage.relocateAll r target ids).outcome = .ok r' ∧ r'.Represents w ∧
      ∀ j : Nat, j ∉ ids → v.Keeps w j := by
  induction ids generalizing r v with
  | nil => exact ⟨r, v, rfl, h, fun j _ => .refl v j⟩
  | cons id ids ih =>
    obtain ⟨hid, hn⟩ := List.nodup_cons.1 hn
    obtain ⟨r₁, hr₁, hv₁⟩ := h.relocate (hl id List.mem_cons_self) (.pending target)
    have hkeep : ∀ j : Nat, j ≠ id → v.Keeps (v.relocate id (.pending target)) j := fun j hj =>
      Ledger.keeps_relocate v _ hj
    obtain ⟨r', w, hr', hw, hk⟩ := ih hv₁ hn fun j hj =>
      (hkeep j (ne_of_mem_of_not_mem hj hid)).lives (hl j (List.mem_cons_of_mem _ hj))
    refine ⟨r', w, ?_, hw, fun j hj => ?_⟩
    · simp only [Storage.relocateAll, Run.outcome_bind, hr₁, Checked.ok_bind, hr']
    · rw [List.mem_cons, not_or] at hj
      exact (hkeep j hj.1).trans (hk j hj.2)

end EntityStore

namespace EntityStore.Storage

variable {τ L ρ : Type} [Tenant τ] [Layout L ρ] [LawfulLayout L ρ] {C : Config}

structure Settled (s : Storage τ L) (v : Ledger C) (es : List (τ × ρ)) : Prop where
  carries : s.Carries es
  seated : Seated v s.store (es.map (·.1))
  store_ne : s.store ≠ C.stores.invalid

structure Step (s : Storage τ L) (v w : Ledger C) (r' : Registry C) (s' : Storage τ L) (es' : List (τ × ρ)) :
    Prop where
  represents : r'.Represents w
  settled : s'.Settled w es'
  store : s'.store = s.store
  beyond : v.KeepsBeyond w s.store

variable {s s' : Storage τ L} {v w : Ledger C} {r r' : Registry C} {es es' : List (τ × ρ)} {e : τ × ρ} {i : Nat}
  {k : Key}

theorem Step.trans {s'' : Storage τ L} {u : Ledger C} {r'' : Registry C} {es'' : List (τ × ρ)}
    (h : s.Step v w r' s' es') (h' : s'.Step w u r'' s'' es'') : s.Step v u r'' s'' es'' :=
  ⟨h'.represents, h'.settled, h'.store.trans h.store, h.beyond.trans (h.store ▸ h'.beyond)⟩

namespace Settled

theorem step_refl (hs : s.Settled v es) (h : r.Represents v) : s.Step v v r s es := ⟨h, hs, rfl, .refl v s.store⟩

theorem seat (hs : s.Settled v es) (hi : es[i]? = some e) : Seat v s.store i e.1 :=
  hs.seated i e.1 (getElem?_tenant hi)

theorem indexOf?_iff (hs : s.Settled v es) (h : r.Represents v) :
    s.indexOf? r k = some i ↔ ∃ e, es[i]? = some e ∧ r.resolve? k = some (Tenant.id e.1) := by
  constructor
  · intro hi
    obtain ⟨e, he, hk, _⟩ := hs.carries.exists_of_indexOf? hi
    exact ⟨e, he, hk⟩
  · rintro ⟨e, he, hk⟩
    refine indexOf?_eq_some_iff.2 ⟨_, hk, ?_, ?_⟩
    · rw [h.locationOf?_eq]
      exact (hs.seat he).location?
    · exact hs.carries.getElem?_ids he

theorem updateRow (hs : s.Settled v es) (hi : es[i]? = some e) (f : ρ → ρ) :
    ∃ l, s.updateRow i f = .ok { s with rows := l } ∧ Settled { s with rows := l } v (es.set i (e.1, f e.2)) := by
  obtain ⟨l, hl, hc⟩ := hs.carries.updateRow hi f
  refine ⟨l, hl, hc, ?_, hs.store_ne⟩
  rw [map_fst_set hi]
  exact hs.seated

theorem removeAt (hs : s.Settled v es) (h : r.Represents v) (hi : es[i]? = some e) :
    ∃ r₁ s', (s.removeAt r i).outcome = .ok (e, r₁, s') ∧ ∀ l : Location,
      ∃ r₂ w, (r₁.relocate (Tenant.id e.1) l).outcome = .ok r₂ ∧ s.Step v w r₂ s' (swapPop es i) := by
  obtain ⟨s', hc, hstore, -, hrun⟩ := hs.carries.removeAt hi
  have ht := getElem?_tenant hi
  have hmap : (swapPop es i).map (·.1) = swapPop (es.map (·.1)) i := map_swapPop _ es i
  have hmoved : (swapPop es i)[i]?.map (·.1) = (swapPop (es.map (·.1)) i)[i]? := by
    rw [← List.getElem?_map, hmap]
  have hseat : ∀ m, (swapPop (es.map (·.1)) i)[i]? = some m → ∃ j, Seat v s.store j m := by
    intro m hm
    exact hs.seated.seat_of_mem ((cons_swapPop_perm ht).subset (List.mem_cons_of_mem _ (List.mem_of_getElem? hm)))
  -- whoever moves into the hole is somebody else, so the tenant that left is still where it was
  have hleft : v.Keeps (v.fillGap s.store i (swapPop (es.map (·.1)) i)[i]?) (Tenant.id e.1) := by
    refine Seated.keeps_fillGap fun m hm hne => hs.seated.not_mem_swapPop ht ?_
    rw [hne]
    exact List.mem_map_of_mem (List.mem_of_getElem? hm)
  obtain ⟨r₁, hr₁, hv₁⟩ := h.fillGap s.store i _ fun m hm => (hseat m hm).choose_spec.lives
  refine ⟨r₁, s', by rw [hrun, Run.outcome_map, hmoved, hr₁]; rfl, fun l => ?_⟩
  have hlives := hleft.lives (hs.seat hi).lives
  obtain ⟨r₂, hr₂, hv₂⟩ := hv₁.relocate hlives l
  refine ⟨r₂, _, hr₂, hv₂, ⟨hc, ?_, hstore ▸ hs.store_ne⟩, hstore, ?_⟩
  · rw [hmap, hstore]
    refine (hs.seated.fillGap hs.store_ne ht).keeps fun t ht' => ?_
    apply Ledger.keeps_relocate
    intro he
    exact hs.seated.not_mem_swapPop ht (he ▸ List.mem_map_of_mem ht')
  · refine Ledger.KeepsBeyond.trans ?_ (Ledger.keepsBeyond_relocate (hleft.location?.trans (hs.seat hi).location?) rfl)
    intro id l' hl hne
    refine Seated.keeps_fillGap fun m hm hid => ?_
    obtain ⟨j, hj⟩ := hseat m hm
    rw [hid, hj.location?] at hl
    cases hl
    exact hne rfl

theorem take (hs : s.Settled v es) (h : r.Represents v) (hi : es[i]? = some e)
    (hk : s.indexOf? r k = some i) (target : StoreId) :
    ∃ r' s' w, (s.take r k target).outcome = .ok (some e.2, r', s') ∧ s.Step v w r' s' (swapPop es i) := by
  obtain ⟨r₁, s', hr₁, hrest⟩ := hs.removeAt h hi
  obtain ⟨r₂, w, hr₂, hw⟩ := hrest (.pending target)
  refine ⟨r₂, s', w, ?_, hw⟩
  rw [Storage.take, hk]
  simp only [Run.outcome_bind, hr₁, Checked.ok_bind, hr₂]
  rfl

theorem removeAll (hs : s.Settled v es) (h : r.Represents v) (target : StoreId) :
    ∃ r' s' w, (s.removeAll r target).outcome = .ok (es.length, r', s') ∧ s.Step v w r' s' [] := by
  have hids : s.ids = (es.map (·.1)).map Tenant.id := by rw [hs.carries.ids_eq, List.map_map]; rfl
  have hseat : ∀ id ∈ s.ids, ∃ (t : τ) (i : Nat), Seat v s.store i t ∧ Tenant.id t = id := by
    intro id hid
    rw [hids] at hid
    obtain ⟨t, ht, rfl⟩ := List.mem_map.1 hid
    obtain ⟨i, hi⟩ := hs.seated.seat_of_mem ht
    exact ⟨t, i, hi, rfl⟩
  obtain ⟨r', w, hr, hw, hk⟩ := h.relocateAll (hids ▸ hs.seated.nodup) (fun id hid => by
    obtain ⟨t, i, ht, rfl⟩ := hseat id hid
    exact ht.lives) target
  refine ⟨r', _, w, ?_, hw, ⟨hs.carries.clear, (fun i t ht => nomatch ht), hs.store_ne⟩, rfl, ?_⟩
  · simp only [Storage.removeAll, Run.outcome_bind, hr, Checked.ok_bind, hs.carries.size_eq]
    rfl
  · intro id l hl hne
    apply hk
    intro hid
    obtain ⟨t, i, ht, rfl⟩ := hseat id hid
    rw [ht.location?] at hl
    cases hl
    exact hne rfl

theorem keeps (hs : s.Settled v es) (hk : ∀ j : Nat, v.Lives j → v.Keeps w j) : s.Settled w es :=
  ⟨hs.carries, hs.seated.keeps fun _ ht => hk _ (hs.seated.seat_of_mem ht).choose_spec.lives, hs.store_ne⟩

theorem step_keeps (hs : s.Settled v es) (h : r.Represents w) (hk : ∀ j : Nat, v.Lives j → v.Keeps w j) :
    s.Step v w r s es := by
  refine ⟨h, hs.keeps hk, rfl, fun id l hl _ => hk id ?_⟩
  rw [Ledger.Lives, hl]
  exact Option.some_ne_none _

theorem add (hs : s.Settled v es) (h : r.Represents v) {id : Nat} (ha : s.Accepts r k id) (x : ρ) :
    ∃ hd r' s' w, r.handle? id = some hd ∧ (s.add r k x).outcome = .ok (true, r', s') ∧
      s.Step v w r' s' (es ++ [(Tenant.ofHandle hd, x)]) := by
  have hlives := h.lives_of_resolve? ha.resolves
  have hpend : v.location? id = some (.pending s.store) := by rw [← h.locationOf?_eq, ha.pending]
  obtain ⟨f, _, hf, _⟩ := Ledger.exists_face hlives
  have hgen : v.generation? id = some f.generation := by rw [Ledger.generation?, hf, Option.map_some]
  have hh : r.handle? id = some ⟨id, f.generation⟩ := by rw [h.handle?_eq, hpend, hgen]; rfl
  obtain ⟨s', hc, hstore, -, hrun⟩ := hs.carries.add ha hh x
  obtain ⟨r', hr, hv⟩ := h.relocate hlives (.housed s.store es.length)
  have hd : ¬ (Location.housed s.store es.length).isDestroyed C := by
    simpa [Location.isDestroyed, Location.housed] using hs.store_ne
  have hid : Tenant.id (Tenant.ofHandle ⟨id, f.generation⟩ : τ) = id := Tenant.id_ofHandle _
  refine ⟨_, r', s', _, hh, by rw [hrun, Run.outcome_map, hr]; rfl, hv, ⟨hc, ?_, hstore ▸ hs.store_ne⟩, hstore,
    Ledger.keepsBeyond_relocate hpend rfl⟩
  rw [List.map_append, hstore]
  refine Seated.concat (hs.seated.keeps fun t ht => ?_) ⟨?_, f.generation, ?_, ?_⟩
  · obtain ⟨i, hi⟩ := hs.seated.seat_of_mem ht
    apply Ledger.keeps_relocate
    rintro rfl
    rw [hi.location?] at hpend
    cases hpend
  · rw [hid, Ledger.location?_relocate hlives, if_neg hd, List.length_map]
  · rw [hid, Ledger.generation?_relocate hd, hgen]
  · rw [hid]

theorem spawn (hs : s.Settled v es) (h : r.Represents v) (m : C.Metadata) (x : ρ) :
    ∃ r' s' w, ((s.spawn r m x).outcome = .ok (none, r', s') ∧ s.Step v w r' s' es) ∨
      ∃ hd, (s.spawn r m x).outcome = .ok (some hd, r', s') ∧ s.Step v w r' s' (es ++ [(Tenant.ofHandle hd, x)]) := by
  by_cases hlt : s.limit ≤ s.size
  · refine ⟨r, s, v, .inl ⟨?_, hs.step_refl h⟩⟩
    rw [Storage.spawn, if_pos hlt]
    rfl
  · obtain ⟨r₁, hr₁, hv₁⟩ := h.createHandle (.pending s.store) m
    have hk := fun j (hj : v.Lives j) => Ledger.keeps_create h.valid (.pending s.store) m hj
    have hs₁ := hs.keeps hk
    cases hc : (v.create (.pending s.store) m).1.bind r₁.handle? with
    | none =>
      refine ⟨r₁, s, _, .inl ⟨?_, hs.step_keeps hv₁ hk⟩⟩
      rw [Storage.spawn, if_neg hlt]
      simp only [Run.outcome_bind, hr₁, Checked.ok_bind, hc]
      rfl
    | some hd =>
      obtain ⟨id, hid, hh⟩ := Option.bind_eq_some_iff.1 hc
      have ha : s.Accepts r₁ (.handle hd) id := by
        refine ⟨hv₁.resolve?_of_handle? hh, Nat.not_le.1 hlt, ?_⟩
        rw [hv₁.locationOf?_eq]
        exact Ledger.location?_create h.valid hid
      obtain ⟨hd', r', s', w, hh', hr', hw⟩ := hs₁.add hv₁ ha x
      rw [hh] at hh'
      cases hh'
      refine ⟨r', s', w, .inr ⟨hd, ?_, (hs.step_keeps hv₁ hk).trans hw⟩⟩
      rw [Storage.spawn, if_neg hlt]
      simp only [Run.outcome_bind, hr₁, Checked.ok_bind, hc, hr']
      rfl

end Settled

section Sweep

variable {α : Type}

variable {view : Storage τ L → Nat → Checked (Option α)} {g : Nat → τ → ρ → Option α}

namespace Settled

theorem mem_swapPop (hs : s.Settled v es) (hi : es[i]? = some e) (e' : τ × ρ) :
    e' ∈ swapPop es i ↔ e' ∈ es ∧ Tenant.id e'.1 ≠ Tenant.id e.1 := by
  have hp := cons_swapPop_perm hi
  have hnot := hs.seated.not_mem_swapPop (getElem?_tenant hi)
  rw [← map_swapPop, List.map_map] at hnot
  rw [← hp.mem_iff, List.mem_cons]
  constructor
  · intro h
    exact ⟨.inr h, fun he => hnot (he ▸ List.mem_map_of_mem h)⟩
  · rintro ⟨rfl | h, hne⟩
    · exact absurd rfl hne
    · exact h

theorem sweepFrom (hview : Reads view g) {ident : α → EntityId}
    (hident : ∀ i t x q, g i t x = some q → ident q = Tenant.id t) (p : Predicate α) {n : Nat} (hs : s.Settled v es)
    (h : r.Represents v) (hn : i + n = es.length) (asked : Array α) (erased : Nat) :
    ∃ r' s' w es' qs, (Storage.sweepFrom view p n i ⟨(r, s), asked, erased⟩).outcome =
        .ok ⟨(r', s'), asked ++ List.toArray qs, erased + (p.hits asked qs).length⟩ ∧ s.Step v w r' s' es' ∧
      (∀ e, e ∈ es' ↔ e ∈ es ∧ Tenant.id e.1 ∉ (p.hits asked qs).map ident) ∧
      ∀ q ∈ qs, ∃ i, ∃ e ∈ es, g i e.1 e.2 = some q := by
  induction n generalizing i r s v es asked erased with
  | zero =>
    refine ⟨r, s, v, es, [], ?_, hs.step_refl h, ?_, fun q hq => nomatch hq⟩
    · simp [Storage.sweepFrom, Predicate.hits]
    · simp [Predicate.hits]
  | succ n ih =>
    obtain ⟨e, hi⟩ : ∃ e, es[i]? = some e := ⟨es[i], List.getElem?_eq_getElem (by omega)⟩
    have hnext : i + 1 + n = es.length := by omega
    rw [Storage.sweepFrom, hview s es i e hs.carries hi]
    cases hq : g i e.1 e.2 with
    | none => exact ih hs h hnext asked erased
    | some q =>
      by_cases hp : p asked q
      -- the last row has moved to `i`, and is asked about next
      · obtain ⟨r₁, s₁, hr₁, hrest⟩ := hs.removeAt h hi
        obtain ⟨r₂, w₂, hr₂, hstep⟩ := hrest (.destroyed C)
        have hlen : i + n = (swapPop es i).length := by rw [length_swapPop]; omega
        obtain ⟨r', s', w, es', qs, ho, hw, hes, hqs⟩ :=
          ih hstep.settled hstep.represents hlen (asked.push q) (erased + 1)
        have hhits : p.hits asked (q :: qs) = q :: p.hits (asked.push q) qs := by rw [Predicate.hits, if_pos hp]
        refine ⟨r', s', w, es', q :: qs, ?_, hstep.trans hw, fun e' => ?_, fun q' hq' => ?_⟩
        · simp only [hp, if_true, Run.outcome_bind, hr₁, Checked.ok_bind, hr₂, ho, hhits, List.length_cons,
            Nat.add_assoc, Nat.add_comm 1]
          simp
        · rw [hes, hs.mem_swapPop hi, hhits, List.map_cons, List.mem_cons, hident _ _ _ _ hq, not_or, and_assoc]
        · rcases List.mem_cons.1 hq' with rfl | hq'
          · exact ⟨i, e, List.mem_of_getElem? hi, hq⟩
          · obtain ⟨j, e', he', hj⟩ := hqs q' hq'
            exact ⟨j, e', ((hs.mem_swapPop hi e').1 he').1, hj⟩
      · obtain ⟨r', s', w, es', qs, ho, hw, hes, hqs⟩ := ih hs h hnext (asked.push q) erased
        have hhits : p.hits asked (q :: qs) = p.hits (asked.push q) qs := by rw [Predicate.hits, if_neg hp]
        refine ⟨r', s', w, es', q :: qs, ?_, hw, ?_, fun q' hq' => ?_⟩
        · simp only [hp, Bool.false_eq_true, if_false, ho, hhits]
          simp
        · rwa [hhits]
        · rcases List.mem_cons.1 hq' with rfl | hq'
          · exact ⟨i, e, List.mem_of_getElem? hi, hq⟩
          · exact hqs q' hq'

theorem sweep (hview : Reads view g) {ident : α → EntityId}
    (hident : ∀ i t x q, g i t x = some q → ident q = Tenant.id t) (p : Predicate α) (hs : s.Settled v es)
    (h : r.Represents v) :
    ∃ r' s' w es' qs, (s.sweep view p r).outcome = .ok ⟨(r', s'), List.toArray qs, (p.hits #[] qs).length⟩ ∧
      s.Step v w r' s' es' ∧ (∀ e, e ∈ es' ↔ e ∈ es ∧ Tenant.id e.1 ∉ (p.hits #[] qs).map ident) ∧
      ∀ q ∈ qs, ∃ i, ∃ e ∈ es, g i e.1 e.2 = some q := by
  obtain ⟨r', s', w, es', qs, ho, hw, hes, hqs⟩ := sweepFrom hview hident p (n := s.size) (i := 0) hs h
    (by rw [Nat.zero_add, hs.carries.size_eq]) #[] 0
  refine ⟨r', s', w, es', qs, ?_, hw, hes, hqs⟩
  rw [Storage.sweep, ho]
  simp

end Settled

end Sweep

end EntityStore.Storage
