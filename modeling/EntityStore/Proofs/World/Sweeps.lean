import EntityStore.Proofs.Layout.Kinds
import EntityStore.Proofs.World.Removal

/-! Sweeps over a storage. -/

namespace EntityStore

section

variable {C : Config} {α τ ρ : Type}

section Sift

variable {β ε : Type}

def lastFirst (l : List ε) : List ε := l.getLast?.toList ++ l.dropLast

theorem lastFirst_concat (l : List ε) (x : ε) : lastFirst (l ++ [x]) = x :: l := by simp [lastFirst]

theorem lastFirst_perm (l : List ε) : (lastFirst l).Perm l := by
  rcases List.eq_nil_or_concat l with rfl | ⟨l, x, rfl⟩
  · exact .nil
  · rw [List.concat_eq_append, lastFirst_concat]
    exact (List.perm_append_singleton x l).symm

theorem swapPop_append_cons (l l' : List ε) (x : ε) : swapPop (l ++ x :: l') l.length = l ++ lastFirst l' := by
  rcases List.eq_nil_or_concat l' with rfl | ⟨l', y, rfl⟩
  · rw [swapPop_concat, List.set_eq_of_length_le (Nat.le_refl _)]
    exact (List.append_nil l).symm
  · rw [List.concat_eq_append, lastFirst_concat, ← List.cons_append, ← List.append_assoc, swapPop_concat]
    simp

structure Sifted (α ε : Type) where
  asked : Array α
  kept : List ε
  gone : List ε

def Sifted.lose (S : Sifted α ε) (e : ε) : Sifted α ε := { S with gone := e :: S.gone }

def sift (p : Predicate α) (question : Nat → ε → α) (asked : Array α) (kept : List ε) : List ε → Sifted α ε
  | [] => ⟨asked, kept, []⟩
  | e :: rest =>
    if p asked (question kept.length e) then
      (sift p question (asked.push (question kept.length e)) kept (lastFirst rest)).lose e
    else sift p question (asked.push (question kept.length e)) (kept ++ [e]) rest
termination_by rest => rest.length
decreasing_by
  · rw [(lastFirst_perm rest).length_eq]
    exact Nat.lt_succ_self _
  · exact Nat.lt_succ_self _

variable {p : Predicate α} {question : Nat → ε → α} {asked : Array α} {kept rest : List ε} {e : ε}

theorem sift_gone (h : p asked (question kept.length e)) : sift p question asked kept (e :: rest) =
    (sift p question (asked.push (question kept.length e)) kept (lastFirst rest)).lose e := by
  rw [sift, if_pos h]

theorem sift_kept (h : ¬ p asked (question kept.length e)) : sift p question asked kept (e :: rest) =
    sift p question (asked.push (question kept.length e)) (kept ++ [e]) rest := by
  rw [sift, if_neg h]

theorem sift_perm (p : Predicate α) (question : Nat → ε → α) (asked : Array α) (kept rest : List ε) :
    ((sift p question asked kept rest).gone ++ (sift p question asked kept rest).kept).Perm (kept ++ rest) := by
  induction asked, kept, rest using sift.induct p question with
  | case1 asked kept =>
    rw [sift, List.append_nil]
    exact .refl _
  | case2 asked kept e rest h ih =>
    have hrest : (kept ++ lastFirst rest).Perm (kept ++ rest) := (lastFirst_perm rest).append_left kept
    rw [sift_gone h]
    exact ((ih.trans hrest).cons e).trans List.perm_middle.symm
  | case3 asked kept e rest h ih =>
    rw [sift_kept h]
    rwa [List.append_assoc] at ih

theorem asked_sift_perm {ident : α → β} {key : ε → β} (h : ∀ n e, ident (question n e) = key e) (asked : Array α)
    (kept rest : List ε) : ((sift p question asked kept rest).asked.toList.map ident).Perm
      (asked.toList.map ident ++ rest.map key) := by
  have hpush : ∀ (asked : Array α) n e,
      (asked.push (question n e)).toList.map ident = asked.toList.map ident ++ [key e] := by
    intro asked n e
    rw [Array.toList_push, List.map_append, List.map_singleton, h]
  induction asked, kept, rest using sift.induct p question with
  | case1 asked kept =>
    rw [sift, List.map_nil, List.append_nil]
  | case2 asked kept e rest hp ih =>
    rw [sift_gone hp]
    refine ih.trans ?_
    rw [hpush, List.append_assoc]
    exact (((lastFirst_perm rest).map key).cons (key e)).append_left _
  | case3 asked kept e rest hp ih =>
    rw [sift_kept hp]
    refine ih.trans ?_
    rw [hpush, List.append_assoc]
    rfl

example : sift (fun asked _ => asked.size == 0) Prod.mk #[] [] ['a', 'b', 'c'] =
    ⟨#[(0, 'a'), (0, 'c'), (1, 'b')], ['c', 'b'], ['a']⟩ := by cbv

end Sift

variable [Tenant τ]

def Sifted.moves (S : Sifted α (τ × ρ)) (C : Config) (store : StoreId) : List (EntityId × Location) :=
  S.gone.map (fun e => (Tenant.id e.1, .destroyed C)) ++
    S.kept.zipIdx.map fun e => (Tenant.id e.1.1, .housed store e.2)

theorem Sifted.moves_lose (S : Sifted α (τ × ρ)) (e : τ × ρ) (C : Config) (store : StoreId) :
    (S.lose e).moves C store = (Tenant.id e.1, .destroyed C) :: S.moves C store := rfl

theorem Sifted.map_fst_moves (S : Sifted α (τ × ρ)) (C : Config) (store : StoreId) :
    (S.moves C store).map Prod.fst = (S.gone ++ S.kept).map fun e => Tenant.id e.1 := by
  have hkept : S.kept.zipIdx.map (fun e => Tenant.id e.1.1) = S.kept.map fun e => Tenant.id e.1 := by
    have h := congrArg (List.map fun e : τ × ρ => Tenant.id e.1) (List.zipIdx_map_fst 0 S.kept)
    rwa [List.map_map] at h
  rw [moves, List.map_append, List.map_map, List.map_map, List.map_append]
  exact congrArg _ hkept

theorem Sifted.departed_moves (S : Sifted α (τ × ρ)) {store : StoreId} (h : store ≠ C.stores.invalid) :
    departed C (S.moves C store) = S.gone.map fun e => Tenant.id e.1 := by
  have hkept : departed C (S.kept.zipIdx.map fun e => (Tenant.id e.1.1, Location.housed store e.2)) = [] :=
    departed_eq_nil (List.forall_mem_map.2 fun _ _ => mt Location.isDestroyed_iff.1 h)
  rw [moves, departed_append, hkept, List.append_nil, ← departed_destroyed (C := C) (S.gone.map _), List.map_map]
  rfl

namespace Storage

theorem dispatched_lose {v w u : Ledger C} {store : StoreId} {ids : List EntityId} {i : Nat} {e : τ × ρ}
    {S : Sifted α (τ × ρ)} (hstore : store ≠ C.stores.invalid) (hn : ids.Nodup) (hi : ids[i]? = some (Tenant.id e.1))
    (hd : v.Dispatched (fillRelocations store ids i ++ [(Tenant.id e.1, .destroyed C)]) w)
    (hmoves : ((S.moves C store).map Prod.fst).Perm (swapPop ids i)) (hd' : w.Dispatched (S.moves C store) u) :
    v.Dispatched ((S.lose e).moves C store) u := by
  rw [Sifted.moves_lose]
  refine hd.overtake hd' (fun m hm => ⟨?_, ?_⟩) ?_
  · rw [(mem_fillRelocations hm).2]
    exact mt Location.isDestroyed_iff.1 hstore
  · obtain ⟨id, hlast, rfl⟩ := List.mem_map.1 hm
    exact hmoves.mem_iff.2 (List.mem_of_getElem? (Option.mem_toList.1 hlast))
  · rw [hmoves.mem_iff]
    exact not_mem_swapPop hn hi

variable {L : Type} [Layout L ρ] [LawfulLayout L ρ] {s : Storage τ L} {r : Registry C} {v : Ledger C}
  {view : Storage τ L → Nat → Checked (Option α)} {question : Nat → τ × ρ → α}

theorem Carries.sweepFrom_sifts (hview : Reads view fun i t x => some (question i (t, x))) (p : Predicate α)
    (asked : Array α) (kept rest : List (τ × ρ)) (erased : Nat) (hs : s.Carries (kept ++ rest)) (h : r.Represents v)
    (hp : s.InPlace r) (hstore : s.store ≠ C.stores.invalid) :
    ∃ r' w s', (sweepFrom view p rest.length kept.length ⟨(r, s), asked, erased⟩).outcome =
        .ok ⟨(r', s'), (sift p question asked kept rest).asked,
          erased + (sift p question asked kept rest).gone.length⟩ ∧
      s'.Carries (sift p question asked kept rest).kept ∧ s'.store = s.store ∧ s'.limit = s.limit ∧
      r'.Represents w ∧ v.Dispatched ((sift p question asked kept rest).moves C s.store) w := by
  -- along the sifting: the rows are those kept so far and then the rest, all of them in place
  induction asked, kept, rest using sift.induct p question generalizing s r v erased with
  | case1 asked kept =>
    rw [List.append_nil] at hs
    rw [sift]
    refine ⟨r, v, s, rfl, hs, rfl, rfl, h, Ledger.dispatched_self ?_⟩
    refine List.forall_mem_map.2 fun e he => ⟨hp.located h ?_, mt Location.isDestroyed_iff.1 hstore⟩
    exact hs.getElem?_ids (List.mem_zipIdx_iff_getElem?.1 he)
  | case2 asked kept e rest hyes ih =>
    have hi : (kept ++ e :: rest)[kept.length]? = some e := by simp
    obtain ⟨s₁, r₁, r₂, w₂, hr₁, hr₂, hs₁, hstore₁, hlimit₁, hp₁, hw₂, hd₂⟩ := hs.leave hi h hp hstore (.destroyed C)
    have hids₁ : s₁.ids = swapPop s.ids kept.length := by rw [hs₁.ids_eq, hs.ids_eq, map_swapPop]
    -- the last of the rest stands where the row was, to be asked about next
    rw [swapPop_append_cons] at hs₁
    obtain ⟨r', w, s', ho, hs', hstore', hlimit', hw, hd⟩ := ih (erased + 1) hs₁ hw₂ hp₁ (hstore₁ ▸ hstore)
    rw [hstore₁] at hstore' hd
    rw [hlimit₁] at hlimit'
    have hperm := sift_perm p question (asked.push (question kept.length e)) kept (lastFirst rest)
    rw [sift_gone hyes]
    generalize sift p question (asked.push (question kept.length e)) kept (lastFirst rest) = S at *
    have hmoves : ((S.moves C s.store).map Prod.fst).Perm (swapPop s.ids kept.length) := by
      rw [Sifted.map_fst_moves, ← hids₁, hs₁.ids_eq]
      exact hperm.map _
    have hlost := dispatched_lose hstore hp.nodup_ids (hs.getElem?_ids hi) hd₂ hmoves hd
    refine ⟨r', w, s', ?_, hs', hstore', hlimit', hw, hlost⟩
    rw [List.length_cons, sweepFrom, hview s _ _ e hs hi]
    simp only [if_pos hyes, Run.outcome_bind, hr₁, Checked.ok_bind, hr₂]
    rw [← (lastFirst_perm rest).length_eq, ho, Nat.add_assoc, Nat.add_comm 1]
    rfl
  | case3 asked kept e rest hno ih =>
    have hi : (kept ++ e :: rest)[kept.length]? = some e := by simp
    rw [sift_kept hno, List.length_cons, sweepFrom, hview s _ _ e hs hi]
    simp only [if_neg hno]
    rw [← List.singleton_append, ← List.append_assoc] at hs
    have hrest := ih erased hs h hp hstore
    rwa [List.length_append] at hrest

structure SweptTo (s : Storage τ L) (S : Sifted α (τ × ρ)) (ident : α → EntityId) (s' : Storage τ L) : Prop where
  asked : (S.asked.toList.map ident).Perm s.ids
  tenants : s'.tenants.toList = S.kept.map (·.1)
  rows : s'.listing = S.kept
  store : s'.store = s.store
  limit : s'.limit = s.limit

theorem Carries.sweep_sifts (hview : Reads view fun i t x => some (question i (t, x))) (p : Predicate α)
    {es : List (τ × ρ)} (hs : s.Carries es) (h : r.Represents v) (hp : s.InPlace r)
    (hstore : s.store ≠ C.stores.invalid) {ident : α → EntityId}
    (hident : ∀ n e, ident (question n e) = Tenant.id e.1) :
    let S := sift p question #[] [] s.listing
    ∃ r' s', (Swept.answer <$> s.sweep view p r).outcome = .ok ((S.asked, S.gone.length), r', s') ∧
      s.SweptTo S ident s' ∧ r.Dispatched (S.moves C s.store) r' := by
  rw [hs.listing_eq]
  intro S
  obtain ⟨r', w, s', ho, hs', hstore', hlimit, hw, hd⟩ := sweepFrom_sifts hview p #[] [] es 0 hs h hp hstore
  have hperm : (S.gone ++ S.kept).Perm es := sift_perm p question #[] [] es
  have hasked : (S.asked.toList.map ident).Perm s.ids := by
    rw [hs.ids_eq]
    exact asked_sift_perm hident #[] [] es
  refine ⟨r', s', ?_, ⟨hasked, ?_, hs'.listing_eq, hstore', hlimit⟩, h.dispatched hw hd fun m hm => ?_⟩
  · rw [Run.outcome_map, sweep, hs.size_eq]
    refine (congrArg _ ho).trans ?_
    rw [Nat.zero_add]
    rfl
  · rw [hs'.tenants]
  · have hid := List.mem_map_of_mem (f := Prod.fst) hm
    rw [Sifted.map_fst_moves, (hperm.map _).mem_iff, ← hs.ids_eq] at hid
    exact hp.lives h hid

end Storage

end

variable {C : Config} {κ α : Type} {El : κ → Type} {ks : List κ}

section Kinds

variable [DecidableEq κ] {F : κ → Type} {k : κ}

def Tuple.entryOf (row : Tuple F ks) (h : k ∈ ks) : F k := (row.entryOf? k).get (row.isSome_entryOf? h)

theorem Storage.reads_entryOf {L : Type} [ColumnLayout L El ks] [LawfulColumnLayout L El ks] {n : Nat} (h : k ∈ ks)
    (hn : positionOf? ks k = some n) :
    Reads (fun (s : ArchetypeStorage L) i => do
      let (c, slot) ← ColumnLayout.locate s.rows i
      match c.entry? n |>.bind (cast? k) with
      | none => return none
      | some a => return some (← Column.read a slot, ← Column.read s.tenants i))
      fun _ id row => some (row.entryOf h, id) := by
  intro s es i e hs hi
  have hentry : e.2.entryOf? k = some (e.2.entryOf h) := by rw [Tuple.entryOf, Option.some_get]
  rw [Tuple.entryOf?, hn, Option.bind_some] at hentry
  refine (Carries.reads_eraseByKind hn s es i e hs hi).trans ?_
  dsimp only
  rw [hentry, Option.map_some]

end Kinds

namespace ArchetypeCall

variable [DecidableEq κ]

inductive Sweeps : {α : Type} → ArchetypeCall C El ks (Array α × Nat) → Predicate α →
    (Nat → EntityId × Row El ks → α) → (α → EntityId) → Prop
  | eraseWhere (p : Predicate (RowView El ks)) : Sweeps (.eraseWhere p) p (fun i e => ⟨i, e.1, e.2⟩) RowView.id
  | eraseByKind {k : κ} (hk : k ∈ ks) (kindName : κ → String) (p : Predicate (El k × EntityId)) :
      Sweeps (.eraseByKind k kindName p) p (fun _ e => (e.2.entryOf hk, e.1)) Prod.snd
  | eraseByColumn (n : Fin ks.length) (p : Predicate (El (ks.get n) × EntityId)) :
      Sweeps (.eraseByColumn n p) p (fun _ e => (e.2.get n, e.1)) Prod.snd

inductive Blind : {α : Type} → ArchetypeCall C El ks (Array α × Nat) → Prop
  | eraseByKind {k : κ} (hk : k ∉ ks) (kindName : κ → String) (p : Predicate (El k × EntityId)) :
      Blind (.eraseByKind k kindName p)

variable {L : Type} [ColumnLayout L El ks] [LawfulColumnLayout L El ks] [Capacious L] {s : ArchetypeStorage L}
  {es : List (EntityId × Row El ks)} {r : Registry C} {v : Ledger C} {c : ArchetypeCall C El ks (Array α × Nat)}
  {p : Predicate α} {question : Nat → EntityId × Row El ks → α} {ident : α → EntityId}

theorem Sweeps.sifts (hc : c.Sweeps p question ident) (hs : s.Carries es) (h : r.Represents v) (hp : s.InPlace r)
    (hstore : s.store ≠ C.stores.invalid) :
    let S := sift p question #[] [] s.listing
    ∃ r' s', (c.run r s).outcome = .ok ((S.asked, S.gone.length), r', s') ∧ s.SweptTo S ident s' ∧
      r.Dispatched (S.moves C s.store) r' := by
  cases hc with
  | eraseWhere p =>
    refine hs.sweep_sifts ?_ p h hp hstore fun _ _ => rfl
    exact Storage.Carries.reads_eraseWhere
  | eraseByKind hk kindName p =>
    obtain ⟨n, hn⟩ := exists_positionOf? hk
    rw [run, Storage.eraseByKind, hn]
    refine hs.sweep_sifts ?_ p h hp hstore fun _ _ => rfl
    exact Storage.reads_entryOf hk hn
  | eraseByColumn n p =>
    refine hs.sweep_sifts ?_ p h hp hstore fun _ _ => rfl
    exact Storage.Carries.reads_eraseByColumn n

omit [LawfulColumnLayout L El ks] in
theorem Blind.outcome (hc : c.Blind) (r : Registry C) (s : ArchetypeStorage L) :
    (c.run r s).outcome = .ok ((#[], 0), r, s) := by
  cases hc with
  | eraseByKind hk =>
    rw [run, Storage.eraseByKind, positionOf?_eq_none hk]
    rfl

end ArchetypeCall

namespace StoreCall

variable [DecidableEq κ]

inductive Sweeps : {shape : Shape κ} → {α : Type} → StoreCall C El shape (Array α × Nat) → Predicate α →
    (Nat → shape.Tenant × shape.Item El → α) → (α → EntityId) → Prop
  | component {k : κ} (p : Predicate (El k × EntityId)) :
      Sweeps (.component (.eraseWhere p)) p (fun _ e => (e.2, Handle.id e.1)) Prod.snd
  | dense {ks : List κ} {α : Type} {c : ArchetypeCall C El ks (Array α × Nat)} {p : Predicate α}
      {question : Nat → EntityId × Row El ks → α} {ident : α → EntityId} :
      c.Sweeps p question ident → Sweeps (.dense c) p question ident
  | chunked {ks : List κ} {n : Nat} {α : Type} {c : ArchetypeCall C El ks (Array α × Nat)} {p : Predicate α}
      {question : Nat → EntityId × Row El ks → α} {ident : α → EntityId} :
      c.Sweeps p question ident →
        Sweeps (.chunked c : StoreCall C El (.chunked ks n) (Array α × Nat)) p question ident

inductive Blind : {shape : Shape κ} → {α : Type} → StoreCall C El shape (Array α × Nat) → Prop
  | dense {ks : List κ} {α : Type} {c : ArchetypeCall C El ks (Array α × Nat)} : c.Blind → Blind (.dense c)
  | chunked {ks : List κ} {n : Nat} {α : Type} {c : ArchetypeCall C El ks (Array α × Nat)} :
      c.Blind → Blind (.chunked c : StoreCall C El (.chunked ks n) (Array α × Nat))

variable [∀ k, Footprint (El k)] {shape : Shape κ} {s : Storage shape.Tenant (shape.Rows El)} {r : Registry C}
  {c : StoreCall C El shape (Array α × Nat)}

theorem Sweeps.sifts [shape.Proper El] {es : List (shape.Tenant × shape.Item El)} {v : Ledger C} {p : Predicate α}
    {question : Nat → shape.Tenant × shape.Item El → α} {ident : α → EntityId} (hc : c.Sweeps p question ident)
    (hs : s.Carries es) (h : r.Represents v) (hp : s.InPlace r) (hstore : s.store ≠ C.stores.invalid) :
    let S := sift p question #[] [] s.listing
    ∃ r' s', (c.run r s).outcome = .ok ((S.asked, S.gone.length), r', s') ∧ s.SweptTo S ident s' ∧
      r.Dispatched (S.moves C s.store) r' := by
  cases hc with
  | component p =>
    rw [run, ComponentCall.run, ComponentStorage.eraseWhere_eq hs]
    exact hs.sweep_sifts ComponentStorage.reads_question p h hp hstore fun _ _ => rfl
  | dense hc => exact hc.sifts hs h hp hstore
  | @chunked ks _ _ _ _ _ _ hc =>
    obtain ⟨k, ks, rfl, hfits⟩ := Shape.exists_cons ‹(Shape.chunked ks _).Proper El›
    exact hc.sifts hs h hp hstore

theorem Blind.outcome (hc : c.Blind) (r : Registry C) (s : Storage shape.Tenant (shape.Rows El)) :
    (c.run r s).outcome = .ok ((#[], 0), r, s) := by
  cases hc with
  | dense hc => exact hc.outcome r s
  | chunked hc => exact hc.outcome r s

end StoreCall

end EntityStore

namespace EntityStore.World

variable {C : Config} {ι κ : Type} {El : κ → Type} {shapes : ι → Shape κ} [DecidableEq ι] [DecidableEq κ]
  [∀ k, Footprint (El k)] {w₀ w : World C El shapes} {v : Ledger C} {i : ι}

structure Sifts (w : World C El shapes) (i : ι) : Prop where
  sweeps {α : Type} {c : StoreCall C El (shapes i) (Array α × Nat)} {p : Predicate α}
    {question : Nat → (shapes i).Tenant × (shapes i).Item El → α} {ident : α → EntityId} :
    c.Sweeps p question ident →
    let S := sift p question #[] [] (w.stores i).listing
    ∃ r s, ((WorldCall.store i c).run w).outcome = .ok ((S.asked, S.gone.length), w.put i r s) ∧
      (w.stores i).SweptTo S ident s ∧
      departed C (S.moves C (w.stores i).store) = S.gone.map (fun e => Tenant.id e.1) ∧
      w.registry.Dispatched (S.moves C (w.stores i).store) r
  blind {α : Type} {c : StoreCall C El (shapes i) (Array α × Nat)} :
    c.Blind → ((WorldCall.store i c).run w).outcome = .ok ((#[], 0), w)

variable [∀ i, (shapes i).Proper El]

theorem Steady.sifts (hw : w.Steady v) (hp : (w.stores i).InPlace w.registry) : w.Sifts i := by
  obtain ⟨es, hs⟩ := hw.carries i
  constructor
  case sweeps =>
    intro α c p question ident hc S
    obtain ⟨r, s, ho, hswept, hd⟩ := hc.sifts hs hw.represents hp (hw.store_ne i)
    exact ⟨r, s, outcome_store ho, hswept, S.departed_moves (hw.store_ne i), hd⟩
  case blind =>
    intro α c hc
    exact outcome_idle (hc.outcome _ _)

/-- Each row is asked about once, in the order in which rows come first; those who stay keep that order, and those who
go are destroyed in it. -/
theorem sweep_exact (h₀ : w₀.Fresh) (h : Leads (fun _ _ => True) w₀ w) (hp : (w.stores i).InPlace w.registry) :
    w.Sifts i := by
  obtain ⟨v, hw⟩ := h₀.leads_steady h
  exact hw.sifts hp

theorem sweep_exact_pair : (housedPair.stores false).ids = [0, 1] ∧ housedPair.Sifts false :=
  ⟨rfl, sweep_exact pair_fresh housedPair_leads (housedPair_inPlace.stores false)⟩

end EntityStore.World
