import EntityStore.Proofs.Registry.Frame
import EntityStore.Proofs.World.Journal

/-! Living entities: each has the location and the metadata that were last written for it since it was created,
whoever had its slot before. -/

namespace EntityStore

variable {C : Config}

namespace Posting

variable {id : Nat}

def placed? (id : Nat) : Posting C → Option Location
  | place j l => if j = id then some l else none
  | _ => none

def amended (id : Nat) (m : C.Metadata) : Posting C → C.Metadata
  | amend j f => if j = id then f m else m
  | _ => m

def located (id : Nat) (l : Location) (later : List (Posting C)) : Location := (later.filterMap (placed? id)).getLastD l

def described (id : Nat) (m : C.Metadata) (later : List (Posting C)) : C.Metadata := later.foldl (amended id) m

theorem located_concat (id : Nat) (l : Location) (later : List (Posting C)) (p : Posting C) :
    located id l (later ++ [p]) = (p.placed? id).getD (located id l later) := by
  rw [located, List.filterMap_append, located]
  cases h : p.placed? id with
  | none => simp [h]
  | some l' => simp [h, List.getLastD_eq_getLast?]

theorem described_concat (id : Nat) (m : C.Metadata) (later : List (Posting C)) (p : Posting C) :
    described id m (later ++ [p]) = p.amended id (described id m later) := by
  rw [described, List.foldl_append]
  rfl

theorem alter_living {p : Posting C} (hc : ¬ p.Creates id) (hd : ¬ p.destroys id) {a : Face C} {l : Location}
    (hl : a.location? = some l) :
    (p.alter id a).location? = some ((p.placed? id).getD l) ∧ (p.alter id a).metadata = p.amended id a.metadata := by
  cases p with
  | create j l m =>
    have hj : ¬ j = id := hc
    rw [alter, if_neg hj]
    exact ⟨hl, rfl⟩
  | destroy j =>
    have hj : ¬ j = id := fun hj => hd (beq_iff_eq.2 hj)
    rw [alter, if_neg hj]
    exact ⟨hl, rfl⟩
  | place j l => by_cases hj : j = id <;> simp [alter, placed?, amended, hj, hl]
  | amend j f => by_cases hj : j = id <;> simp [alter, placed?, amended, hj, hl]
  | extend | truncate | limit => exact ⟨hl, rfl⟩

end Posting

namespace Ledger

variable {v w : Ledger C} {ps : List (Posting C)} {id : Nat}

/-- The entity that was created with the given location and metadata, before the later postings, has what was last
written for it. -/
structure Since (w : Ledger C) (id : Nat) (l : Location) (m : C.Metadata) (later : List (Posting C)) : Prop where
  last : ∀ p ∈ later, ¬ p.Creates id ∧ ¬ p.destroys id
  face : ∃ a, w.faces[id]? = some a ∧ a.location? = some (Posting.located id l later) ∧
    a.metadata = Posting.described id m later

theorem Posted.exists_since (h : v.Posted ps w) (hv : v.Valid) (hn : ¬ v.Lives id) (hid : w.Lives id) :
    ∃ earlier l m later, ps = earlier ++ .create id l m :: later ∧ w.Since id l m later := by
  induction h with
  | nil => exact absurd hid hn
  | @snoc ps w u p hw hp ih =>
    have hface : ∀ a, w.faces[id]? = some a → u.faces[id]? = some (p.alter id a) := by
      intro a ha
      rw [hp.getElem?_faces hid.lt, ha, Option.getD_some]
    -- the last posting takes the slot, or it finds the entity alive and leaves it so
    by_cases hc : p.Creates id
    · cases p with
      | create j l m =>
        obtain rfl : j = id := hc
        refine ⟨ps, l, m, [], rfl, List.forall_mem_nil _, _, hp.getElem?_faces hid.lt, ?_⟩
        rw [Posting.alter, if_pos rfl]
        exact ⟨rfl, rfl⟩
      | _ => exact hc.elim
    · obtain ⟨hl, -, hd⟩ := ((hp.lives_iff (hw.valid hv)).1 hid).resolve_left hc
      obtain ⟨earlier, l, m, later, rfl, hlast, a, ha, hal, ham⟩ := ih hl
      obtain ⟨hl', hm'⟩ := Posting.alter_living hc hd hal
      refine ⟨earlier, l, m, later ++ [p], by simp, ?_, _, hface a ha, ?_, ?_⟩
      · rw [List.forall_mem_append, List.forall_mem_singleton]
        exact ⟨hlast, hc, hd⟩
      · rw [hl', Posting.located_concat]
      · rw [hm', ham, Posting.described_concat]

end Ledger

namespace World

variable {ι κ : Type} {El : κ → Type} [∀ k, Footprint (El k)] {shapes : ι → Shape κ} [∀ i, (shapes i).Proper El]
  [DecidableEq ι] [DecidableEq κ] {w₀ w : World C El shapes} {ps : List (Posting C)}

/-- Whatever was posted on the way, a living entity has the location and the metadata that were last written for it
since its slot was last taken, and a further call of the registry changes no other slots than those it names. -/
theorem entities_keep (h₀ : w₀.Fresh) (h : History w₀ ps w) :
    (∀ (k : Key) (id : Nat), w.registry.resolve? k = some id →
      ∃ earlier l m later, ps = earlier ++ .create id l m :: later ∧
        (∀ p ∈ later, ¬ p.Creates id ∧ ¬ p.destroys id) ∧
        w.registry.location? k = some (Posting.located id l later) ∧
        w.registry.metadata? k = some (Posting.described id m later)) ∧
    ∀ {α : Type} (c : RegistryCall C α) (a : α) (r : Registry C), (c.run w.registry).outcome = .ok (a, r) →
      c.Frames w.registry a r := by
  obtain ⟨v₀, hw₀, hnone⟩ := h₀.steady
  obtain ⟨v, hw, hps⟩ := h.steady hw₀
  refine ⟨fun k id hk => ?_, fun c a r ho => c.run_frames hw.represents ho⟩
  have hid := hw.represents.lives_of_resolve? hk
  obtain ⟨earlier, l, m, later, hsplit, hlast, a, ha, hl, hm⟩ := hps.exists_since hw₀.represents.valid (hnone id) hid
  refine ⟨earlier, l, m, later, hsplit, hlast, ?_, ?_⟩
  · rw [Registry.location?, hk, Option.bind_some, hw.represents.locationOf?_eq, Ledger.location?, ha, Option.bind_some,
      hl]
  · rw [Registry.metadata?, hk, Option.bind_some]
    rw [hw.represents.getElem?_face] at ha
    obtain ⟨e, he, rfl⟩ := Option.map_eq_some_iff.1 ha
    rw [he, Option.map_some]
    exact congrArg some hm

theorem entities_keep_pair : ∃ ps w, History pair ps w ∧ w.registry.location? (.id 0) = some (.housed 1 0) ∧
    ∃ earlier l m later, ps = earlier ++ .create 0 l m :: later ∧ Posting.located 0 l later = .housed 1 0 := by
  let spawn : WorldCall Config.standard Kind.Value pairShapes (Option Handle) :=
    .store false (.component (.shared (.spawn () true)))
  have created : History pair _ _ := .step (.registry (.create (.pending 2) ())) .refl rfl
  have erased : History pair _ _ := .step (.registry (.erase (.id 0))) created rfl
  have h : History pair _ _ := .step spawn erased rfl
  obtain ⟨earlier, l, m, later, hps, -, hlater, -⟩ := (entities_keep pair_fresh h).1 (.id 0) 0 rfl
  exact ⟨_, _, h, rfl, earlier, l, m, later, hps, Option.some.inj hlater.symm⟩

end World

end EntityStore
