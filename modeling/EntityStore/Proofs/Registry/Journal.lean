import EntityStore.Proofs.Registry.Calls
import EntityStore.Proofs.Registry.Posting

/-! Calls of a registry as postings to its ledger. -/

namespace EntityStore

variable {C : Config}

namespace Posting

def Plain : Posting C → Prop
  | create .. | truncate _ => False
  | _ => True

def Cuts : Posting C → Prop
  | truncate _ | limit _ => True
  | _ => False

inductive Batch : List (Posting C) → Prop
  | plain {ps : List (Posting C)} : (∀ p ∈ ps, p.Plain) → Batch ps
  | cut {ps : List (Posting C)} : (∀ p ∈ ps, p.Cuts) → Batch ps
  | made (id : EntityId) (l : Location) (m : C.Metadata) : Batch [.create id l m]
  | housed (id : EntityId) (l l' : Location) (m : C.Metadata) : Batch [.create id l m, .place id l']

variable {p : Posting C} {id : Nat}

theorem Plain.retains (h : p.Plain) (id : Nat) : p.Retains id := by
  cases p with
  | truncate n => exact absurd h not_false
  | _ => exact trivial

theorem Plain.not_creates (h : p.Plain) (id : Nat) : ¬ p.Creates id := by
  cases p with
  | create j l m => exact absurd h not_false
  | _ => exact not_false

theorem Cuts.not_creates (h : p.Cuts) (id : Nat) : ¬ p.Creates id := by
  cases p with
  | create j l m => exact absurd h not_false
  | _ => exact not_false

theorem plain_relocate (id : EntityId) (l : Location) : (relocate (C := C) id l).Plain := by
  rw [relocate]
  split
  · exact trivial
  · exact trivial

theorem Batch.nil : Batch ([] : List (Posting C)) := .plain (List.forall_mem_nil _)

theorem Batch.single (h : p.Plain) : Batch [p] := .plain (List.forall_mem_singleton.2 h)

theorem Batch.not_creates_or_not_destroys {ps : List (Posting C)} (h : Batch ps) (id : Nat) :
    (∀ p ∈ ps, ¬ p.Creates id) ∨ ∀ p ∈ ps, ¬ p.destroys id := by
  cases h with
  | plain hps => exact .inl fun p hp => (hps p hp).not_creates id
  | cut hps => exact .inl fun p hp => (hps p hp).not_creates id
  | made _ _ _ | housed _ _ _ _ => simp [destroys]

end Posting

namespace Ledger

variable {v w : Ledger C} {p : Posting C} {ps : List (Posting C)} {id : Nat}

theorem Posts.lt_length_of_cuts (h : v.Posts p w) (hp : p.Cuts) (hid : id < w.faces.length) :
    p.Retains id ∧ id < v.faces.length := by
  cases h with
  | truncate n =>
    rw [length_truncate] at hid
    exact Nat.lt_min.1 hid
  | limit _ _ => exact ⟨trivial, hid⟩
  | _ => exact absurd hp not_false

namespace Posted

theorem retains_of_cuts (h : v.Posted ps w) (hps : ∀ p ∈ ps, p.Cuts) (hid : id < w.faces.length) :
    ∀ p ∈ ps, p.Retains id := by
  induction h with
  | nil => exact List.forall_mem_nil _
  | snoc _ hp ih =>
    rw [List.forall_mem_append, List.forall_mem_singleton] at hps ⊢
    obtain ⟨hr, hid⟩ := hp.lt_length_of_cuts hps.2 hid
    exact ⟨ih hps.1 hid, hr⟩

theorem retains (h : v.Posted ps w) (hb : Posting.Batch ps) (hid : id < w.faces.length) : ∀ p ∈ ps, p.Retains id := by
  cases hb with
  | plain hps => exact fun p hp => (hps p hp).retains id
  | cut hps => exact h.retains_of_cuts hps hid
  | made _ _ _ | housed _ _ _ _ => simp [Posting.Retains]

theorem lives_of_batch (h : v.Posted ps w) (hv : v.Valid) (hb : Posting.Batch ps) (hid : id < w.faces.length)
    (hc : ∃ p ∈ ps, p.Creates id) : w.Lives id := by
  apply h.lives_of_creates hv (h.retains hb hid) hc
  obtain ⟨p, hp, hpc⟩ := hc
  exact (hb.not_creates_or_not_destroys id).resolve_left fun hn => hn p hp hpc

theorem batch_cases (h : v.Posted ps w) (hv : v.Valid) (hb : Posting.Batch ps) (hid : id < w.faces.length) :
    (v.Lives id ∧ ¬ w.Lives id ∧ ps.countP (·.destroys id) = 1) ∨
      ((v.Lives id → w.Lives id) ∧ ps.countP (·.destroys id) = 0) := by
  by_cases hc : ∃ p ∈ ps, p.Creates id
  · have hd := (hb.not_creates_or_not_destroys id).resolve_left fun hn => hc.elim fun p hp => hn p hp.1 hp.2
    exact .inr ⟨fun _ => h.lives_of_batch hv hb hid hc, List.countP_eq_zero.2 hd⟩
  · rcases h.destroys_cases hv (h.retains hb hid) fun p hp hpc => hc ⟨p, hp, hpc⟩ with ⟨hl, hcount⟩ | hdies
    · exact .inr ⟨hl.2, hcount⟩
    · exact .inl hdies

end Posted

variable {ids : List EntityId}

theorem create_cases (v : Ledger C) (l : Location) (m : C.Metadata) :
    v.create l m = (none, v) ∨
      ∃ (id : EntityId) (u : Ledger C), v.create l m = (some id, u.occupy id l m) ∧ v.pick = some (id, u) ∧
        ¬ l.isDestroyed C := by
  rw [create]
  split
  · exact .inl rfl
  · rename_i hl
    cases hp : v.pick with
    | none => exact .inl rfl
    | some p => exact .inr ⟨p.1, p.2, rfl, rfl, hl⟩

theorem setIdLimit_cases (v : Ledger C) (n : Nat) :
    v.setIdLimit n = (false, v) ∨ ∃ w, v.setIdLimit n = (true, w) ∧
      v.Posted [.truncate (min n C.ids.invalid), .limit (min n C.ids.invalid)] w := by
  rw [setIdLimit]
  dsimp only
  split
  · exact .inl rfl
  · refine .inr ⟨_, rfl, .cons (.truncate _) (.single (.limit ?_ (Nat.min_le_right _ _)))⟩
    rw [length_truncate]
    exact Nat.min_le_left _ _

theorem posted_destroyAll (hn : ids.Nodup) (hl : ∀ id : Nat, id ∈ ids → v.Lives id) :
    v.Posted (ids.map .destroy) (v.destroyAll ids) := by
  induction ids generalizing v with
  | nil => exact .nil
  | cons id ids ih =>
    obtain ⟨hid, hn⟩ := List.nodup_cons.1 hn
    refine .cons (.destroy (hl id List.mem_cons_self)) (ih hn fun j hj => ?_)
    exact lives_destroy.2 ⟨hl j (List.mem_cons_of_mem _ hj), ne_of_mem_of_not_mem hj hid⟩

theorem truncate_zero (v : Ledger C) : v.truncate 0 = v.reset := by
  have hq : v.queue.filter (fun id => decide (id < 0)) = [] := by simp
  rw [truncate, hq, List.take_zero, Nat.min_zero]
  rfl

theorem lives_of_mem_entities {e : EntityId × Record C} (h : e ∈ v.entities) : v.Lives e.1 := by
  obtain ⟨f, hf, he⟩ := Option.bind_eq_some_iff.1 (mem_entitiesFrom h).2
  obtain ⟨l, hl, _⟩ := Option.map_eq_some_iff.1 he
  exact lives_iff.2 ⟨l, by rw [location?, hf, Option.bind_some, hl]⟩

theorem nodup_entities (v : Ledger C) : (v.entities.map (·.1)).Nodup := by
  rw [List.Nodup, List.pairwise_map]
  exact (pairwise_entitiesFrom v _ _).imp fun h => Nat.ne_of_lt h

theorem posted_destroyAll_of_sublist {es : List (EntityId × Record C)} (h : es.Sublist v.entities) :
    v.Posted (es.map fun e => .destroy e.1) (v.destroyAll (es.map (·.1))) := by
  have hposted := posted_destroyAll (v := v) ((h.map (·.1)).nodup (nodup_entities v)) fun id hid => by
    obtain ⟨e, he, rfl⟩ := List.mem_map.1 hid
    exact lives_of_mem_entities (h.subset he)
  rwa [List.map_map] at hposted

end Ledger

namespace Registry

def After (r : Registry C) (v : Ledger C) (ps : List (Posting C)) : Prop := ∃ w, r.Represents w ∧ v.Posted ps w

variable {r r' : Registry C} {v : Ledger C} {ps qs : List (Posting C)} {id : Nat} {l : Location}

theorem Represents.after (h : r.Represents v) : r.After v [] := ⟨v, h, .nil⟩

theorem Represents.createHandle_posts (h : r.Represents v) (l : Location) (m : C.Metadata) :
    (r.createHandle l m).Ends (fun a => a.2.After v (a.1.elim [] fun hd => [.create hd.id l m]) ∧
      ∀ hd, a.1 = some hd → a.2.handle? hd.id = some hd ∧ a.2.locationOf? hd.id = some l ∧ ¬ l.isDestroyed C)
      fun _ => True := by
  obtain ⟨r', hr, hw⟩ := h.createHandle l m
  refine Run.ends_of_ok hr ?_
  rcases v.create_cases l m with hc | ⟨id, u, hc, hp, hl⟩
  · rw [hc] at hw ⊢
    exact ⟨hw.after, fun hd hhd => nomatch hhd⟩
  · have hloc : (v.create l m).2.location? id = some l := Ledger.location?_create h.valid (by rw [hc])
    rw [hc] at hw hloc ⊢
    obtain ⟨hd, hh⟩ := exists_handle? ((hw.locationOf?_eq id).trans hloc)
    obtain rfl := id_of_handle? hh
    rw [Option.bind_some, hh]
    refine ⟨⟨_, hw, .single (.create m hp hl)⟩, ?_⟩
    rintro _ ⟨⟩
    exact ⟨hh, (hw.locationOf?_eq _).trans hloc, hl⟩

theorem Represents.reserve_posts (h : r.Represents v) (n : Nat) (ahead : Bool) :
    (r.reserve n ahead).Ends (·.After v
      (if ahead then [.extend r.records.size (min n r.idLimit - r.records.size)] else [])) (· = .capacityOverflow) := by
  rcases h.reserve n ahead with ⟨r', hr, hw⟩ | he
  · rw [hr]
    cases ahead with
    | false => exact ⟨v, hw, .nil⟩
    | true =>
      have := h.valid.length_le
      simp only [h.size_eq, h.idLimit]
      exact ⟨_, hw, .single (.extend (by omega))⟩
  · rw [he]
    exact rfl

theorem Represents.handle?_of_after (h : r.Represents v) (hl : ¬ l.isDestroyed C) {hd : Handle}
    (hh : r.handle? id = some hd) (h' : r'.After v [.relocate id l]) : r'.handle? id = some hd := by
  obtain ⟨w, hw, hp⟩ := h'
  rw [Posting.relocate, if_neg hl] at hp
  rw [h.handle?_eq] at hh
  obtain ⟨l₀, hl₀, hg⟩ := Option.bind_eq_some_iff.1 hh
  obtain ⟨a, ha, -⟩ := Option.bind_eq_some_iff.1 hl₀
  have hface := hp.getElem?_faces (by simp [Posting.Retains]) ha
  simp only [List.foldl_cons, List.foldl_nil, Posting.alter, if_true] at hface
  rw [Ledger.generation?, ha] at hg
  rw [hw.handle?_eq, Ledger.location?, Ledger.generation?, hface]
  exact hg

end Registry

namespace RegistryCall

variable {α : Type}

def postings (r : Registry C) : RegistryCall C α → α → List (Posting C)
  | create l m, some id => [.create id l m]
  | createHandle l m, some h => [.create h.id l m]
  | setLocation k l, true => [.relocate k.entity l]
  | erase k, true => [.destroy k.entity]
  | eraseWhere p, _ => (p.hits #[] r.entities).map fun e => .destroy e.1
  | updateMetadata k f, true => [.amend k.entity f]
  | reserve n true, _ => [.extend r.records.size (min n r.idLimit - r.records.size)]
  | setIdLimit n, true => [.truncate (min n C.ids.invalid), .limit (min n C.ids.invalid)]
  | trim, _ => [.truncate r.liveBound]
  | clear, _ => r.entities.map fun e => .destroy e.1
  | reset, _ => [.truncate 0]
  | _, _ => []

theorem postings_batch (c : RegistryCall C α) (r : Registry C) (a : α) : Posting.Batch (c.postings r a) := by
  cases c with
  | create l m =>
    cases a with
    | none => exact .nil
    | some id => exact .made id l m
  | createHandle l m =>
    cases a with
    | none => exact .nil
    | some h => exact .made h.id l m
  | setLocation k l =>
    cases a with
    | false => exact .nil
    | true => exact .single (Posting.plain_relocate _ _)
  | erase k =>
    cases a with
    | false => exact .nil
    | true => exact .single trivial
  | updateMetadata k f =>
    cases a with
    | false => exact .nil
    | true => exact .single trivial
  | reserve n ahead =>
    cases ahead with
    | false => exact .nil
    | true => exact .single trivial
  | setIdLimit n =>
    cases a with
    | false => exact .nil
    | true => exact .cut (List.forall_mem_cons.2 ⟨trivial, List.forall_mem_singleton.2 trivial⟩)
  | eraseWhere | clear => exact .plain (List.forall_mem_map.2 fun _ _ => trivial)
  | trim | reset => exact .cut (List.forall_mem_singleton.2 trivial)
  | ask f => exact .nil

theorem run_posts (c : RegistryCall C α) {r : Registry C} {v : Ledger C} (h : r.Represents v) :
    (c.run r).Ends (fun a => a.2.After v (c.postings r a.1)) fun _ => True := by
  cases c with
  | create l m =>
    obtain ⟨r', hr, hw⟩ := h.create l m
    refine Run.ends_of_ok hr ⟨_, hw, ?_⟩
    rcases v.create_cases l m with hc | ⟨id, u, hc, hp, hl⟩
    · rw [hc]
      exact .nil
    · rw [hc]
      exact .single (.create m hp hl)
  | createHandle l m =>
    refine (h.createHandle_posts l m).imp ?_ fun _ _ => trivial
    rintro ⟨hd, r'⟩ ⟨hr, -⟩
    cases hd with
    | none => exact hr
    | some hd => exact hr
  | setLocation k l =>
    obtain ⟨r', hr, hw⟩ := h.setLocation k l
    refine Run.ends_of_ok hr ⟨_, hw, ?_⟩
    cases hk : r.resolve? k with
    | none => exact .nil
    | some id =>
      obtain rfl := Registry.entity_of_resolve? hk
      exact .single (Ledger.posts_relocate (h.lives_of_resolve? hk) l)
  | erase k =>
    obtain ⟨r', hr, hw⟩ := h.erase k
    refine Run.ends_of_ok hr ⟨_, hw, ?_⟩
    cases hk : r.resolve? k with
    | none => exact .nil
    | some id =>
      obtain rfl := Registry.entity_of_resolve? hk
      exact .single (.destroy (h.lives_of_resolve? hk))
  | eraseWhere p =>
    obtain ⟨r', hr, hw⟩ := h.eraseWhere p
    have ho : ((eraseWhere p).run r).outcome = .ok ((r.entities.toArray, (p.hits #[] r.entities).length), r') := by
      simp [run, hr, Swept.answer]
    refine Run.ends_of_ok ho ⟨_, hw, Ledger.posted_destroyAll_of_sublist ?_⟩
    rw [← h.entities_eq]
    exact p.hits_sublist #[] r.entities
  | updateMetadata k f =>
    cases hu : r.updateMetadata? k f with
    | none => exact Run.ends_of_ok (a := (false, r)) (by simp [run, hu]) ⟨v, h, .nil⟩
    | some r' =>
      obtain ⟨id, hk, hw⟩ := h.updateMetadata? hu
      refine Run.ends_of_ok (a := (true, r')) (by simp [run, hu]) ⟨_, hw, ?_⟩
      obtain rfl := Registry.entity_of_resolve? hk
      exact .single (.amend f (h.lives_of_resolve? hk))
  | reserve n ahead =>
    have hrun := h.reserve_posts n ahead
    rw [run]
    refine Run.Ends.map (Run.Ends.imp (x := Run.ofChecked _) hrun ?_ fun _ _ => trivial)
    intro r' hr'
    cases ahead with
    | false => exact hr'
    | true => exact hr'
  | setIdLimit n =>
    obtain ⟨r', hr, hw⟩ := h.setIdLimit n
    refine Run.ends_of_ok hr ⟨_, hw, ?_⟩
    rcases v.setIdLimit_cases n with hs | ⟨w, hs, hp⟩
    · rw [hs]
      exact .nil
    · rw [hs]
      exact hp
  | trim =>
    obtain ⟨r', hr, hw⟩ := h.trim
    have ho : (trim.run r).outcome = .ok ((), r') := by simp [run, hr]
    refine Run.ends_of_ok ho ⟨_, hw, ?_⟩
    rw [postings, h.liveBound_eq]
    exact .single (.truncate _)
  | clear =>
    obtain ⟨r', hr, hw⟩ := h.clear
    have ho : (clear.run r).outcome = .ok ((), r') := by simp [run, hr]
    refine Run.ends_of_ok ho ⟨_, hw, ?_⟩
    rw [postings, h.entities_eq]
    exact Ledger.posted_destroyAll_of_sublist (List.Sublist.refl _)
  | reset => exact Run.ends_pure ⟨_, h.reset, v.truncate_zero ▸ .single (.truncate 0)⟩
  | ask f => exact Run.ends_pure ⟨v, h, .nil⟩

end RegistryCall

end EntityStore
