import EntityStore.Proofs.Registry.Journal

/-! What calls leave alone: the slots that a call does not name keep their faces, and those that it drops were dead,
unless it drops everything. -/

namespace EntityStore

variable {C : Config}

namespace Posting

variable {p : Posting C} {j : Nat}

def Touches (j : Nat) : Posting C → Prop
  | create id _ _ | place id _ | destroy id | amend id _ => id = j
  | _ => False

theorem alter_eq_self (h : ¬ p.Touches j) (a : Face C) : p.alter j a = a := by
  cases p with
  | create id | place id | destroy id | amend id => exact if_neg h
  | extend | truncate | limit => rfl

theorem foldl_alter_eq_self {ps : List (Posting C)} (h : ∀ p ∈ ps, ¬ p.Touches j) (a : Face C) :
    ps.foldl (alter j) a = a := by
  induction ps with
  | nil => rfl
  | cons p ps ih =>
    rw [List.forall_mem_cons] at h
    rw [List.foldl_cons, alter_eq_self h.1, ih h.2]

theorem touches_of_creates (h : p.Creates j) : p.Touches j := by
  cases p with
  | create id l m => exact h
  | _ => exact h.elim

theorem touches_relocate {id : EntityId} {l : Location} (h : (relocate (C := C) id l).Touches j) : id = j := by
  rw [relocate] at h
  split at h
  · exact h
  · exact h

end Posting

namespace RegistryCall

variable {α : Type} {r r' : Registry C} {v w : Ledger C} {j : Nat}

def Names (r : Registry C) (j : Nat) : RegistryCall C α → α → Prop
  | create _ _, some id => id = j
  | createHandle _ _, some h => h.id = j
  | setLocation k _, true | erase k, true | updateMetadata k _, true => k.entity = j
  | eraseWhere p, _ => ∃ q ∈ p.hits #[] r.entities, q.1 = j
  | clear, _ => r.isAlive j
  | _, _ => False

def Cuts : RegistryCall C α → Prop
  | setIdLimit _ | trim => True
  | _ => False

def Resets : RegistryCall C α → Prop
  | reset => True
  | _ => False

theorem names_of_touches (c : RegistryCall C α) (a : α) (hr : r.Represents v) (j : Nat) :
    ∀ p ∈ c.postings r a, p.Touches j → c.Names r j a := by
  cases c with
  | create l m | createHandle l m =>
    cases a with
    | none => exact List.forall_mem_nil _
    | some _ => exact List.forall_mem_singleton.2 id
  | setLocation k l =>
    cases a with
    | false => exact List.forall_mem_nil _
    | true => exact List.forall_mem_singleton.2 Posting.touches_relocate
  | erase k | updateMetadata k f =>
    cases a with
    | false => exact List.forall_mem_nil _
    | true => exact List.forall_mem_singleton.2 id
  | eraseWhere p => exact List.forall_mem_map.2 fun q hq hj => ⟨q, hq, hj⟩
  | clear =>
    refine List.forall_mem_map.2 ?_
    rintro e he rfl
    rw [hr.entities_eq] at he
    exact hr.isAlive_iff.2 (Ledger.lives_of_mem_entities he)
  | reserve n ahead =>
    cases ahead with
    | false => exact List.forall_mem_nil _
    | true => exact List.forall_mem_singleton.2 False.elim
  | setIdLimit n =>
    cases a with
    | false => exact List.forall_mem_nil _
    | true => exact List.forall_mem_cons.2 ⟨False.elim, List.forall_mem_singleton.2 False.elim⟩
  | trim | reset => exact List.forall_mem_singleton.2 False.elim
  | ask f => exact List.forall_mem_nil _

theorem retains_of_not_cuts (c : RegistryCall C α) (a : α) (hc : ¬ c.Cuts) (hr : ¬ c.Resets) (j : Nat) :
    ∀ p ∈ c.postings r a, p.Retains j := by
  cases c with
  | setIdLimit n | trim => exact absurd trivial hc
  | reset => exact absurd trivial hr
  | create l m | createHandle l m =>
    cases a with
    | none => exact List.forall_mem_nil _
    | some _ => exact List.forall_mem_singleton.2 trivial
  | setLocation k l =>
    cases a with
    | false => exact List.forall_mem_nil _
    | true => exact List.forall_mem_singleton.2 ((Posting.plain_relocate _ _).retains j)
  | erase k | updateMetadata k f =>
    cases a with
    | false => exact List.forall_mem_nil _
    | true => exact List.forall_mem_singleton.2 trivial
  | eraseWhere | clear => exact List.forall_mem_map.2 fun _ _ => trivial
  | reserve n ahead =>
    cases ahead with
    | false => exact List.forall_mem_nil _
    | true => exact List.forall_mem_singleton.2 trivial
  | ask f => exact List.forall_mem_nil _

structure Frames (c : RegistryCall C α) (r : Registry C) (a : α) (r' : Registry C) : Prop where
  kept (j : Nat) : j < r.records.size → j < r'.records.size → ¬ c.Names r j a →
    r'.records[j]?.map Record.face = r.records[j]?.map Record.face
  made (j : Nat) : r.records.size ≤ j → ¬ c.Names r j a → ¬ r'.isAlive j
  dropped (j : Nat) : j < r.records.size → r'.records.size ≤ j → (c.Cuts ∧ ¬ r.isAlive j) ∨ c.Resets

theorem lives_of_cuts (c : RegistryCall C α) {a : α} (hc : c.Cuts) (hr : r.Represents v) (hr' : r'.Represents w)
    (ho : (c.run r).outcome = .ok (a, r')) (hj : v.Lives j) : w.Lives j := by
  obtain ⟨u, hu, hk⟩ := (c.run_ends hr).ok ho
  have hspares : c.Spares r j := by
    cases c with
    | setIdLimit | trim => exact trivial
    | _ => exact hc.elim
  rw [← hr'.isAlive_iff, hu.isAlive_iff]
  exact (hk j hj hspares).lives hj

theorem run_frames (c : RegistryCall C α) {a : α} (hr : r.Represents v) (ho : (c.run r).outcome = .ok (a, r')) :
    c.Frames r a r' := by
  obtain ⟨w, hr', hp⟩ := (c.run_posts hr).ok ho
  refine ⟨fun j hj hj' hn => ?_, fun j hj hn => ?_, fun j hj hj' => ?_⟩
  · rw [hr'.size_eq] at hj'
    obtain ⟨e, he, hf⟩ := hr.exists_record (hr.size_eq ▸ hj)
    have hface := hp.getElem?_faces (hp.retains (c.postings_batch r a) hj') hf
    rw [Posting.foldl_alter_eq_self fun p hpm hpt => hn (c.names_of_touches a hr j p hpm hpt), ← hf] at hface
    rw [← hr.getElem?_face, ← hr'.getElem?_face, hface]
  · rw [hr.size_eq] at hj
    rw [hr'.isAlive_iff]
    apply hp.not_lives hr.valid
    · exact fun hl => absurd hl.lt (Nat.not_lt.2 hj)
    · exact fun p hpm hpc => hn (c.names_of_touches a hr j p hpm (Posting.touches_of_creates hpc))
  · rw [hr.size_eq] at hj
    rw [hr'.size_eq] at hj'
    by_cases hreset : c.Resets
    · exact .inr hreset
    · by_cases hcuts : c.Cuts
      · refine .inl ⟨hcuts, fun hl => ?_⟩
        have := (c.lives_of_cuts hcuts hr hr' ho (hr.isAlive_iff.1 hl)).lt
        omega
      · -- no other call drops slots
        have := hp.lt_length (c.retains_of_not_cuts a hcuts hreset j) hj
        omega

end RegistryCall

end EntityStore
