import EntityStore.Proofs.Registry.Ledger
import Mathlib.Data.List.Nodup
import Mathlib.Data.List.TakeWhile

/-! Operations keep ledgers valid. -/

namespace EntityStore.Ledger

variable {C : Config}

theorem valid_empty : (empty C).Valid where
  nodup := List.nodup_nil
  mem_queue id := by simp [empty, Dead]
  length_le := Nat.zero_le _
  limit_le := Nat.le_refl _
  lt_highWater id h := absurd h.lt (Nat.not_lt_zero id)
  highWater_le := Nat.le_refl _

structure Picked (v : Ledger C) (id : Nat) (w : Ledger C) : Prop where
  nodup : w.queue.Nodup
  mem_queue : ∀ j : Nat, j ∈ w.queue ↔ w.Dead j ∧ j ≠ id
  dead : w.Dead id
  location?_eq : ∀ j : Nat, w.location? j = v.location? j
  generation?_eq : ∀ j : Nat, v.Lives j → w.generation? j = v.generation? j
  le_length : v.faces.length ≤ w.faces.length
  length_le : w.faces.length ≤ w.idLimit
  idLimit_eq : w.idLimit = v.idLimit
  highWater_eq : w.highWater = v.highWater

theorem location?_push (v : Ledger C) (q : List EntityId) (j : Nat) :
    location? { v with faces := v.faces ++ [.vacant], queue := q } j = v.location? j := by
  simp only [location?, List.getElem?_append]
  by_cases hj : j < v.faces.length
  · simp [hj]
  · by_cases hk : j - v.faces.length = 0
    · simp [hj, hk, Face.vacant]
    · simp [hj, hk]

theorem Valid.picked_cons {v : Ledger C} {id : EntityId} {queue : List EntityId} (hv : v.Valid)
    (hq : v.queue = id :: queue) : Picked v id { v with queue := queue } := by
  have hn := List.nodup_cons.1 (hq ▸ hv.nodup)
  have hm := fun j => (hq ▸ hv.mem_queue j : j ∈ id :: queue ↔ v.Dead j)
  refine ⟨hn.2, ?_, (hm id).1 List.mem_cons_self, fun _ => rfl, fun _ _ => rfl, Nat.le_refl _, hv.length_le, rfl, rfl⟩
  intro j
  have hj := hm j
  rw [List.mem_cons] at hj
  change j ∈ queue ↔ v.Dead j ∧ j ≠ id
  constructor
  · intro hjq
    exact ⟨hj.1 (.inr hjq), fun he => hn.1 (he ▸ hjq)⟩
  · rintro ⟨hd, hne⟩
    exact (hj.2 hd).resolve_left hne

theorem Valid.picked_nil {v : Ledger C} (hv : v.Valid) (hq : v.queue = []) (hlt : v.faces.length < v.idLimit) :
    Picked v v.faces.length { v with faces := v.faces ++ [.vacant], queue := [] } := by
  have hloc := location?_push v []
  have hlen : (v.faces ++ [Face.vacant]).length = v.faces.length + 1 := by simp
  have hout : v.location? v.faces.length = none := by simp [location?]
  have hm := fun j => (hq ▸ hv.mem_queue j : j ∈ [] ↔ v.Dead j)
  refine ⟨List.nodup_nil, ?_, ⟨by simp, (hloc _).trans hout⟩, hloc, ?_, by simp, ?_, rfl, rfl⟩
  · intro j
    refine (hm j).trans ?_
    constructor
    · rintro ⟨hj, hn⟩
      exact ⟨⟨by rw [hlen]; omega, (hloc j).trans hn⟩, by omega⟩
    · rintro ⟨⟨hj, hn⟩, hne⟩
      rw [hlen] at hj
      exact ⟨by omega, (hloc j).symm.trans hn⟩
  · intro j hj
    simp [generation?, List.getElem?_append_left hj.lt]
  · change (v.faces ++ [Face.vacant]).length ≤ v.idLimit
    omega

theorem Valid.picked {v w : Ledger C} {id : Nat} (hv : v.Valid) (h : v.pick = some (id, w)) : Picked v id w := by
  rw [pick] at h
  cases hq : v.queue with
  | cons head queue =>
    rw [hq] at h
    cases h
    exact hv.picked_cons hq
  | nil =>
    rw [hq] at h
    dsimp only at h
    split at h
    · rename_i hlt
      cases h
      exact hq ▸ hv.picked_nil hq hlt
    · cases h

theorem Valid.occupy {v w : Ledger C} {id : Nat} (hv : v.Valid) (h : Picked v id w) (l : Location)
    (m : C.Metadata) : (w.occupy id l m).Valid where
  nodup := h.nodup
  mem_queue j := (h.mem_queue j).trans (dead_occupy h.dead.1).symm
  length_le := by
    rw [length_occupy]
    exact h.length_le
  limit_le := by
    change w.idLimit ≤ _
    rw [h.idLimit_eq]
    exact hv.limit_le
  lt_highWater j hj := by
    change j < max w.highWater (id + 1)
    rw [h.highWater_eq]
    rcases (lives_occupy h.dead.1).1 hj with hj | rfl
    · have := hv.lt_highWater j (by rw [Lives, ← h.location?_eq]; exact hj)
      omega
    · omega
  highWater_le := by
    have hd := h.dead.1
    have hl := h.le_length
    have hw := hv.highWater_le
    rw [length_occupy]
    change max w.highWater (id + 1) ≤ _
    rw [h.highWater_eq]
    omega

theorem location?_create {v : Ledger C} (hv : v.Valid) {l : Location} {m : C.Metadata} {id : Nat}
    (h : (v.create l m).1 = some id) : (v.create l m).2.location? id = some l := by
  rw [Ledger.create] at *
  split
  · rename_i hd
    rw [if_pos hd] at h
    cases h
  · rename_i hd
    rw [if_neg hd] at h
    split at h
    · cases h
    · rename_i id' w hp
      cases h
      exact (location?_occupy w (hv.picked hp).dead.1 l m id).trans (if_pos rfl)

theorem Valid.destroy {v : Ledger C} {id : Nat} (hv : v.Valid) (h : v.Lives id) : (v.destroy id).Valid where
  nodup := by
    change (v.queue ++ [id]).Nodup
    have hid : id ∉ v.queue := fun hm => ((hv.mem_queue id).1 hm).not_lives h
    exact List.concat_eq_append ▸ hv.nodup.concat hid
  mem_queue j := by
    rw [dead_destroy h.lt, ← hv.mem_queue j]
    exact List.mem_append.trans (or_congr_right List.mem_singleton)
  length_le := by
    rw [length_destroy]
    exact hv.length_le
  limit_le := hv.limit_le
  lt_highWater j hj := hv.lt_highWater j (lives_destroy.1 hj).1
  highWater_le := by
    rw [length_destroy]
    exact hv.highWater_le

theorem Valid.modify {v : Ledger C} {id : Nat} {f : Face C → Face C} (hv : v.Valid)
    (hf : ∀ a, v.faces[id]? = some a → ((f a).location? = none ↔ a.location? = none)) :
    (v.modify id f).Valid := by
  have hn : ∀ j, (v.modify id f).location? j = none ↔ v.location? j = none := by
    intro j
    rw [location?_modify]
    split
    · rename_i he
      subst he
      rw [location?]
      cases ha : v.faces[id]? with
      | none => simp
      | some a => exact hf a ha
    · rfl
  refine ⟨hv.nodup, ?_, ?_, hv.limit_le, ?_, ?_⟩
  · intro j
    refine (hv.mem_queue j).trans ?_
    rw [Dead, Dead, length_modify, hn]
  · rw [length_modify]
    exact hv.length_le
  · intro j hj
    exact hv.lt_highWater j fun he => hj ((hn j).2 he)
  · rw [length_modify]
    exact hv.highWater_le

theorem location?_prefill (v : Ledger C) (n j : Nat) : (v.prefill n).location? j = v.location? j := by
  simp only [prefill, location?, List.getElem?_append, List.getElem?_replicate]
  by_cases hj : j < v.faces.length
  · simp [hj]
  · by_cases hk : j - v.faces.length < n
    · simp [hj, hk, Face.vacant]
    · simp [hj, hk]

@[simp] theorem length_prefill (v : Ledger C) (n : Nat) : (v.prefill n).faces.length = v.faces.length + n := by
  simp [prefill]

theorem Valid.prefill {v : Ledger C} {n : Nat} (hv : v.Valid) (hn : v.faces.length + n ≤ v.idLimit) :
    (v.prefill n).Valid where
  nodup := by
    change (v.queue ++ List.range' v.faces.length n).Nodup
    rw [List.nodup_append]
    refine ⟨hv.nodup, List.nodup_range', ?_⟩
    intro a ha b hb he
    have hd := ((hv.mem_queue a).1 ha).1
    have hr := (List.mem_range'_1.1 hb).1
    subst he
    exact absurd hd (Nat.not_lt.2 hr)
  mem_queue j := by
    refine List.mem_append.trans ?_
    rw [hv.mem_queue j, Dead, Dead, location?_prefill, length_prefill, List.mem_range'_1]
    constructor
    · rintro (⟨hj, hd⟩ | hj)
      · exact ⟨by omega, hd⟩
      · exact ⟨hj.2, by simp [location?, hj.1]⟩
    · rintro ⟨hj, hd⟩
      by_cases hlt : j < v.faces.length
      · exact .inl ⟨hlt, hd⟩
      · exact .inr ⟨by omega, hj⟩
  length_le := by
    rw [length_prefill]
    exact hn
  limit_le := hv.limit_le
  lt_highWater j hj := hv.lt_highWater j (by rw [Lives, ← location?_prefill v n]; exact hj)
  highWater_le := by
    rw [length_prefill]
    exact Nat.le_add_right_of_le hv.highWater_le

theorem Valid.reserve {v : Ledger C} (hv : v.Valid) (n : Nat) (ahead : Bool) : (v.reserve n ahead).Valid := by
  rw [Ledger.reserve]
  split
  · have := hv.length_le
    exact hv.prefill (by omega)
  · exact hv

theorem location?_truncate (v : Ledger C) (n j : Nat) :
    (v.truncate n).location? j = if j < n then v.location? j else none := by
  simp only [truncate, location?, List.getElem?_take]
  split <;> rfl

@[simp] theorem length_truncate (v : Ledger C) (n : Nat) :
    (v.truncate n).faces.length = min n v.faces.length := by
  simp [truncate]

theorem lives_truncate {v : Ledger C} {n id : Nat} : (v.truncate n).Lives id ↔ v.Lives id ∧ id < n := by
  rw [Lives, location?_truncate]
  split
  · rename_i hlt
    exact (and_iff_left hlt).symm
  · rename_i hge
    exact iff_of_false (fun h => h rfl) fun h => hge h.2

theorem Valid.truncate {v : Ledger C} (hv : v.Valid) (n : Nat) : (v.truncate n).Valid where
  nodup := hv.nodup.filter _
  mem_queue j := by
    refine List.mem_filter.trans ?_
    rw [hv.mem_queue j, Dead, Dead, location?_truncate, length_truncate, decide_eq_true_iff]
    constructor
    · rintro ⟨⟨hj, hd⟩, hlt⟩
      exact ⟨Nat.lt_min.2 ⟨hlt, hj⟩, by simp [hd]⟩
    · rintro ⟨hj, hd⟩
      have hlt := Nat.lt_min.1 hj
      rw [if_pos hlt.1] at hd
      exact ⟨⟨hlt.2, hd⟩, hlt.1⟩
  length_le := by
    rw [length_truncate]
    exact Nat.le_trans (Nat.min_le_right _ _) hv.length_le
  limit_le := hv.limit_le
  lt_highWater j hj := by
    obtain ⟨hl, hn⟩ := lives_truncate.1 hj
    exact Nat.lt_min.2 ⟨hv.lt_highWater j hl, hn⟩
  highWater_le := by
    rw [length_truncate]
    change min v.highWater n ≤ _
    have := hv.highWater_le
    omega

theorem Valid.limit {v : Ledger C} {l : Nat} (hv : v.Valid) (hl : v.faces.length ≤ l) (hi : l ≤ C.ids.invalid) :
    Valid { v with idLimit := l } :=
  ⟨hv.nodup, hv.mem_queue, hl, hi, hv.lt_highWater, hv.highWater_le⟩

theorem lt_of_none_beyond {v : Ledger C} {n id : Nat} (hn : (v.faces.drop n).any (·.location?.isSome) = false)
    (h : v.Lives id) : id < n := by
  by_contra hge
  obtain ⟨l, hl⟩ := lives_iff.1 h
  obtain ⟨f, hf, hfl⟩ := Option.bind_eq_some_iff.1 hl
  have hd : (v.faces.drop n)[id - n]? = some f := by
    rw [List.getElem?_drop, ← hf]
    congr 1
    omega
  have hs := List.any_eq_false.1 hn f (List.mem_of_getElem? hd)
  rw [hfl] at hs
  exact hs rfl

theorem Valid.setIdLimit {v : Ledger C} (hv : v.Valid) (n : Nat) : (v.setIdLimit n).2.Valid := by
  rw [Ledger.setIdLimit]
  dsimp only
  split
  · exact hv
  · refine (hv.truncate _).limit ?_ (Nat.min_le_right _ _)
    rw [length_truncate]
    exact Nat.min_le_left _ _

theorem Valid.truncate_eq_self {v : Ledger C} {n : Nat} (hv : v.Valid) (h : v.faces.length ≤ n) :
    v.truncate n = v := by
  have hf : v.faces.take n = v.faces := List.take_of_length_le h
  have hq : v.queue.filter (· < n) = v.queue := by
    apply List.filter_eq_self.2
    intro id hid
    exact decide_eq_true (Nat.lt_of_lt_of_le ((hv.mem_queue id).1 hid).1 h)
  have hw : min v.highWater n = v.highWater := Nat.min_eq_left (Nat.le_trans hv.highWater_le h)
  rw [Ledger.truncate, hf, hq, hw]

theorem Lives.lt_liveBound {v : Ledger C} {id : Nat} (h : v.Lives id) : id < v.liveBound := by
  obtain ⟨l, hl⟩ := lives_iff.1 h
  obtain ⟨f, hf, hfl⟩ := Option.bind_eq_some_iff.1 hl
  have hdead : ∀ g ∈ v.faces.reverse.takeWhile (fun f => f.location?.isNone), g.location? = none := by
    intro g hg
    simpa using List.mem_takeWhile_imp hg
  have hsplit := List.takeWhile_append_dropWhile (p := fun f : Face C => f.location?.isNone) (l := v.faces.reverse)
  have hlen := congrArg List.length hsplit
  have hid := h.lt
  rw [List.length_append, List.length_reverse] at hlen
  by_contra hge
  have hr : v.faces.reverse[v.faces.length - 1 - id]? = some f := by
    rw [List.getElem?_reverse (by omega), ← hf]
    congr 1
    omega
  rw [← hsplit, List.getElem?_append_left (by rw [liveBound] at hge; omega)] at hr
  have hn := hdead f (List.mem_of_getElem? hr)
  rw [hn] at hfl
  cases hfl

theorem Valid.trim {v : Ledger C} (hv : v.Valid) : v.trim.Valid :=
  hv.truncate _

theorem Valid.reset {v : Ledger C} (hv : v.Valid) : v.reset.Valid :=
  valid_empty.limit (Nat.zero_le _) hv.limit_le

end EntityStore.Ledger
