import EntityStore.Proofs.Registry.Dispatch
import EntityStore.Proofs.Registry.Journal

/-! Creation. Every dead slot stands in the queue, so that an entity can be created as long as fewer live than there
may be, and slots are added only where all of them are in use. -/

namespace EntityStore

variable {C : Config} {id : Nat} {l : Location} {m : C.Metadata}

namespace Ledger

variable {v w u : Ledger C} {p : Posting C} {ps : List (Posting C)}

theorem living_le_length (v : Ledger C) : v.living ≤ v.faces.length := List.countP_le_length

theorem Valid.queue_eq_nil_iff (hv : v.Valid) : v.queue = [] ↔ v.living = v.faces.length := by
  rw [living, List.countP_eq_length, List.eq_nil_iff_forall_not_mem]
  constructor
  · intro hq a ha
    obtain ⟨id, hid⟩ := List.mem_iff_getElem?.1 ha
    rw [Option.isSome_iff_ne_none]
    intro hl
    apply hq id
    rw [hv.mem_queue, Dead, location?, hid]
    exact ⟨(List.getElem?_eq_some_iff.1 hid).1, hl⟩
  · intro hall id hid
    obtain ⟨hlt, hl⟩ := (hv.mem_queue id).1 hid
    have hf := List.getElem?_eq_getElem hlt
    rw [location?, hf, Option.bind_some] at hl
    have hs := hall _ (List.mem_of_getElem? hf)
    rw [hl] at hs
    cases hs

theorem Valid.exists_pick (hv : v.Valid) : (∃ id u, v.pick = some (id, u)) ↔ v.living < v.idLimit := by
  have hle := v.living_le_length
  have hlimit := hv.length_le
  have hfull := hv.queue_eq_nil_iff
  cases hq : v.queue with
  | cons id queue =>
    simp only [hq, reduceCtorEq, false_iff] at hfull
    refine iff_of_true ⟨id, { v with queue := queue }, ?_⟩ (by omega)
    rw [pick, hq]
  | nil =>
    rw [hfull.1 hq, pick, hq]
    by_cases hlt : v.faces.length < v.idLimit
    · exact iff_of_true ⟨v.faces.length, { v with faces := v.faces ++ [.vacant] }, by simp [hlt, hq]⟩ hlt
    · exact iff_of_false (by simp [hlt]) hlt

theorem Picked.lt_idLimit (h : v.Picked id u) : id < v.idLimit := by
  rw [← h.idLimit_eq]
  exact Nat.lt_of_lt_of_le h.dead.1 h.length_le

theorem living_pick (h : v.pick = some (id, u)) : u.living = v.living := by
  rcases pick_cases h with ⟨-, hf⟩ | ⟨-, -, -, hf⟩
  · rw [living, living, hf]
  · rw [living, living, hf]
    simp [Face.vacant]

theorem getElem?_pick_of_ne {j : Nat} (h : v.pick = some (id, u)) (hj : j ≠ id) : u.faces[j]? = v.faces[j]? := by
  rcases pick_cases h with ⟨-, hf⟩ | ⟨-, -, hid, hf⟩
  · rw [hf]
  · rw [hf, List.getElem?_append]
    split
    · rfl
    · rename_i hge
      rw [List.getElem?_eq_none (by simp; omega), List.getElem?_eq_none (by omega)]

theorem Posted.snoc_inv (h : v.Posted (ps ++ [p]) u) : ∃ w, v.Posted ps w ∧ w.Posts p u := by
  generalize hqs : ps ++ [p] = qs at h
  cases h with
  | nil => simp at hqs
  | snoc hw hp =>
    obtain ⟨rfl, hpp⟩ := List.append_inj' hqs rfl
    cases hpp
    exact ⟨_, hw, hp⟩

theorem Posted.posts (h : v.Posted [p] w) : v.Posts p w := by
  obtain ⟨u, hu, hp⟩ := snoc_inv (show v.Posted ([] ++ [p]) w from h)
  generalize hps : ([] : List (Posting C)) = ps at hu
  cases hu with
  | nil => exact hp
  | snoc _ _ => simp at hps

end Ledger

namespace Posting

def Extends : Posting C → Prop
  | extend .. => True
  | _ => False

theorem not_extends_relocate (id : EntityId) (l : Location) : ¬ (relocate (C := C) id l).Extends := by
  rw [relocate]
  split
  · exact not_false
  · exact not_false

end Posting

namespace Ledger

variable {v w u : Ledger C} {p : Posting C} {ps : List (Posting C)}

theorem Posts.length_le (h : v.Posts p w) (he : ¬ p.Extends) (hc : ∀ id, ¬ p.Creates id) :
    w.faces.length ≤ v.faces.length := by
  cases h with
  | @create id u l m _ _ => exact absurd rfl (hc id)
  | place _ _ | amend _ _ => exact Nat.le_of_eq (length_modify v _ _)
  | destroy _ => exact Nat.le_of_eq (length_destroy v _)
  | extend _ => exact absurd trivial he
  | truncate n =>
    rw [length_truncate]
    exact Nat.min_le_right _ _
  | limit _ _ => exact Nat.le_refl _

theorem Posted.length_le (h : v.Posted ps w) (he : ∀ p ∈ ps, ¬ p.Extends) (hc : ∀ p ∈ ps, ∀ id, ¬ p.Creates id) :
    w.faces.length ≤ v.faces.length := by
  induction h with
  | nil => exact Nat.le_refl _
  | snoc _ hp ih =>
    rw [List.forall_mem_append, List.forall_mem_singleton] at he hc
    exact Nat.le_trans (hp.length_le he.2 hc.2) (ih he.1 hc.1)

theorem Posts.create_inv (h : v.Posts (.create id l m) w) (hv : v.Valid) :
    w.living = v.living + 1 ∧ (v.faces.length < w.faces.length → v.queue = []) := by
  cases h with
  | @create _ u _ _ hp _ =>
    refine ⟨by rw [living_occupy u (hv.picked hp).dead, living_pick hp], fun hlt => ?_⟩
    rw [length_occupy] at hlt
    rcases pick_cases hp with ⟨-, hf⟩ | ⟨hq, -⟩
    · rw [hf] at hlt
      exact absurd hlt (Nat.lt_irrefl _)
    · exact hq

theorem Posts.length_extend {start n : Nat} (h : v.Posts (.extend start n) w) :
    w.faces.length = v.faces.length + n := by
  cases h with
  | extend _ => exact length_prefill v n

theorem Posted.grows (h : v.Posted ps w) (hv : v.Valid) (hb : Posting.Batch ps) (he : ∀ p ∈ ps, ¬ p.Extends)
    (hlt : v.faces.length < w.faces.length) : v.queue = [] ∧ w.living = v.living + 1 := by
  cases hb with
  | plain hps => exact absurd (h.length_le he fun p hp => (hps p hp).not_creates) (Nat.not_le.2 hlt)
  | cut hps => exact absurd (h.length_le he fun p hp => (hps p hp).not_creates) (Nat.not_le.2 hlt)
  | made id l m =>
    obtain ⟨hliving, hq⟩ := h.posts.create_inv hv
    exact ⟨hq hlt, hliving⟩
  | housed id l l' m =>
    obtain ⟨u, hu, hp⟩ := snoc_inv (show v.Posted ([.create id l m] ++ [.place id l']) w from h)
    obtain ⟨hliving, hq⟩ := hu.posts.create_inv hv
    cases hp with
    | place hl _ =>
      obtain ⟨a, l₀, ha, hl₀⟩ := exists_face hl
      have hplaced := u.living_modify ha fun a => { a with location? := some l' }
      rw [hl₀] at hplaced
      rw [length_modify] at hlt
      exact ⟨hq hlt, (Nat.add_right_cancel hplaced).trans hliving⟩

end Ledger

namespace Registry

variable {r r' : Registry C} {v w u : Ledger C}

structure Made (r : Registry C) (l : Location) (m : C.Metadata) (id : EntityId) (r' : Registry C) : Prop where
  dead : ¬ r.isAlive id
  lt : id < r.idLimit
  ne : id ≠ C.ids.invalid
  record : r'.records[id]? = some { r.records[id]?.getD .vacant with slot := .live l, metadata := m }
  others (j : Nat) : j ≠ id → r'.records[j]? = r.records[j]?
  freeList : ∃ queue, r.freeList = .ok queue ∧ r'.freeList = .ok queue.tail
  living : r'.living = r.living + 1
  highWater : r'.highWater = max r.highWater (id + 1)
  idLimit : r'.idLimit = r.idLimit

theorem Made.handle? (h : r.Made l m id r') : r'.handle? id = some ⟨id, (r.records[id]?.getD .vacant).generation⟩ := by
  rw [Registry.handle?, h.record]
  rfl

theorem Made.locationOf? (h : r.Made l m id r') : r'.locationOf? id = some l := by
  rw [Registry.locationOf?, h.record]
  rfl

namespace Represents

theorem makes (h : r.Represents v) (hp : v.pick = some (id, u)) (h' : r'.Represents (u.occupy id l m)) :
    r.Made l m id r' where
  dead := by
    have hpicked := h.valid.picked hp
    rw [h.isAlive_iff, Ledger.Lives, ← hpicked.location?_eq]
    exact hpicked.dead.not_lives
  lt := by
    rw [h.idLimit]
    exact (h.valid.picked hp).lt_idLimit
  ne := Nat.ne_of_lt (Nat.lt_of_lt_of_le (h.valid.picked hp).lt_idLimit h.valid.limit_le)
  record := by
    have hface : v.faces[id]?.getD .vacant = (r.records[id]?.getD .vacant).face := by
      rw [h.getElem?_face]
      cases r.records[id]? <;> rfl
    have hu := Ledger.getElem?_pick hp (h.valid.picked hp).dead.1
    rw [hface] at hu
    have hw : (u.occupy id l m).faces[id]? = some ⟨some l, (r.records[id]?.getD .vacant).generation, m⟩ := by
      refine (u.faces_modify id _ id).trans ?_
      rw [hu]
      simp [Record.face]
    exact h'.record_of_live hw rfl
  others j hj := by
    apply h.records_congr h'
    · refine (u.faces_modify id _ j).trans ?_
      rw [Ledger.getElem?_pick_of_ne hp hj]
      simp [Ne.symm hj]
    · intro n hn
      rcases Ledger.pick_cases hp with ⟨hq, -⟩ | ⟨hq, -⟩
      · rw [hq] at hn ⊢
        cases n with
        | zero => exact absurd (Option.some.inj hn).symm hj
        | succ n => exact ⟨n, hn, rfl⟩
      · rw [hq] at hn
        cases hn
  freeList := by
    refine ⟨v.queue, h.freeList_eq, ?_⟩
    rw [h'.freeList_eq]
    rcases Ledger.pick_cases hp with ⟨hq, -⟩ | ⟨hq, hu, -⟩
    · rw [hq]
      rfl
    · rw [hq]
      exact congrArg Except.ok hu
  living := by rw [h'.living, u.living_occupy (h.valid.picked hp).dead, Ledger.living_pick hp, h.living]
  highWater := by
    rw [h'.highWater, h.highWater, ← (h.valid.picked hp).highWater_eq]
    rfl
  idLimit := by
    rw [h'.idLimit, h.idLimit, ← (h.valid.picked hp).idLimit_eq]
    rfl

theorem createHandle_of_create (ho : (r.create l m).outcome = .ok (some id, r')) (h : r.Made l m id r') :
    (r.createHandle l m).outcome = .ok (some ⟨id, (r.records[id]?.getD .vacant).generation⟩, r') := by
  rw [Registry.createHandle, Run.outcome_bind, ho, Checked.ok_bind]
  simp only [Run.outcome_bind, Run.outcome_lift, recordAt_eq h.record, Checked.ok_bind]
  rfl

theorem create_makes (h : r.Represents v) (hl : ¬ l.isDestroyed C) (hlt : r.living < r.idLimit) (m : C.Metadata) :
    ∃ id u r', v.pick = some (id, u) ∧ (r.create l m).outcome = .ok (some id, r') ∧
      r'.Represents (u.occupy id l m) := by
  rw [h.living, h.idLimit, ← h.valid.exists_pick] at hlt
  obtain ⟨id, u, hp⟩ := hlt
  obtain ⟨r', hr', hw⟩ := h.create l m
  rw [Ledger.create, if_neg hl, hp] at hr' hw
  exact ⟨id, u, r', hp, hr', hw⟩

theorem create_refuses (h : r.Represents v) (hl : l.isDestroyed C ∨ r.idLimit ≤ r.living) (m : C.Metadata) :
    (r.create l m).outcome = .ok (none, r) := by
  have hnone : v.create l m = (none, v) := by
    rw [Ledger.create]
    split
    · rfl
    · rename_i hd
      have hfull := hl.resolve_left hd
      rw [h.living, h.idLimit, ← Nat.not_lt, ← h.valid.exists_pick] at hfull
      cases hp : v.pick with
      | none => rfl
      | some a => exact absurd ⟨a.1, a.2, hp⟩ hfull
  obtain ⟨r', hr', hw⟩ := h.create l m
  rw [hnone] at hr' hw
  rw [hr', h.unique hw]

theorem createHandle_refuses (h : r.Represents v) (hl : l.isDestroyed C ∨ r.idLimit ≤ r.living) (m : C.Metadata) :
    (r.createHandle l m).outcome = .ok (none, r) := by
  rw [Registry.createHandle, Run.outcome_bind, h.create_refuses hl]
  rfl

end Represents

end Registry

end EntityStore
