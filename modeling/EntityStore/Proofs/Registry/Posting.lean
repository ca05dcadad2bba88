import EntityStore.Proofs.Registry.Ledger.Valid
import Mathlib.Logic.Function.Iterate

/-! Postings: the changes of a ledger, one by one. What a posting does to a slot and to the queue can be told from
the posting alone, and so what many of them do from their list. -/

namespace EntityStore

inductive Posting (C : Config) where
  | create (id : EntityId) (l : Location) (m : C.Metadata)
  | place (id : EntityId) (l : Location)
  | destroy (id : EntityId)
  | amend (id : EntityId) (f : C.Metadata → C.Metadata)
  | extend (start n : Nat)
  | truncate (n : Nat)
  | limit (n : Nat)

namespace Posting

variable {C : Config}

def relocate (id : EntityId) (l : Location) : Posting C := if l.isDestroyed C then .destroy id else .place id l

def alter (id : Nat) (a : Face C) : Posting C → Face C
  | create j l m => if j = id then ⟨some l, a.generation, m⟩ else a
  | place j l => if j = id then { a with location? := some l } else a
  | destroy j => if j = id then ⟨none, C.generations.bump a.generation, C.blank⟩ else a
  | amend j f => if j = id then { a with metadata := f a.metadata } else a
  | _ => a

def recycle (queue : List EntityId) : Posting C → List EntityId
  | create .. => queue.tail
  | destroy id => queue ++ [id]
  | extend start n => queue ++ List.range' start n
  | truncate n => queue.filter (· < n)
  | _ => queue

def Retains (id : Nat) : Posting C → Prop
  | truncate n => id < n
  | _ => True

def Creates (id : Nat) : Posting C → Prop
  | create j _ _ => j = id
  | _ => False

def destroys (id : Nat) : Posting C → Bool
  | destroy j => j == id
  | _ => false

theorem relocate_destroyed (id : EntityId) : relocate id (.destroyed C) = (.destroy id : Posting C) :=
  if_pos (beq_self_eq_true C.stores.invalid)

theorem relocate_housed {store : StoreId} (h : store ≠ C.stores.invalid) (id : EntityId) (row : Nat) :
    relocate id (.housed store row) = (.place id (.housed store row) : Posting C) :=
  if_neg fun hl => h (eq_of_beq hl)

end Posting

namespace Ledger

variable {C : Config} {u v w : Ledger C} {p : Posting C} {ps qs : List (Posting C)} {id : Nat}

/-- Slots are taken from the queue, only the living are moved, changed and destroyed, and the limits are kept. -/
inductive Posts (v : Ledger C) : Posting C → Ledger C → Prop
  | create {id : EntityId} {u : Ledger C} {l : Location} (m : C.Metadata) : v.pick = some (id, u) →
      ¬ l.isDestroyed C → Posts v (.create id l m) (u.occupy id l m)
  | place {id : EntityId} {l : Location} : v.Lives id → ¬ l.isDestroyed C →
      Posts v (.place id l) (v.modify id fun a => { a with location? := some l })
  | destroy {id : EntityId} : v.Lives id → Posts v (.destroy id) (v.destroy id)
  | amend {id : EntityId} (f : C.Metadata → C.Metadata) : v.Lives id →
      Posts v (.amend id f) (v.modify id fun a => { a with metadata := f a.metadata })
  | extend {n : Nat} : v.faces.length + n ≤ v.idLimit → Posts v (.extend v.faces.length n) (v.prefill n)
  | truncate (n : Nat) : Posts v (.truncate n) (v.truncate n)
  | limit {n : Nat} : v.faces.length ≤ n → n ≤ C.ids.invalid → Posts v (.limit n) { v with idLimit := n }

inductive Posted (v : Ledger C) : List (Posting C) → Ledger C → Prop
  | nil : Posted v [] v
  | snoc {ps : List (Posting C)} {w u : Ledger C} {p : Posting C} : Posted v ps w → w.Posts p u →
      Posted v (ps ++ [p]) u

theorem posts_relocate (h : v.Lives id) (l : Location) : v.Posts (.relocate id l) (v.relocate id l) := by
  rw [Posting.relocate, relocate]
  split
  · exact .destroy h
  · rename_i hl
    exact .place h hl

theorem pick_cases (h : v.pick = some (id, u)) :
    (v.queue = id :: u.queue ∧ u.faces = v.faces) ∨
      (v.queue = [] ∧ u.queue = [] ∧ id = v.faces.length ∧ u.faces = v.faces ++ [.vacant]) := by
  rw [pick] at h
  cases hq : v.queue with
  | cons head queue =>
    rw [hq] at h
    cases h
    exact .inl ⟨rfl, rfl⟩
  | nil =>
    rw [hq] at h
    dsimp only at h
    split at h
    · cases h
      exact .inr ⟨rfl, rfl, rfl, rfl⟩
    · cases h

theorem getElem?_eq_getD {v : Ledger C} (hid : id < v.faces.length) :
    v.faces[id]? = some (v.faces[id]?.getD .vacant) := by
  rw [List.getElem?_eq_getElem hid, Option.getD_some]

theorem getElem?_pick {j : Nat} (h : v.pick = some (j, u)) (hid : id < u.faces.length) :
    u.faces[id]? = some (v.faces[id]?.getD .vacant) := by
  rcases pick_cases h with ⟨-, hf⟩ | ⟨-, -, -, hf⟩
  · rw [hf] at hid ⊢
    exact getElem?_eq_getD hid
  · rw [hf, List.length_append, List.length_singleton] at hid
    rw [hf]
    by_cases hlt : id < v.faces.length
    · rw [List.getElem?_append_left hlt]
      exact getElem?_eq_getD hlt
    · obtain rfl : id = v.faces.length := by omega
      simp

theorem Posts.getElem?_faces (h : v.Posts p w) (hid : id < w.faces.length) :
    w.faces[id]? = some (p.alter id (v.faces[id]?.getD .vacant)) := by
  have hmodify : ∀ {v : Ledger C} (j : Nat) (f : Face C → Face C), id < (v.modify j f).faces.length →
      (v.modify j f).faces[id]? =
        some (if j = id then f (v.faces[id]?.getD .vacant) else v.faces[id]?.getD .vacant) := by
    intro v j f hid
    rw [length_modify] at hid
    rw [faces_modify, getElem?_eq_getD hid, Option.map_some, Option.getD_some]
  cases h with
  | @create j u l m hp _ =>
    have hu : u.faces[id]? = some (v.faces[id]?.getD .vacant) := getElem?_pick hp (by rwa [length_occupy] at hid)
    refine (hmodify (v := u) j _ hid).trans ?_
    rw [hu]
    rfl
  | place _ _ => exact hmodify _ _ hid
  | destroy _ => exact hmodify _ _ hid
  | amend f _ => exact hmodify _ _ hid
  | @extend n _ =>
    rw [prefill, List.getElem?_append]
    split
    · rename_i hlt
      exact getElem?_eq_getD hlt
    · rename_i hge
      rw [length_prefill] at hid
      rw [List.getElem?_replicate_of_lt (by omega), List.getElem?_eq_none (Nat.not_lt.1 hge)]
      rfl
  | truncate n =>
    rw [length_truncate] at hid
    rw [Ledger.truncate, List.getElem?_take_of_lt (by omega)]
    exact getElem?_eq_getD (by omega)
  | limit _ _ => exact getElem?_eq_getD hid

theorem Posts.queue_eq (h : v.Posts p w) : w.queue = p.recycle v.queue := by
  cases h with
  | @create id u l m hp _ =>
    change u.queue = v.queue.tail
    rcases pick_cases hp with ⟨hq, -⟩ | ⟨hq, hu, -⟩
    · rw [hq, List.tail_cons]
    · rw [hq, hu, List.tail_nil]
  | place _ _ => rfl
  | destroy _ => rfl
  | amend _ _ => rfl
  | extend _ => rfl
  | truncate n => rfl
  | limit _ _ => rfl

theorem Posts.lt_length (h : v.Posts p w) (hp : p.Retains id) (hid : id < v.faces.length) : id < w.faces.length := by
  cases h with
  | create m hpick _ =>
    rw [length_occupy]
    rcases pick_cases hpick with ⟨-, hf⟩ | ⟨-, -, -, hf⟩
    · rwa [hf]
    · rw [hf, List.length_append]
      omega
  | place _ _ => rwa [length_modify]
  | destroy _ => rwa [length_destroy]
  | amend _ _ => rwa [length_modify]
  | extend _ =>
    rw [length_prefill]
    omega
  | truncate n =>
    rw [length_truncate]
    exact Nat.lt_min.2 ⟨hp, hid⟩
  | limit _ _ => exact hid

theorem Posts.valid (h : v.Posts p w) (hv : v.Valid) : w.Valid := by
  have hmodify : ∀ {id : Nat} {f : Face C → Face C}, v.Lives id →
      (∀ a l, a.location? = some l → (f a).location? ≠ none) → (v.modify id f).Valid := by
    intro id f hl hf
    apply hv.modify
    intro a ha
    obtain ⟨b, l, hb, hbl⟩ := exists_face hl
    rw [ha] at hb
    cases hb
    exact iff_of_false (hf a l hbl) (by simp [hbl])
  cases h with
  | create m hp _ => exact hv.occupy (hv.picked hp) _ m
  | place hl _ => exact hmodify hl fun _ _ _ => Option.some_ne_none _
  | destroy hl => exact hv.destroy hl
  | amend f hl => exact hmodify hl fun a l ha => by simp [ha]
  | extend hn => exact hv.prefill hn
  | truncate n => exact hv.truncate n
  | limit hl hi => exact hv.limit hl hi

theorem Posts.lives_iff (h : v.Posts p w) (hv : v.Valid) :
    w.Lives id ↔ p.Creates id ∨ v.Lives id ∧ p.Retains id ∧ ¬ p.destroys id := by
  have hmodify : ∀ {j : Nat} {f : Face C → Face C}, v.Lives j → (∀ a l, a.location? = some l → (f a).location? ≠ none) →
      ((v.modify j f).Lives id ↔ v.Lives id) := by
    intro j f hl hf
    rw [Lives, location?_modify]
    split
    · rename_i hj
      subst hj
      obtain ⟨a, l, ha, hal⟩ := exists_face hl
      rw [ha, Option.bind_some]
      exact iff_of_true (hf a l hal) hl
    · exact Iff.rfl
  cases h with
  | @create j u l m hp _ =>
    have hpick := hv.picked hp
    have hu : u.Lives id ↔ v.Lives id := by rw [Lives, Lives, hpick.location?_eq]
    rw [lives_occupy hpick.dead.1, hu, or_comm]
    exact or_congr eq_comm (by simp [Posting.Retains, Posting.destroys])
  | place hl _ =>
    simpa [Posting.Creates, Posting.Retains, Posting.destroys] using hmodify hl fun _ _ _ => Option.some_ne_none _
  | @destroy j hl =>
    have hj : (Posting.destroy j : Posting C).destroys id ↔ id = j := by rw [Posting.destroys, beq_iff_eq, eq_comm]
    simp only [lives_destroy, hj, Posting.Creates, Posting.Retains, false_or, true_and]
  | amend f hl =>
    simpa [Posting.Creates, Posting.Retains, Posting.destroys] using hmodify hl fun a l ha => by simp [ha]
  | @extend n _ => simp [Posting.Creates, Posting.Retains, Posting.destroys, Lives, location?_prefill]
  | truncate n => simp [Posting.Creates, Posting.Retains, Posting.destroys, lives_truncate]
  | limit _ _ => simp [Posting.Creates, Posting.Retains, Posting.destroys, Lives, Ledger.location?]

namespace Posted

theorem single (h : v.Posts p w) : v.Posted [p] w := .snoc .nil h

theorem trans (h : v.Posted ps w) (h' : w.Posted qs u) : v.Posted (ps ++ qs) u := by
  induction h' with
  | nil => rwa [List.append_nil]
  | snoc _ hp ih =>
    rw [← List.append_assoc]
    exact .snoc ih hp

theorem cons (h : v.Posts p w) (h' : w.Posted ps u) : v.Posted (p :: ps) u := (single h).trans h'

theorem valid (h : v.Posted ps w) (hv : v.Valid) : w.Valid := by
  induction h with
  | nil => exact hv
  | snoc _ hp ih => exact hp.valid ih

theorem queue_eq (h : v.Posted ps w) : w.queue = ps.foldl Posting.recycle v.queue := by
  induction h with
  | nil => rfl
  | snoc _ hp ih => rw [hp.queue_eq, ih, List.foldl_append, List.foldl_cons, List.foldl_nil]

theorem lt_length (h : v.Posted ps w) (hps : ∀ p ∈ ps, p.Retains id) (hid : id < v.faces.length) :
    id < w.faces.length := by
  induction h with
  | nil => exact hid
  | snoc _ hp ih =>
    rw [List.forall_mem_append, List.forall_mem_singleton] at hps
    exact hp.lt_length hps.2 (ih hps.1)

theorem getElem?_faces (h : v.Posted ps w) (hps : ∀ p ∈ ps, p.Retains id) {a : Face C} (ha : v.faces[id]? = some a) :
    w.faces[id]? = some (ps.foldl (Posting.alter id) a) := by
  have hid := (List.getElem?_eq_some_iff.1 ha).1
  induction h with
  | nil => exact ha
  | snoc hw hp ih =>
    rw [List.forall_mem_append, List.forall_mem_singleton] at hps
    rw [hp.getElem?_faces (hp.lt_length hps.2 (hw.lt_length hps.1 hid)), ih hps.1, Option.getD_some,
      List.foldl_append, List.foldl_cons, List.foldl_nil]

theorem lives_of_creates (h : v.Posted ps w) (hv : v.Valid) (hps : ∀ p ∈ ps, p.Retains id)
    (hc : ∃ p ∈ ps, p.Creates id) (hd : ∀ p ∈ ps, ¬ p.destroys id) : w.Lives id := by
  induction h with
  | nil => exact absurd hc (by simp)
  | snoc hw hp ih =>
    rw [List.forall_mem_append, List.forall_mem_singleton] at hps hd
    obtain ⟨q, hq, hqc⟩ := hc
    rw [hp.lives_iff (hw.valid hv)]
    rcases List.mem_append.1 hq with hq | hq
    · exact .inr ⟨ih hps.1 ⟨q, hq, hqc⟩ hd.1, hps.2, hd.2⟩
    · exact .inl (List.mem_singleton.1 hq ▸ hqc)

theorem not_lives (h : v.Posted ps w) (hv : v.Valid) (hn : ¬ v.Lives id) (hps : ∀ p ∈ ps, ¬ p.Creates id) :
    ¬ w.Lives id := by
  induction h with
  | nil => exact hn
  | snoc hw hp ih =>
    rw [List.forall_mem_append, List.forall_mem_singleton] at hps
    rw [hp.lives_iff (hw.valid hv), not_or, not_and_or]
    exact ⟨hps.2, .inl (ih hps.1)⟩

theorem destroys_cases (h : v.Posted ps w) (hv : v.Valid) (hps : ∀ p ∈ ps, p.Retains id)
    (hc : ∀ p ∈ ps, ¬ p.Creates id) :
    ((w.Lives id ↔ v.Lives id) ∧ ps.countP (·.destroys id) = 0) ∨
      (v.Lives id ∧ ¬ w.Lives id ∧ ps.countP (·.destroys id) = 1) := by
  induction h with
  | nil => exact .inl ⟨Iff.rfl, rfl⟩
  | @snoc ps w u p hw hp ih =>
    rw [List.forall_mem_append, List.forall_mem_singleton] at hps hc
    have hl : u.Lives id ↔ _ := hp.lives_iff (hw.valid hv)
    rw [or_iff_right hc.2, and_iff_right hps.2] at hl
    rw [List.countP_append, List.countP_singleton]
    by_cases hd : p.destroys id
    · have hwl : w.Lives id := by
        cases hp with
        | destroy hwl => exact eq_of_beq hd ▸ hwl
        | _ => exact absurd hd Bool.false_ne_true
      -- who is destroyed lives, and so was not destroyed before
      rcases ih hps.1 hc.1 with ⟨hiff, hcount⟩ | ⟨-, hn, -⟩
      · exact .inr ⟨hiff.1 hwl, by simp [hl, hd], by rw [hcount, if_pos hd]⟩
      · exact absurd hwl hn
    · have hu : u.Lives id ↔ w.Lives id := hl.trans (and_iff_left hd)
      rw [if_neg hd, hu]
      exact ih hps.1 hc.1

end Posted

end Ledger

namespace Posting

variable {C : Config} {id : Nat}

theorem generation_foldl_alter (ps : List (Posting C)) (a : Face C) :
    (ps.foldl (alter id) a).generation = C.generations.bump^[ps.countP (·.destroys id)] a.generation := by
  induction ps generalizing a with
  | nil => rfl
  | cons p ps ih =>
    rw [List.foldl_cons, ih, List.countP_cons, Function.iterate_add_apply]
    congr 1
    cases p with
    | destroy j => by_cases hj : j = id <;> simp [alter, destroys, hj]
    | create j | place j | amend j => by_cases hj : j = id <;> simp [alter, destroys, hj]
    | extend | truncate | limit => rfl

end Posting

end EntityStore
