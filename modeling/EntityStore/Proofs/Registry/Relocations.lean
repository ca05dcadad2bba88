import EntityStore.Proofs.Registry.Calls
import Mathlib.Logic.Function.Basic

/-! Entities relocated one after the other, up to the first that is dead when its turn comes. Where nobody is destroyed
on the way they are put in their places, and it does not matter in which order different entities are put there. -/

namespace EntityStore

variable {C : Config}

namespace Ledger

variable {v : Ledger C} {id j : Nat}

theorem faces_relocate (v : Ledger C) (l : Location) (h : j ≠ id) : (v.relocate id l).faces[j]? = v.faces[j]? := by
  rw [relocate]
  split
  · exact faces_destroy v h
  · simp [faces_modify, Ne.symm h]

theorem lives_relocate (hl : v.Lives id) (l : Location) (j : Nat) :
    (v.relocate id l).Lives j ↔ if j = id then ¬ l.isDestroyed C else v.Lives j := by
  by_cases hj : j = id
  · subst hj
    rw [if_pos rfl, Lives, location?_relocate hl]
    split <;> simp [*]
  · rw [if_neg hj, Lives, (keeps_relocate v l hj).location?, Lives]

end Ledger

namespace Registry

variable {r r' : Registry C} {v : Ledger C} {id j : Nat} {l : Location} {ids : List EntityId}
  {ls ls' : List (EntityId × Location)} {alive : EntityId → Bool} {k : Key}

def relocateEach (r : Registry C) : List (EntityId × Location) → Run (Registry C)
  | [] => return r
  | (id, l) :: ls => do
    let r ← r.relocate id l
    r.relocateEach ls

theorem relocateEach_append (r : Registry C) (ls ls' : List (EntityId × Location)) :
    r.relocateEach (ls ++ ls') = r.relocateEach ls >>= fun r => r.relocateEach ls' := by
  induction ls generalizing r with
  | nil => simp only [List.nil_append, relocateEach, pure_bind]
  | cons e ls ih => simp only [List.cons_append, relocateEach, ih, bind_assoc]

theorem relocateEach_single (r : Registry C) (id : EntityId) (l : Location) :
    r.relocateEach [(id, l)] = r.relocate id l := bind_pure (r.relocate id l)

def stumble? (C : Config) : (EntityId → Bool) → List (EntityId × Location) → Option EntityId
  | _, [] => none
  | alive, (id, l) :: ls =>
    if alive id then stumble? C (Function.update alive id (!l.isDestroyed C)) ls else some id

theorem stumble?_dead (h : ¬ alive id) (l : Location) (ls : List (EntityId × Location)) :
    stumble? C alive ((id, l) :: ls) = some id := if_neg h

theorem stumble?_destroyed (h : alive id) (hl : l.isDestroyed C) (ls : List (EntityId × Location)) :
    stumble? C alive ((id, l) :: ls) = stumble? C (Function.update alive id false) ls := by
  rw [stumble?, if_pos h, hl, Bool.not_true]

theorem stumble?_placed (h : alive id) (hl : ¬ l.isDestroyed C) (ls : List (EntityId × Location)) :
    stumble? C alive ((id, l) :: ls) = stumble? C alive ls := by
  rw [stumble?, if_pos h, Bool.not_eq_true _ |>.mp hl, Bool.not_false]
  rw [Function.update_eq_self_iff.2 h.symm]

theorem stumble?_append_placed (h : ∀ e ∈ ls, alive e.1 ∧ ¬ e.2.isDestroyed C) (ls' : List (EntityId × Location)) :
    stumble? C alive (ls ++ ls') = stumble? C alive ls' := by
  induction ls with
  | nil => rfl
  | cons e ls ih =>
    rw [List.forall_mem_cons] at h
    rw [List.cons_append, stumble?_placed h.1.1 h.1.2, ih h.2]

theorem stumble?_all_placed (hl : ¬ l.isDestroyed C) (alive : EntityId → Bool) (ids : List EntityId) :
    (stumble? C alive (ids.map (·, l))).isSome ↔ ∃ id ∈ ids, ¬ alive id := by
  induction ids with
  | nil => simp [stumble?]
  | cons id ids ih =>
    rw [List.map_cons]
    by_cases h : alive id
    · rw [stumble?_placed h hl, ih]
      simp [h]
    · rw [stumble?_dead h]
      simp [h]

theorem stumble?_all_destroyed (hl : l.isDestroyed C) (alive : EntityId → Bool) (ids : List EntityId) :
    (stumble? C alive (ids.map (·, l))).isSome ↔ (∃ id ∈ ids, ¬ alive id) ∨ ¬ ids.Nodup := by
  induction ids generalizing alive with
  | nil => simp [stumble?]
  | cons id ids ih =>
    rw [List.map_cons]
    by_cases h : alive id
    · -- whoever comes again is dead by then
      have hagain : (∃ j ∈ ids, ¬ Function.update alive id false j) ↔ id ∈ ids ∨ ∃ j ∈ ids, ¬ alive j := by
        simp only [Function.update_apply]
        grind
      rw [stumble?_destroyed h hl, ih, hagain, List.nodup_cons]
      by_cases hm : id ∈ ids <;> simp [hm, h]
    · rw [stumble?_dead h]
      simp [h]

theorem Represents.isAlive_relocate (h : r.Represents v) (hid : v.Lives id) (h' : r'.Represents (v.relocate id l)) :
    r'.isAlive = Function.update r.isAlive id (!l.isDestroyed C) := by
  funext j
  rw [Bool.eq_iff_iff, h'.isAlive_iff, Ledger.lives_relocate hid, Function.update_apply]
  split
  · simp
  · exact h.isAlive_iff.symm

theorem Represents.relocateEach_ends (h : r.Represents v) (ls : List (EntityId × Location)) :
    (r.relocateEach ls).Ends
      (fun r' => stumble? C r.isAlive ls = none ∧
        ∃ w, r'.Represents w ∧ ∀ j : Nat, j ∉ ls.map Prod.fst → w.faces[j]? = v.faces[j]?)
      fun f => ∃ id, stumble? C r.isAlive ls = some id ∧ f = .deadRelocation id := by
  induction ls generalizing r v with
  | nil => exact Run.ends_pure ⟨rfl, v, h, fun _ _ => rfl⟩
  | cons e ls ih =>
    obtain ⟨id, l⟩ := e
    by_cases hid : v.Lives id
    · obtain ⟨r₁, hr₁, h₁⟩ := h.relocate hid l
      have hrest := ih h₁
      rw [h.isAlive_relocate hid h₁] at hrest
      have hs : stumble? C r.isAlive ((id, l) :: ls) =
          stumble? C (Function.update r.isAlive id (!l.isDestroyed C)) ls := if_pos (h.isAlive_iff.2 hid)
      rw [hs, relocateEach]
      refine Run.Ends.bind (P := (· = r₁)) (Run.ends_of_ok hr₁ rfl) ?_
      rintro _ rfl
      refine hrest.imp ?_ fun _ hf => hf
      rintro r₂ ⟨hnone, w, hw, hfaces⟩
      refine ⟨hnone, w, hw, fun j hj => ?_⟩
      rw [List.map_cons, List.mem_cons, not_or] at hj
      rw [hfaces j hj.2, Ledger.faces_relocate v l hj.1]
    · have ho : (r.relocateEach ((id, l) :: ls)).outcome = .error (.deadRelocation id) := by
        rw [relocateEach, Run.outcome_bind, h.relocate_dead hid l]
        rfl
      exact Run.ends_of_error ho ⟨id, stumble?_dead (mt h.isAlive_iff.1 hid) l ls, rfl⟩

theorem handle?_of_face (h : r'.records[id]?.map Record.face = r.records[id]?.map Record.face) :
    r'.handle? id = r.handle? id := by
  have hface : ∀ r : Registry C, r.handle? id =
      (r.records[id]?.map Record.face).bind fun a => if a.location?.isSome then some ⟨id, a.generation⟩ else none := by
    intro r
    rw [handle?]
    cases r.records[id]? with
    | none => rfl
    | some e => simp only [Option.bind_some, Option.map_some, Record.isSome_face]; rfl
  rw [hface, hface, h]

theorem locationOf?_of_face (h : r'.records[id]?.map Record.face = r.records[id]?.map Record.face) :
    r'.locationOf? id = r.locationOf? id := by
  have hface : ∀ r : Registry C, r.locationOf? id = (r.records[id]?.map Record.face).bind Face.location? := by
    intro r
    rw [locationOf?]
    cases r.records[id]? <;> rfl
  rw [hface, hface, h]

theorem isAlive_eq (r : Registry C) (id : Nat) : r.isAlive id = (r.handle? id).isSome := by
  rw [isAlive, handle?]
  cases r.records[id]? with
  | none => rfl
  | some e => cases hl : e.isLive <;> simp [hl]

theorem resolve?_of_handle? (h : r'.handle? k.entity = r.handle? k.entity) : r'.resolve? k = r.resolve? k := by
  cases k with
  | id j =>
    rw [Key.entity] at h
    rw [resolve?, resolve?, isAlive_eq, isAlive_eq, h]
  | handle hd =>
    have hvalid : ∀ r : Registry C, r.isValidHandle hd = (r.handle? hd.id == some hd) := by
      intro r
      obtain ⟨j, g⟩ := hd
      rw [isValidHandle, handle?]
      cases r.records[j]? with
      | none => rfl
      | some e =>
        rw [Bool.eq_iff_iff]
        cases hl : e.isLive <;> simp [hl]
    rw [Key.entity] at h
    rw [resolve?, resolve?, hvalid, hvalid, h]

def place (r : Registry C) (e : EntityId × Location) : Registry C :=
  { r with records := r.records.modify e.1 fun a => { a with slot := .live e.2 } }

def placeEach (r : Registry C) (ls : List (EntityId × Location)) : Registry C := ls.foldl place r

def Places (r : Registry C) (ls : List (EntityId × Location)) : Prop :=
  ∀ e ∈ ls, r.isAlive e.1 ∧ ¬ e.2.isDestroyed C

theorem getElem?_place (r : Registry C) (e : EntityId × Location) (j : Nat) :
    (r.place e).records[j]? = r.records[j]?.map fun a => if e.1 = j then { a with slot := .live e.2 } else a := by
  rw [place, Array.getElem?_modify]
  split <;> simp

theorem handle?_place {e : EntityId × Location} (he : r.isAlive e.1) (j : Nat) :
    (r.place e).handle? j = r.handle? j := by
  rw [handle?, handle?, getElem?_place]
  by_cases hj : e.1 = j
  · subst hj
    rw [isAlive] at he
    cases ha : r.records[e.1]? with
    | none => rfl
    | some a =>
      rw [ha, Option.any_some] at he
      have hlive : ({ a with slot := .live e.2 } : Record C).isLive := rfl
      simp [he, hlive]
  · simp [hj]

theorem locationOf?_place (r : Registry C) {e : EntityId × Location} (h : j ≠ e.1) :
    (r.place e).locationOf? j = r.locationOf? j := by
  rw [locationOf?, locationOf?, getElem?_place]
  simp [Ne.symm h]

theorem locationOf?_place_self {e : EntityId × Location} (he : r.isAlive e.1) :
    (r.place e).locationOf? e.1 = some e.2 := by
  rw [isAlive] at he
  rw [locationOf?, getElem?_place]
  cases ha : r.records[e.1]? with
  | none => simp [ha] at he
  | some a => simp [Record.location?, Slot.location?]

theorem place_comm (r : Registry C) {e e' : EntityId × Location} (h : e.1 ≠ e'.1) :
    (r.place e).place e' = (r.place e').place e := by
  have hrecords : ((r.place e).place e').records = ((r.place e').place e).records := by
    apply Array.ext_getElem?
    intro j
    rw [getElem?_place, getElem?_place, getElem?_place, getElem?_place]
    cases r.records[j]? with
    | none => rfl
    | some a => grind
  rw [place, place] at hrecords ⊢
  exact congrArg (fun records => { r with records := records }) hrecords

theorem relocate_eq_place (hid : r.isAlive id) (hl : ¬ l.isDestroyed C) :
    (r.relocate id l).outcome = .ok (r.place (id, l)) := by
  obtain ⟨a, ha, hlive⟩ : ∃ a, r.records[id]? = some a ∧ a.isLive := by
    rw [isAlive] at hid
    cases ha : r.records[id]? with
    | none => simp [ha] at hid
    | some a => exact ⟨a, rfl, by simpa [ha] using hid⟩
  have hrecords : r.records.setIfInBounds id { a with slot := .live l } = (r.place (id, l)).records := by
    apply Array.ext_getElem?
    intro j
    rw [getElem?_place]
    have hset := getElem?_setRecord (e := { a with slot := .live l }) ha j
    rw [setRecord] at hset
    rw [hset]
    by_cases hj : j = id
    · simp [hj, ha]
    · simp [hj, Ne.symm hj]
  rw [relocate, hid, if_neg hl]
  simp only [Bool.not_true, Bool.false_eq_true, if_false, Run.outcome_bind, Run.outcome_lift, recordAt_eq ha,
    Checked.ok_bind, setRecord, hrecords]
  rfl

theorem handle?_placeEach (h : ∀ e ∈ ls, r.isAlive e.1) (j : Nat) : (r.placeEach ls).handle? j = r.handle? j := by
  induction ls generalizing r with
  | nil => rfl
  | cons e ls ih =>
    rw [List.forall_mem_cons] at h
    have hrest : ∀ e' ∈ ls, (r.place e).isAlive e'.1 := by
      intro e' he'
      rw [isAlive_eq, handle?_place h.1, ← isAlive_eq]
      exact h.2 e' he'
    rw [placeEach, List.foldl_cons, ← placeEach, ih hrest, handle?_place h.1]

theorem locationOf?_placeEach (r : Registry C) (h : j ∉ ls.map Prod.fst) :
    (r.placeEach ls).locationOf? j = r.locationOf? j := by
  induction ls generalizing r with
  | nil => rfl
  | cons e ls ih =>
    rw [List.map_cons, List.mem_cons, not_or] at h
    rw [placeEach, List.foldl_cons, ← placeEach, ih _ h.2, locationOf?_place r h.1]

theorem resolve?_placeEach (h : r.Places ls) (k : Key) : (r.placeEach ls).resolve? k = r.resolve? k :=
  resolve?_of_handle? (handle?_placeEach (fun e he => (h e he).1) k.entity)

theorem Places.of_placeEach (h : r.Places ls) (h' : r.Places ls') : (r.placeEach ls).Places ls' := by
  intro e he
  rw [isAlive_eq, handle?_placeEach fun e he => (h e he).1]
  rw [← isAlive_eq]
  exact h' e he

theorem Places.exists_location (h : r.Places ls) (hj : j ∈ ls.map Prod.fst) :
    ∃ l, (j, l) ∈ ls ∧ (r.placeEach ls).locationOf? j = some l := by
  induction ls generalizing r with
  | nil => cases hj
  | cons e ls ih =>
    obtain ⟨he, hls⟩ := List.forall_mem_cons.1 h
    have hone : r.Places [e] := List.forall_mem_singleton.2 he
    rw [placeEach, List.foldl_cons, ← placeEach]
    by_cases hj' : j ∈ ls.map Prod.fst
    · obtain ⟨l, hl, ho⟩ := ih (hone.of_placeEach hls) hj'
      exact ⟨l, List.mem_cons_of_mem e hl, ho⟩
    · rw [List.map_cons, List.mem_cons, or_iff_left hj'] at hj
      subst hj
      refine ⟨e.2, List.mem_cons_self, ?_⟩
      rw [locationOf?_placeEach _ hj', locationOf?_place_self he.1]

theorem Places.relocateEach (h : r.Places ls) : (r.relocateEach ls).outcome = .ok (r.placeEach ls) := by
  induction ls generalizing r with
  | nil => rfl
  | cons e ls ih =>
    obtain ⟨⟨hid, hl⟩, hls⟩ := List.forall_mem_cons.1 h
    have hone : r.Places [e] := List.forall_mem_singleton.2 ⟨hid, hl⟩
    rw [Registry.relocateEach, Run.outcome_bind, relocate_eq_place hid hl, Checked.ok_bind]
    exact ih (hone.of_placeEach hls)

theorem placeEach_comm (r : Registry C) (h : ∀ e ∈ ls, ∀ e' ∈ ls', e.1 ≠ e'.1) :
    (r.placeEach ls).placeEach ls' = (r.placeEach ls').placeEach ls := by
  have hone : ∀ (r : Registry C) (e : EntityId × Location), (∀ e' ∈ ls', e.1 ≠ e'.1) →
      (r.place e).placeEach ls' = (r.placeEach ls').place e := by
    intro r e he
    clear h
    induction ls' generalizing r with
    | nil => rfl
    | cons e' ls' ih =>
      rw [List.forall_mem_cons] at he
      rw [placeEach, placeEach, List.foldl_cons, List.foldl_cons, place_comm r he.1]
      exact ih _ he.2
  induction ls generalizing r with
  | nil => rfl
  | cons e ls ih =>
    rw [List.forall_mem_cons] at h
    have hrest := ih (r.place e) h.2
    rw [hone r e h.1] at hrest
    exact hrest

end Registry

end EntityStore
