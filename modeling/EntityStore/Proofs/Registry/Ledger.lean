import EntityStore.Registry
import Mathlib.Data.Option.Basic

/-! The registry without its links: what each slot shows, and the free slots in the order they will be taken.
The links of the free list are one way to store that order. -/

namespace EntityStore

/-- What a slot shows: where its entity lives, if it has one, and its generation and data. -/
structure Face (C : Config) where
  location? : Option Location
  generation : Nat
  metadata : C.Metadata

namespace Face

variable {C : Config}

def vacant : Face C := ⟨none, Generations.initial, C.blank⟩

def living? (f : Face C) : Option (Record C) := f.location?.map fun l => ⟨.live l, f.generation, f.metadata⟩

end Face

def Record.face {C : Config} (e : Record C) : Face C := ⟨e.location?, e.generation, e.metadata⟩

theorem Record.isSome_face {C : Config} (e : Record C) : e.face.location?.isSome = e.isLive := by
  rcases e with ⟨_ | _, _, _⟩ <;> rfl

theorem Record.living?_face {C : Config} (e : Record C) : e.face.living? = if e.isLive then some e else none := by
  rcases e with ⟨_ | _, _, _⟩ <;> rfl

structure Ledger (C : Config) where
  faces : List (Face C)
  queue : List EntityId
  highWater : Nat
  idLimit : Nat

namespace Ledger

variable {C : Config}

def empty (C : Config) : Ledger C := ⟨[], [], 0, C.ids.invalid⟩

def location? (v : Ledger C) (id : Nat) : Option Location := v.faces[id]?.bind Face.location?

def generation? (v : Ledger C) (id : Nat) : Option Nat := v.faces[id]?.map Face.generation

def Lives (v : Ledger C) (id : Nat) : Prop := v.location? id ≠ none

def Dead (v : Ledger C) (id : Nat) : Prop := id < v.faces.length ∧ v.location? id = none

def living (v : Ledger C) : Nat := v.faces.countP (·.location?.isSome)

def entitiesFrom (v : Ledger C) : (n : Nat) → (id : Nat) → List (EntityId × Record C)
  | 0, _ => []
  | n + 1, id => ((v.faces[id]?.bind Face.living?).map (id, ·)).toList ++ v.entitiesFrom n (id + 1)

def entities (v : Ledger C) : List (EntityId × Record C) := v.entitiesFrom v.faces.length 0

def modify (v : Ledger C) (id : Nat) (f : Face C → Face C) : Ledger C :=
  { v with faces := v.faces.modify id f }

def occupy (v : Ledger C) (id : Nat) (l : Location) (m : C.Metadata) : Ledger C :=
  { v.modify id fun f => ⟨some l, f.generation, m⟩ with highWater := max v.highWater (id + 1) }

def pick (v : Ledger C) : Option (EntityId × Ledger C) :=
  match v.queue with
  | id :: queue => some (id, { v with queue := queue })
  | [] =>
    if v.faces.length < v.idLimit then some (v.faces.length, { v with faces := v.faces ++ [.vacant] }) else none

def create (v : Ledger C) (l : Location) (m : C.Metadata) : Option EntityId × Ledger C :=
  if l.isDestroyed C then (none, v) else
    match v.pick with
    | none => (none, v)
    | some (id, v) => (some id, v.occupy id l m)

def destroy (v : Ledger C) (id : Nat) : Ledger C :=
  { v.modify id fun f => ⟨none, C.generations.bump f.generation, C.blank⟩ with queue := v.queue ++ [id] }

def destroyAll (v : Ledger C) (ids : List EntityId) : Ledger C := ids.foldl destroy v

def relocate (v : Ledger C) (id : Nat) (l : Location) : Ledger C :=
  if l.isDestroyed C then v.destroy id else v.modify id fun f => { f with location? := some l }

def prefill (v : Ledger C) (n : Nat) : Ledger C :=
  { v with
    faces := v.faces ++ List.replicate n .vacant
    queue := v.queue ++ List.range' v.faces.length n }

def truncate (v : Ledger C) (n : Nat) : Ledger C :=
  { v with faces := v.faces.take n, queue := v.queue.filter (· < n), highWater := min v.highWater n }

def reserve (v : Ledger C) (n : Nat) (ahead : Bool) : Ledger C :=
  if ahead then v.prefill (min n v.idLimit - v.faces.length) else v

def setIdLimit (v : Ledger C) (n : Nat) : Bool × Ledger C :=
  let limit := min n C.ids.invalid
  if (v.faces.drop limit).any (·.location?.isSome) then (false, v)
  else (true, { v.truncate limit with idLimit := limit })

def liveBound (v : Ledger C) : Nat := (v.faces.reverse.dropWhile fun f => f.location?.isNone).length

def trim (v : Ledger C) : Ledger C := v.truncate v.liveBound

def reset (v : Ledger C) : Ledger C := { empty C with idLimit := v.idLimit }

/-- The queue holds each dead slot once, slots stay within the limit, and whoever lives was handed out. -/
structure Valid (v : Ledger C) : Prop where
  nodup : v.queue.Nodup
  mem_queue : ∀ id : Nat, id ∈ v.queue ↔ v.Dead id
  length_le : v.faces.length ≤ v.idLimit
  limit_le : v.idLimit ≤ C.ids.invalid
  lt_highWater : ∀ id : Nat, v.Lives id → id < v.highWater
  highWater_le : v.highWater ≤ v.faces.length

theorem lives_iff {v : Ledger C} {id : Nat} : v.Lives id ↔ ∃ l, v.location? id = some l :=
  Option.ne_none_iff_exists'

theorem Lives.lt {v : Ledger C} {id : Nat} (h : v.Lives id) : id < v.faces.length := by
  obtain ⟨l, hl⟩ := lives_iff.1 h
  obtain ⟨f, hf, _⟩ := Option.bind_eq_some_iff.1 hl
  exact (List.getElem?_eq_some_iff.1 hf).1

theorem Dead.not_lives {v : Ledger C} {id : Nat} (h : v.Dead id) : ¬ v.Lives id :=
  fun hl => hl h.2

theorem faces_modify (v : Ledger C) (id : Nat) (f : Face C → Face C) (j : Nat) :
    (v.modify id f).faces[j]? = (v.faces[j]?).map fun a => if id = j then f a else a := by
  simp [modify, List.getElem?_modify]

@[simp] theorem length_modify (v : Ledger C) (id : Nat) (f : Face C → Face C) :
    (v.modify id f).faces.length = v.faces.length := by
  simp [modify]

@[simp] theorem length_occupy (v : Ledger C) (id : Nat) (l : Location) (m : C.Metadata) :
    (v.occupy id l m).faces.length = v.faces.length :=
  length_modify v id _

@[simp] theorem length_destroy (v : Ledger C) (id : Nat) :
    (v.destroy id).faces.length = v.faces.length :=
  length_modify v id _

theorem location?_modify (v : Ledger C) (id : Nat) (f : Face C → Face C) (j : Nat) :
    (v.modify id f).location? j =
      if id = j then v.faces[j]?.bind fun a => (f a).location? else v.location? j := by
  rw [location?, faces_modify]
  cases hf : v.faces[j]? <;> by_cases hj : id = j <;> simp [location?, hf, hj]

theorem generation?_modify (v : Ledger C) (id : Nat) (f : Face C → Face C) (j : Nat) :
    (v.modify id f).generation? j =
      if id = j then v.faces[j]?.map fun a => (f a).generation else v.generation? j := by
  rw [generation?, faces_modify]
  cases hf : v.faces[j]? <;> by_cases hj : id = j <;> simp [generation?, hf, hj]

theorem location?_occupy (v : Ledger C) {id : Nat} (h : id < v.faces.length) (l : Location)
    (m : C.Metadata) (j : Nat) :
    (v.occupy id l m).location? j = if j = id then some l else v.location? j := by
  have hf : v.faces[id]? = some v.faces[id] := List.getElem?_eq_getElem h
  refine (location?_modify v id _ j).trans ?_
  by_cases hj : id = j
  · subst hj
    simp [hf]
  · simp [hj, Ne.symm hj]

theorem location?_destroy (v : Ledger C) (id j : Nat) :
    (v.destroy id).location? j = if j = id then none else v.location? j := by
  refine (location?_modify v id _ j).trans ?_
  by_cases hj : id = j
  · simp [hj]
  · simp [hj, Ne.symm hj]

theorem living_modify (v : Ledger C) {id : Nat} {a : Face C} (h : v.faces[id]? = some a) (f : Face C → Face C) :
    (v.modify id f).living + (if a.location?.isSome then 1 else 0) =
      v.living + if (f a).location?.isSome then 1 else 0 := by
  obtain ⟨hlt, ha⟩ := List.getElem?_eq_some_iff.1 h
  obtain ⟨before, b, after, hl, hn, hm⟩ := List.exists_of_modify f hlt
  have hb : a = b := by
    rw [hl, List.getElem?_append_right (Nat.le_of_eq hn), hn, Nat.sub_self] at h
    simpa using h.symm
  subst hb
  simp only [living, modify]
  rw [hm, hl]
  simp only [List.countP_append, List.countP_cons]
  omega

theorem exists_face {v : Ledger C} {id : Nat} (h : v.Lives id) :
    ∃ a l, v.faces[id]? = some a ∧ a.location? = some l := by
  obtain ⟨l, hl⟩ := lives_iff.1 h
  obtain ⟨a, ha, hal⟩ := Option.bind_eq_some_iff.1 hl
  exact ⟨a, l, ha, hal⟩

theorem living_occupy (v : Ledger C) {id : Nat} (h : v.Dead id) (l : Location) (m : C.Metadata) :
    (v.occupy id l m).living = v.living + 1 := by
  obtain ⟨hlt, hn⟩ := h
  have ha : v.faces[id]? = some v.faces[id] := List.getElem?_eq_getElem hlt
  rw [location?, ha, Option.bind_some] at hn
  have hm := living_modify v ha fun f => ⟨some l, f.generation, m⟩
  rw [hn] at hm
  exact hm

theorem living_destroy (v : Ledger C) {id : Nat} (h : v.Lives id) : (v.destroy id).living + 1 = v.living := by
  obtain ⟨a, l, ha, hl⟩ := exists_face h
  have hm := living_modify v ha fun f => ⟨none, C.generations.bump f.generation, C.blank⟩
  rw [hl] at hm
  exact hm

theorem dead_occupy {v : Ledger C} {id : Nat} (h : id < v.faces.length) {l : Location}
    {m : C.Metadata} {j : Nat} : (v.occupy id l m).Dead j ↔ v.Dead j ∧ j ≠ id := by
  simp only [Dead, length_occupy, location?_occupy v h]
  grind

theorem lives_occupy {v : Ledger C} {id : Nat} (h : id < v.faces.length) {l : Location}
    {m : C.Metadata} {j : Nat} : (v.occupy id l m).Lives j ↔ v.Lives j ∨ j = id := by
  simp only [Lives, location?_occupy v h]
  grind

theorem dead_destroy {v : Ledger C} {id j : Nat} (h : id < v.faces.length) :
    (v.destroy id).Dead j ↔ v.Dead j ∨ j = id := by
  simp only [Dead, length_destroy, location?_destroy]
  grind

theorem lives_destroy {v : Ledger C} {id j : Nat} : (v.destroy id).Lives j ↔ v.Lives j ∧ j ≠ id := by
  simp only [Lives, location?_destroy]
  grind

end Ledger

end EntityStore
