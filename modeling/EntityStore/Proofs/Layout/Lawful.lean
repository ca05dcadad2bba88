import EntityStore.Column
import EntityStore.Proofs.Outcome
import Mathlib.Data.List.Perm.Basic

namespace EntityStore

section

variable {α β γ : Type}

def swapPop (l : List α) (i : Nat) : List α :=
  match l.getLast? with
  | none => []
  | some last => (l.set i last).dropLast

theorem swapPop_concat (l : List α) (last : α) (i : Nat) : swapPop (l ++ [last]) i = l.set i last := by
  rw [swapPop, List.getLast?_concat]
  simp only
  by_cases hi : i < l.length
  · rw [List.set_append_left _ _ hi, List.dropLast_concat]
  · rw [List.set_append_right _ _ (Nat.not_lt.1 hi), List.set_eq_of_length_le (Nat.not_lt.1 hi)]
    cases i - l.length with
    | zero => exact List.dropLast_concat
    | succ n => exact List.dropLast_concat

theorem length_swapPop (l : List α) (i : Nat) : (swapPop l i).length = l.length - 1 := by
  rcases List.eq_nil_or_concat l with rfl | ⟨l, last, rfl⟩
  · rfl
  · rw [List.concat_eq_append, swapPop_concat, List.length_set, List.length_append]
    rfl

theorem getElem?_swapPop {l : List α} {i j : Nat} (hi : i < l.length) :
    (swapPop l i)[j]? = if j + 1 < l.length then if j = i then l.getLast? else l[j]? else none := by
  rcases List.eq_nil_or_concat l with rfl | ⟨l, last, rfl⟩
  · cases hi
  · rw [List.concat_eq_append] at *
    rw [swapPop_concat, List.getElem?_set, List.getLast?_concat]
    simp only [List.length_append, List.length_singleton, List.getElem?_append] at *
    grind

theorem map_swapPop (f : α → β) (l : List α) (i : Nat) : (swapPop l i).map f = swapPop (l.map f) i := by
  rcases List.eq_nil_or_concat l with rfl | ⟨l, last, rfl⟩
  · rfl
  · rw [List.concat_eq_append, swapPop_concat, List.map_append, List.map_singleton, swapPop_concat, List.map_set]

theorem cons_swapPop_perm {l : List α} {i : Nat} {x : α} (h : l[i]? = some x) : (x :: swapPop l i).Perm l := by
  rcases List.eq_nil_or_concat l with rfl | ⟨l, last, rfl⟩
  · cases h
  · rw [List.concat_eq_append] at *
    rw [swapPop_concat]
    by_cases hi : i < l.length
    · rw [List.getElem?_append_left hi, List.getElem?_eq_getElem hi] at h
      cases h
      have hl : l = l.take i ++ l[i] :: l.drop (i + 1) := by simp
      rw [List.set_eq_take_append_cons_drop, if_pos hi]
      conv_rhs => rw [hl]
      calc l[i] :: (l.take i ++ last :: l.drop (i + 1))
          |>.Perm (l[i] :: last :: (l.take i ++ l.drop (i + 1))) := List.perm_middle.cons _
        _ |>.Perm (last :: l[i] :: (l.take i ++ l.drop (i + 1))) := .swap _ _ _
        _ |>.Perm (last :: (l.take i ++ l[i] :: l.drop (i + 1))) := List.perm_middle.symm.cons _
        _ |>.Perm (l.take i ++ l[i] :: l.drop (i + 1) ++ [last]) := (List.perm_append_singleton _ _).symm
    · obtain rfl : i = l.length := by
        have := (List.getElem?_eq_some_iff.1 h).1
        rw [List.length_append, List.length_singleton] at this
        omega
      rw [List.getElem?_concat_length] at h
      cases h
      rw [List.set_eq_of_length_le (Nat.le_refl _)]
      exact (List.perm_append_singleton _ _).symm

theorem not_mem_swapPop {l : List α} {i : Nat} {x : α} (hn : l.Nodup) (h : l[i]? = some x) : x ∉ swapPop l i :=
  (List.nodup_cons.1 ((cons_swapPop_perm h).nodup_iff.2 hn)).1

theorem nodup_swapPop {l : List α} {i : Nat} {x : α} (hn : l.Nodup) (h : l[i]? = some x) : (swapPop l i).Nodup :=
  (List.nodup_cons.1 ((cons_swapPop_perm h).nodup_iff.2 hn)).2

theorem mem_of_mem_swapPop {l : List α} {i : Nat} {x : α} (h : x ∈ swapPop l i) : x ∈ l := by
  rcases List.eq_nil_or_concat l with rfl | ⟨l, last, rfl⟩
  · cases h
  · rw [List.concat_eq_append] at *
    rw [swapPop_concat] at h
    rw [List.mem_append, List.mem_singleton]
    exact List.mem_or_eq_of_mem_set h

theorem map_mapIdx (g : β → γ) (h : Nat → α → β) (l : List α) :
    (l.mapIdx h).map g = l.mapIdx fun i x => g (h i x) := by
  apply List.ext_getElem?
  simp [Function.comp_def]

theorem mapIdx_map (g : α → β) (h : Nat → β → γ) (l : List α) :
    (l.map g).mapIdx h = l.mapIdx fun i x => h i (g x) := by
  apply List.ext_getElem?
  simp [Function.comp_def]

theorem mapIdx_const (g : α → β) (l : List α) : (l.mapIdx fun _ x => g x) = l.map g := by
  apply List.ext_getElem?
  simp

theorem set_map_self {l : List α} {i : Nat} {x : α} (h : l[i]? = some x) (g : α → β) :
    (l.map g).set i (g x) = l.map g := by
  obtain ⟨hi, rfl⟩ := List.getElem?_eq_some_iff.1 h
  rw [← List.map_set, List.set_getElem_self]

end

namespace Column

variable {α : Type} {l : List α} {i : Nat} {x : α}

theorem read_toArray (h : l[i]? = some x) : read l.toArray i = .ok x :=
  read_eq_ok_iff.2 (by rwa [List.getElem?_toArray])

theorem read_of_none (h : l[i]? = none) : read l.toArray i = .error (.indexOutOfBounds l.length i) := by
  rw [read, List.getElem?_toArray, h]
  rfl

theorem update_toArray (f : α → α) (h : l[i]? = some x) :
    update l.toArray i f = .ok (x, (l.set i (f x)).toArray) := by
  rw [update, List.getElem?_toArray, h, ← List.setIfInBounds_toArray]

theorem update_of_none (f : α → α) (h : l[i]? = none) :
    update l.toArray i f = .error (.indexOutOfBounds l.length i) := by
  rw [update, List.getElem?_toArray, h]
  rfl

theorem swapPop_toArray (h : l[i]? = some x) :
    swapPop l.toArray i = .ok (x, (EntityStore.swapPop l i).toArray) := by
  have hi := (List.getElem?_eq_some_iff.1 h).1
  obtain ⟨last, hl⟩ : ∃ last, l.getLast? = some last := by
    cases l with
    | nil => cases hi
    | cons y l => exact ⟨_, List.getLast?_cons⟩
  rw [swapPop, List.getElem?_toArray, h, List.back?_toArray, hl, EntityStore.swapPop, hl]
  simp only [List.setIfInBounds_toArray, List.pop_toArray]

end Column

class LawfulLayout (L : Type) (ρ : outParam Type) [Layout L ρ] where
  Holds : L → List ρ → Prop
  holds_empty : Holds Layout.empty []
  holds_clear {l : L} {rows : List ρ} : Holds l rows → Holds (Layout.clear l) []
  push {l : L} {rows : List ρ} (x : ρ) : Holds l rows → ∃ l', Layout.push l x = .ok l' ∧ Holds l' (rows ++ [x])
  swapPop {l : L} {rows : List ρ} {i : Nat} {x : ρ} : Holds l rows → rows[i]? = some x →
    ∃ l', Layout.swapPop l i = .ok (x, l') ∧ Holds l' (swapPop rows i)
  read {l : L} {rows : List ρ} {i : Nat} {x : ρ} : Holds l rows → rows[i]? = some x → Layout.read l i = .ok x
  update {l : L} {rows : List ρ} {i : Nat} {x : ρ} (f : ρ → ρ) : Holds l rows → rows[i]? = some x →
    ∃ l', Layout.update l i f = .ok l' ∧ Holds l' (rows.set i (f x))

def Fault.IsOverflow (f : Fault) : Prop := f = .capacityOverflow ∨ f = .additionOverflow

theorem checkRoom_ends (length extra bytes : Nat) :
    (checkRoom length extra bytes).Ends (fun _ => True) Fault.IsOverflow := by
  rw [checkRoom]
  split
  · trivial
  · exact .inl rfl

class LawfulCapacity (L : Type) [Capacious L] : Prop where
  room_ends (l : L) (extra : Nat) : (Capacious.room l extra).Ends (fun _ => True) Fault.IsOverflow

instance {α : Type} [Footprint α] : LawfulCapacity (Array α) := ⟨fun a extra => checkRoom_ends a.size extra _⟩

instance {α : Type} : LawfulLayout (Array α) α where
  Holds a rows := a = rows.toArray
  holds_empty := rfl
  holds_clear _ := rfl
  push x h := ⟨_, rfl, by rw [h, List.push_toArray]⟩
  swapPop h hi := ⟨_, h ▸ Column.swapPop_toArray hi, rfl⟩
  read h hi := h ▸ Column.read_toArray hi
  update f h hi := by
    refine ⟨_, ?_, rfl⟩
    change (·.2) <$> Column.update _ _ _ = _
    rw [h, Column.update_toArray f hi]
    rfl

end EntityStore
