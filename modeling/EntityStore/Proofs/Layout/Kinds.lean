import EntityStore.Proofs.Layout.Columns

/-! Entries of tuples by position and by kind. A kind that occurs more than once means its first position. -/

namespace EntityStore

variable {κ : Type} {F : κ → Type} {ks : List κ}

def IsFirst (ks : List κ) (n : Fin ks.length) : Prop := ∀ m, m < n → ks.get m ≠ ks.get n

namespace Tuple

theorem entry?_eq (t : Tuple F ks) (n : Fin ks.length) : t.entry? n = some ⟨ks.get n, t.get n⟩ := by
  induction t with
  | nil => exact n.elim0
  | cons x t ih =>
    obtain ⟨n, hn⟩ := n
    cases n with
    | zero => rfl
    | succ n => exact ih ⟨n, Nat.lt_of_succ_lt_succ hn⟩

def updateAt : {ks : List κ} → Tuple F ks → (n : Fin ks.length) → (F (ks.get n) → F (ks.get n)) → Tuple F ks
  | _ :: _, cons x t, ⟨0, _⟩, f => cons (f x) t
  | _ :: _, cons x t, ⟨n + 1, h⟩, f => cons x (t.updateAt ⟨n, Nat.lt_of_succ_lt_succ h⟩ f)

@[simp] theorem get_updateAt_self (t : Tuple F ks) (n : Fin ks.length) (f : F (ks.get n) → F (ks.get n)) :
    (t.updateAt n f).get n = f (t.get n) := by
  induction t with
  | nil => exact n.elim0
  | cons x t ih =>
    obtain ⟨n, hn⟩ := n
    cases n with
    | zero => rfl
    | succ n => exact ih ⟨n, Nat.lt_of_succ_lt_succ hn⟩ f

@[simp] theorem get_updateAt_of_ne (t : Tuple F ks) {m n : Fin ks.length} (h : m ≠ n)
    (f : F (ks.get n) → F (ks.get n)) : (t.updateAt n f).get m = t.get m := by
  induction t with
  | nil => exact n.elim0
  | cons x t ih =>
    obtain ⟨n, hn⟩ := n
    obtain ⟨m, hm⟩ := m
    cases n with
    | zero =>
      cases m with
      | zero => exact absurd rfl h
      | succ m => rfl
    | succ n =>
      cases m with
      | zero => rfl
      | succ m => exact ih (fun heq => h (by simpa using heq)) f

theorem modify_eq_updateAt (t : Tuple F ks) (n : Fin ks.length) (f : (k : κ) → F k → F k) :
    t.modify f n = t.updateAt n (f (ks.get n)) := by
  induction t with
  | nil => exact n.elim0
  | cons x t ih =>
    obtain ⟨n, hn⟩ := n
    cases n with
    | zero => rfl
    | succ n => exact congrArg (cons x) (ih ⟨n, Nat.lt_of_succ_lt_succ hn⟩)

end Tuple

variable [DecidableEq κ] {k : κ} {n : Fin ks.length}

theorem exists_positionOf? (h : k ∈ ks) : ∃ n, positionOf? ks k = some n := by
  rw [← Option.isSome_iff_exists, positionOf?, List.findIdx?_isSome, List.any_eq_true]
  exact ⟨k, h, decide_eq_true rfl⟩

theorem positionOf?_eq_none (h : k ∉ ks) : positionOf? ks k = none := by
  rw [positionOf?, List.findIdx?_eq_none_iff]
  exact fun k' hk' => decide_eq_false (ne_of_mem_of_not_mem hk' h)

theorem positionOf?_eq_some_iff {i : Nat} :
    positionOf? ks k = some i ↔ ∃ n : Fin ks.length, n.val = i ∧ ks.get n = k ∧ IsFirst ks n := by
  rw [positionOf?, List.findIdx?_eq_some_iff_getElem]
  constructor
  · rintro ⟨hi, hk, hlt⟩
    have hk : ks.get ⟨i, hi⟩ = k := of_decide_eq_true hk
    refine ⟨⟨i, hi⟩, rfl, hk, fun m hm heq => hlt m hm ?_⟩
    exact decide_eq_true (heq.trans hk)
  · rintro ⟨n, rfl, rfl, hn⟩
    refine ⟨n.isLt, decide_eq_true rfl, fun m hm heq => ?_⟩
    exact hn ⟨m, Nat.lt_trans hm n.isLt⟩ hm (of_decide_eq_true heq)

theorem positionOf?_first (h : IsFirst ks n) : positionOf? ks (ks.get n) = some n.val :=
  positionOf?_eq_some_iff.2 ⟨n, rfl, rfl, h⟩

example : positionOf? [2, 3, 3] 3 = some 1 := by decide

namespace Tuple

theorem isSome_entryOf? (t : Tuple F ks) (h : k ∈ ks) : (t.entryOf? k).isSome := by
  obtain ⟨n, hn⟩ := exists_positionOf? h
  obtain ⟨x, hx⟩ := Columns.exists_entry hn t
  rw [entryOf?, hn, Option.bind_some, hx, Option.bind_some, Columns.cast?_self]
  rfl

theorem entryOf?_eq_none (t : Tuple F ks) (h : k ∉ ks) : t.entryOf? k = none := by
  rw [entryOf?, positionOf?_eq_none h, Option.bind_none]

theorem isSome_entryOf?_iff (t : Tuple F ks) : (t.entryOf? k).isSome ↔ k ∈ ks := by
  refine ⟨fun h => ?_, t.isSome_entryOf?⟩
  by_contra hk
  rw [t.entryOf?_eq_none hk] at h
  cases h

theorem entryOf?_first (t : Tuple F ks) (h : IsFirst ks n) : t.entryOf? (ks.get n) = some (t.get n) := by
  rw [entryOf?, positionOf?_first h, Option.bind_some, entry?_eq, Option.bind_some, Columns.cast?_self]

theorem modifyOf?_first (t : Tuple F ks) (h : IsFirst ks n) (f : F (ks.get n) → F (ks.get n)) :
    t.modifyOf? (ks.get n) f = some (t.updateAt n f) := by
  rw [modifyOf?, positionOf?_first h, Option.map_some, modify_eq_updateAt]
  simp

theorem modifyOf?_absent (t : Tuple F ks) (h : k ∉ ks) (f : F k → F k) : t.modifyOf? k f = none := by
  rw [modifyOf?, positionOf?_eq_none h, Option.map_none]

end Tuple

end EntityStore
