import EntityStore.Fault

/-! One column: an array whose reads and removals fault outside of it. The last element moves into a hole. -/

namespace EntityStore.Column

variable {α : Type}

def read (a : Array α) (i : Nat) : Checked α :=
  match a[i]? with
  | some x => .ok x
  | none => .error (.indexOutOfBounds a.size i)

def update (a : Array α) (i : Nat) (f : α → α) : Checked (α × Array α) :=
  match a[i]? with
  | some x => .ok (x, a.setIfInBounds i (f x))
  | none => .error (.indexOutOfBounds a.size i)

def swapPop (a : Array α) (i : Nat) : Checked (α × Array α) :=
  match a[i]?, a.back? with
  | some x, some last => .ok (x, (a.setIfInBounds i last).pop)
  | _, _ => .error (.noElementToSwap a.size i)

theorem read_eq_ok_iff {a : Array α} {i : Nat} {x : α} : read a i = .ok x ↔ a[i]? = some x := by
  unfold read; split <;> simp_all

theorem swapPop_of_le {a : Array α} {i : Nat} (h : a.size ≤ i) :
    swapPop a i = .error (.noElementToSwap a.size i) := by
  have hi : a[i]? = none := by simp [h]
  simp [swapPop, hi]

end EntityStore.Column

namespace EntityStore

class Layout (L : Type) (ρ : outParam Type) where
  empty : L
  size : L → Nat
  push : L → ρ → Checked L
  swapPop : L → Nat → Checked (ρ × L)
  read : L → Nat → Checked ρ
  update : L → Nat → (ρ → ρ) → Checked L
  clear : L → L

class Capacious (L : Type) where
  room : L → Nat → Checked Unit

instance {α : Type} : Layout (Array α) α where
  empty := #[]
  size a := a.size
  push a x := .ok (a.push x)
  swapPop := Column.swapPop
  read := Column.read
  update a i f := (·.2) <$> Column.update a i f
  clear _ := #[]

instance {α : Type} [Footprint α] : Capacious (Array α) :=
  ⟨fun a extra => checkRoom a.size extra (Footprint.bytes α)⟩

end EntityStore
