import EntityStore.Proofs.Outcome
import EntityStore.Storage

/-! Walks from both ends, as lists of the ends that are asked. A walk that reads as it goes gives what is at the
positions that its cursor hands out. -/

namespace EntityStore

namespace Cursor

variable {β : Type} {c : Cursor} {n : Nat}

def pick (c : Cursor) : End → Option Nat × Cursor
  | .front => c.next
  | .back => c.nextBack

def walk (c : Cursor) : List End → List (Option Nat)
  | [] => []
  | e :: ends => (c.pick e).1 :: (c.pick e).2.walk ends

theorem pick_met (h : c.back ≤ c.front) (e : End) : c.pick e = (none, c) := by
  cases e with
  | front => exact if_pos h
  | back => exact if_pos h

theorem pick_front (h : c.front < c.back) : c.pick .front = (some c.front, { c with front := c.front + 1 }) :=
  if_neg (Nat.not_le.2 h)

theorem pick_back (h : c.front < c.back) : c.pick .back = (some (c.back - 1), { c with back := c.back - 1 }) :=
  if_neg (Nat.not_le.2 h)

theorem pick_lt (e : End) {i : Nat} (hi : (c.pick e).1 = some i) : i < c.back := by
  cases e with
  | front =>
    rw [pick, next] at hi
    split at hi
    · cases hi
    · cases hi
      omega
  | back =>
    rw [pick, nextBack] at hi
    split at hi
    · cases hi
    · cases hi
      omega

theorem pick_back_le (c : Cursor) (e : End) : (c.pick e).2.back ≤ c.back := by
  cases e with
  | front =>
    rw [pick, next]
    split
    · exact Nat.le_refl _
    · exact Nat.le_refl _
  | back =>
    rw [pick, nextBack]
    split
    · exact Nat.le_refl _
    · exact Nat.sub_le _ _

theorem walk_front (c : Cursor) (m : Nat) : c.walk (List.replicate m .front) =
    (List.range m).map fun j => if c.front + j < c.back then some (c.front + j) else none := by
  induction m generalizing c with
  | zero => rfl
  | succ m ih =>
    rw [List.replicate_succ, walk, pick, ih, List.range_succ_eq_map, List.map_cons, List.map_map, next, Nat.add_zero]
    split
    · rename_i hle
      have hnone : ∀ j, ¬ c.front + j < c.back := fun j => by omega
      simp [Function.comp_def, hnone, Nat.not_lt.2 hle]
    · rename_i hle
      simp [Function.comp_def, Nat.lt_of_not_le hle, Nat.add_assoc, Nat.add_comm 1]

def fetch (read : Nat → Checked β) : Option Nat × Cursor → Checked (Option β × Cursor)
  | (none, c) => .ok (none, c)
  | (some i, c) => (fun x => (some x, c)) <$> read i

theorem fetch_pick {read : Nat → Checked β} {get : Nat → Option β}
    (h : ∀ i, i < n → ∃ x, read i = .ok x ∧ get i = some x) (hc : c.back ≤ n) (e : End) :
    fetch read (c.pick e) = .ok ((c.pick e).1.bind get, (c.pick e).2) := by
  have hlt : ∀ i, (c.pick e).1 = some i → i < c.back := fun _ => pick_lt e
  generalize c.pick e = p at hlt ⊢
  rcases p with ⟨_ | i, c'⟩
  · rfl
  · obtain ⟨x, hx, hg⟩ := h i (Nat.lt_of_lt_of_le (hlt i rfl) hc)
    rw [fetch, hx, Option.bind_some, hg]
    rfl

theorem walkBy_eq {next : Cursor → End → Checked (Option β × Cursor)} {get : Nat → Option β}
    (hnext : ∀ (c : Cursor) (e : End), c.back ≤ n → next c e = .ok ((c.pick e).1.bind get, (c.pick e).2))
    (hc : c.back ≤ n) (ends : List End) : c.walkBy next ends = .ok ((c.walk ends).map (·.bind get)) := by
  induction ends generalizing c with
  | nil => rfl
  | cons e ends ih =>
    have hrest := ih (Nat.le_trans (c.pick_back_le e) hc)
    simp only [walkBy, walk, List.map_cons, hnext c e hc, Checked.ok_bind, hrest]
    rfl

def updates : Cursor → List (End × (β → β)) → Nat → β → β
  | _, [], _, x => x
  | c, (e, f) :: ends, i, x => (c.pick e).2.updates ends i (if (c.pick e).1 = some i then f x else x)

end Cursor

end EntityStore
