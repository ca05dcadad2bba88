import EntityStore.Component.Kind
import EntityStore.Proofs.Layout.Bounds

/-! Bare layouts, called in any order, are lists of rows. -/

namespace EntityStore

inductive LayoutCall {κ : Type} (El : κ → Type) (ks : List κ) : Type → Type where
  | size : LayoutCall El ks Nat
  | push (row : Row El ks) : LayoutCall El ks Unit
  | swapPop (i : Nat) : LayoutCall El ks (Row El ks)
  | read (i : Nat) : LayoutCall El ks (Row El ks)
  | write (i : Nat) (f : Row El ks → Row El ks) : LayoutCall El ks Unit
  | reserve (extra : Nat) : LayoutCall El ks Unit
  | shrink : LayoutCall El ks Unit
  | clear : LayoutCall El ks Unit

variable {κ α : Type} {El : κ → Type} {ks : List κ} {L : Type} [ColumnLayout L El ks] [Capacious L]

namespace LayoutCall

def run : LayoutCall El ks α → L → Checked (α × L)
  | size, l => .ok (Layout.size l, l)
  | push row, l => (((), ·)) <$> Layout.push l row
  | swapPop i, l => Layout.swapPop l i
  | read i, l => do
    let (c, slot) ← ColumnLayout.locate l i
    let row ← c.read slot
    return (row, l)
  | write i f, l => ColumnLayout.adjust l i fun c slot => (((), ·)) <$> c.update slot f
  | reserve extra, l => (fun _ => ((), l)) <$> Capacious.room l extra
  | shrink, l => .ok ((), l)
  | clear, l => .ok ((), Layout.clear l)

def onRows : LayoutCall El ks α → List (Row El ks) → Option (α × List (Row El ks))
  | size, rows => some (rows.length, rows)
  | push row, rows => some ((), rows ++ [row])
  | swapPop i, rows => rows[i]?.map (·, EntityStore.swapPop rows i)
  | read i, rows => rows[i]?.map (·, rows)
  | write i f, rows => rows[i]?.map fun row => ((), rows.set i (f row))
  | reserve _, rows => some ((), rows)
  | shrink, rows => some ((), rows)
  | clear, _ => some ((), [])

def Reserves : LayoutCall El ks α → Prop
  | reserve _ => True
  | _ => False

def Strays (n : Nat) (f : Fault) : LayoutCall El ks α → Prop
  | swapPop i => n ≤ i ∧ (f = .noElementToSwap n i ∨ f = .noRowToSwap n i)
  | read i | write i _ => n ≤ i ∧ ∃ length index, f = .indexOutOfBounds length index
  | _ => False

theorem not_strays_lastChunkEmpty (n : Nat) (c : LayoutCall El ks α) : ¬ c.Strays n .lastChunkEmpty := by
  cases c with
  | swapPop => simp [Strays]
  | read | write => simp [Strays]
  | _ => exact id

inductive Reaches : L → List (Row El ks) → Prop
  | empty : Reaches Layout.empty []
  | step {l l' : L} {rows rows' : List (Row El ks)} {α : Type} {a b : α} (c : LayoutCall El ks α) :
      Reaches l rows → c.run l = .ok (a, l') → c.onRows rows = some (b, rows') → Reaches l' rows'

structure Refines (c : LayoutCall El ks α) (l : L) (rows : List (Row El ks)) : Prop where
  within {a : α} {rows' : List (Row El ks)} : c.onRows rows = some (a, rows') →
    (c.run l).Ends (fun b => b.1 = a ∧ Reaches b.2 rows') fun f => f.IsOverflow ∧ c.Reserves
  beyond : c.onRows rows = none → ∃ f, c.run l = .error f ∧ c.Strays rows.length f
  no_lastChunkEmpty : c.run l ≠ .error .lastChunkEmpty

open LawfulLayout (Holds)

section Lawful

variable {k : κ} {a : α} {L : Type} [ColumnLayout L El (k :: ks)] [Capacious L] [LawfulColumnLayout L El (k :: ks)]
  {l : L} {rows rows' : List (Row El (k :: ks))} {i : Nat}

theorem read_of_holds {row : Row El (k :: ks)} (h : Holds l rows) (hi : rows[i]? = some row) :
    (read i).run l = .ok (row, l) := by
  obtain ⟨block, slot, hb, hl, -⟩ := LawfulColumnLayout.locate h hi
  simp only [run, hl, Checked.ok_bind, Columns.read_ofRows hb]
  rfl

theorem write_of_holds {row : Row El (k :: ks)} (f : Row El (k :: ks) → Row El (k :: ks)) (h : Holds l rows)
    (hi : rows[i]? = some row) : ∃ l', (write i f).run l = .ok ((), l') ∧ Holds l' (rows.set i (f row)) := by
  obtain ⟨block, slot, hb, -, hadjust⟩ := LawfulColumnLayout.locate h hi
  apply hadjust
  simp only [Columns.update_ofRows f hb, Checked.map_ok]

variable [BoundedLayout L El (k :: ks)]

theorem run_within [LawfulCapacity L] (c : LayoutCall El (k :: ks) α) (h : Holds l rows)
    (hc : c.onRows rows = some (a, rows')) :
    (c.run l).Ends (fun b => b.1 = a ∧ Holds b.2 rows') fun f => f.IsOverflow ∧ c.Reserves := by
  cases c with
  | size =>
    cases hc
    exact ⟨BoundedLayout.size_eq h, h⟩
  | push row =>
    cases hc
    obtain ⟨l', hl, h'⟩ := LawfulLayout.push row h
    rw [run, hl]
    exact ⟨rfl, h'⟩
  | swapPop i =>
    obtain ⟨row, hi, ha⟩ := Option.map_eq_some_iff.1 hc
    cases ha
    obtain ⟨l', hl, h'⟩ := LawfulLayout.swapPop h hi
    rw [run, hl]
    exact ⟨rfl, h'⟩
  | read i =>
    obtain ⟨row, hi, ha⟩ := Option.map_eq_some_iff.1 hc
    cases ha
    rw [read_of_holds h hi]
    exact ⟨rfl, h⟩
  | write i f =>
    obtain ⟨row, hi, ha⟩ := Option.map_eq_some_iff.1 hc
    cases ha
    obtain ⟨l', hl, h'⟩ := write_of_holds f h hi
    rw [hl]
    exact ⟨rfl, h'⟩
  | reserve extra =>
    cases hc
    have hroom := LawfulCapacity.room_ends l extra
    rw [run]
    cases hr : Capacious.room l extra with
    | ok => exact ⟨rfl, h⟩
    | error f =>
      rw [hr] at hroom
      exact ⟨hroom, trivial⟩
  | shrink =>
    cases hc
    exact ⟨rfl, h⟩
  | clear =>
    cases hc
    exact ⟨rfl, LawfulLayout.holds_clear h⟩

theorem read_beyond (h : Holds l rows) (hi : rows[i]? = none) :
    ∃ length index, (read i).run l = .error (.indexOutOfBounds length index) := by
  rcases BoundedLayout.locate h hi with ⟨length, index, hl, -⟩ | ⟨block, slot, hb, hl, -⟩
  · refine ⟨length, index, ?_⟩
    rw [run, hl]
    rfl
  · refine ⟨block.length, slot, ?_⟩
    simp only [run, hl, Checked.ok_bind, Columns.read_of_none hb]
    rfl

theorem write_beyond (f : Row El (k :: ks) → Row El (k :: ks)) (h : Holds l rows) (hi : rows[i]? = none) :
    ∃ length index, (write i f).run l = .error (.indexOutOfBounds length index) := by
  rcases BoundedLayout.locate h hi with ⟨length, index, -, hadjust⟩ | ⟨block, slot, hb, -, hadjust⟩
  · exact ⟨length, index, hadjust _⟩
  · refine ⟨block.length, slot, hadjust ?_⟩
    simp only [Columns.update_of_none f hb, Checked.map_error]

theorem run_beyond (c : LayoutCall El (k :: ks) α) (h : Holds l rows) (hc : c.onRows rows = none) :
    ∃ f, c.run l = .error f ∧ c.Strays rows.length f := by
  cases c with
  | size | push | reserve | shrink | clear => cases hc
  | swapPop i =>
    have hi := Option.map_eq_none_iff.1 hc
    obtain ⟨f, hf, hstray⟩ := BoundedLayout.swapPop h hi
    exact ⟨f, hf, List.getElem?_eq_none_iff.1 hi, hstray⟩
  | read i =>
    have hi := Option.map_eq_none_iff.1 hc
    obtain ⟨length, index, hf⟩ := read_beyond h hi
    exact ⟨_, hf, List.getElem?_eq_none_iff.1 hi, length, index, rfl⟩
  | write i f =>
    have hi := Option.map_eq_none_iff.1 hc
    obtain ⟨length, index, hf⟩ := write_beyond f h hi
    exact ⟨_, hf, List.getElem?_eq_none_iff.1 hi, length, index, rfl⟩

variable [LawfulCapacity L]

theorem Reaches.holds (h : Reaches l rows) : Holds l rows := by
  induction h with
  | empty => exact LawfulLayout.holds_empty
  | step c _ ho hc ih =>
    have hends := c.run_within ih hc
    rw [ho] at hends
    exact hends.2

theorem Reaches.refines (h : Reaches l rows) (c : LayoutCall El (k :: ks) α) : c.Refines l rows where
  within {a rows'} hc := by
    have hends := c.run_within h.holds hc
    cases ho : c.run l with
    | ok b =>
      rw [ho] at hends
      exact ⟨hends.1, h.step c ho hc⟩
    | error f =>
      rw [ho] at hends
      exact hends
  beyond := c.run_beyond h.holds
  no_lastChunkEmpty ho := by
    cases hc : c.onRows rows with
    | some b =>
      have hends := c.run_within h.holds hc
      rw [ho] at hends
      rcases hends.1 with hf | hf
      · cases hf
      · cases hf
    | none =>
      obtain ⟨f, hf, hstray⟩ := c.run_beyond h.holds hc
      obtain rfl := Except.error.inj (ho.symm.trans hf)
      exact c.not_strays_lastChunkEmpty _ hstray

end Lawful

instance : Chunked.Fits Kind.Value [.word8] 1 := ⟨by decide⟩

end LayoutCall

end EntityStore
