import EntityStore.Component.Kind
import EntityStore.Proofs.Layout.Bounds
import EntityStore.Proofs.Layout.Kinds

/-! Column sets, called in any order, are lists of tuples. A call goes to each column on its own; the tuples stay whole
because the columns are of one length all along. -/

namespace EntityStore

inductive ColumnsCall {κ : Type} (El : κ → Type) (ks : List κ) : Type → Type where
  | push (row : Row El ks) : ColumnsCall El ks Unit
  | pop : ColumnsCall El ks (Option (Row El ks))
  | swapPop (i : Nat) : ColumnsCall El ks (Row El ks)
  | replace (i : Nat) (row : Row El ks) : ColumnsCall El ks (Row El ks)
  | read (i : Nat) : ColumnsCall El ks (Row El ks)
  | write (i : Nat) (f : Row El ks → Row El ks) : ColumnsCall El ks Unit
  | reserve (extra : Nat) : ColumnsCall El ks Unit
  | shrink : ColumnsCall El ks Unit
  | clear : ColumnsCall El ks Unit

variable {κ α : Type} {El : κ → Type} {k : κ} {ks : List κ}

namespace ColumnsCall

def onRows : ColumnsCall El ks α → List (Row El ks) → Option (α × List (Row El ks))
  | push row, rows => some ((), rows ++ [row])
  | pop, rows => some (rows.getLast?, rows.dropLast)
  | swapPop i, rows => rows[i]?.map (·, EntityStore.swapPop rows i)
  | replace i row, rows => rows[i]?.map (·, rows.set i row)
  | read i, rows => rows[i]?.map (·, rows)
  | write i f, rows => rows[i]?.map fun row => ((), rows.set i (f row))
  | reserve _, rows => some ((), rows)
  | shrink, rows => some ((), rows)
  | clear, _ => some ((), [])

def stray? (n : Nat) : ColumnsCall El ks α → Option Fault
  | swapPop i => if n ≤ i then some (.noElementToSwap n i) else none
  | replace i _ | read i | write i _ => if n ≤ i then some (.indexOutOfBounds n i) else none
  | _ => none

def Reserves : ColumnsCall El ks α → Prop
  | reserve _ => True
  | _ => False

theorem stray?_of_onRows {c : ColumnsCall El ks α} {rows : List (Row El ks)} {b : α × List (Row El ks)}
    (h : c.onRows rows = some b) : c.stray? rows.length = none := by
  cases c with
  | swapPop i | replace i | read i | write i =>
    obtain ⟨row, hi, -⟩ := Option.map_eq_some_iff.1 h
    exact if_neg (Nat.not_le.2 (List.getElem?_eq_some_iff.1 hi).1)
  | _ => rfl

variable [∀ k, Footprint (El k)]

def run : ColumnsCall El ks α → Columns El ks → Checked (α × Columns El ks)
  | push row, c => .ok ((), c.push row)
  | pop, c => .ok c.popRow?
  | swapPop i, c => c.swapPop i
  | replace i row, c => c.replace i row
  | read i, c => (·, c) <$> c.read i
  | write i f, c => (((), ·)) <$> c.update i f
  | reserve extra, c => (fun _ => ((), c)) <$> c.room extra
  | shrink, c => .ok ((), c)
  | clear, c => .ok ((), c.clear)

inductive Reaches : Columns El ks → List (Row El ks) → Prop
  | start {n : Nat} {cols : Columns El ks} : Columns.withCapacity ks n = .ok cols → Reaches cols []
  | step {cols cols' : Columns El ks} {rows rows' : List (Row El ks)} {α : Type} {a b : α} (c : ColumnsCall El ks α) :
      Reaches cols rows → c.run cols = .ok (a, cols') → c.onRows rows = some (b, rows') → Reaches cols' rows'

structure Refines (c : ColumnsCall El ks α) (cols : Columns El ks) (rows : List (Row El ks)) : Prop where
  within {a : α} {rows' : List (Row El ks)} : c.onRows rows = some (a, rows') →
    (c.run cols).Ends (fun b => b.1 = a ∧ Reaches b.2 rows') fun f => f.IsOverflow ∧ c.Reserves
  faults_iff {f : Fault} : ¬ c.Reserves → (c.run cols = .error f ↔ c.stray? rows.length = some f)

end ColumnsCall

namespace Columns

/-- The columns are of one length, and the tuples lie across them. -/
structure Carries (cols : Columns El ks) (rows : List (Row El ks)) : Prop where
  rowCount : cols.rowCount = rows.length
  size (n : Fin ks.length) : (cols.get n).size = rows.length
  column (n : Fin ks.length) : (cols.get n).toList = rows.map (·.get n)
  across : (List.range cols.rowCount).map cols.read = rows.map .ok

structure Addressed [DecidableEq κ] (cols : Columns El ks) : Prop where
  position {k : κ} {i : Nat} :
    positionOf? ks k = some i ↔ ∃ n : Fin ks.length, n.val = i ∧ ks.get n = k ∧ IsFirst ks n
  cast {k : κ} {i : Nat} : positionOf? ks k = some i → ((cols.entry? i).bind (cast? k)).isSome
  first {n : Fin ks.length} : IsFirst ks n → cols.entryOf? (ks.get n) = some (cols.get n) ∧
    ∀ f, cols.modifyOf? (ks.get n) f = some (cols.updateAt n f)
  absent {k : κ} : cols.entryOf? k = none ↔ k ∉ ks

theorem carries_ofRows (rows : List (Row El (k :: ks))) : (ofRows rows).Carries rows where
  rowCount := rowCount_ofRows rows
  size := size_get_ofRows rows
  column := toList_get_ofRows rows
  across := by rw [rowCount_ofRows, map_read_ofRows]

theorem addressed [DecidableEq κ] (cols : Columns El ks) : cols.Addressed where
  position := positionOf?_eq_some_iff
  cast {k i} h := by
    obtain ⟨a, ha⟩ := exists_entry h cols
    rw [ha, Option.bind_some, cast?_self]
    rfl
  first h := ⟨cols.entryOf?_first h, cols.modifyOf?_first h⟩
  absent {k} := by rw [← Option.not_isSome_iff_eq_none, cols.isSome_entryOf?_iff]

theorem popRow?_nil : (ofRows ([] : List (Row El (k :: ks)))).popRow? = (none, ofRows []) := by
  have hcount : (ofRows ([] : List (Row El (k :: ks)))).rowCount = 0 := rowCount_ofRows []
  rw [popRow?, if_pos hcount]

theorem replace_of_none {rows : List (Row El (k :: ks))} {i : Nat} (row : Row El (k :: ks)) (h : rows[i]? = none) :
    (ofRows rows).replace i row = .error (.indexOutOfBounds rows.length i) := by
  have hx : (rows.map Tuple.head)[i]? = none := by simpa using h
  cases row with
  | cons x t =>
    rw [ofRows, replace, Column.update_of_none _ hx, List.length_map]
    rfl

theorem withCapacity_eq_ok [∀ k, Footprint (El k)] {n : Nat} {cols : Columns El ks}
    (h : withCapacity ks n = .ok cols) : cols = ofRows [] := by
  rw [withCapacity] at h
  cases hr : (empty ks : Columns El ks).room n with
  | error f =>
    rw [hr] at h
    cases h
  | ok =>
    rw [hr] at h
    cases h
    exact empty_eq

end Columns

namespace ColumnsCall

variable [∀ k, Footprint (El k)] {a : α} {rows rows' : List (Row El (k :: ks))} {cols : Columns El (k :: ks)}

open Columns (ofRows)

theorem run_within (c : ColumnsCall El (k :: ks) α) (h : c.onRows rows = some (a, rows')) :
    (c.run (ofRows rows)).Ends (· = (a, ofRows rows')) fun f => f.IsOverflow ∧ c.Reserves := by
  cases c with
  | push row =>
    cases h
    exact congrArg (Prod.mk ()) (Columns.push_ofRows rows row)
  | pop =>
    cases h
    rcases List.eq_nil_or_concat rows with rfl | ⟨rows, row, rfl⟩
    · exact Columns.popRow?_nil
    · rw [List.concat_eq_append, List.getLast?_concat, List.dropLast_concat]
      exact Columns.popRow?_ofRows rows row
  | swapPop i =>
    obtain ⟨row, hi, ha⟩ := Option.map_eq_some_iff.1 h
    cases ha
    rw [run, Columns.swapPop_ofRows hi]
    rfl
  | replace i y =>
    obtain ⟨row, hi, ha⟩ := Option.map_eq_some_iff.1 h
    cases ha
    rw [run, Columns.replace_ofRows y hi]
    rfl
  | read i =>
    obtain ⟨row, hi, ha⟩ := Option.map_eq_some_iff.1 h
    cases ha
    rw [run, Columns.read_ofRows hi]
    rfl
  | write i f =>
    obtain ⟨row, hi, ha⟩ := Option.map_eq_some_iff.1 h
    cases ha
    rw [run, Columns.update_ofRows f hi]
    rfl
  | reserve extra =>
    cases h
    have hroom := (ofRows rows).room_ends extra
    rw [run]
    cases hr : (ofRows rows).room extra with
    | ok => rfl
    | error f =>
      rw [hr] at hroom
      exact ⟨hroom, trivial⟩
  | shrink =>
    cases h
    rfl
  | clear =>
    cases h
    exact congrArg (Prod.mk ()) (Columns.clear_eq _)

theorem run_beyond (c : ColumnsCall El (k :: ks) α) (h : c.onRows rows = none) :
    ∃ f, c.run (ofRows rows) = .error f ∧ c.stray? rows.length = some f := by
  cases c with
  | push | pop | reserve | shrink | clear => cases h
  | swapPop i =>
    have hi := Option.map_eq_none_iff.1 h
    exact ⟨_, Columns.swapPop_of_none hi, if_pos (List.getElem?_eq_none_iff.1 hi)⟩
  | replace i y =>
    have hi := Option.map_eq_none_iff.1 h
    exact ⟨_, Columns.replace_of_none y hi, if_pos (List.getElem?_eq_none_iff.1 hi)⟩
  | read i =>
    have hi := Option.map_eq_none_iff.1 h
    exact ⟨_, by rw [run, Columns.read_of_none hi, Checked.map_error], if_pos (List.getElem?_eq_none_iff.1 hi)⟩
  | write i f =>
    have hi := Option.map_eq_none_iff.1 h
    exact ⟨_, by rw [run, Columns.update_of_none f hi, Checked.map_error], if_pos (List.getElem?_eq_none_iff.1 hi)⟩

theorem Reaches.eq_ofRows (h : Reaches cols rows) : cols = ofRows rows := by
  induction h with
  | start h => exact Columns.withCapacity_eq_ok h
  | step c _ ho hc ih =>
    have hends := c.run_within hc
    rw [← ih, ho] at hends
    cases hends
    rfl

theorem Reaches.refines (h : Reaches cols rows) (c : ColumnsCall El (k :: ks) α) : c.Refines cols rows where
  within {a rows'} hc := by
    have hends := c.run_within hc
    rw [← h.eq_ofRows] at hends
    cases ho : c.run cols with
    | error f =>
      rw [ho] at hends
      exact hends
    | ok b =>
      rw [ho] at hends
      cases hends
      exact ⟨rfl, h.step c ho hc⟩
  faults_iff {f} hr := by
    cases hc : c.onRows rows with
    | none =>
      obtain ⟨f', ho, hs⟩ := c.run_beyond hc
      rw [h.eq_ofRows, ho, hs]
      simp
    | some b =>
      have hends := c.run_within hc
      rw [← h.eq_ofRows] at hends
      rw [stray?_of_onRows hc]
      refine ⟨fun ho => ?_, fun hs => nomatch hs⟩
      rw [ho] at hends
      exact absurd hends.2 hr

end ColumnsCall

/-- Wherever calls lead, the columns of an archetype are one list of tuples, each of them found by its kind, and the
next call does to all of them what it does to the list. -/
theorem columns_refine_tuples [∀ k, Footprint (El k)] [DecidableEq κ] (k : κ) (ks : List κ)
    {cols : Columns El (k :: ks)} {rows : List (Row El (k :: ks))} (h : ColumnsCall.Reaches cols rows) :
    cols.Carries rows ∧ cols.Addressed ∧ ∀ {α : Type} (c : ColumnsCall El (k :: ks) α), c.Refines cols rows :=
  ⟨h.eq_ofRows ▸ Columns.carries_ofRows rows, cols.addressed, fun c => h.refines c⟩

def byteRow (n : UInt8) : Row Kind.Value [.word8, .flag, .word8] := .cons n (.cons true (.cons (10 * n) .nil))

theorem columns_refine_tuples_bytes : ∃ cols : Columns Kind.Value [.word8, .flag, .word8],
    ColumnsCall.Reaches cols [byteRow 4, byteRow 2, byteRow 3] ∧
    cols.Carries [byteRow 4, byteRow 2, byteRow 3] ∧ cols.entryOf? Kind.word8 = some #[4, 2, 3] ∧ cols.Addressed ∧
    (ColumnsCall.swapPop 1).Refines cols [byteRow 4, byteRow 2, byteRow 3] := by
  have h : ∃ cols : Columns Kind.Value [.word8, .flag, .word8],
      ColumnsCall.Reaches cols [byteRow 4, byteRow 2, byteRow 3] ∧ cols.entryOf? Kind.word8 = some #[4, 2, 3] :=
    ⟨_, .step (.swapPop 0)
      (.step (.push (byteRow 4))
      (.step (.push (byteRow 3))
      (.step (.push (byteRow 2))
      (.step (.push (byteRow 1))
      (.start (n := 2) rfl) rfl rfl) rfl rfl) rfl rfl) rfl rfl) rfl rfl, rfl⟩
  obtain ⟨cols, h, hk⟩ := h
  obtain ⟨hc, ha, hr⟩ := columns_refine_tuples Kind.word8 [.flag, .word8] h
  exact ⟨cols, h, hc, hk, ha, hr (.swapPop 1)⟩

end EntityStore
