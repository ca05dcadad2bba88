import EntityStore.Archetype.Layout
import EntityStore.Proofs.Layout.Lawful

/-! Column sets as transposed lists of rows. What is done to every column is done to the list of rows. -/

namespace EntityStore

variable {κ : Type} {El : κ → Type} {ks : List κ}

namespace Tuple

variable {F : κ → Type} {k : κ}

def head : Tuple F (k :: ks) → F k
  | cons x _ => x

def tail : Tuple F (k :: ks) → Tuple F ks
  | cons _ t => t

@[simp] theorem head_cons (x : F k) (t : Tuple F ks) : (cons x t).head = x := rfl

@[simp] theorem tail_cons (x : F k) (t : Tuple F ks) : (cons x t).tail = t := rfl

@[simp] theorem cons_head_tail (t : Tuple F (k :: ks)) : cons t.head t.tail = t := by
  cases t
  rfl

theorem mapIdx_eq {G : κ → Type} (f : Nat → (k : κ) → F k → G k) (t : Tuple F (k :: ks)) :
    t.mapIdx f = cons (f 0 k t.head) (t.tail.mapIdx fun n => f (n + 1)) := by
  cases t
  rfl

theorem modify_zero (f : (k : κ) → F k → F k) (t : Tuple F (k :: ks)) : t.modify f 0 = cons (f k t.head) t.tail := by
  cases t
  rfl

theorem modify_succ (f : (k : κ) → F k → F k) (t : Tuple F (k :: ks)) (n : Nat) :
    t.modify f (n + 1) = cons t.head (t.tail.modify f n) := by
  cases t
  rfl

end Tuple

namespace Columns

def ofRows : {ks : List κ} → List (Row El ks) → Columns El ks
  | [], _ => .nil
  | _ :: _, rows => .cons (rows.map Tuple.head).toArray (ofRows (rows.map Tuple.tail))

variable {rows : List (Row El ks)} {i : Nat} {row : Row El ks}

section Heads

variable {k : κ} {rows : List (Row El (k :: ks))} {row : Row El (k :: ks)}

theorem getElem?_heads (h : rows[i]? = some row) : (rows.map Tuple.head)[i]? = some row.head := by
  rw [List.getElem?_map, h, Option.map_some]

theorem getElem?_tails (h : rows[i]? = some row) : (rows.map Tuple.tail)[i]? = some row.tail := by
  rw [List.getElem?_map, h, Option.map_some]

end Heads

theorem rowCount_ofRows {k : κ} (rows : List (Row El (k :: ks))) : (ofRows rows).rowCount = rows.length := by
  simp [ofRows, rowCount]

theorem empty_eq : empty ks = (ofRows [] : Columns El ks) := by
  induction ks with
  | nil => rfl
  | cons k ks ih =>
    rw [empty, Tuple.ofFun, ← empty, ih]
    rfl

theorem clear_eq (c : Columns El ks) : c.clear = ofRows [] := by
  induction ks with
  | nil =>
    cases c
    rfl
  | cons k ks ih =>
    cases c with
    | cons a t =>
      rw [clear, Tuple.map, ← clear, ih]
      rfl

theorem push_ofRows (rows : List (Row El ks)) (row : Row El ks) :
    (ofRows rows).push row = ofRows (rows ++ [row]) := by
  induction ks with
  | nil =>
    cases row
    rfl
  | cons k ks ih =>
    cases row with
    | cons x t =>
      rw [ofRows, push, Tuple.zipWith, ← push, ih]
      simp [ofRows]

theorem read_ofRows (h : rows[i]? = some row) : (ofRows rows).read i = .ok row := by
  induction ks with
  | nil =>
    cases row
    rfl
  | cons k ks ih =>
    have hx := getElem?_heads h
    have ht := getElem?_tails h
    rw [ofRows, read, Column.read_toArray hx, Checked.ok_bind, ih ht, Checked.ok_bind]
    exact congrArg _ row.cons_head_tail

theorem map_read_ofRows (rows : List (Row El ks)) :
    (List.range rows.length).map (ofRows rows).read = rows.map .ok := by
  apply List.ext_getElem?
  intro i
  by_cases hi : i < rows.length
  · have hread := read_ofRows (List.getElem?_eq_getElem hi)
    simp [hi, hread]
  · simp [hi]

theorem swapPop_ofRows (h : rows[i]? = some row) :
    (ofRows rows).swapPop i = .ok (row, ofRows (EntityStore.swapPop rows i)) := by
  induction ks with
  | nil =>
    cases row
    rfl
  | cons k ks ih =>
    have hx := getElem?_heads h
    have ht := getElem?_tails h
    rw [ofRows, swapPop, Column.swapPop_toArray hx, Checked.ok_bind]
    simp only [ih ht, Checked.ok_bind]
    rw [← map_swapPop, ← map_swapPop, Tuple.cons_head_tail]
    rfl

theorem replace_ofRows (y : Row El ks) (h : rows[i]? = some row) :
    (ofRows rows).replace i y = .ok (row, ofRows (rows.set i y)) := by
  induction ks with
  | nil =>
    cases row
    cases y
    rfl
  | cons k ks ih =>
    have hx := getElem?_heads h
    have ht := getElem?_tails h
    cases y with
    | cons x t =>
      rw [ofRows, replace, Column.update_toArray _ hx, Checked.ok_bind]
      simp only [ih t ht, Checked.ok_bind]
      rw [Tuple.cons_head_tail, ofRows, List.map_set, List.map_set]
      rfl

theorem update_ofRows (f : Row El ks → Row El ks) (h : rows[i]? = some row) :
    (ofRows rows).update i f = .ok (ofRows (rows.set i (f row))) := by
  rw [update, read_ofRows h, Checked.ok_bind, replace_ofRows _ h]
  rfl

theorem pop?_ofRows (rows : List (Row El ks)) (row : Row El ks) :
    (ofRows (rows ++ [row])).pop? = (some row, ofRows rows) := by
  induction ks with
  | nil =>
    cases row
    rfl
  | cons k ks ih =>
    have hx : ((rows ++ [row]).map Tuple.head).toArray.back? = some row.head := by simp
    have ht : (rows ++ [row]).map Tuple.tail = rows.map Tuple.tail ++ [row.tail] := by simp
    rw [ofRows, pop?]
    simp only [hx]
    rw [ht, ih, ofRows]
    simp

theorem popRow?_ofRows {k : κ} (rows : List (Row El (k :: ks))) (row : Row El (k :: ks)) :
    (ofRows (rows ++ [row])).popRow? = (some row, ofRows rows) := by
  rw [popRow?, rowCount_ofRows, if_neg (by simp), pop?_ofRows]

theorem room_ends [∀ k, Footprint (El k)] (c : Columns El ks) (extra : Nat) :
    (c.room extra).Ends (fun _ => True) Fault.IsOverflow := by
  induction ks with
  | nil =>
    cases c
    trivial
  | cons k ks ih =>
    cases c with
    | cons a t => exact (checkRoom_ends a.size extra _).bind fun _ _ => ih t

theorem mapCells_ofRows (f : Nat → Nat → (k : κ) → El k → El k) (rows : List (Row El ks)) :
    (ofRows rows).mapCells f = ofRows (rows.mapIdx fun i row => row.mapIdx fun n k x => f n i k x) := by
  induction ks generalizing f with
  | nil => rfl
  | cons k ks ih =>
    have ht := ih (fun n => f (n + 1)) (rows.map Tuple.tail)
    rw [mapCells] at ht
    rw [ofRows, ofRows, mapCells, Tuple.mapIdx, ht, mapIdx_map, map_mapIdx, map_mapIdx, List.mapIdx_toArray,
      mapIdx_map]
    simp only [Tuple.mapIdx_eq, Tuple.head_cons, Tuple.tail_cons]

theorem entry?_ofRows (h : rows[i]? = some row) (n : Nat) :
    row.entry? n = none ∧ Tuple.entry? (ofRows rows) n = none ∨ ∃ (k : κ) (a : List (El k)) (x : El k),
      Tuple.entry? (ofRows rows) n = some ⟨k, a.toArray⟩ ∧ row.entry? n = some ⟨k, x⟩ ∧ a[i]? = some x := by
  induction ks generalizing n with
  | nil =>
    cases row
    exact .inl ⟨rfl, rfl⟩
  | cons k ks ih =>
    have hx := getElem?_heads h
    have ht := getElem?_tails h
    cases row with
    | cons x t =>
      cases n with
      | zero => exact .inr ⟨k, _, x, rfl, rfl, hx⟩
      | succ n => exact ih ht n

theorem toList_get_ofRows (rows : List (Row El ks)) (n : Fin ks.length) :
    ((ofRows rows).get n).toList = rows.map (·.get n) := by
  induction ks with
  | nil => exact n.elim0
  | cons k ks ih =>
    obtain ⟨n, hn⟩ := n
    cases n with
    | zero =>
      apply List.map_congr_left
      intro row _
      cases row
      rfl
    | succ n =>
      have ht := ih (rows.map Tuple.tail) ⟨n, Nat.lt_of_succ_lt_succ hn⟩
      rw [List.map_map] at ht
      refine ht.trans (List.map_congr_left fun row _ => ?_)
      cases row
      rfl

theorem size_get_ofRows (rows : List (Row El ks)) (n : Fin ks.length) : ((ofRows rows).get n).size = rows.length := by
  rw [← Array.length_toList, toList_get_ofRows, List.length_map]

theorem get_ofRows (h : rows[i]? = some row) (n : Fin ks.length) :
    ∃ a : List (El (ks.get n)), (ofRows rows).get n = a.toArray ∧ a[i]? = some (row.get n) := by
  refine ⟨rows.map (·.get n), ?_, by rw [List.getElem?_map, h, Option.map_some]⟩
  rw [← toList_get_ofRows, Array.toArray_toList]

theorem modify_ofRows {n : Nat} {g : (k : κ) → Array (El k) → Array (El k)} {e : (k : κ) → El k → El k}
    (h : rows[i]? = some row)
    (hg : ∀ (k : κ) (a : List (El k)) (x : El k), Tuple.entry? (ofRows rows) n = some ⟨k, a.toArray⟩ →
      a[i]? = some x → g k a.toArray = (a.set i (e k x)).toArray) :
    (ofRows rows).modify g n = ofRows (rows.set i (row.modify e n)) := by
  induction ks generalizing n with
  | nil =>
    cases row
    rfl
  | cons k ks ih =>
    have hx := getElem?_heads h
    have ht := getElem?_tails h
    cases n with
    | zero =>
      have hgx := hg k _ _ rfl hx
      simp only [Tuple.modify_zero, ofRows, Tuple.head_cons, Tuple.tail_cons, List.map_set, set_map_self h, hgx]
    | succ n =>
      simp only [Tuple.modify_succ, ofRows, Tuple.head_cons, Tuple.tail_cons, List.map_set, set_map_self h, ih ht hg]

theorem modify_mapIdx_ofRows (n : Nat) (e : Nat → (k : κ) → El k → El k) (rows : List (Row El ks)) :
    (ofRows rows).modify (fun k a => a.mapIdx fun i x => e i k x) n =
      ofRows (rows.mapIdx fun i row => row.modify (e i) n) := by
  induction ks generalizing n with
  | nil => rfl
  | cons k ks ih =>
    cases n with
    | zero =>
      rw [ofRows, ofRows, Tuple.modify, map_mapIdx, map_mapIdx, List.mapIdx_toArray, mapIdx_map]
      simp only [Tuple.modify_zero, Tuple.head_cons, Tuple.tail_cons, mapIdx_const]
    | succ n =>
      rw [ofRows, ofRows, Tuple.modify, map_mapIdx, map_mapIdx, ih, mapIdx_map]
      simp only [Tuple.modify_succ, Tuple.head_cons, Tuple.tail_cons, mapIdx_const]

section Kinds

variable [DecidableEq κ] {k : κ} {n : Nat}

theorem exists_entry (h : positionOf? ks k = some n) {F : κ → Type} (t : Tuple F ks) :
    ∃ x : F k, t.entry? n = some ⟨k, x⟩ := by
  induction ks generalizing n with
  | nil => cases h
  | cons k' ks ih =>
    rw [positionOf?, List.findIdx?_cons] at h
    cases t with
    | cons x t =>
      split at h
      · rename_i hk
        obtain rfl := of_decide_eq_true hk
        cases h
        exact ⟨x, rfl⟩
      · obtain ⟨m, hm, rfl⟩ := Option.map_eq_some_iff.1 h
        exact ih hm t

theorem exists_cell (h : rows[i]? = some row) (hp : positionOf? ks k = some n) :
    ∃ (a : List (El k)) (x : El k),
      Tuple.entry? (ofRows rows) n = some ⟨k, a.toArray⟩ ∧ row.entry? n = some ⟨k, x⟩ ∧ a[i]? = some x := by
  obtain ⟨y, hy⟩ := exists_entry hp row
  rcases entry?_ofRows h n with ⟨hn, _⟩ | ⟨k', a, x, ha, hx, hax⟩
  · rw [hn] at hy
    cases hy
  · rw [hy] at hx
    cases hx
    exact ⟨a, y, ha, hy, hax⟩

@[simp] theorem cast?_self {F : κ → Type} (x : F k) : cast? k ⟨k, x⟩ = some x := by
  simp [cast?]

theorem modifyOf?_eq_none {row : Row El ks} (h : row.entryOf? k = none) (f : El k → El k) :
    row.modifyOf? k f = none := by
  cases hp : positionOf? ks k with
  | none => rw [Tuple.modifyOf?, hp, Option.map_none]
  | some n =>
    obtain ⟨x, hx⟩ := exists_entry hp row
    rw [Tuple.entryOf?, hp, Option.bind_some, hx, Option.bind_some, cast?_self] at h
    cases h

theorem read_entryOf? (h : rows[i]? = some row) (k : κ) :
    (match (ofRows rows).entryOf? k with
      | none => .ok none
      | some a => some <$> Column.read a i) = (.ok (row.entryOf? k) : Checked (Option (El k))) := by
  simp only [Tuple.entryOf?]
  cases hp : positionOf? ks k with
  | none => rfl
  | some n =>
    obtain ⟨a, x, ha, hx, hax⟩ := exists_cell h hp
    simp only [Option.bind_some, ha, hx, cast?_self, Column.read_toArray hax]
    rfl

def updateEntryOf? (k : κ) (f : El k → El k) (c : Columns El ks) (i : Nat) :
    Checked (Option (El k) × Columns El ks) :=
  match c.entryOf? k with
  | none => .ok (none, c)
  | some a => do
    let (x, a) ← Column.update a i f
    return (some (f x), (c.modifyOf? k fun _ => a).getD c)

theorem updateEntryOf?_ofRows (h : rows[i]? = some row) (k : κ) (f : El k → El k) :
    (ofRows rows).updateEntryOf? k f i =
      .ok ((row.entryOf? k).map f, ofRows (rows.set i ((row.modifyOf? k f).getD row))) := by
  simp only [updateEntryOf?, Tuple.entryOf?, Tuple.modifyOf?]
  cases hp : positionOf? ks k with
  | none =>
    obtain ⟨hi, rfl⟩ := List.getElem?_eq_some_iff.1 h
    simp only [Option.bind_none, Option.map_none, Option.getD_none, List.set_getElem_self]
  | some n =>
    obtain ⟨a, x, ha, hx, hax⟩ := exists_cell h hp
    simp only [Option.bind_some, Option.map_some, Option.getD_some, ha, hx, cast?_self, Column.update_toArray f hax,
      Checked.ok_bind]
    refine congrArg (fun c => Except.ok (some (f x), c)) (modify_ofRows h ?_)
    intro k' b y hb hy
    rw [ha] at hb
    cases hb
    rw [hax] at hy
    cases hy
    simp

theorem modifyOf?_mapIdx_ofRows (k : κ) (f : Nat → El k → El k) (rows : List (Row El ks)) :
    ((ofRows rows).modifyOf? k fun a => a.mapIdx f) =
      (positionOf? ks k).map fun _ => ofRows (rows.mapIdx fun i row => (row.modifyOf? k (f i)).getD row) := by
  simp only [Tuple.modifyOf?]
  cases hp : positionOf? ks k with
  | none => rfl
  | some n =>
    rw [Option.map_some, Option.map_some, Option.some_inj]
    have hmod := modify_mapIdx_ofRows n (fun i k' x => if h : k = k' then h ▸ f i (h ▸ x) else x) rows
    simp only [Option.map_some, Option.getD_some]
    rw [← hmod]
    congr 1
    funext k' a
    split
    · rename_i hk
      subst hk
      rfl
    · exact (Array.mapIdx_eq_iff.2 fun i => by simp).symm

end Kinds

end Columns

class LawfulColumnLayout {κ : outParam Type} (L : Type) (El : outParam (κ → Type)) (ks : outParam (List κ))
    [ColumnLayout L El ks] extends LawfulLayout L (Row El ks) where
  locate {l : L} {rows : List (Row El ks)} {i : Nat} {row : Row El ks} : Holds l rows → rows[i]? = some row →
    ∃ block slot, block[slot]? = some row ∧ ColumnLayout.locate l i = .ok (Columns.ofRows block, slot) ∧
      ∀ {α : Type} {f : Columns El ks → Nat → Checked (α × Columns El ks)} {a : α} {y : Row El ks},
        f (Columns.ofRows block) slot = .ok (a, Columns.ofRows (block.set slot y)) →
          ∃ l', ColumnLayout.adjust l i f = .ok (a, l') ∧ Holds l' (rows.set i y)

instance : LawfulColumnLayout (Dense El ks) El ks where
  Holds d rows := d.columns = Columns.ofRows rows
  holds_empty := Columns.empty_eq
  holds_clear _ := Columns.clear_eq _
  push x h := ⟨_, rfl, by rw [h, Columns.push_ofRows]⟩
  swapPop {d rows i x} h hi := by
    refine ⟨⟨_⟩, ?_, rfl⟩
    change Dense.swapPop d i = _
    rw [Dense.swapPop, h, Columns.swapPop_ofRows hi]
    rfl
  read {d rows i x} h hi := by
    change d.columns.read i = _
    rw [h, Columns.read_ofRows hi]
  update {d rows i x} f h hi := by
    refine ⟨⟨_⟩, ?_, rfl⟩
    change Dense.update d i f = _
    rw [Dense.update, h, Columns.update_ofRows f hi]
    rfl
  locate {d rows i row} h hi := by
    refine ⟨rows, i, hi, h ▸ rfl, ?_⟩
    intro α f a y hf
    refine ⟨⟨_⟩, ?_, rfl⟩
    change Dense.adjust d i f = _
    rw [Dense.adjust, h, hf]
    rfl

instance [∀ k, Footprint (El k)] : LawfulCapacity (Dense El ks) := ⟨fun d extra => d.columns.room_ends extra⟩

end EntityStore
