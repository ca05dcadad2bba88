import EntityStore.Proofs.Storage.Stores
import Mathlib.Algebra.GroupWithZero.Nat

/-! The columns of a storage, as long as its rows are many, and what insertion and removal make of them. -/

namespace EntityStore

variable {κ : Type} {El : κ → Type} {ks : List κ}

theorem sum_length_block {α : Type} (size : Nat) (l : List α) (n : Nat) :
    ((List.range n).map fun j => (block size l j).length).sum = min (n * size) l.length := by
  induction n with
  | zero => simp
  | succ n ih =>
    rw [List.range_succ, List.map_append, List.sum_append, ih, List.map_singleton, List.sum_singleton, length_block,
      Nat.succ_mul]
    omega

namespace Chunked

variable {shift : Nat} {d : Chunked El ks shift} {rows : List (Row El ks)}

theorem Cut.size_chunk (h : d.Cut rows) {j : Nat} {c : Columns El ks} (hc : d.chunks[j]? = some c) (n : Fin ks.length) :
    (c.get n).size = (block (chunkSize shift) rows j).length := by
  obtain ⟨-, rfl⟩ := h.exists_block hc
  exact Columns.size_get_ofRows _ n

theorem Cut.sum_size_chunks (h : d.Cut rows) (n : Fin ks.length) :
    (d.chunks.toList.map fun c => (c.get n).size).sum = rows.length := by
  have hsizes : (d.chunks.toList.map fun c => (c.get n).size) =
      (List.range d.chunks.size).map fun j => (block (chunkSize shift) rows j).length := by
    apply List.ext_getElem
    · simp
    · intro j hj _
      rw [List.length_map, Array.length_toList] at hj
      rw [List.getElem_map, List.getElem_map, List.getElem_range, Array.getElem_toList]
      exact h.size_chunk (Array.getElem?_eq_getElem hj) n
  rw [hsizes, sum_length_block, Nat.min_eq_right]
  exact h.size_le_iff.1 (Nat.le_refl _)

end Chunked

def Shape.Aligned : (shape : Shape κ) → Storage shape.Tenant (shape.Rows El) → Prop
  | component _, s => (ComponentStorage.components s).length = s.size
  | dense ks, s => ∀ n : Fin ks.length, (Storage.columnAt s n).size = s.size
  -- a column is cut into pieces, and in each chunk the pieces are of one length
  | chunked ks _, s => ∀ n : Fin ks.length,
    (s.rows.chunks.toList.map fun c => (c.get n).size).sum = s.size ∧
      ∀ c ∈ s.rows.chunks.toList, ∀ n' : Fin ks.length, (c.get n).size = (c.get n').size

theorem Storage.Carries.aligned [∀ k, Footprint (El k)] {shape : Shape κ} [shape.Proper El]
    {s : Storage shape.Tenant (shape.Rows El)}
    {es : List (shape.Tenant × shape.Item El)} (hs : s.Carries es) : shape.Aligned s := by
  cases shape with
  | component k =>
    rw [Shape.Aligned, Storage.Carries.components hs, hs.size_eq, List.length_map]
  | dense ks =>
    intro n
    have hrows : s.rows.columns = Columns.ofRows (es.map (·.2)) := hs.rows
    rw [Storage.columnAt, Storage.columns, hrows, Columns.size_get_ofRows, hs.size_eq, List.length_map]
  | chunked ks shift =>
    obtain ⟨k, ks, rfl, hfits⟩ := Shape.exists_cons ‹(Shape.chunked ks shift).Proper El›
    intro n
    have hcut : s.rows.Cut (es.map (·.2)) := hs.rows
    refine ⟨?_, fun c hc n' => ?_⟩
    · rw [hcut.sum_size_chunks, hs.size_eq, List.length_map]
    · obtain ⟨j, hj⟩ := List.mem_iff_getElem?.1 hc
      rw [Array.getElem?_toList] at hj
      rw [hcut.size_chunk hj n, hcut.size_chunk hj n']

namespace Tuple

variable {F : κ → Type}

def transpose : {ks : List κ} → List (Tuple F ks) → Tuple (fun k => List (F k)) ks
  | [], _ => .nil
  | _ :: _, rows => .cons (rows.map head) (transpose (rows.map tail))

theorem transpose_nil (ks : List κ) : transpose ([] : List (Tuple F ks)) = ofFun (fun _ => []) ks := by
  induction ks with
  | nil => rfl
  | cons k ks ih =>
    rw [transpose, ofFun, ← ih]
    rfl

theorem transpose_append (rows rows' : List (Tuple F ks)) :
    transpose (rows ++ rows') = zipWith (fun _ a b => a ++ b) (transpose rows) (transpose rows') := by
  induction ks with
  | nil => rfl
  | cons k ks ih => simp only [transpose, zipWith, List.map_append, ih]

theorem transpose_concat (rows : List (Tuple F ks)) (row : Tuple F ks) :
    transpose (rows ++ [row]) = zipWith (fun _ a x => a ++ [x]) (transpose rows) row := by
  induction ks with
  | nil =>
    cases row
    rfl
  | cons k ks ih =>
    cases row
    simp [transpose, zipWith, ih]

theorem transpose_swapPop (rows : List (Tuple F ks)) (i : Nat) :
    transpose (swapPop rows i) = (transpose rows).map fun _ a => swapPop a i := by
  induction ks with
  | nil => rfl
  | cons k ks ih => simp only [transpose, map, map_swapPop, ih]

theorem map_transpose_getElem? {rows : List (Tuple F ks)} {i : Nat} {row : Tuple F ks} (h : rows[i]? = some row) :
    ((transpose rows).map fun _ a => a[i]?) = row.map fun _ x => some x := by
  induction ks with
  | nil =>
    cases row
    rfl
  | cons k ks ih =>
    cases row
    have ht := ih (Columns.getElem?_tails h)
    simp only [transpose, map, Columns.getElem?_heads h, tail_cons, head_cons] at ht ⊢
    rw [ht]

end Tuple

theorem Columns.map_toList_ofRows (rows : List (Row El ks)) :
    ((ofRows rows).map fun _ a => a.toList) = Tuple.transpose rows := by
  induction ks with
  | nil => rfl
  | cons k ks ih => simp only [ofRows, Tuple.map, Tuple.transpose, ih]

theorem flatten_blocks {α : Type} (size : Nat) (l : List α) (n : Nat) :
    ((List.range n).map (block size l)).flatten = l.take (n * size) := by
  induction n with
  | zero => simp
  | succ n ih =>
    rw [List.range_succ, List.map_append, List.flatten_append, ih, Nat.succ_mul, List.take_add]
    simp [block]

namespace Shape

abbrev kinds : Shape κ → List κ
  | component k => [k]
  | dense ks => ks
  | chunked ks _ => ks

def cells : (shape : Shape κ) → shape.Item El → Tuple El shape.kinds
  | component _, x => .cons x .nil
  | dense _, row => row
  | chunked _ _, row => row

def columns : (shape : Shape κ) → Storage shape.Tenant (shape.Rows El) → Tuple (fun k => List (El k)) shape.kinds
  | component _, s => .cons (ComponentStorage.components s) .nil
  | dense _, s => (Storage.columns s).map fun _ a => a.toList
  -- the pieces of a column, chunk by chunk
  | chunked ks _, s =>
    s.rows.chunks.toList.foldr (fun c t => Tuple.zipWith (fun _ a b => a.toList ++ b) c t) (.ofFun (fun _ => []) ks)

end Shape

theorem Chunked.foldr_chunks (bs : List (List (Row El ks))) :
    (bs.map Columns.ofRows).foldr (fun c t => Tuple.zipWith (fun _ a b => a.toList ++ b) c t)
      (.ofFun (fun _ => []) ks) = Tuple.transpose bs.flatten := by
  have hzip : ∀ {ks : List κ} (c : Columns El ks) (t : Tuple (fun k => List (El k)) ks),
      Tuple.zipWith (fun _ a b => a.toList ++ b) c t =
        Tuple.zipWith (fun _ a b => a ++ b) (c.map fun _ a => a.toList) t := by
    intro ks c t
    induction ks with
    | nil =>
      cases c
      cases t
      rfl
    | cons k ks ih =>
      cases c
      cases t
      simp only [Tuple.zipWith, Tuple.map, ih]
  induction bs with
  | nil => exact (Tuple.transpose_nil ks).symm
  | cons b bs ih =>
    rw [List.map_cons, List.foldr_cons, ih, List.flatten_cons, Tuple.transpose_append, hzip, Columns.map_toList_ofRows]

theorem Chunked.Cut.chunks_eq {shift : Nat} {d : Chunked El ks shift} {rows : List (Row El ks)} (h : d.Cut rows) :
    d.chunks.toList = ((List.range d.chunks.size).map (block (chunkSize shift) rows)).map Columns.ofRows := by
  apply List.ext_getElem?
  intro j
  rw [Array.getElem?_toList]
  by_cases hj : j < d.chunks.size
  · have hc := h.chunk j
    split at hc
    · rw [hc]
      simp [hj]
    · rw [Array.getElem?_eq_getElem hj] at hc
      cases hc
  · simp [hj]

variable {shape : Shape κ} {s s' : Storage shape.Tenant (shape.Rows El)} {es : List (shape.Tenant × shape.Item El)}
  {e : shape.Tenant × shape.Item El} {t : shape.Tenant} {x : shape.Item El} {i : Nat}

theorem Storage.Carries.columns [∀ k, Footprint (El k)] [shape.Proper El] (hs : s.Carries es) :
    shape.columns s = Tuple.transpose (es.map fun e => shape.cells e.2) := by
  cases shape with
  | component k =>
    rw [Shape.columns, Storage.Carries.components hs]
    simp [Shape.cells, Tuple.transpose]
  | dense ks =>
    have hrows : s.rows.columns = Columns.ofRows (es.map (·.2)) := hs.rows
    rw [Shape.columns, Storage.columns, hrows, Columns.map_toList_ofRows]
    rfl
  | chunked ks shift =>
    obtain ⟨k, ks, rfl, hfits⟩ := Shape.exists_cons ‹(Shape.chunked ks shift).Proper El›
    have hcut : s.rows.Cut (es.map (·.2)) := hs.rows
    rw [Shape.columns, hcut.chunks_eq, Chunked.foldr_chunks, flatten_blocks, List.take_of_length_le]
    · rfl
    · exact hcut.size_le_iff.1 (Nat.le_refl _)

namespace Shape

structure Appended (shape : Shape κ) (s : Storage shape.Tenant (shape.Rows El)) (t : shape.Tenant) (x : shape.Item El)
    (s' : Storage shape.Tenant (shape.Rows El)) : Prop where
  tenants : s'.tenants.toList = s.tenants.toList ++ [t]
  columns : shape.columns s' = (shape.columns s).zipWith (fun _ a y => a ++ [y]) (shape.cells x)
  store : s'.store = s.store
  limit : s'.limit = s.limit

structure Vacated (shape : Shape κ) (s : Storage shape.Tenant (shape.Rows El)) (i : Nat) (x : shape.Item El)
    (s' : Storage shape.Tenant (shape.Rows El)) : Prop where
  row : ((shape.columns s).map fun _ a => a[i]?) = (shape.cells x).map fun _ y => some y
  tenants : s'.tenants.toList = swapPop s.tenants.toList i
  columns : shape.columns s' = (shape.columns s).map fun _ a => swapPop a i
  store : s'.store = s.store
  limit : s'.limit = s.limit

end Shape

namespace Storage.Carries

variable [∀ k, Footprint (El k)] [shape.Proper El]

theorem appended (hs : s.Carries es) (hs' : s'.Carries (es ++ [(t, x)])) (hstore : s'.store = s.store)
    (hlimit : s'.limit = s.limit) : shape.Appended s t x s' where
  tenants := by
    rw [hs.tenants, hs'.tenants]
    simp
  columns := by
    rw [hs.columns, hs'.columns, List.map_append]
    exact Tuple.transpose_concat _ _
  store := hstore
  limit := hlimit

theorem vacated (hs : s.Carries es) (hi : es[i]? = some e) (hs' : s'.Carries (swapPop es i))
    (hstore : s'.store = s.store) (hlimit : s'.limit = s.limit) : shape.Vacated s i e.2 s' where
  row := by
    rw [hs.columns]
    apply Tuple.map_transpose_getElem?
    rw [List.getElem?_map, hi]
    rfl
  tenants := by rw [hs.tenants, hs'.tenants, map_swapPop]
  columns := by rw [hs.columns, hs'.columns, map_swapPop, Tuple.transpose_swapPop]
  store := hstore
  limit := hlimit

end Storage.Carries

end EntityStore
