import EntityStore.Proofs.Layout.Columns

/-! The chunked layout as a list of rows, cut into blocks of one size. A block that would be empty has no
chunk, so chunks come and go as rows enter and leave at the end. -/

namespace EntityStore

section Blocks

variable {α : Type}

def block (size : Nat) (l : List α) (n : Nat) : List α := (l.drop (n * size)).take size

variable {size : Nat} {l : List α}

theorem length_block (l : List α) (n : Nat) : (block size l n).length = min size (l.length - n * size) := by
  rw [block, List.length_take, List.length_drop]

theorem getElem?_block (l : List α) (n j : Nat) :
    (block size l n)[j]? = if j < size then l[n * size + j]? else none := by
  rw [block, List.getElem?_take, List.getElem?_drop]

theorem getElem?_block_div (hs : 0 < size) (l : List α) (i : Nat) : (block size l (i / size))[i % size]? = l[i]? := by
  rw [getElem?_block, if_pos (Nat.mod_lt _ hs), Nat.div_add_mod']

theorem div_eq_of_between {n i : Nat} (hl : n * size ≤ i) (hr : i < (n + 1) * size) : i / size = n :=
  Nat.div_eq_of_lt_le hl hr

theorem block_set (hs : 0 < size) (l : List α) (i n : Nat) (x : α) :
    block size (l.set i x) n = if n = i / size then (block size l n).set (i % size) x else block size l n := by
  have hi := Nat.div_add_mod' i size
  have hm := Nat.mod_lt i hs
  split
  · rename_i hn
    subst hn
    apply List.ext_getElem?
    intro j
    simp only [List.getElem?_set, block, List.length_take, List.length_drop]
    grind
  · rename_i hn
    apply List.ext_getElem?
    intro j
    simp only [getElem?_block]
    split
    · rename_i hj
      rw [List.getElem?_set_ne]
      rintro rfl
      exact hn (div_eq_of_between (Nat.le_add_right _ _) (by rw [Nat.succ_mul]; omega)).symm
    · rfl

theorem block_concat (hs : 0 < size) (l : List α) (x : α) (n : Nat) :
    block size (l ++ [x]) n = if n = l.length / size then block size l n ++ [x] else block size l n := by
  have hi := Nat.div_add_mod' l.length size
  have hm := Nat.mod_lt l.length hs
  split
  · rename_i hn
    subst hn
    apply List.ext_getElem?
    intro j
    simp only [List.getElem?_append, block, List.length_take, List.length_drop]
    grind
  · rename_i hn
    apply List.ext_getElem?
    intro j
    simp only [getElem?_block]
    split
    · rename_i hj
      by_cases hlt : n * size + j < l.length
      · rw [List.getElem?_append_left hlt]
      · by_cases heq : n * size + j = l.length
        · exact absurd (div_eq_of_between (by omega) (by rw [Nat.succ_mul]; omega)).symm hn
        · rw [List.getElem?_eq_none (by simp; omega), List.getElem?_eq_none (by omega)]
    · rfl

theorem getElem?_block_mapIdx {β : Type} (g : Nat → α → β) (l : List α) (n j : Nat) :
    (block size (l.mapIdx g) n)[j]? = (block size l n)[j]?.map (g (n * size + j)) := by
  rw [getElem?_block, getElem?_block, List.getElem?_mapIdx]
  split
  · rfl
  · rfl

end Blocks

namespace Chunked

variable {κ : Type} {El : κ → Type} {ks : List κ} {shift : Nat}

theorem chunkSize_pos (shift : Nat) : 0 < chunkSize shift := by
  rw [chunkSize, Nat.one_shiftLeft]
  exact Nat.two_pow_pos shift

/-- Room for a whole chunk can be had in every column. -/
class Fits {κ : Type} (El : κ → Type) [∀ k, Footprint (El k)] (ks : List κ) (shift : Nat) : Prop where
  lt : ∀ k ∈ ks, chunkSize shift * Footprint.bytes (El k) < 1 <<< 63

section Capacity

variable [∀ k, Footprint (El k)]

theorem room_empty (ks : List κ) (n : Nat) : (Columns.empty ks : Columns El ks).room n =
    if ∀ k ∈ ks, n * Footprint.bytes (El k) < 1 <<< 63 then .ok () else .error .capacityOverflow := by
  induction ks with
  | nil => simp [Columns.empty, Tuple.ofFun, Columns.room]
  | cons k ks ih =>
    change (do checkRoom 0 n (Footprint.bytes (El k)); (Columns.empty ks : Columns El ks).room n) = _
    rw [ih, checkRoom, Nat.zero_add]
    simp only [List.forall_mem_cons]
    by_cases hk : n * Footprint.bytes (El k) < 1 <<< 63
    · simp only [hk, if_true, true_and]
      rfl
    · simp only [hk, if_false, false_and]
      rfl

theorem withCapacity_of_fits [h : Fits El ks shift] :
    Columns.withCapacity ks (chunkSize shift) = .ok (.empty ks : Columns El ks) := by
  rw [Columns.withCapacity, room_empty, if_pos h.lt]
  rfl

theorem chunksFor_of_fits [Fits El ks shift] (chunks : Array (Columns El ks)) (slot : Nat) :
    chunksFor shift chunks slot = .ok (if slot = 0 then chunks.push (.empty ks) else chunks) := by
  rw [chunksFor, withCapacity_of_fits]
  split <;> rfl

theorem push_of_not_fits (h : ¬ Fits El ks shift) (x : Row El ks) :
    (Chunked.empty : Chunked El ks shift).push x = .error .capacityOverflow := by
  have hroom : (Columns.withCapacity ks (chunkSize shift) : Checked (Columns El ks)) = .error .capacityOverflow := by
    rw [Columns.withCapacity, room_empty, if_neg fun hlt => h ⟨hlt⟩]
    rfl
  rw [Chunked.push, Chunked.empty, split_eq, Nat.zero_mod]
  simp only [chunksFor, if_true, hroom]
  rfl

end Capacity

/-- The chunks are the blocks of the rows. -/
structure Cut (d : Chunked El ks shift) (rows : List (Row El ks)) : Prop where
  length : d.length = rows.length
  chunk : ∀ n, d.chunks[n]? =
    if n * chunkSize shift < rows.length then some (Columns.ofRows (block (chunkSize shift) rows n)) else none

namespace Cut

variable {d : Chunked El ks shift} {rows : List (Row El ks)}

theorem size_le_iff (h : d.Cut rows) {n : Nat} : d.chunks.size ≤ n ↔ rows.length ≤ n * chunkSize shift := by
  rw [← Array.getElem?_eq_none_iff, h.chunk]
  grind

theorem exists_block (h : d.Cut rows) {n : Nat} {c : Columns El ks} (hc : d.chunks[n]? = some c) :
    n * chunkSize shift < rows.length ∧ c = Columns.ofRows (block (chunkSize shift) rows n) := by
  rw [h.chunk] at hc
  split at hc
  · cases hc
    exact ⟨‹_›, rfl⟩
  · cases hc

theorem count (h : d.Cut rows) : d.chunks.size = (rows.length + chunkSize shift - 1) / chunkSize shift := by
  have hsize : ∀ n, d.chunks.size ≤ n ↔ (rows.length + chunkSize shift - 1) / chunkSize shift ≤ n := by
    intro n
    have hdiv : (rows.length + chunkSize shift - 1) / chunkSize shift < n + 1 ↔
        rows.length + chunkSize shift - 1 < (n + 1) * chunkSize shift := Nat.div_lt_iff_lt_mul (chunkSize_pos shift)
    have hk := chunkSize_pos shift
    rw [Nat.succ_mul] at hdiv
    rw [h.size_le_iff]
    omega
  exact Nat.le_antisymm ((hsize _).2 (Nat.le_refl _)) ((hsize _).1 (Nat.le_refl _))

theorem chunk_div (h : d.Cut rows) {i : Nat} (hi : i < rows.length) :
    d.chunks[i / chunkSize shift]? = some (Columns.ofRows (block (chunkSize shift) rows (i / chunkSize shift))) := by
  rw [h.chunk, if_pos (Nat.lt_of_le_of_lt (Nat.div_mul_le_self _ _) hi)]

theorem chunkAt_div (h : d.Cut rows) {i : Nat} (hi : i < rows.length) :
    d.chunkAt (i / chunkSize shift) =
      .ok (Columns.ofRows (block (chunkSize shift) rows (i / chunkSize shift))) :=
  Column.read_eq_ok_iff.2 (h.chunk_div hi)

theorem set (h : d.Cut rows) {i : Nat} (hi : i < rows.length) (y : Row El ks) :
    Cut (⟨d.chunks.setIfInBounds (i / chunkSize shift) (Columns.ofRows
        ((block (chunkSize shift) rows (i / chunkSize shift)).set (i % chunkSize shift) y)), d.length⟩ :
      Chunked El ks shift) (rows.set i y) := by
  have hlt := (Array.getElem?_eq_some_iff.1 (h.chunk_div hi)).1
  refine ⟨by rw [List.length_set]; exact h.length, ?_⟩
  intro n
  dsimp only
  rw [Array.getElem?_setIfInBounds, block_set (chunkSize_pos shift), List.length_set, h.chunk]
  by_cases hn : i / chunkSize shift = n
  · subst hn
    rw [if_pos rfl, if_pos hlt, if_pos (Nat.lt_of_le_of_lt (Nat.div_mul_le_self _ _) hi), if_pos rfl]
  · rw [if_neg hn, if_neg (Ne.symm hn)]

theorem mapCells (h : d.Cut rows) {count : Nat} (hcount : ∀ n, n * chunkSize shift < rows.length → n < count)
    (f : Nat → Nat → Nat → (k : κ) → El k → El k) :
    Cut (⟨d.chunks.mapIdx fun n c => if n < count then c.mapCells (f n) else c, d.length⟩ : Chunked El ks shift)
      (rows.mapIdx fun i row => row.mapIdx fun n k x => f (split shift i).1 n (split shift i).2 k x) := by
  refine ⟨by rw [List.length_mapIdx]; exact h.length, fun n => ?_⟩
  rw [Array.getElem?_mapIdx, List.length_mapIdx, h.chunk]
  by_cases hn : n * chunkSize shift < rows.length
  · rw [if_pos hn, if_pos hn, Option.map_some, if_pos (hcount n hn), Columns.mapCells_ofRows]
    refine congrArg (fun rows => some (Columns.ofRows rows)) (List.ext_getElem? fun j => ?_)
    rw [getElem?_block_mapIdx, List.getElem?_mapIdx, getElem?_block]
    split
    · rename_i hj
      have hdiv : (n * chunkSize shift + j) / chunkSize shift = n := by
        rw [Nat.mul_comm, Nat.mul_add_div (chunkSize_pos shift), Nat.div_eq_of_lt hj, Nat.add_zero]
      have hmod : (n * chunkSize shift + j) % chunkSize shift = j := by
        rw [Nat.mul_comm, Nat.mul_add_mod, Nat.mod_eq_of_lt hj]
      simp only [split_eq, hdiv, hmod]
    · rfl
  · rw [if_neg hn, if_neg hn]
    rfl

theorem empty : Cut (Chunked.empty : Chunked El ks shift) [] := by
  refine ⟨rfl, fun n => ?_⟩
  simp [Chunked.empty]

theorem size_eq_of_mod (h : d.Cut rows) (hm : rows.length % chunkSize shift = 0) :
    d.chunks.size = rows.length / chunkSize shift := by
  have hk := chunkSize_pos shift
  have hdm := Nat.div_add_mod' rows.length (chunkSize shift)
  apply Nat.le_antisymm
  · rw [h.size_le_iff]
    omega
  · by_contra hlt
    have hle := h.size_le_iff.1 (Nat.le_pred_of_lt (Nat.lt_of_not_le hlt))
    rw [Nat.pred_eq_sub_one, Nat.sub_one_mul] at hle
    have hpos : 0 < rows.length / chunkSize shift := by omega
    have := Nat.mul_le_mul_right (chunkSize shift) hpos
    omega

theorem unique {e : Chunked El ks shift} (h : d.Cut rows) (h' : e.Cut rows) : e = d := by
  obtain ⟨chunks, length⟩ := d
  obtain ⟨chunks', length'⟩ := e
  obtain rfl : length' = length := h'.length.trans h.length.symm
  have hchunks : chunks' = chunks := by
    apply Array.ext_getElem?
    intro n
    exact (h'.chunk n).trans (h.chunk n).symm
  rw [hchunks]

end Cut

def Open (shift : Nat) (chunks : Array (Columns El ks)) (rows : List (Row El ks)) : Prop :=
  ∀ n, chunks[n]? =
    if n * chunkSize shift ≤ rows.length then some (Columns.ofRows (block (chunkSize shift) rows n)) else none

theorem lt_iff_le_of_mod_ne {length n : Nat} (hm : ¬ length % chunkSize shift = 0) :
    n * chunkSize shift < length ↔ n * chunkSize shift ≤ length := by
  have hmul : n * chunkSize shift ≠ length := fun heq => hm (by rw [← heq, Nat.mul_mod_left])
  omega

namespace Open

variable {chunks : Array (Columns El ks)} {rows : List (Row El ks)}

theorem chunk_div (h : Open shift chunks rows) : chunks[rows.length / chunkSize shift]? =
    some (Columns.ofRows (block (chunkSize shift) rows (rows.length / chunkSize shift))) := by
  rw [h, if_pos (Nat.div_mul_le_self _ _)]

theorem lt_size (h : Open shift chunks rows) : rows.length / chunkSize shift < chunks.size :=
  (Array.getElem?_eq_some_iff.1 h.chunk_div).1

theorem size_eq (h : Open shift chunks rows) : chunks.size = rows.length / chunkSize shift + 1 := by
  refine Nat.le_antisymm ?_ h.lt_size
  rw [← Array.getElem?_eq_none_iff, h, if_neg]
  have hdm := Nat.div_add_mod' rows.length (chunkSize shift)
  have := Nat.mod_lt rows.length (chunkSize_pos shift)
  rw [Nat.succ_mul]
  omega

theorem enter (h : Open shift chunks rows) (x : Row El ks) :
    Cut (⟨chunks.setIfInBounds (rows.length / chunkSize shift)
        (Columns.ofRows (block (chunkSize shift) rows (rows.length / chunkSize shift) ++ [x])), rows.length + 1⟩ :
      Chunked El ks shift) (rows ++ [x]) := by
  have hk := chunkSize_pos shift
  have hdm := Nat.div_add_mod' rows.length (chunkSize shift)
  refine ⟨by rw [List.length_append]; rfl, fun n => ?_⟩
  dsimp only
  rw [Array.getElem?_setIfInBounds, block_concat hk, List.length_append, List.length_singleton]
  by_cases hn : n = rows.length / chunkSize shift
  · subst hn
    rw [if_pos rfl, if_pos h.lt_size, if_pos (by omega), if_pos rfl]
  · rw [if_neg (Ne.symm hn), h n, if_neg hn]
    simp only [Nat.lt_succ_iff]

theorem close (h : Open shift chunks rows) :
    Cut (⟨if rows.length % chunkSize shift = 0 then chunks.pop else chunks, rows.length⟩ : Chunked El ks shift)
      rows := by
  refine ⟨rfl, fun n => ?_⟩
  dsimp only
  split
  · rename_i hm
    have hdm := Nat.div_add_mod' rows.length (chunkSize shift)
    rw [Array.getElem?_pop, h.size_eq, Nat.add_sub_cancel, h n]
    by_cases hn : n < rows.length / chunkSize shift
    · have := Nat.mul_lt_mul_of_pos_right hn (chunkSize_pos shift)
      rw [if_pos hn, if_pos (by omega), if_pos (by omega)]
    · have := Nat.mul_le_mul_right (chunkSize shift) (Nat.not_lt.1 hn)
      rw [if_neg hn, if_neg (by omega)]
  · rename_i hm
    rw [h n]
    simp only [lt_iff_le_of_mod_ne hm]

end Open

namespace Cut

variable {d : Chunked El ks shift} {rows : List (Row El ks)}

theorem opened (h : d.Cut rows) :
    Open shift (if rows.length % chunkSize shift = 0 then d.chunks.push (.empty ks) else d.chunks) rows := by
  intro n
  split
  · rename_i hm
    have hk := chunkSize_pos shift
    have hdm := Nat.div_add_mod' rows.length (chunkSize shift)
    have hs := h.size_eq_of_mod hm
    rw [Array.getElem?_push]
    by_cases hn : n = d.chunks.size
    · rw [if_pos hn, hn, hs, if_pos (by omega), block, List.drop_of_length_le (by omega), List.take_nil,
        Columns.empty_eq]
    · have hmul : n * chunkSize shift ≠ rows.length := fun heq => hn (by rw [hs, ← heq, Nat.mul_div_cancel _ hk])
      rw [if_neg hn, h.chunk]
      congr 1
      exact propext (by omega)
  · rename_i hm
    rw [h.chunk]
    simp only [lt_iff_le_of_mod_ne hm]

theorem push [∀ k, Footprint (El k)] [Fits El ks shift] (h : d.Cut rows) (x : Row El ks) :
    ∃ d', d.push x = .ok d' ∧ d'.Cut (rows ++ [x]) := by
  obtain ⟨chunks, length⟩ := d
  obtain rfl : length = rows.length := h.length
  refine ⟨_, ?_, h.opened.enter x⟩
  rw [Chunked.push, split_eq]
  simp only [chunksFor_of_fits, Column.update, h.opened.chunk_div, Checked.ok_bind, Columns.push_ofRows]
  rfl

theorem vacated {x : Row El ks} (h : d.Cut (rows ++ [x])) :
    Open shift (d.chunks.setIfInBounds (rows.length / chunkSize shift)
      (Columns.ofRows (block (chunkSize shift) rows (rows.length / chunkSize shift)))) rows := by
  have hdm := Nat.div_add_mod' rows.length (chunkSize shift)
  have hlt : rows.length < (rows ++ [x]).length := by rw [List.length_append]; exact Nat.lt_succ_self _
  intro n
  rw [Array.getElem?_setIfInBounds]
  by_cases hn : n = rows.length / chunkSize shift
  · subst hn
    rw [if_pos rfl, if_pos (Array.getElem?_eq_some_iff.1 (h.chunk_div hlt)).1, if_pos (by omega)]
  · rw [if_neg (Ne.symm hn), h.chunk, block_concat (chunkSize_pos shift), if_neg hn, List.length_append,
      List.length_singleton]
    simp only [Nat.lt_succ_iff]

theorem popLast {k : κ} {d : Chunked El (k :: ks) shift} {rows : List (Row El (k :: ks))} {x : Row El (k :: ks)}
    (h : d.Cut (rows ++ [x])) : ∃ d', d.popLast = .ok (x, d') ∧ d'.Cut rows := by
  have hlt : rows.length < (rows ++ [x]).length := by rw [List.length_append]; exact Nat.lt_succ_self _
  have hlast := h.chunkAt_div hlt
  rw [block_concat (chunkSize_pos shift), if_pos rfl] at hlast
  refine ⟨_, ?_, h.vacated.close⟩
  rw [Chunked.popLast, h.length, List.length_append, List.length_singleton]
  simp only [Nat.add_sub_cancel, split_eq, hlast, Checked.ok_bind, Columns.popRow?_ofRows]
  rfl

end Cut

theorem Cut.exists_chunk {d : Chunked El ks shift} {rows : List (Row El ks)} (h : d.Cut rows) {i : Nat}
    {row : Row El ks} (hi : rows[i]? = some row) :
    ∃ block slot, split shift i = (i / chunkSize shift, slot) ∧ block[slot]? = some row ∧
      d.chunkAt (i / chunkSize shift) = .ok (Columns.ofRows block) ∧
      ∀ y, Cut (⟨d.chunks.setIfInBounds (i / chunkSize shift) (Columns.ofRows (block.set slot y)), d.length⟩ :
        Chunked El ks shift) (rows.set i y) := by
  have hlt := (List.getElem?_eq_some_iff.1 hi).1
  have hblock := (getElem?_block_div (chunkSize_pos shift) rows i).trans hi
  exact ⟨_, _, split_eq shift i, hblock, h.chunkAt_div hlt, h.set hlt⟩

theorem Cut.swapPop {k : κ} {d : Chunked El (k :: ks) shift} {rows : List (Row El (k :: ks))} {i : Nat}
    {x : Row El (k :: ks)} (h : d.Cut rows) (hi : rows[i]? = some x) :
    ∃ d', d.swapPop i = .ok (x, d') ∧ d'.Cut (EntityStore.swapPop rows i) := by
  have hlt := (List.getElem?_eq_some_iff.1 hi).1
  rcases List.eq_nil_or_concat rows with rfl | ⟨rows, last, rfl⟩
  · cases hi
  · rw [List.concat_eq_append] at *
    rw [List.length_append, List.length_singleton] at hlt
    obtain ⟨rest, hpop, hcut⟩ := h.popLast
    have hle : ¬ d.length ≤ i := by
      rw [h.length, List.length_append, List.length_singleton]
      omega
    rw [swapPop_concat, Chunked.swapPop, if_neg hle, hpop]
    simp only [Checked.ok_bind, hcut.length]
    by_cases hlast : i = rows.length
    · subst hlast
      rw [List.getElem?_concat_length] at hi
      cases hi
      rw [if_pos rfl, List.set_eq_of_length_le (Nat.le_refl _)]
      exact ⟨rest, rfl, hcut⟩
    · rw [List.getElem?_append_left (by omega)] at hi
      obtain ⟨block, slot, hs, hb, hc, hset⟩ := hcut.exists_chunk hi
      refine ⟨_, ?_, hset last⟩
      rw [if_neg hlast, hs]
      simp only [hc, Checked.ok_bind, Columns.replace_ofRows last hb, ← hcut.length]
      rfl

instance {k : κ} [∀ k, Footprint (El k)] [Fits El (k :: ks) shift] :
    LawfulColumnLayout (Chunked El (k :: ks) shift) El (k :: ks) where
  Holds := Cut
  holds_empty := .empty
  holds_clear _ := .empty
  push x h := h.push x
  swapPop h hi := h.swapPop hi
  read {d rows i x} h hi := by
    obtain ⟨block, slot, hs, hb, hc, -⟩ := h.exists_chunk hi
    change Chunked.read d i = _
    rw [Chunked.read, locate, hs]
    simp only [hc, Checked.ok_bind]
    exact Columns.read_ofRows hb
  update {d rows i x} f h hi := by
    obtain ⟨block, slot, hs, hb, hc, hset⟩ := h.exists_chunk hi
    refine ⟨_, ?_, hset (f x)⟩
    change Chunked.update d i f = _
    rw [Chunked.update, adjust, hs]
    simp only [hc, Checked.ok_bind, Columns.update_ofRows f hb]
    rfl
  locate {d rows i row} h hi := by
    obtain ⟨block, slot, hs, hb, hc, hset⟩ := h.exists_chunk hi
    refine ⟨block, slot, hb, ?_, ?_⟩
    · change Chunked.locate d i = _
      rw [locate, hs]
      simp only [hc]
      rfl
    · intro α f a y hf
      refine ⟨_, ?_, hset y⟩
      change Chunked.adjust d i f = _
      rw [adjust, hs]
      simp only [hc, Checked.ok_bind, hf]
      rfl

instance : LawfulCapacity (Chunked El ks shift) where
  room_ends d extra := by
    change (Chunked.room d extra).Ends _ _
    rw [Chunked.room]
    split
    · exact .inr rfl
    · exact checkRoom_ends _ _ _

end Chunked

end EntityStore
