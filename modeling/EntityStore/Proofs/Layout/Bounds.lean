import EntityStore.Proofs.Layout.Chunked

/-! What layouts do beyond their rows: they fault, and name the position they were asked for. -/

namespace EntityStore

variable {κ : Type} {El : κ → Type} {k : κ} {ks : List κ}

namespace Columns

variable {rows : List (Row El (k :: ks))} {i : Nat}

theorem read_of_none (h : rows[i]? = none) :
    (ofRows rows).read i = .error (.indexOutOfBounds rows.length i) := by
  have hx : (rows.map Tuple.head)[i]? = none := by simpa using h
  rw [ofRows, read, Column.read_of_none hx, List.length_map]
  rfl

theorem update_of_none (f : Row El (k :: ks) → Row El (k :: ks)) (h : rows[i]? = none) :
    (ofRows rows).update i f = .error (.indexOutOfBounds rows.length i) := by
  rw [update, read_of_none h]
  rfl

theorem swapPop_of_none (h : rows[i]? = none) :
    (ofRows rows).swapPop i = .error (.noElementToSwap rows.length i) := by
  have hx : (rows.map Tuple.head).toArray.size ≤ i := by simpa using h
  rw [ofRows, swapPop, Column.swapPop_of_le hx, List.size_toArray, List.length_map]
  rfl

end Columns

class BoundedLayout (L : Type) {κ : outParam Type} (El : outParam (κ → Type)) (ks : outParam (List κ))
    [ColumnLayout L El ks] [LawfulColumnLayout L El ks] : Prop where
  size_eq {l : L} {rows : List (Row El ks)} : LawfulLayout.Holds l rows → Layout.size l = rows.length
  swapPop {l : L} {rows : List (Row El ks)} {i : Nat} : LawfulLayout.Holds l rows → rows[i]? = none →
    ∃ f, Layout.swapPop l i = .error f ∧ (f = .noElementToSwap rows.length i ∨ f = .noRowToSwap rows.length i)
  locate {l : L} {rows : List (Row El ks)} {i : Nat} : LawfulLayout.Holds l rows → rows[i]? = none →
    (∃ length index, ColumnLayout.locate l i = .error (.indexOutOfBounds length index) ∧
      ∀ {α : Type} (f : Columns El ks → Nat → Checked (α × Columns El ks)),
        ColumnLayout.adjust l i f = .error (.indexOutOfBounds length index)) ∨
    ∃ block slot, block[slot]? = none ∧ ColumnLayout.locate l i = .ok (Columns.ofRows block, slot) ∧
      ∀ {α : Type} {f : Columns El ks → Nat → Checked (α × Columns El ks)} {e : Fault},
        f (Columns.ofRows block) slot = .error e → ColumnLayout.adjust l i f = .error e

instance : BoundedLayout (Dense El (k :: ks)) El (k :: ks) where
  size_eq {d rows} h := by
    change d.columns.rowCount = _
    rw [show d.columns = _ from h, Columns.rowCount_ofRows]
  swapPop {d rows i} h hi := by
    refine ⟨_, ?_, .inl rfl⟩
    change Dense.swapPop d i = _
    rw [Dense.swapPop, show d.columns = _ from h, Columns.swapPop_of_none hi]
    rfl
  locate {d rows i} h hi := by
    refine .inr ⟨rows, i, hi, congrArg (fun c => Except.ok (c, i)) h, ?_⟩
    intro α f e hf
    change Dense.adjust d i f = _
    rw [Dense.adjust, show d.columns = _ from h, hf]
    rfl

namespace Chunked

variable {shift : Nat} {d : Chunked El ks shift} {rows : List (Row El ks)} {i : Nat}

theorem Cut.chunkAt_beyond (h : d.Cut rows) (hi : rows[i]? = none) :
    (∃ length, d.chunkAt (i / chunkSize shift) = .error (.indexOutOfBounds length (i / chunkSize shift))) ∨
      ∃ block : List (Row El ks), block[i % chunkSize shift]? = none ∧
        d.chunkAt (i / chunkSize shift) = .ok (Columns.ofRows block) := by
  have hchunk := h.chunk (i / chunkSize shift)
  split at hchunk
  · refine .inr ⟨_, ?_, Column.read_eq_ok_iff.2 hchunk⟩
    rw [getElem?_block_div (chunkSize_pos shift), hi]
  · refine .inl ⟨d.chunks.size, ?_⟩
    rw [chunkAt, Column.read, hchunk]

instance [∀ k, Footprint (El k)] [Fits El (k :: ks) shift] :
    BoundedLayout (Chunked El (k :: ks) shift) El (k :: ks) where
  size_eq h := Cut.length h
  swapPop {d rows i} h hi := by
    have hlength : d.length = rows.length := Cut.length h
    have hle : d.length ≤ i := by simpa [hlength] using hi
    refine ⟨_, ?_, .inr rfl⟩
    change Chunked.swapPop d i = _
    rw [Chunked.swapPop, if_pos hle, hlength]
    rfl
  locate {d rows i} h hi := by
    rcases Cut.chunkAt_beyond h hi with ⟨length, hc⟩ | ⟨block, hb, hc⟩
    · refine .inl ⟨length, i / chunkSize shift, ?_, fun f => ?_⟩
      · change Chunked.locate d i = _
        rw [Chunked.locate, split_eq]
        simp only [hc]
        rfl
      · change Chunked.adjust d i f = _
        rw [Chunked.adjust, split_eq]
        simp only [hc]
        rfl
    · refine .inr ⟨block, i % chunkSize shift, hb, ?_, fun {α f e} hf => ?_⟩
      · change Chunked.locate d i = _
        rw [Chunked.locate, split_eq]
        simp only [hc]
        rfl
      · change Chunked.adjust d i f = _
        rw [Chunked.adjust, split_eq]
        simp only [hc, Checked.ok_bind, hf]
        rfl

end Chunked

end EntityStore
