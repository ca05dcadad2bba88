import EntityStore.Calls
import EntityStore.Proofs.Layout.Chunked
import EntityStore.Proofs.Storage.Carries
import EntityStore.Proofs.Walk

/-! Archetype storages that carry lists of entries: what their own reads and changes do to the list. -/

namespace EntityStore

namespace Storage.Carries

variable {κ : Type} {El : κ → Type} {ks : List κ} {L : Type} [ColumnLayout L El ks] [LawfulColumnLayout L El ks]
  {C : Config} {s : ArchetypeStorage L} {es : List (EntityId × Row El ks)} {e : EntityId × Row El ks} {i : Nat}
  {r : Registry C}

theorem locate (h : s.Carries es) (hi : es[i]? = some e) :
    ∃ block slot, block[slot]? = some e.2 ∧ ColumnLayout.locate s.rows i = .ok (Columns.ofRows block, slot) :=
  have ⟨block, slot, hb, hl, _⟩ := LawfulColumnLayout.locate h.rows (getElem?_rows hi)
  ⟨block, slot, hb, hl⟩

theorem readTenant (h : s.Carries es) (hi : es[i]? = some e) : Column.read s.tenants i = .ok e.1 := by
  rw [h.tenants]
  exact Column.read_toArray (getElem?_tenant hi)

theorem rowAt (h : s.Carries es) (hi : es[i]? = some e) : s.rowAt i = .ok ⟨i, e.1, e.2⟩ := by
  obtain ⟨block, slot, hb, hl⟩ := h.locate hi
  rw [Storage.rowAt, hl]
  simp only [Checked.ok_bind, h.readTenant hi, Columns.read_ofRows hb]
  rfl

def view (es : List (EntityId × Row El ks)) (i : Nat) : Option (RowView El ks) := es[i]?.map fun e => ⟨i, e.1, e.2⟩

theorem row? (h : s.Carries es) (i : Nat) : s.row? i = .ok (view es i) := by
  rw [Storage.row?, h.size_eq, view]
  split
  · rename_i hi
    have he : es[i]? = some es[i] := List.getElem?_eq_getElem hi
    rw [h.rowAt he, he]
    rfl
  · rename_i hi
    rw [List.getElem?_eq_none (Nat.not_lt.1 hi)]
    rfl

theorem walk (h : s.Carries es) {c : Cursor} (hc : c.back ≤ es.length) (ends : List End) :
    c.walkBy (ArchetypeCall.nextAt s) ends = .ok ((c.walk ends).map (·.bind (view es))) := by
  have hview : ∀ i, i < es.length → ∃ v, s.rowAt i = .ok v ∧ view es i = some v := by
    intro i hi
    have he : es[i]? = some es[i] := List.getElem?_eq_getElem hi
    exact ⟨_, h.rowAt he, by rw [view, he, Option.map_some]⟩
  refine Cursor.walkBy_eq (fun c e hc => ?_) hc ends
  cases e with
  | front => exact Cursor.fetch_pick hview hc .front
  | back => exact Cursor.fetch_pick hview hc .back

theorem rows_front (h : s.Carries es) (m : Nat) :
    (Cursor.start s.size).walkBy (ArchetypeCall.nextAt s) (List.replicate m .front) =
      .ok ((List.range m).map (view es)) := by
  have hview : ∀ i, (if i < es.length then some i else none).bind (view es) = view es i := by
    intro i
    split
    · rfl
    · rw [view, List.getElem?_eq_none (by omega)]
      rfl
  rw [h.size_eq, h.walk (Nat.le_refl _), Cursor.start, Cursor.walk_front, List.map_map]
  simp only [Function.comp_def, Nat.zero_add, hview]

section From

variable (f : Nat → EntityId → Row El ks → Row El ks)

theorem mapIdx_from_length (es : List (EntityId × Row El ks)) :
    (es.mapIdx fun j e => (e.1, if es.length ≤ j then f j e.1 e.2 else e.2)) = es := by
  apply List.ext_getElem?
  intro j
  rw [List.getElem?_mapIdx]
  cases hj : es[j]? with
  | none => rfl
  | some e => rw [Option.map_some, if_neg (Nat.not_le.2 (List.getElem?_eq_some_iff.1 hj).1)]

theorem mapIdx_from_succ (hi : es[i]? = some e) :
    ((es.set i (e.1, f i e.1 e.2)).mapIdx fun j e => (e.1, if i + 1 ≤ j then f j e.1 e.2 else e.2)) =
      es.mapIdx fun j e => (e.1, if i ≤ j then f j e.1 e.2 else e.2) := by
  rw [set_eq_mapIdx hi (f i e.1), List.mapIdx_mapIdx]
  apply List.ext_getElem?
  intro j
  rw [List.getElem?_mapIdx, List.getElem?_mapIdx]
  cases hj : es[j]? with
  | none => rfl
  | some e' =>
    by_cases hij : j = i
    · subst hij
      rw [hi] at hj
      cases hj
      simp only [Option.map_some, Nat.not_succ_le_self, Nat.le_refl, if_true, if_false]
      rfl
    · have hle : i + 1 ≤ j ↔ i ≤ j := by omega
      simp [hij, hle]

theorem updateFrom {n : Nat} (h : s.Carries es) (hn : i + n = es.length) :
    ∃ l, Storage.updateFrom f n i s = .ok { s with rows := l } ∧
      Carries { s with rows := l } (es.mapIdx fun j e => (e.1, if i ≤ j then f j e.1 e.2 else e.2)) := by
  induction n generalizing i s es with
  | zero =>
    obtain rfl : i = es.length := hn
    exact ⟨s.rows, rfl, by rwa [mapIdx_from_length]⟩
  | succ n ih =>
    have hi : es[i]? = some es[i] := List.getElem?_eq_getElem (by omega)
    obtain ⟨l₁, hl₁, hc₁⟩ := h.updateRow hi (f i es[i].1)
    obtain ⟨l, hl, hc⟩ := ih hc₁ (i := i + 1) (by rw [List.length_set]; omega)
    rw [mapIdx_from_succ f hi] at hc
    refine ⟨l, ?_, hc⟩
    rw [Storage.updateFrom, h.readTenant hi]
    simp only [Checked.ok_bind, hl₁, hl]

end From

theorem updateRowsAt (f : Nat → EntityId → Row El ks → Row El ks) (h : s.Carries es) :
    ∃ l, s.updateRowsAt f = .ok { s with rows := l } ∧
      Carries { s with rows := l } (es.mapIdx fun i e => (e.1, f i e.1 e.2)) := by
  obtain ⟨l, hl, hc⟩ := updateFrom f h (i := 0) (Nat.zero_add es.length)
  refine ⟨l, by rw [Storage.updateRowsAt, h.size_eq, hl], ?_⟩
  simp only [Nat.zero_le, if_true] at hc
  exact hc

section Kinds

variable [DecidableEq κ]

theorem component? (h : s.Carries es) (key : Key) (k : κ) :
    s.component? r key k = .ok ((s.indexOf? r key).bind fun i => es[i]?.bind fun e => e.2.entryOf? k) := by
  rw [Storage.component?]
  cases hi : s.indexOf? r key with
  | none => rfl
  | some i =>
    obtain ⟨e, he, _⟩ := h.exists_of_indexOf? hi
    obtain ⟨block, slot, hb, hl⟩ := h.locate he
    simp only [hl, Checked.ok_bind, he, Option.bind_some]
    exact Columns.read_entryOf? hb k

theorem updateComponent? (h : s.Carries es) {key : Key} (k : κ) (f : El k → El k) (hi : s.indexOf? r key = some i)
    (he : es[i]? = some e) :
    ∃ l, s.updateComponent? r key k f = .ok ((e.2.entryOf? k).map f, { s with rows := l }) ∧
      Carries { s with rows := l } (es.set i (e.1, (e.2.modifyOf? k f).getD e.2)) := by
  obtain ⟨block, slot, hb, _, hadjust⟩ := LawfulColumnLayout.locate h.rows (getElem?_rows he)
  obtain ⟨l, hl, hholds⟩ := hadjust (f := Columns.updateEntryOf? k f) (Columns.updateEntryOf?_ofRows hb k f)
  refine ⟨l, ?_, ?_, ?_⟩
  · rw [Storage.updateComponent?, hi]
    change (ColumnLayout.adjust s.rows i (Columns.updateEntryOf? k f) >>= _) = _
    rw [hl]
    rfl
  · rw [map_fst_set he]
    exact h.tenants
  · rwa [List.map_set]

theorem reads_eraseByKind {k : κ} {n : Nat} (hn : positionOf? ks k = some n) :
    Reads (kindQuestion (L := L) k n) fun _ id row => row.entry? n |>.bind (cast? k) |>.map (·, id) := by
  intro s es i e h hi
  obtain ⟨block, slot, hb, hl⟩ := h.locate hi
  obtain ⟨a, x, ha, hx, hax⟩ := Columns.exists_cell hb hn
  simp only [kindQuestion, hl, Checked.ok_bind, ha, hx, Option.bind_some, Columns.cast?_self, Column.read_toArray hax,
    h.readTenant hi]
  rfl

end Kinds

theorem reads_eraseByColumn (n : Fin ks.length) :
    Reads (columnQuestion (L := L) n) fun _ id row => some (row.get n, id) := by
  intro s es i e h hi
  obtain ⟨block, slot, hb, hl⟩ := h.locate hi
  obtain ⟨a, ha, hax⟩ := Columns.get_ofRows hb n
  simp only [columnQuestion, hl, Checked.ok_bind, ha, Column.read_toArray hax, h.readTenant hi]
  rfl

theorem reads_eraseWhere :
    Reads (rowQuestion (L := L)) fun i id row => some ⟨i, id, row⟩ := by
  intro s es i e h hi
  rw [rowQuestion, h.rowAt hi]
  rfl

theorem updateColumn? [DecidableEq κ] {s : ArchetypeStorage (Dense El ks)} {es : List (EntityId × Row El ks)}
    (h : s.Carries es) (k : κ) (f : Nat → El k → El k) :
    s.updateColumn? k f = none ∨ ∃ l, s.updateColumn? k f = some { s with rows := l } ∧
      Carries { s with rows := l } (es.mapIdx fun i e => (e.1, (e.2.modifyOf? k (f i)).getD e.2)) := by
  have hrows : s.rows.columns = Columns.ofRows (es.map (·.2)) := h.rows
  rw [Storage.updateColumn?, columns, hrows, Columns.modifyOf?_mapIdx_ofRows]
  cases positionOf? ks k with
  | none => exact .inl rfl
  | some n =>
    refine .inr ⟨_, rfl, ?_, ?_⟩
    · rw [map_mapIdx, mapIdx_const]
      exact h.tenants
    · change Columns.ofRows _ = Columns.ofRows _
      rw [map_mapIdx, mapIdx_map]

theorem updateChunks [∀ k, Footprint (El k)] {shift : Nat} {k : κ} [Chunked.Fits El (k :: ks) shift]
    {s : ArchetypeStorage (Chunked El (k :: ks) shift)} {es : List (EntityId × Row El (k :: ks))} (h : s.Carries es)
    (f : Nat → Nat → Nat → (k : κ) → El k → El k) :
    ∃ l, s.updateChunks f = { s with rows := l } ∧
      Carries { s with rows := l } (es.mapIdx fun i e =>
        (e.1, e.2.mapIdx fun n k x => f (Chunked.split shift i).1 n (Chunked.split shift i).2 k x)) := by
  have hcut : s.rows.Cut (es.map (·.2)) := h.rows
  refine ⟨_, rfl, ?_, ?_⟩
  · rw [map_mapIdx, mapIdx_const]
    exact h.tenants
  · have hcount : ∀ n, n * Chunked.chunkSize shift < (es.map (·.2)).length → n < s.chunks.length := by
      intro n hn
      have hsize : n < s.rows.chunks.size := Nat.lt_of_not_le fun hle => absurd (hcut.size_le_iff.1 hle) (by omega)
      have hpieces : n < ((es.map (·.2)).length + Chunked.chunkSize shift - 1) / Chunked.chunkSize shift := by
        rwa [← hcut.count]
      simpa [chunks, pieces, h.tenants] using Nat.lt_min.2 ⟨hpieces, hsize⟩
    have hmap := hcut.mapCells hcount f
    rw [mapIdx_map] at hmap
    change Chunked.Cut _ _
    rw [map_mapIdx]
    exact hmap

end Storage.Carries

end EntityStore
