import EntityStore.Proofs.Storage.Columns
import EntityStore.Proofs.World.Journal

/-! Chunks of a storage. -/

namespace EntityStore

section

variable {κ : Type} {El : κ → Type} [∀ k, Footprint (El k)] {shift : Nat}

namespace Chunked

variable {ks : List κ} {d : Chunked El ks shift} {rows : List (Row El ks)} {n : Nat} {c : Columns El ks}

omit [∀ k, Footprint (El k)] in
theorem Cut.filled {k : κ} {ks : List κ} {d : Chunked El (k :: ks) shift} {rows : List (Row El (k :: ks))}
    {c : Columns El (k :: ks)} (h : d.Cut rows) (hc : d.chunks[n]? = some c) :
    (n + 1 < d.chunks.size → c.rowCount = chunkSize shift) ∧ 1 ≤ c.rowCount ∧ c.rowCount ≤ chunkSize shift := by
  have hk := chunkSize_pos shift
  obtain ⟨hlt, rfl⟩ := h.exists_block hc
  rw [Columns.rowCount_ofRows, length_block]
  refine ⟨fun hn => ?_, by omega, Nat.min_le_left _ _⟩
  have hfull := mt h.size_le_iff.2 (Nat.not_le.2 hn)
  rw [Nat.succ_mul] at hfull
  omega

end Chunked

namespace Storage

open Chunked (chunkSize)

/-- The shape of the chunks, and what is seen through them. -/
structure Chunkwise {ks : List κ} (s : ArchetypeStorage (Chunked El ks shift)) : Prop where
  count : s.chunkCount = (s.size + chunkSize shift - 1) / chunkSize shift
  filled {n : Nat} {c : Columns El ks} : s.rows.chunks[n]? = some c →
    (n + 1 < s.chunkCount → c.rowCount = chunkSize shift) ∧ 1 ≤ c.rowCount ∧ c.rowCount ≤ chunkSize shift
  even {n : Nat} {c : Columns El ks} : s.rows.chunks[n]? = some c → ∀ j : Fin ks.length, (c.get j).size = c.rowCount
  placed {i : Nat} : i < s.size → ∃ v p, s.row? i = .ok (some v) ∧ s.ids[i]? = some v.id ∧
    s.chunks[i / chunkSize shift]? = some p ∧ p.1[i % chunkSize shift]? = some v.id ∧
    p.2.read (i % chunkSize shift) = .ok v.components
  whole : s.chunks.map Prod.snd = s.rows.chunks.toList
  paired : ∀ p ∈ s.chunks, p.1.length = p.2.rowCount
  ids : (s.chunks.map Prod.fst).flatten = s.ids
  rows : ∃ vs : List (RowView El ks),
    (Cursor.start s.size).walkBy (ArchetypeCall.nextAt s) (List.replicate s.size .front) = .ok (vs.map some) ∧
    vs.map RowView.id = s.ids ∧
    (s.chunks.flatMap fun p => (List.range p.1.length).map p.2.read) = vs.map fun v => .ok v.components
  overwritten (f : Nat → Nat → Nat → (k : κ) → El k → El k) : (s.updateChunks f).ids = s.ids ∧
    (s.updateChunks f).chunks = s.chunks.mapIdx fun n p => (p.1, p.2.mapCells (f n))

omit [∀ k, Footprint (El k)] in
theorem chunks_updateChunks {ks : List κ} (s : ArchetypeStorage (Chunked El ks shift))
    (f : Nat → Nat → Nat → (k : κ) → El k → El k) :
    (s.updateChunks f).chunks = s.chunks.mapIdx fun n p => (p.1, p.2.mapCells (f n)) := by
  apply List.ext_getElem?
  intro n
  rw [List.getElem?_mapIdx]
  cases hp : s.chunks[n]? with
  | none =>
    rw [Option.map_none, List.getElem?_eq_none_iff]
    rw [List.getElem?_eq_none_iff] at hp
    simpa [chunks, updateChunks] using hp
  | some p =>
    have hn : n < s.chunks.length := (List.getElem?_eq_some_iff.1 hp).1
    obtain ⟨hids, hc⟩ := List.getElem?_zip_eq_some.1 hp
    refine List.getElem?_zip_eq_some.2 ⟨hids, ?_⟩
    simp only [updateChunks, Array.toList_mapIdx, List.getElem?_mapIdx, hc, Option.map_some, if_pos hn]

namespace Carries

variable {k : κ} {ks : List κ} [Chunked.Fits El (k :: ks) shift] {s : ArchetypeStorage (Chunked El (k :: ks) shift)}
  {es : List (EntityId × Row El (k :: ks))}

theorem length_rows (h : s.Carries es) : s.ids.length = (es.map (·.2)).length := by
  rw [length_ids, h.size_eq, List.length_map]

theorem length_block_ids (h : s.Carries es) (n : Nat) :
    (block (chunkSize shift) s.ids n).length = (block (chunkSize shift) (es.map (·.2)) n).length := by
  rw [length_block, length_block, h.length_rows]

theorem flatten_chunks {α : Type} (h : s.Carries es) (l : List α) (hl : l.length = (es.map (·.2)).length) :
    ((List.range s.chunkCount).map (block (chunkSize shift) l)).flatten = l := by
  have hcut : s.rows.Cut (es.map (·.2)) := h.rows
  rw [flatten_blocks, List.take_of_length_le]
  rw [hl]
  exact hcut.size_le_iff.1 (Nat.le_refl _)

theorem chunks_eq (h : s.Carries es) : s.chunks = (List.range s.chunkCount).map fun n =>
    (block (chunkSize shift) s.ids n, Columns.ofRows (block (chunkSize shift) (es.map (·.2)) n)) := by
  have hcut : s.rows.Cut (es.map (·.2)) := h.rows
  have hids : s.tenants.toList = s.ids := (List.map_id _).symm
  have hpieces : pieces (chunkSize shift) s.ids = (List.range s.chunkCount).map (block (chunkSize shift) s.ids) := by
    rw [pieces, h.length_rows, ← hcut.count]
    rfl
  rw [chunks, hids, hpieces, hcut.chunks_eq, List.map_map, chunkCount, List.zip_map']
  rfl

omit [∀ k, Footprint (El k)] in
theorem map_view (es : List (EntityId × Row El (k :: ks))) :
    (List.range es.length).map (view es) = (es.mapIdx fun i e => (⟨i, e.1, e.2⟩ : RowView El (k :: ks))).map some := by
  apply List.ext_getElem?
  intro i
  by_cases hi : i < es.length <;> simp [hi, view]

theorem chunk_div {i : Nat} {e : EntityId × Row El (k :: ks)} (h : s.Carries es) (hi : es[i]? = some e) :
    ∃ ids rows, s.chunks[i / chunkSize shift]? = some (ids, Columns.ofRows rows) ∧
      ids[i % chunkSize shift]? = some e.1 ∧ rows[i % chunkSize shift]? = some e.2 := by
  have hk := Chunked.chunkSize_pos shift
  have hlt : i < (es.map (·.2)).length := (List.getElem?_eq_some_iff.1 (getElem?_rows hi)).1
  have hn : i / chunkSize shift < s.chunkCount := (Array.getElem?_eq_some_iff.1 (Chunked.Cut.chunk_div h.rows hlt)).1
  refine ⟨_, _, by rw [h.chunks_eq, List.getElem?_map, List.getElem?_range hn, Option.map_some], ?_, ?_⟩
  · rw [getElem?_block_div hk, h.getElem?_ids hi]
    rfl
  · rw [getElem?_block_div hk, getElem?_rows hi]

theorem map_read_chunks (h : s.Carries es) :
    (s.chunks.flatMap fun p => (List.range p.1.length).map p.2.read) = es.map fun e => .ok e.2 := by
  have hblock : ∀ n, (List.range (block (chunkSize shift) s.ids n).length).map
      (Columns.ofRows (block (chunkSize shift) (es.map (·.2)) n)).read =
        (block (chunkSize shift) (es.map (·.2)) n).map .ok := by
    intro n
    rw [h.length_block_ids, Columns.map_read_ofRows]
  have hflat := congrArg (List.map (Except.ok (ε := Fault))) (h.flatten_chunks (es.map (·.2)) rfl)
  rw [List.map_flatten, List.map_map, List.map_map] at hflat
  rw [h.chunks_eq, List.flatMap_map]
  simp only [hblock]
  exact hflat

theorem chunkwise (h : s.Carries es) : s.Chunkwise where
  count := by
    rw [chunkCount, Chunked.Cut.count h.rows, ← h.length_rows, length_ids]
  filled := Chunked.Cut.filled h.rows
  even hc j := by
    obtain ⟨-, rfl⟩ := Chunked.Cut.exists_block h.rows hc
    rw [Columns.size_get_ofRows, Columns.rowCount_ofRows]
  placed {i} hi := by
    rw [h.size_eq] at hi
    have he : es[i]? = some es[i] := List.getElem?_eq_getElem hi
    obtain ⟨ids, rows, hp, hid, hrow⟩ := h.chunk_div he
    refine ⟨⟨i, es[i].1, es[i].2⟩, _, ?_, h.getElem?_ids he, hp, hid, Columns.read_ofRows hrow⟩
    rw [h.row?, view, he, Option.map_some]
  whole := by
    rw [h.chunks_eq, Chunked.Cut.chunks_eq h.rows, List.map_map, List.map_map]
    rfl
  paired p hp := by
    rw [h.chunks_eq] at hp
    obtain ⟨n, -, rfl⟩ := List.mem_map.1 hp
    rw [h.length_block_ids, Columns.rowCount_ofRows]
  ids := by
    rw [h.chunks_eq, List.map_map]
    exact h.flatten_chunks s.ids h.length_rows
  rows := by
    have hfront := h.rows_front s.size
    rw [h.size_eq, map_view, ← h.size_eq] at hfront
    refine ⟨_, hfront, ?_, ?_⟩
    · rw [map_mapIdx, mapIdx_const, h.ids_eq]
      rfl
    · rw [h.map_read_chunks, map_mapIdx]
      exact (mapIdx_const _ es).symm
  overwritten f := ⟨rfl, s.chunks_updateChunks f⟩

end Carries

end Storage

end

def Shape.Chunkwise {κ : Type} {El : κ → Type} [∀ k, Footprint (El k)] :
    (shape : Shape κ) → Storage shape.Tenant (shape.Rows El) → Prop
  | chunked _ _, s => Storage.Chunkwise s
  | _, _ => True

theorem Storage.Carries.chunkwise_of_shape {κ : Type} {El : κ → Type} [∀ k, Footprint (El k)] {shape : Shape κ}
    [shape.Proper El]
    {s : Storage shape.Tenant (shape.Rows El)} {es : List (shape.Tenant × shape.Item El)} (hs : s.Carries es) :
    shape.Chunkwise s := by
  cases shape with
  | component k => trivial
  | dense ks => trivial
  | chunked ks shift =>
    obtain ⟨k, ks, rfl, hfits⟩ := Shape.exists_cons ‹(Shape.chunked ks shift).Proper El›
    exact Storage.Carries.chunkwise hs

namespace World

variable {C : Config} {ι κ : Type} {El : κ → Type} {shapes : ι → Shape κ} [DecidableEq ι] [DecidableEq κ]
  [∀ k, Footprint (El k)] [∀ i, (shapes i).Proper El] {w₀ w : World C El shapes}

/-- Wherever calls lead, the chunks of a storage are full but for the last, and its ids and its rows are read through
them in the order in which they are read without them. -/
theorem chunks_exact (h₀ : w₀.Fresh) (h : Leads (fun _ _ => True) w₀ w) (i : ι) :
    (shapes i).Chunkwise (w.stores i) := by
  obtain ⟨v, hw⟩ := h₀.leads_steady h
  obtain ⟨es, hs⟩ := hw.carries i
  exact hs.chunkwise_of_shape

def twinShapes : Bool → Shape Kind
  | false => .dense [.word8, .flag, .word8]
  | true => .chunked [.word8, .flag, .word8] 1

instance : Chunked.Fits Kind.Value [.word8, .flag, .word8] 1 := ⟨by decide⟩

instance : (i : Bool) → (twinShapes i).Proper Kind.Value
  | false => inferInstanceAs (Shape.Proper (.dense [Kind.word8, Kind.flag, Kind.word8]) Kind.Value)
  | true => inferInstanceAs (Shape.Proper (.chunked [Kind.word8, Kind.flag, Kind.word8] 1) Kind.Value)

def twin : World Config.standard Kind.Value twinShapes where
  registry := .empty _
  stores
    | false => ⟨1, Storage.unlimited, #[], .mk (.empty _)⟩
    | true => ⟨2, Storage.unlimited, #[], .empty⟩

theorem twin_fresh : twin.Fresh where
  registry := .inl rfl
  stores
    | false => .inl ⟨1, rfl⟩
    | true => .inl ⟨2, rfl⟩

def housedTwin : World Config.standard Kind.Value twinShapes :=
  let spawn (n : UInt8) : WorldCall Config.standard Kind.Value twinShapes (Option Handle) :=
    .store true (.chunked (.shared (.spawn () (.cons n (.cons true (.cons n .nil))))))
  ((((twin.after (spawn 0)).after (spawn 1)).after (spawn 2)).after (spawn 3)).after
    (.store true (.chunked (.shared (.remove (.id 1) 65535))))

theorem housedTwin_leads : Leads (fun _ _ => True) twin housedTwin := by
  unfold housedTwin
  exact ((((Leads.refl.after _ trivial).after _ trivial).after _ trivial).after _ trivial).after _ trivial

theorem chunks_exact_twin : (housedTwin.stores true).ids = [0, 3, 2] ∧
    (twinShapes true).Chunkwise (housedTwin.stores true) :=
  ⟨rfl, chunks_exact twin_fresh housedTwin_leads true⟩

end World

end EntityStore
