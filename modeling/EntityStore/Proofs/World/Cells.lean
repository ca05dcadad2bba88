import EntityStore.Proofs.Layout.Kinds
import EntityStore.Proofs.World.Chunks
import EntityStore.Proofs.World.Isolation

/-! Cells of a storage, whichever way they are read and overwritten. -/

namespace EntityStore

variable {κ α : Type} {El : κ → Type} {C : Config}

open Chunked (chunkSize)

section Archetypes

variable {ks : List κ} {aim : Nat → Fin ks.length → Prop} {change : Nat → EntityId → Row El ks → Row El ks} {j : Nat}
  {n : Fin ks.length}

namespace ArchetypeCall

inductive Shows [DecidableEq κ] (r : Registry C) (id : EntityId) (i : Nat) (n : Fin ks.length) :
    {α : Type} → ArchetypeCall C El ks α → (α → Option (El (ks.get n))) → Prop
  | get? {key : Key} : r.resolve? key = some id → Shows r id i n (.shared (.get? key)) fun a => a.map (·.get n)
  | get {key : Key} : r.resolve? key = some id →
      Shows r id i n (.shared (.get key)) fun a => a.toOption.map (·.get n)
  | row : Shows r id i n (.row? i) fun a => a.map (·.components.get n)
  | rowAt : Shows r id i n (.row? i) fun a => a.map (·.at n)
  | rows {m : Nat} : i < m →
      Shows r id i n (.rows (List.replicate m .front)) fun a => a[i]?.join.map (·.components.get n)
  | component? {key : Key} : IsFirst ks n → r.resolve? key = some id →
      Shows r id i n (.component? key (ks.get n)) fun a => a
  | rowComponent? : IsFirst ks n → Shows r id i n (.row? i) fun a => a.bind (·.component? (ks.get n))

inductive Seeks [DecidableEq κ] (r : Registry C) (id : EntityId) (i : Nat) (k : κ) :
    {α : Type} → ArchetypeCall C El ks α → (α → Bool) → Prop
  | component? {key : Key} : r.resolve? key = some id → Seeks r id i k (.component? key k) fun a => a.isSome
  | rowComponent? : Seeks r id i k (.row? i) fun a => a.any fun v => (v.component? k).isSome

inductive Writes (r : Registry C) (ids : List EntityId) : {α : Type} → ArchetypeCall C El ks α →
    (Nat → Fin ks.length → Prop) → (Nat → EntityId → Row El ks → Row El ks) → Prop
  | update? {key : Key} {i : Nat} {id : EntityId} (f : Row El ks → Row El ks) :
      ids[i]? = some id → r.resolve? key = some id →
      Writes r ids (.shared (.update? key f)) (fun j _ => j = i) fun j _ row => if j = i then f row else row
  | update {key : Key} {i : Nat} {id : EntityId} (f : Row El ks → Row El ks) :
      ids[i]? = some id → r.resolve? key = some id →
      Writes r ids (.shared (.update key f)) (fun j _ => j = i) fun j _ row => if j = i then f row else row
  | updateRow? (i : Nat) (f : Row El ks → Row El ks) :
      Writes r ids (.updateRow? i f) (fun j _ => j = i) fun j _ row => if j = i then f row else row
  | updateRowsAt (f : Nat → EntityId → Row El ks → Row El ks) :
      Writes r ids (.updateRowsAt f) (fun _ _ => True) f
  | updateComponent? {key : Key} {i : Nat} {id : EntityId} {n : Fin ks.length} (f : El (ks.get n) → El (ks.get n)) :
      IsFirst ks n → ids[i]? = some id → r.resolve? key = some id →
      Writes r ids (.updateComponent? key (ks.get n) f) (fun j m => j = i ∧ m = n)
        fun j _ row => if j = i then row.updateAt n f else row
  | absent {key : Key} {k : κ} (f : El k → El k) : k ∉ ks →
      Writes r ids (.updateComponent? key k f) (fun _ _ => False) fun _ _ row => row

theorem Writes.spares {r : Registry C} {ids : List EntityId} {c : ArchetypeCall C El ks α}
    (hc : c.Writes r ids aim change) (hn : ¬ aim j n) (t : EntityId) (row : Row El ks) :
    (change j t row).get n = row.get n := by
  cases hc with
  | update? => simp only [if_neg hn]
  | update => simp only [if_neg hn]
  | updateRow? => simp only [if_neg hn]
  | updateRowsAt => exact absurd trivial hn
  | @updateComponent? key i id m f _ _ _ =>
    dsimp only
    by_cases hj : j = i
    · rw [if_pos hj, row.get_updateAt_of_ne (fun hm => hn ⟨hj, hm⟩)]
    · rw [if_neg hj]
  | absent => rfl

end ArchetypeCall

namespace ColumnCall

inductive Shows (i : Nat) (n : Fin ks.length) : {α : Type} → ColumnCall El ks α → (α → Option (El (ks.get n))) → Prop
  | columns : Shows i n .columns fun a => (a.get n)[i]?
  | columnAt : Shows i n (.columnAt n) fun a => a[i]?
  | column? : IsFirst ks n → Shows i n (.column? (ks.get n)) fun a => a.bind (·[i]?)

inductive Seeks (k : κ) : {α : Type} → ColumnCall El ks α → (α → Bool) → Prop
  | column? : Seeks k (.column? k) fun a => a.isSome

inductive Writes : {α : Type} → ColumnCall El ks α → (Nat → Fin ks.length → Prop) →
    (Nat → EntityId → Row El ks → Row El ks) → Prop
  | updateColumn? {n : Fin ks.length} (f : Nat → El (ks.get n) → El (ks.get n)) : IsFirst ks n →
      Writes (.updateColumn? (ks.get n) f) (fun _ m => m = n) fun j _ row => row.updateAt n (f j)
  | absent {k : κ} (f : Nat → El k → El k) : k ∉ ks →
      Writes (.updateColumn? k f) (fun _ _ => False) fun _ _ row => row

theorem Writes.spares {c : ColumnCall El ks α} (hc : c.Writes aim change) (hn : ¬ aim j n) (t : EntityId)
    (row : Row El ks) : (change j t row).get n = row.get n := by
  cases hc with
  | updateColumn? f _ => exact Tuple.get_updateAt_of_ne row hn _
  | absent => rfl

end ColumnCall

namespace ChunkCall

inductive Shows (shift i : Nat) (n : Fin ks.length) :
    {α : Type} → ChunkCall El ks α → (α → Option (El (ks.get n))) → Prop
  | chunks : Shows shift i n .chunks fun a =>
      a[i / chunkSize shift]?.bind fun p => (p.2.get n)[i % chunkSize shift]?

inductive Writes (shift : Nat) : {α : Type} → ChunkCall El ks α → (Nat → Fin ks.length → Prop) →
    (Nat → EntityId → Row El ks → Row El ks) → Prop
  | updateChunks (f : Nat → Nat → Nat → (k : κ) → El k → El k) :
      Writes shift (.updateChunks f) (fun _ _ => True) fun j _ row =>
        row.mapIdx fun n k x => f (j / chunkSize shift) n (j % chunkSize shift) k x

end ChunkCall

end Archetypes

namespace StoreCall

inductive Shows [DecidableEq κ] (r : Registry C) (id : EntityId) (i : Nat) : {shape : Shape κ} → {α : Type} →
    StoreCall C El shape α → (n : Fin shape.kinds.length) → (α → Option (El (shape.kinds.get n))) → Prop
  | dense {ks : List κ} {α : Type} {c : ArchetypeCall C El ks α} {n : Fin ks.length} {f : α → Option (El (ks.get n))} :
      c.Shows r id i n f → Shows r id i (.dense c) n f
  | columns {ks : List κ} {α : Type} {c : ColumnCall El ks α} {n : Fin ks.length} {f : α → Option (El (ks.get n))} :
      c.Shows i n f → Shows r id i (.columns c) n f
  | chunked {ks : List κ} {shift : Nat} {α : Type} {c : ArchetypeCall C El ks α} {n : Fin ks.length}
      {f : α → Option (El (ks.get n))} :
      c.Shows r id i n f → Shows r id i (.chunked c : StoreCall C El (.chunked ks shift) α) n f
  | chunks {ks : List κ} {shift : Nat} {α : Type} {c : ChunkCall El ks α} {n : Fin ks.length}
      {f : α → Option (El (ks.get n))} :
      c.Shows shift i n f → Shows r id i (.chunks c : StoreCall C El (.chunked ks shift) α) n f

inductive Seeks [DecidableEq κ] (r : Registry C) (id : EntityId) (i : Nat) (k : κ) :
    {shape : Shape κ} → {α : Type} → StoreCall C El shape α → (α → Bool) → Prop
  | dense {ks : List κ} {α : Type} {c : ArchetypeCall C El ks α} {f : α → Bool} :
      c.Seeks r id i k f → Seeks r id i k (.dense c) f
  | columns {ks : List κ} {α : Type} {c : ColumnCall El ks α} {f : α → Bool} :
      c.Seeks k f → Seeks r id i k (.columns c) f
  | chunked {ks : List κ} {shift : Nat} {α : Type} {c : ArchetypeCall C El ks α} {f : α → Bool} :
      c.Seeks r id i k f → Seeks r id i k (.chunked c : StoreCall C El (.chunked ks shift) α) f

inductive Writes (r : Registry C) (ids : List EntityId) : {shape : Shape κ} → {α : Type} → StoreCall C El shape α →
    (Nat → Fin shape.kinds.length → Prop) → (Nat → shape.Tenant → shape.Item El → shape.Item El) → Prop
  | dense {ks : List κ} {α : Type} {c : ArchetypeCall C El ks α} {aim : Nat → Fin ks.length → Prop}
      {f : Nat → EntityId → Row El ks → Row El ks} :
      c.Writes r ids aim f → Writes r ids (.dense c) aim f
  | columns {ks : List κ} {α : Type} {c : ColumnCall El ks α} {aim : Nat → Fin ks.length → Prop}
      {f : Nat → EntityId → Row El ks → Row El ks} :
      c.Writes aim f → Writes r ids (.columns c) aim f
  | chunked {ks : List κ} {shift : Nat} {α : Type} {c : ArchetypeCall C El ks α} {aim : Nat → Fin ks.length → Prop}
      {f : Nat → EntityId → Row El ks → Row El ks} :
      c.Writes r ids aim f → Writes r ids (.chunked c : StoreCall C El (.chunked ks shift) α) aim f
  | chunks {ks : List κ} {shift : Nat} {α : Type} {c : ChunkCall El ks α} {aim : Nat → Fin ks.length → Prop}
      {f : Nat → EntityId → Row El ks → Row El ks} :
      c.Writes shift aim f → Writes r ids (.chunks c : StoreCall C El (.chunked ks shift) α) aim f

theorem Writes.spares {shape : Shape κ} {r : Registry C} {ids : List EntityId} {c : StoreCall C El shape α}
    {aim : Nat → Fin shape.kinds.length → Prop} {change : Nat → shape.Tenant → shape.Item El → shape.Item El}
    (hc : c.Writes r ids aim change) {j : Nat} {n : Fin shape.kinds.length} (hn : ¬ aim j n) (t : shape.Tenant)
    (x : shape.Item El) : (shape.cells (change j t x)).get n = (shape.cells x).get n := by
  cases hc with
  | dense hc => exact ArchetypeCall.Writes.spares hc hn t x
  | columns hc => exact ColumnCall.Writes.spares hc hn t x
  | chunked hc => exact ArchetypeCall.Writes.spares hc hn t x
  | chunks hc =>
    cases hc with
    | updateChunks => exact absurd trivial hn

end StoreCall

variable [DecidableEq κ]

namespace ArchetypeCall

variable {ks : List κ} {L : Type} [ColumnLayout L El ks] [LawfulColumnLayout L El ks] [Capacious L] {r : Registry C}
  {s : ArchetypeStorage L} {es : List (EntityId × Row El ks)} {e : EntityId × Row El ks} {i : Nat}
  {c : ArchetypeCall C El ks α}

theorem outcome_row? (hs : s.Carries es) (he : es[i]? = some e) (r : Registry C) :
    ((row? i).run r s).outcome = .ok (some ⟨i, e.1, e.2⟩, r, s) := by
  simp only [run, hs.row? i, Storage.Carries.view, he, Option.map_some, Run.lift_ok, pure_bind, Run.outcome_pure]

theorem outcome_component? (hs : s.Carries es) (he : es[i]? = some e) {key : Key} (hi : s.indexOf? r key = some i)
    (k : κ) : ((component? key k).run r s).outcome = .ok (e.2.entryOf? k, r, s) := by
  simp only [run, hs.component?, hi, he, Option.bind_some, Run.lift_ok, pure_bind, Run.outcome_pure]

theorem Shows.run {n : Fin ks.length} {f : α → Option (El (ks.get n))} (hc : c.Shows r e.1 i n f) (hs : s.Carries es)
    (hp : s.InPlace r) (he : es[i]? = some e) :
    ∃ a, (c.run r s).outcome = .ok (a, r, s) ∧ f a = some (e.2.get n) := by
  have hindex : ∀ {key : Key}, r.resolve? key = some e.1 → s.indexOf? r key = some i := fun hk =>
    hp.indexOf?_of_resolve? hk (hs.getElem?_ids he)
  cases hc with
  | get? hk =>
    refine ⟨some e.2, ?_, rfl⟩
    simp only [ArchetypeCall.run, StorageCall.run, Storage.get?, hindex hk, hs.read he, Checked.map_ok, Run.lift_ok,
      pure_bind, Run.outcome_pure]
  | get hk =>
    refine ⟨.ok e.2, ?_, rfl⟩
    simp only [ArchetypeCall.run, StorageCall.run, Storage.get, hindex hk, hs.read he, Checked.map_ok, Run.lift_ok,
      pure_bind, Run.outcome_pure]
  | row => exact ⟨_, outcome_row? hs he r, rfl⟩
  | rowAt => exact ⟨_, outcome_row? hs he r, rfl⟩
  | @rows m hm =>
    refine ⟨(List.range m).map (Storage.Carries.view es), ?_, ?_⟩
    · simp only [ArchetypeCall.run, hs.rows_front, Run.lift_ok, pure_bind, Run.outcome_pure]
    · simp only [List.getElem?_map, List.getElem?_range hm, Storage.Carries.view, he, Option.map_some]
      rfl
  | component? hn hk =>
    exact ⟨_, outcome_component? hs he (hindex hk) _, e.2.entryOf?_first hn⟩
  | rowComponent? hn => exact ⟨_, outcome_row? hs he r, e.2.entryOf?_first hn⟩

theorem Seeks.run {k : κ} {f : α → Bool} (hc : c.Seeks r e.1 i k f) (hs : s.Carries es) (hp : s.InPlace r)
    (he : es[i]? = some e) : ∃ a, (c.run r s).outcome = .ok (a, r, s) ∧ (f a ↔ k ∈ ks) := by
  cases hc with
  | component? hk =>
    have hi := hp.indexOf?_of_resolve? hk (hs.getElem?_ids he)
    exact ⟨_, outcome_component? hs he hi k, e.2.isSome_entryOf?_iff⟩
  | rowComponent? => exact ⟨_, outcome_row? hs he r, e.2.isSome_entryOf?_iff⟩

end ArchetypeCall

namespace ColumnCall

variable {ks : List κ} {s : ArchetypeStorage (Dense El ks)} {es : List (EntityId × Row El ks)}
  {e : EntityId × Row El ks} {i : Nat} {c : ColumnCall El ks α}

theorem Shows.run {n : Fin ks.length} {f : α → Option (El (ks.get n))} (hc : c.Shows i n f) (hs : s.Carries es)
    (he : es[i]? = some e) : (c.run s).2 = s ∧ f (c.run s).1 = some (e.2.get n) := by
  have hcell : (s.columns.get n)[i]? = some (e.2.get n) := by
    have hrows : s.columns = Columns.ofRows (es.map (·.2)) := hs.rows
    obtain ⟨a, ha, hax⟩ := Columns.get_ofRows (Storage.getElem?_rows he) n
    rw [hrows, ha, List.getElem?_toArray, hax]
  cases hc with
  | columns => exact ⟨rfl, hcell⟩
  | columnAt => exact ⟨rfl, hcell⟩
  | column? hn =>
    refine ⟨rfl, ?_⟩
    simp only [ColumnCall.run, Storage.column?, s.columns.entryOf?_first hn, Option.bind_some, hcell]

theorem Seeks.run {k : κ} {f : α → Bool} (hc : c.Seeks k f) (s : ArchetypeStorage (Dense El ks)) :
    (c.run s).2 = s ∧ (f (c.run s).1 ↔ k ∈ ks) := by
  cases hc with
  | column? => exact ⟨rfl, s.columns.isSome_entryOf?_iff⟩

end ColumnCall

omit [DecidableEq κ] in
theorem ChunkCall.Shows.run [∀ k, Footprint (El k)] {k : κ} {ks : List κ} {shift i : Nat}
    [Chunked.Fits El (k :: ks) shift] {s : ArchetypeStorage (Chunked El (k :: ks) shift)}
    {es : List (EntityId × Row El (k :: ks))} {e : EntityId × Row El (k :: ks)} {c : ChunkCall El (k :: ks) α}
    {n : Fin (k :: ks).length} {f : α → Option (El ((k :: ks).get n))} (hc : c.Shows shift i n f) (hs : s.Carries es)
    (he : es[i]? = some e) : (c.run s).2 = s ∧ f (c.run s).1 = some (e.2.get n) := by
  cases hc with
  | chunks =>
    obtain ⟨ids, rows, hp, -, hrow⟩ := hs.chunk_div he
    obtain ⟨a, ha, hax⟩ := Columns.get_ofRows hrow n
    refine ⟨rfl, ?_⟩
    simp only [ChunkCall.run, hp, Option.bind_some, ha, List.getElem?_toArray, hax]

namespace StoreCall

variable [∀ k, Footprint (El k)] {shape : Shape κ} [shape.Proper El] {r : Registry C}
  {s : Storage shape.Tenant (shape.Rows El)} {es : List (shape.Tenant × shape.Item El)}
  {e : shape.Tenant × shape.Item El} {i : Nat} {c : StoreCall C El shape α}

theorem Shows.run {n : Fin shape.kinds.length} {f : α → Option (El (shape.kinds.get n))}
    (hc : c.Shows r (Tenant.id e.1) i n f) (hs : s.Carries es) (hp : s.InPlace r) (he : es[i]? = some e) :
    ∃ a, (c.run r s).outcome = .ok (a, r, s) ∧ f a = some ((shape.cells e.2).get n) := by
  cases hc with
  | dense hc => exact ArchetypeCall.Shows.run hc hs hp he
  | columns hc =>
    obtain ⟨hsame, hf⟩ := ColumnCall.Shows.run hc hs he
    exact ⟨_, by rw [StoreCall.run, hsame, Run.outcome_pure], hf⟩
  | @chunked ks _ _ _ _ _ hc =>
    obtain ⟨k, ks, rfl, hfits⟩ := Shape.exists_cons ‹(Shape.chunked ks _).Proper El›
    exact ArchetypeCall.Shows.run hc hs hp he
  | @chunks ks _ _ _ _ _ hc =>
    obtain ⟨k, ks, rfl, hfits⟩ := Shape.exists_cons ‹(Shape.chunked ks _).Proper El›
    obtain ⟨hsame, hf⟩ := ChunkCall.Shows.run hc hs he
    exact ⟨_, by rw [StoreCall.run, hsame, Run.outcome_pure], hf⟩

theorem Seeks.run {k : κ} {f : α → Bool} (hc : c.Seeks r (Tenant.id e.1) i k f) (hs : s.Carries es)
    (hp : s.InPlace r) (he : es[i]? = some e) :
    ∃ a, (c.run r s).outcome = .ok (a, r, s) ∧ (f a ↔ k ∈ shape.kinds) := by
  cases hc with
  | dense hc => exact ArchetypeCall.Seeks.run hc hs hp he
  | columns hc =>
    obtain ⟨hsame, hf⟩ := ColumnCall.Seeks.run hc s
    exact ⟨_, by rw [StoreCall.run, hsame, Run.outcome_pure], hf⟩
  | @chunked ks _ _ _ _ hc =>
    obtain ⟨k, ks, rfl, hfits⟩ := Shape.exists_cons ‹(Shape.chunked ks _).Proper El›
    exact ArchetypeCall.Seeks.run hc hs hp he

end StoreCall

namespace Storage

variable {τ L ρ : Type} {es : List (τ × ρ)} {e : τ × ρ} {i : Nat}

def overwrite (change : Nat → τ → ρ → ρ) (es : List (τ × ρ)) : List (τ × ρ) :=
  es.mapIdx fun j e => (e.1, change j e.1 e.2)

theorem overwrite_same (es : List (τ × ρ)) : overwrite (fun _ _ x => x) es = es :=
  (mapIdx_const id es).trans (List.map_id es)

theorem overwrite_at (hi : es[i]? = some e) (f : ρ → ρ) :
    overwrite (fun j _ x => if j = i then f x else x) es = es.set i (e.1, f e.2) := (set_eq_mapIdx hi f).symm

theorem overwrite_beyond (hi : es.length ≤ i) (f : ρ → ρ) :
    overwrite (fun j _ x => if j = i then f x else x) es = es := by
  apply List.ext_getElem?
  intro j
  rw [overwrite, List.getElem?_mapIdx]
  cases hj : es[j]? with
  | none => rfl
  | some e =>
    have hlt : j < es.length := (List.getElem?_eq_some_iff.1 hj).1
    rw [Option.map_some, if_neg (by omega)]

end Storage

open Storage (overwrite)

namespace ArchetypeCall

variable {ks : List κ} {r : Registry C} {ids : List EntityId} {c : ArchetypeCall C El ks α}
  {aim : Nat → Fin ks.length → Prop} {change : Nat → EntityId → Row El ks → Row El ks}

variable {L : Type} [ColumnLayout L El ks] [LawfulColumnLayout L El ks] [Capacious L] {s : ArchetypeStorage L}
  {es : List (EntityId × Row El ks)}

theorem Writes.run (hc : c.Writes r s.ids aim change) (hs : s.Carries es) (hp : s.InPlace r) :
    ∃ a l, (c.run r s).outcome = .ok (a, r, { s with rows := l }) ∧
      Storage.Carries { s with rows := l } (overwrite change es) := by
  have hfound : ∀ {key : Key} {i : Nat} {id : EntityId}, s.ids[i]? = some id → r.resolve? key = some id →
      s.indexOf? r key = some i ∧ ∃ e, es[i]? = some e := by
    intro key i id hid hk
    rw [hs.ids_eq, List.getElem?_map] at hid
    obtain ⟨e, he, rfl⟩ := Option.map_eq_some_iff.1 hid
    exact ⟨hp.indexOf?_of_resolve? hk (hs.getElem?_ids he), e, he⟩
  cases hc with
  | update? f hid hk =>
    obtain ⟨hi, e, he⟩ := hfound hid hk
    obtain ⟨l, hl, hcl⟩ := hs.updateRow he f
    refine ⟨true, l, ?_, by rwa [Storage.overwrite_at he]⟩
    simp only [ArchetypeCall.run, StorageCall.run, Storage.update?, hi, hl, Checked.map_ok, Run.lift_ok, pure_bind,
      Run.outcome_pure]
  | update f hid hk =>
    obtain ⟨hi, e, he⟩ := hfound hid hk
    obtain ⟨l, hl, hcl⟩ := hs.updateRow he f
    refine ⟨.ok (), l, ?_, by rwa [Storage.overwrite_at he]⟩
    simp only [ArchetypeCall.run, StorageCall.run, Storage.update, hi, hl, Checked.map_ok, Run.lift_ok, pure_bind,
      Run.outcome_pure]
  | updateRow? i f =>
    cases he : es[i]? with
    | none =>
      refine ⟨none, s.rows, ?_, by rwa [Storage.overwrite_beyond (List.getElem?_eq_none_iff.1 he)]⟩
      simp only [ArchetypeCall.run, Storage.updateRow?, hs.getElem?_tenants, he, Option.map_none, Run.lift_ok,
        pure_bind, Run.outcome_pure]
    | some e =>
      obtain ⟨l, hl, hcl⟩ := hs.updateRow he f
      refine ⟨some e.1, l, ?_, by rwa [Storage.overwrite_at he]⟩
      simp only [ArchetypeCall.run, Storage.updateRow?, hs.getElem?_tenants, he, Option.map_some, hl, Checked.map_ok,
        Run.lift_ok, pure_bind, Run.outcome_pure]
  | updateRowsAt =>
    obtain ⟨l, hl, hcl⟩ := hs.updateRowsAt change
    refine ⟨(), l, ?_, hcl⟩
    simp only [ArchetypeCall.run, hl, Run.lift_ok, pure_bind, Run.outcome_pure]
  | @updateComponent? key i id n f hn hid hk =>
    obtain ⟨hi, e, he⟩ := hfound hid hk
    obtain ⟨l, hl, hcl⟩ := hs.updateComponent? (ks.get n) f hi he
    rw [e.2.modifyOf?_first hn, Option.getD_some] at hcl
    refine ⟨(e.2.entryOf? (ks.get n)).map f, l, ?_, by rwa [Storage.overwrite_at he fun row => row.updateAt n f]⟩
    simp only [ArchetypeCall.run, hl, Run.lift_ok, pure_bind, Run.outcome_pure]
  | @absent key k f hk =>
    cases hi : s.indexOf? r key with
    | none =>
      refine ⟨none, s.rows, ?_, by rwa [Storage.overwrite_same]⟩
      simp only [ArchetypeCall.run, Storage.updateComponent?, hi, Run.lift_ok, pure_bind, Run.outcome_pure]
    | some i =>
      obtain ⟨e, he, -⟩ := hs.exists_of_indexOf? hi
      obtain ⟨l, hl, hcl⟩ := hs.updateComponent? k f hi he
      rw [e.2.modifyOf?_absent hk, Option.getD_none] at hcl
      obtain ⟨hlt, rfl⟩ := List.getElem?_eq_some_iff.1 he
      rw [List.set_getElem_self] at hcl
      refine ⟨(es[i].2.entryOf? k).map f, l, ?_, by rwa [Storage.overwrite_same]⟩
      simp only [ArchetypeCall.run, hl, Run.lift_ok, pure_bind, Run.outcome_pure]

end ArchetypeCall

theorem ColumnCall.Writes.run {ks : List κ} {s : ArchetypeStorage (Dense El ks)} {es : List (EntityId × Row El ks)}
    {c : ColumnCall El ks α} {aim : Nat → Fin ks.length → Prop} {change : Nat → EntityId → Row El ks → Row El ks}
    (hc : c.Writes aim change) (hs : s.Carries es) :
    ∃ l, (c.run s).2 = { s with rows := l } ∧ Storage.Carries { s with rows := l } (overwrite change es) := by
  cases hc with
  | @updateColumn? n f hn =>
    rcases hs.updateColumn? (ks.get n) f with hnone | ⟨l, hl, hcl⟩
    · rw [Storage.updateColumn?, Tuple.modifyOf?, positionOf?_first hn] at hnone
      cases hnone
    · refine ⟨l, by simp only [ColumnCall.run, hl], ?_⟩
      simp only [Tuple.modifyOf?_first _ hn, Option.getD_some] at hcl
      exact hcl
  | absent f hk =>
    refine ⟨s.rows, ?_, by rwa [Storage.overwrite_same]⟩
    simp only [ColumnCall.run, Storage.updateColumn?, s.columns.modifyOf?_absent hk, Option.map_none]

omit [DecidableEq κ] in
theorem ChunkCall.Writes.run [∀ k, Footprint (El k)] {k : κ} {ks : List κ} {shift : Nat}
    [Chunked.Fits El (k :: ks) shift] {s : ArchetypeStorage (Chunked El (k :: ks) shift)}
    {es : List (EntityId × Row El (k :: ks))} {c : ChunkCall El (k :: ks) α} {aim : Nat → Fin (k :: ks).length → Prop}
    {change : Nat → EntityId → Row El (k :: ks) → Row El (k :: ks)} (hc : c.Writes shift aim change)
    (hs : s.Carries es) :
    ∃ l, (c.run s).2 = { s with rows := l } ∧ Storage.Carries { s with rows := l } (overwrite change es) := by
  cases hc with
  | updateChunks f =>
    obtain ⟨l, hl, hcl⟩ := hs.updateChunks f
    simp only [Chunked.split_eq] at hcl
    exact ⟨l, hl, hcl⟩

namespace StoreCall

variable {shape : Shape κ} {r : Registry C} {s : Storage shape.Tenant (shape.Rows El)}
  {es : List (shape.Tenant × shape.Item El)} {ids : List EntityId} {c : StoreCall C El shape α}
  {aim : Nat → Fin shape.kinds.length → Prop} {change : Nat → shape.Tenant → shape.Item El → shape.Item El}

theorem Writes.run [∀ k, Footprint (El k)] [shape.Proper El] (hc : c.Writes r s.ids aim change) (hs : s.Carries es)
    (hp : s.InPlace r) :
    ∃ a l, (c.run r s).outcome = .ok (a, r, { s with rows := l }) ∧
      Storage.Carries { s with rows := l } (overwrite change es) := by
  cases hc with
  | dense hc => exact ArchetypeCall.Writes.run hc hs hp
  | columns hc =>
    obtain ⟨l, hl, hcl⟩ := ColumnCall.Writes.run hc hs
    exact ⟨_, l, by rw [StoreCall.run, hl, Run.outcome_pure], hcl⟩
  | @chunked ks _ _ _ _ _ hc =>
    obtain ⟨k, ks, rfl, hfits⟩ := Shape.exists_cons ‹(Shape.chunked ks _).Proper El›
    exact ArchetypeCall.Writes.run hc hs hp
  | @chunks ks _ _ _ _ _ hc =>
    obtain ⟨k, ks, rfl, hfits⟩ := Shape.exists_cons ‹(Shape.chunked ks _).Proper El›
    obtain ⟨l, hl, hcl⟩ := ChunkCall.Writes.run hc hs
    exact ⟨_, l, by rw [StoreCall.run, hl, Run.outcome_pure], hcl⟩

end StoreCall

structure Shape.Legible [∀ k, Footprint (El k)] (shape : Shape κ) (r : Registry C)
    (s : Storage shape.Tenant (shape.Rows El)) (es : List (shape.Tenant × shape.Item El)) : Prop where
  ids : s.ids = es.map fun e => Tenant.id e.1
  size : s.size = es.length
  shows {i : Nat} {e : shape.Tenant × shape.Item El} {α : Type} {c : StoreCall C El shape α}
    {n : Fin shape.kinds.length} {f : α → Option (El (shape.kinds.get n))} : es[i]? = some e →
    c.Shows r (Tenant.id e.1) i n f →
    ∃ a, (c.run r s).outcome = .ok (a, r, s) ∧ f a = some ((shape.cells e.2).get n)
  seeks {i : Nat} {e : shape.Tenant × shape.Item El} {α : Type} {c : StoreCall C El shape α} {k : κ} {f : α → Bool} :
    es[i]? = some e → c.Seeks r (Tenant.id e.1) i k f →
    ∃ a, (c.run r s).outcome = .ok (a, r, s) ∧ (f a ↔ k ∈ shape.kinds)

theorem Storage.Carries.legible [∀ k, Footprint (El k)] {shape : Shape κ} [shape.Proper El] {r : Registry C}
    {s : Storage shape.Tenant (shape.Rows El)} {es : List (shape.Tenant × shape.Item El)} (hs : s.Carries es)
    (hp : s.InPlace r) : shape.Legible r s es where
  ids := hs.ids_eq
  size := hs.size_eq
  shows he hc := hc.run hs hp he
  seeks he hc := hc.run hs hp he

end EntityStore

namespace EntityStore.World

variable {C : Config} {ι κ : Type} {El : κ → Type} {shapes : ι → Shape κ} [DecidableEq ι] [DecidableEq κ]
  [∀ k, Footprint (El k)] [∀ i, (shapes i).Proper El] {w₀ w : World C El shapes}

/-- Where the rows of a storage are in place, one list of rows is what every reader sees of it. A call that overwrites
changes that list in the cells it is for, and nothing else in the world. -/
theorem cells_agree (h₀ : w₀.Fresh) (h : Leads (fun _ _ => True) w₀ w) {i : ι}
    (hp : (w.stores i).InPlace w.registry) : ∃ es, (shapes i).Legible w.registry (w.stores i) es ∧
    ∀ {α : Type} {c : StoreCall C El (shapes i) α} {aim change},
      c.Writes w.registry (w.stores i).ids aim change →
      ∃ a rows, ((WorldCall.store i c).run w).outcome =
          .ok (a, w.put i w.registry { w.stores i with rows := rows }) ∧
        (shapes i).Legible w.registry { w.stores i with rows := rows } (Storage.overwrite change es) ∧
        ∀ (j : Nat) (n : Fin (shapes i).kinds.length), ¬ aim j n → ∀ t x,
          ((shapes i).cells (change j t x)).get n = ((shapes i).cells x).get n := by
  obtain ⟨v, hw⟩ := h₀.leads_steady h
  obtain ⟨es, hs⟩ := hw.carries i
  refine ⟨es, hs.legible hp, ?_⟩
  intro α c aim change hc
  obtain ⟨a, rows, ho, hs'⟩ := hc.run hs hp
  exact ⟨a, rows, outcome_store ho, hs'.legible hp, fun j n hn => hc.spares hn⟩

theorem housedTwin_inPlace : (housedTwin.stores true).InPlace housedTwin.registry := by
  rintro (_ | _ | _ | row) id h <;> cases h <;> exact ⟨rfl, rfl⟩

theorem cells_agree_twin : ∃ es, (twinShapes true).Legible housedTwin.registry (housedTwin.stores true) es ∧
    ∃ a rows, ((WorldCall.store true (.chunked (.updateComponent? (.id 3) Kind.word8 fun n : UInt8 => n + 4))).run
        housedTwin).outcome =
        .ok (a, housedTwin.put true housedTwin.registry { housedTwin.stores true with rows := rows }) ∧
      (twinShapes true).Legible housedTwin.registry { housedTwin.stores true with rows := rows }
        (Storage.overwrite (fun j _ row => if j = 1 then row.updateAt 0 fun n : UInt8 => n + 4 else row) es) := by
  obtain ⟨es, hes, hwrites⟩ := cells_agree twin_fresh housedTwin_leads housedTwin_inPlace
  have hfirst : IsFirst [Kind.word8, Kind.flag, Kind.word8] 0 := fun m hm => absurd hm (Nat.not_lt_zero m)
  have hid : (housedTwin.stores true).ids[1]? = some 3 := rfl
  have hk : housedTwin.registry.resolve? (.id 3) = some 3 := rfl
  obtain ⟨a, rows, ho, hl, -⟩ := hwrites (.chunked (.updateComponent? (fun n : UInt8 => n + 4) hfirst hid hk))
  exact ⟨es, hes, a, rows, ho, hl⟩

end EntityStore.World
