import EntityStore.Proofs.Storage.Shapes

/-! Storages of every shape, each with the calls of its own. -/

namespace EntityStore

/-- An archetype that is kept in chunks has a component, of which the first tells how full a chunk is, and room for a
whole chunk can be had. -/
class Shape.Proper {κ : Type} (shape : Shape κ) (El : κ → Type) [∀ k, Footprint (El k)] : Prop where
  ne_nil : ∀ ks shift, shape = .chunked ks shift → ks ≠ []
  fits : ∀ ks shift, shape = .chunked ks shift → Chunked.Fits El ks shift

namespace Shape

variable {κ : Type}

section Proper

variable {El : κ → Type} [∀ k, Footprint (El k)]

instance (k : κ) : Proper (.component k) El where
  ne_nil _ _ h := nomatch h
  fits _ _ h := nomatch h

instance (ks : List κ) : Proper (.dense ks) El where
  ne_nil _ _ h := nomatch h
  fits _ _ h := nomatch h

instance (k : κ) (ks : List κ) (shift : Nat) [hfits : Chunked.Fits El (k :: ks) shift] :
    Proper (.chunked (k :: ks) shift) El where
  ne_nil ks' shift' h := by
    cases h
    exact List.cons_ne_nil k ks
  fits ks' shift' h := by
    cases h
    exact hfits

end Proper

theorem exists_cons {El : κ → Type} [∀ k, Footprint (El k)] {ks : List κ} {shift : Nat}
    (h : (chunked ks shift).Proper El) : ∃ k ks', ks = k :: ks' ∧ Chunked.Fits El ks shift := by
  obtain ⟨k, ks', rfl⟩ := List.exists_cons_of_ne_nil (h.ne_nil ks shift rfl)
  exact ⟨k, ks', rfl, h.fits _ _ rfl⟩

instance instLawfulLayout (El : κ → Type) [∀ k, Footprint (El k)] : (shape : Shape κ) → [shape.Proper El] →
    LawfulLayout (shape.Rows El) (shape.Item El)
  | component k, _ => inferInstanceAs (LawfulLayout (Array (El k)) (El k))
  | dense ks, _ => (inferInstance : LawfulColumnLayout (Dense El ks) El ks).toLawfulLayout
  | chunked [] shift, h => absurd rfl (h.ne_nil [] shift rfl)
  | chunked (k :: ks) shift, h =>
    have := h.fits (k :: ks) shift rfl
    (inferInstance : LawfulColumnLayout (Chunked El (k :: ks) shift) El (k :: ks)).toLawfulLayout

instance instLawfulCapacity (El : κ → Type) [∀ k, Footprint (El k)] : (shape : Shape κ) →
    LawfulCapacity (shape.Rows El)
  | component k => inferInstanceAs (LawfulCapacity (Array (El k)))
  | dense ks => inferInstanceAs (LawfulCapacity (Dense El ks))
  | chunked ks shift => inferInstanceAs (LawfulCapacity (Chunked El ks shift))

end Shape

variable {κ α : Type} {El : κ → Type} [∀ k, Footprint (El k)] {C : Config} {v : Ledger C} {r : Registry C}

theorem StoreCall.run_shared [DecidableEq κ] {shape : Shape κ} [shape.Proper El]
    {s : Storage shape.Tenant (shape.Rows El)} {es : List (shape.Tenant × shape.Item El)} (hs : s.Carries es)
    (c : StorageCall C (shape.Item El) α) (r : Registry C) : (StoreCall.shared shape c).run r s = c.run r s := by
  cases shape with
  | component k => exact c.runComponents_eq hs r
  | dense ks => rfl
  | chunked ks shift => rfl

namespace StoreCall

def MayFault (n : Nat) (f : Fault) : {shape : Shape κ} → StoreCall C El shape α → Prop
  | _, component c => c.MayFault n f
  | _, dense c => c.Reserves ∧ f.IsOverflow
  | _, chunked c => c.Reserves ∧ f.IsOverflow
  | _, _ => False

omit [∀ k, Footprint (El k)] in
theorem not_deadRelocation_of_mayFault {shape : Shape κ} (c : StoreCall C El shape α) {n : Nat} (id : Nat) :
    ¬ c.MayFault n (.deadRelocation id) := by
  have hoverflow : ¬ (Fault.deadRelocation id).IsOverflow := by rintro (h | h) <;> cases h
  cases c with
  | component c =>
    cases c with
    | shared c => exact fun h => hoverflow h.2
    | componentAt i => exact fun h => nomatch h.2
    | modify i f => exact fun h => nomatch h.2
    | _ => exact fun h => h
  | dense c => exact fun h => hoverflow h.2
  | chunked c => exact fun h => hoverflow h.2
  | _ => exact fun h => h

end StoreCall

def ChunkCall.change {ks : List κ} (shift : Nat) : ChunkCall El ks α → α → Change (Row El ks)
  | updateChunks f, _ =>
    .rewrite fun _ i row => row.mapIdx fun n k x => f (Chunked.split shift i).1 n (Chunked.split shift i).2 k x
  | _, _ => .keep

theorem ChunkCall.run_serves {k : κ} {ks : List κ} {shift : Nat} [Chunked.Fits El (k :: ks) shift]
    {s : ArchetypeStorage (Chunked El (k :: ks) shift)}
    {es : List (EntityId × Row El (k :: ks))} (c : ChunkCall El (k :: ks) α) (hs : s.Settled v es)
    (h : r.Represents v) : s.Served v (c.change shift (c.run s).1) r (c.run s).2 := by
  cases c with
  | chunkCount | chunks => exact hs.served_keep h
  | updateChunks f =>
    obtain ⟨l, hl, hcar⟩ := hs.carries.updateChunks f
    simp only [run, hl]
    exact hs.rewrite_served h hcar

variable [DecidableEq κ]

def ColumnCall.change {ks : List κ} : ColumnCall El ks α → α → Change (Row El ks)
  | updateColumn? k f, true => .rewrite fun _ i row => (row.modifyOf? k (f i)).getD row
  | _, _ => .keep

def ColumnCall.Tells {ks : List κ} (ids : List EntityId) (m : EntityId → Option (Row El ks)) :
    ColumnCall El ks α → α → Prop
  | columns, a => ∀ (i : Nat) row, ids[i]?.bind m = some row → a.read i = .ok row
  | column? k, a => ∀ (i : Nat) row, ids[i]?.bind m = some row → ∀ xs ∈ a, xs[i]? = row.entryOf? k
  | columnAt n, a => ∀ (i : Nat) row, ids[i]?.bind m = some row → a[i]? = some (row.get n)
  | updateColumn? _ _, _ => True

omit [∀ k, Footprint (El k)] in
theorem ColumnCall.run_serves {ks : List κ} {s : ArchetypeStorage (Dense El ks)} {es : List (EntityId × Row El ks)}
    (c : ColumnCall El ks α) (hs : s.Settled v es) (h : r.Represents v) :
    s.Served v (c.change (c.run s).1) r (c.run s).2 ∧ c.Tells s.ids s.contents (c.run s).1 := by
  have hrows : s.columns = Columns.ofRows (es.map (·.2)) := hs.carries.rows
  have hget : ∀ (i : Nat) row, s.ids[i]?.bind s.contents = some row → (es.map (·.2))[i]? = some row := by
    intro i row hi
    rwa [hs.ids_bind_contents, ← List.getElem?_map] at hi
  cases c with
  | columns =>
    refine ⟨hs.served_keep h, fun i row hi => ?_⟩
    rw [run, hrows]
    exact Columns.read_ofRows (hget i row hi)
  | column? k =>
    refine ⟨hs.served_keep h, fun i row hi xs hxs => ?_⟩
    have hr := Columns.read_entryOf? (hget i row hi) k
    have hx : (Columns.ofRows (es.map (·.2))).entryOf? k = some xs := by rw [← hrows]; exact hxs
    rw [hx] at hr
    cases hxi : xs[i]? with
    | none =>
      simp only [Column.read, hxi, Checked.map_error] at hr
      cases hr
    | some x =>
      simp only [Column.read, hxi, Checked.map_ok] at hr
      exact Except.ok.inj hr
  | columnAt n =>
    refine ⟨hs.served_keep h, fun i row hi => ?_⟩
    obtain ⟨a, ha, hx⟩ := Columns.get_ofRows (hget i row hi) n
    rw [run, Storage.columnAt, hrows, ha, List.getElem?_toArray, hx]
  | updateColumn? k f =>
    rcases hs.carries.updateColumn? k f with hn | ⟨l, hl, hcar⟩
    · simp only [run, hn]
      exact ⟨hs.served_keep h, trivial⟩
    · simp only [run, hl]
      exact ⟨hs.rewrite_served h hcar, trivial⟩

namespace StoreCall

def change (n : Nat) : {shape : Shape κ} → StoreCall C El shape α → α → Change (shape.Item El)
  | _, component c, a => c.change n a
  | _, dense c, a => c.change a
  | _, columns c, a => c.change a
  | _, chunked c, a => c.change a
  | .chunked _ shift, chunks c, a => c.change shift a

def Tells (r : Registry C) (ids : List EntityId) : {shape : Shape κ} → (EntityId → Option (shape.Item El)) →
    StoreCall C El shape α → α → Prop
  | _, m, component c, a => c.Tells r ids m a
  | _, m, dense c, a => c.Tells r ids m a
  | _, m, columns c, a => c.Tells ids m a
  | _, m, chunked c, a => c.Tells r ids m a
  | _, _, chunks _, _ => True

variable {shape : Shape κ} [shape.Proper El] {s : Storage shape.Tenant (shape.Rows El)}
  {es : List (shape.Tenant × shape.Item El)}

def Serves (c : StoreCall C El shape α) (v : Ledger C) (r : Registry C) (s : Storage shape.Tenant (shape.Rows El))
    (a : α × Registry C × Storage shape.Tenant (shape.Rows El)) : Prop :=
  s.Served v (c.change s.ids.length a.1) a.2.1 a.2.2 ∧ c.Tells r s.ids s.contents a.1

theorem run_serves (c : StoreCall C El shape α) (hs : s.Settled v es) (h : r.Represents v) :
    (c.run r s).Ends (c.Serves v r s) fun f => c.MayFault s.ids.length f := by
  cases c with
  | component c => exact c.run_serves hs h
  | dense c => exact c.run_serves hs h
  | columns c => exact Run.ends_pure (c.run_serves hs h)
  | @chunked ks shift _ c =>
    obtain ⟨k, ks, rfl, hfits⟩ := Shape.exists_cons ‹(Shape.chunked ks shift).Proper El›
    exact c.run_serves hs h
  | @chunks ks shift _ c =>
    obtain ⟨k, ks, rfl, hfits⟩ := Shape.exists_cons ‹(Shape.chunked ks shift).Proper El›
    exact Run.ends_pure ⟨c.run_serves hs h, trivial⟩

end StoreCall

end EntityStore
