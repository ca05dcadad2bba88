import EntityStore.Proofs.Storage.Journal

/-! What the calls of storages post in the registry, told by the call, the storage and the answer. -/

namespace EntityStore

variable {C : Config} {v : Ledger C} {r : Registry C}

open Storage (leavePostings sweepPostings notes_nil)

namespace StorageCall

variable {τ L ρ α : Type} [Tenant τ]

def postings (r : Registry C) (s : Storage τ L) : StorageCall C ρ α → α → List (Posting C)
  | add k _, true => [.relocate k.entity (.housed s.store s.size)]
  | spawn m _, some h => [.create h.id (.pending s.store) m, .relocate h.id (.housed s.store s.size)]
  | take k target, some _ => s.leavePostings r k (.pending target)
  | remove k target, true => s.leavePostings r k (.pending target)
  | erase k, true => s.leavePostings r k (.destroyed C)
  | removeAll target, _ => s.ids.map (.relocate · (.pending target))
  | clear, _ => s.ids.map (.relocate · (.destroyed C))
  | _, _ => []

theorem postings_batch (c : StorageCall C ρ α) (r : Registry C) {s : Storage τ L} (hs : s.store ≠ C.stores.invalid)
    (a : α) : Posting.Batch (c.postings r s a) := by
  cases c with
  | add k x =>
    cases a with
    | false => exact .nil
    | true => exact .single (Posting.plain_relocate _ _)
  | spawn m x =>
    cases a with
    | none => exact .nil
    | some h =>
      simp only [postings, Posting.relocate_housed hs]
      exact .housed _ _ _ m
  | take k target =>
    cases a with
    | none => exact .nil
    | some x => exact .plain (Storage.forall_leavePostings Posting.plain_relocate s r k _)
  | remove k target =>
    cases a with
    | false => exact .nil
    | true => exact .plain (Storage.forall_leavePostings Posting.plain_relocate s r k _)
  | erase k =>
    cases a with
    | false => exact .nil
    | true => exact .plain (Storage.forall_leavePostings Posting.plain_relocate s r k _)
  | removeAll | clear => exact .plain (List.forall_mem_map.2 fun _ _ => Posting.plain_relocate _ _)
  | _ => exact .nil

theorem forall_postings {P : Posting C → Prop} (hc : ∀ id l m, P (.create id l m)) (hP : ∀ id l, P (.relocate id l))
    (c : StorageCall C ρ α) (r : Registry C) (s : Storage τ L) (a : α) : ∀ p ∈ c.postings r s a, P p := by
  cases c with
  | add k x =>
    cases a with
    | false => exact List.forall_mem_nil _
    | true => exact List.forall_mem_singleton.2 (hP _ _)
  | spawn m x =>
    cases a with
    | none => exact List.forall_mem_nil _
    | some h => exact List.forall_mem_cons.2 ⟨hc _ _ _, List.forall_mem_singleton.2 (hP _ _)⟩
  | take k target =>
    cases a with
    | none => exact List.forall_mem_nil _
    | some x => exact Storage.forall_leavePostings hP s r k _
  | remove k target | erase k =>
    cases a with
    | false => exact List.forall_mem_nil _
    | true => exact Storage.forall_leavePostings hP s r k _
  | removeAll | clear => exact List.forall_mem_map.2 fun _ _ => hP _ _
  | _ => exact List.forall_mem_nil _

variable [Layout L ρ] [LawfulLayout L ρ] [Capacious L] {s : Storage τ L} {es : List (τ × ρ)}

theorem run_posts (c : StorageCall C ρ α) (hs : s.Carries es) (h : r.Represents v) :
    (c.run r s).Ends (fun a => s.Notes v (c.postings r s a.1) a.2.1 a.2.2) fun _ => True := by
  cases c with
  | get? k | get k | reserve extra =>
    exact (Run.ends_trivial _).bind fun _ _ => Run.ends_pure (notes_nil h)
  | update? k f =>
    cases hi : s.indexOf? r k with
    | none =>
      simp only [run, Storage.update?, hi]
      exact Run.ends_pure (notes_nil h)
    | some i =>
      obtain ⟨e, he, _⟩ := hs.exists_of_indexOf? hi
      obtain ⟨l, hl, _⟩ := hs.updateRow he f
      simp only [run, Storage.update?, hi, hl]
      exact Run.ends_pure ⟨h.after, rfl⟩
  | update k f =>
    cases hi : s.indexOf? r k with
    | none =>
      simp only [run, Storage.update, hi]
      exact Run.ends_pure (notes_nil h)
    | some i =>
      obtain ⟨e, he, _⟩ := hs.exists_of_indexOf? hi
      obtain ⟨l, hl, _⟩ := hs.updateRow he f
      simp only [run, Storage.update, hi, hl]
      exact Run.ends_pure ⟨h.after, rfl⟩
  | add k x =>
    refine (hs.add_posts h k x).imp ?_ fun _ _ => trivial
    rintro ⟨added, r', s'⟩ ⟨hn, -⟩
    cases added with
    | true => exact hn
    | false => exact hn
  | spawn m x =>
    refine (hs.spawn_posts h m x).imp ?_ fun _ _ => trivial
    rintro ⟨hd, r', s'⟩ ⟨hn, -⟩
    cases hd with
    | none => exact hn
    | some hd => exact hn
  | take k target =>
    refine (hs.take_posts h k target).imp ?_ fun _ _ => trivial
    rintro ⟨x, r', s'⟩ hn
    cases x with
    | none => exact hn
    | some x => exact hn
  | remove k target =>
    refine (hs.remove_posts h k target).imp ?_ fun _ _ => trivial
    rintro ⟨removed, r', s'⟩ hn
    cases removed with
    | true => exact hn
    | false => exact hn
  | erase k =>
    refine (hs.remove_posts h k C.stores.invalid).imp ?_ fun _ _ => trivial
    rintro ⟨removed, r', s'⟩ hn
    cases removed with
    | true => exact hn
    | false => exact hn
  | removeAll target => exact s.removeAll_posts h target
  | clear => exact s.removeAll_posts h C.stores.invalid
  | setLimit n => exact Run.ends_pure ⟨h.after, rfl⟩
  | store | limit | size | isEmpty | ids | indexOf? | contains | shrink => exact Run.ends_pure (notes_nil h)

end StorageCall

section Archetypes

variable {κ α L : Type} {El : κ → Type} {ks : List κ} {es : List (EntityId × Row El ks)}

namespace ArchetypeCall

def postings (r : Registry C) (s : ArchetypeStorage L) : ArchetypeCall C El ks α → α → List (Posting C)
  | shared c, a => c.postings r s a
  | eraseWhere p, a => sweepPostings RowView.id p s.store s.ids 0 #[] a.1.toList
  | eraseByKind _ _ p, a => sweepPostings Prod.snd p s.store s.ids 0 #[] a.1.toList
  | eraseByColumn _ p, a => sweepPostings Prod.snd p s.store s.ids 0 #[] a.1.toList
  | _, _ => []

theorem postings_batch (c : ArchetypeCall C El ks α) (r : Registry C) {s : ArchetypeStorage L}
    (hs : s.store ≠ C.stores.invalid) (a : α) : Posting.Batch (c.postings r s a) := by
  cases c with
  | shared c => exact c.postings_batch r hs a
  | eraseWhere | eraseByKind | eraseByColumn =>
    exact .plain (Storage.forall_sweepPostings Posting.plain_relocate _ _ _ _ _ _ _)
  | _ => exact .nil

theorem forall_postings {P : Posting C → Prop} (hc : ∀ id l m, P (.create id l m)) (hP : ∀ id l, P (.relocate id l))
    (c : ArchetypeCall C El ks α) (r : Registry C) (s : ArchetypeStorage L) (a : α) : ∀ p ∈ c.postings r s a, P p := by
  cases c with
  | shared c => exact c.forall_postings hc hP r s a
  | eraseWhere | eraseByKind | eraseByColumn => exact Storage.forall_sweepPostings hP _ _ _ _ _ _ _
  | _ => exact List.forall_mem_nil _

variable [DecidableEq κ] [ColumnLayout L El ks] [LawfulColumnLayout L El ks] [Capacious L] {s : ArchetypeStorage L}

theorem run_posts (c : ArchetypeCall C El ks α) (hs : s.Carries es) (h : r.Represents v) :
    (c.run r s).Ends (fun a => s.Notes v (c.postings r s a.1) a.2.1 a.2.2) fun _ => True := by
  cases c with
  | shared c => exact c.run_posts hs h
  | component? key k | row? i | rows ends =>
    exact (Run.ends_trivial _).bind fun _ _ => Run.ends_pure (notes_nil h)
  | updateComponent? key k f =>
    cases hi : s.indexOf? r key with
    | none =>
      simp only [run, Storage.updateComponent?, hi]
      exact Run.ends_pure (notes_nil h)
    | some i =>
      obtain ⟨e, he, _⟩ := hs.exists_of_indexOf? hi
      obtain ⟨l, hl, _⟩ := hs.updateComponent? k f hi he
      rw [run, hl]
      exact Run.ends_pure ⟨h.after, rfl⟩
  | updateRow? i f =>
    simp only [run, Storage.updateRow?, hs.getElem?_tenants]
    cases he : es[i]? with
    | none => exact Run.ends_pure (notes_nil h)
    | some e =>
      obtain ⟨l, hl, _⟩ := hs.updateRow he f
      simp only [Option.map_some, hl]
      exact Run.ends_pure ⟨h.after, rfl⟩
  | updateRowsAt f =>
    obtain ⟨l, hl, _⟩ := hs.updateRowsAt f
    rw [run, hl]
    exact Run.ends_pure ⟨h.after, rfl⟩
  | eraseWhere p => exact hs.sweep_posts Storage.Carries.reads_eraseWhere (fun _ _ _ => ⟨_, rfl, rfl⟩) p h
  | eraseByKind k kindName p =>
    rw [run, Storage.eraseByKind]
    cases hn : positionOf? ks k with
    | none =>
      refine Run.Ends.map ((Run.ends_note _ (P := fun _ => True) trivial).bind fun _ _ => ?_)
      exact Run.ends_pure (notes_nil h)
    | some n =>
      refine hs.sweep_posts (Storage.Carries.reads_eraseByKind hn) (fun _ id row => ?_) p h
      obtain ⟨x, hx⟩ := Columns.exists_entry hn row
      exact ⟨(x, id), by rw [hx, Option.bind_some, Columns.cast?_self, Option.map_some], rfl⟩
  | eraseByColumn n p => exact hs.sweep_posts (Storage.Carries.reads_eraseByColumn n) (fun _ _ _ => ⟨_, rfl, rfl⟩) p h
  | describe => exact Run.ends_pure (notes_nil h)

end ArchetypeCall

theorem ColumnCall.run_store [DecidableEq κ] (c : ColumnCall El ks α) {s : ArchetypeStorage (Dense El ks)}
    (hs : s.Carries es) :
    (c.run s).2.store = s.store := by
  cases c with
  | columns | column? | columnAt => rfl
  | updateColumn? k f =>
    rcases hs.updateColumn? k f with hn | ⟨l, hl, _⟩
    · rw [run, hn]
    · rw [run, hl]

end Archetypes

theorem ChunkCall.run_store {κ α : Type} {El : κ → Type} [∀ k, Footprint (El k)] {k : κ} {ks : List κ} {shift : Nat}
    [Chunked.Fits El (k :: ks) shift] {es : List (EntityId × Row El (k :: ks))} (c : ChunkCall El (k :: ks) α)
    {s : ArchetypeStorage (Chunked El (k :: ks) shift)} (hs : s.Carries es) : (c.run s).2.store = s.store := by
  cases c with
  | chunkCount | chunks => rfl
  | updateChunks f =>
    obtain ⟨l, hl, _⟩ := hs.updateChunks f
    rw [run, hl]

namespace ComponentCall

variable {α β : Type}

def postings (r : Registry C) (s : ComponentStorage β) : ComponentCall C β α → α → List (Posting C)
  | shared c, a => c.postings r s a
  | eraseWhere p, a => sweepPostings Prod.snd p s.store s.ids 0 #[] a.1.toList
  | _, _ => []

theorem postings_batch (c : ComponentCall C β α) (r : Registry C) {s : ComponentStorage β}
    (hs : s.store ≠ C.stores.invalid) (a : α) : Posting.Batch (c.postings r s a) := by
  cases c with
  | shared c => exact c.postings_batch r hs a
  | eraseWhere p => exact .plain (Storage.forall_sweepPostings Posting.plain_relocate _ _ _ _ _ _ _)
  | _ => exact .nil

theorem forall_postings {P : Posting C → Prop} (hc : ∀ id l m, P (.create id l m)) (hP : ∀ id l, P (.relocate id l))
    (c : ComponentCall C β α) (r : Registry C) (s : ComponentStorage β) (a : α) : ∀ p ∈ c.postings r s a, P p := by
  cases c with
  | shared c => exact c.forall_postings hc hP r s a
  | eraseWhere p => exact Storage.forall_sweepPostings hP _ _ _ _ _ _ _
  | _ => exact List.forall_mem_nil _

theorem run_posts [Footprint β] (c : ComponentCall C β α) {s : ComponentStorage β} {es : List (Handle × β)}
    (hs : s.Carries es) (h : r.Represents v) :
    (c.run r s).Ends (fun a => s.Notes v (c.postings r s a.1) a.2.1 a.2.2) fun _ => True := by
  cases c with
  | shared c =>
    rw [run, c.runComponents_eq hs]
    exact c.run_posts hs h
  | handles | components => exact Run.ends_pure (notes_nil h)
  | updateComponents f => exact Run.ends_pure ⟨h.after, rfl⟩
  | componentAt i | entries ends => exact (Run.ends_trivial _).bind fun _ _ => Run.ends_pure (notes_nil h)
  | modify i f =>
    rcases hs.run_modify r i f with ⟨-, l, ho, -⟩ | ⟨-, ho⟩
    · exact Run.ends_of_ok ho ⟨h.after, rfl⟩
    · exact Run.ends_of_error ho trivial
  | updateEntries ends =>
    obtain ⟨as, l, hl, -⟩ := hs.updateEntries (c := .start es.length) (Nat.le_refl _) ends
    rw [run, hs.start_walk, hl]
    exact Run.ends_pure ⟨h.after, rfl⟩
  | eraseWhere p =>
    rw [run, ComponentStorage.eraseWhere_eq hs]
    exact hs.sweep_posts ComponentStorage.reads_question (fun _ _ _ => ⟨_, rfl, rfl⟩) p h

end ComponentCall

namespace StoreCall

variable {κ α : Type} {El : κ → Type}

def postings (r : Registry C) : {shape : Shape κ} → Storage shape.Tenant (shape.Rows El) → StoreCall C El shape α → α →
    List (Posting C)
  | _, s, component c, a => c.postings r s a
  | _, s, dense c, a => c.postings r s a
  | _, s, chunked c, a => c.postings r s a
  | _, _, _, _ => []

theorem postings_batch {shape : Shape κ} (c : StoreCall C El shape α) (r : Registry C)
    {s : Storage shape.Tenant (shape.Rows El)} (hs : s.store ≠ C.stores.invalid) (a : α) :
    Posting.Batch (c.postings r s a) := by
  cases c with
  | component c => exact c.postings_batch r hs a
  | dense c => exact c.postings_batch r hs a
  | chunked c => exact c.postings_batch r hs a
  | columns c => exact .nil
  | chunks c => exact .nil

theorem forall_postings {P : Posting C → Prop} (hc : ∀ id l m, P (.create id l m)) (hP : ∀ id l, P (.relocate id l))
    {shape : Shape κ} (c : StoreCall C El shape α) (r : Registry C) (s : Storage shape.Tenant (shape.Rows El)) (a : α) :
    ∀ p ∈ c.postings r s a, P p := by
  cases c with
  | component c => exact c.forall_postings hc hP r s a
  | dense c => exact c.forall_postings hc hP r s a
  | chunked c => exact c.forall_postings hc hP r s a
  | columns c => exact List.forall_mem_nil _
  | chunks c => exact List.forall_mem_nil _

theorem run_posts [DecidableEq κ] [∀ k, Footprint (El k)] {shape : Shape κ} [shape.Proper El]
    (c : StoreCall C El shape α) {s : Storage shape.Tenant (shape.Rows El)}
    {es : List (shape.Tenant × shape.Item El)} (hs : s.Carries es) (h : r.Represents v) :
    (c.run r s).Ends (fun a => s.Notes v (c.postings r s a.1) a.2.1 a.2.2) fun _ => True := by
  cases c with
  | component c => exact c.run_posts hs h
  | dense c => exact c.run_posts hs h
  | columns c => exact Run.ends_pure ⟨h.after, c.run_store hs⟩
  | @chunked ks shift _ c =>
    obtain ⟨k, ks, rfl, hfits⟩ := Shape.exists_cons ‹(Shape.chunked ks shift).Proper El›
    exact c.run_posts hs h
  | @chunks ks shift _ c =>
    obtain ⟨k, ks, rfl, hfits⟩ := Shape.exists_cons ‹(Shape.chunked ks shift).Proper El›
    exact Run.ends_pure ⟨h.after, c.run_store hs⟩

end StoreCall

end EntityStore
