import EntityStore.Proofs.Storage.Peers
import EntityStore.Proofs.Storage.Stores

/-! Calls of corresponding storages run alike, and so a call keeps the rows of a storage in step with its tenants. -/

namespace EntityStore

section

variable {C : Config}

namespace StorageCall

variable {τ τ' ρ ρ' α : Type}

structure Image (C : Config) (ρ : Type) (α : Type) where
  Answer : Type
  call : StorageCall C ρ Answer
  read : α → Answer

def image (φ : ρ ≃ ρ') : StorageCall C ρ α → Image C ρ' α
  | store => ⟨_, store, id⟩
  | limit => ⟨_, limit, id⟩
  | size => ⟨_, size, id⟩
  | isEmpty => ⟨_, isEmpty, id⟩
  | ids => ⟨_, ids, id⟩
  | indexOf? k => ⟨_, indexOf? k, id⟩
  | contains k => ⟨_, contains k, id⟩
  | get? k => ⟨_, get? k, Option.map φ⟩
  | get k => ⟨_, get k, Except.map φ⟩
  | update? k f => ⟨_, update? k (φ.conj f), id⟩
  | update k f => ⟨_, update k (φ.conj f), id⟩
  | add k x => ⟨_, add k (φ x), id⟩
  | spawn m x => ⟨_, spawn m (φ x), id⟩
  | take k target => ⟨_, take k target, Option.map φ⟩
  | remove k target => ⟨_, remove k target, id⟩
  | erase k => ⟨_, erase k, id⟩
  | removeAll target => ⟨_, removeAll target, id⟩
  | clear => ⟨_, clear, id⟩
  | setLimit n => ⟨_, setLimit n, id⟩
  | reserve extra => ⟨_, reserve extra, id⟩
  | shrink => ⟨_, shrink, id⟩

theorem image_refl (c : StorageCall C ρ α) : c.image (Equiv.refl ρ) = ⟨α, c, id⟩ := by
  cases c with
  | get? k | take k target => exact congrArg (Image.mk _ _) Option.map_id
  | get k => exact congrArg (Image.mk _ _) (funext fun a => by cases a <;> rfl)
  | _ => rfl

variable {L L' : Type} [Tenant τ] [Tenant τ'] [Layout L ρ] [LawfulLayout L ρ] [Layout L' ρ'] [LawfulLayout L' ρ']
  [Capacious L] [Capacious L'] {φ : Likeness τ τ' ρ ρ'} {I : Registry C → Prop} {E : Fault → Prop} {s : Storage τ L}
  {t : Storage τ' L'} {es : List (τ × ρ)} {r : Registry C}

open Storage (Peers Matched)

theorem run_like (c : StorageCall C ρ α) (hc : ¬ c.Reserves) (hI : Registry.Custody I E) (hp : Peers φ s t es)
    (h : I r) : Run.Like φ.note (Matched φ I (c.image φ.row).read) E (c.run r s) ((c.image φ.row).call.run r t) := by
  cases c with
  | store =>
    simp only [image, run, hp.store]
    exact hp.answer h s.store
  | limit =>
    simp only [image, run, hp.limit]
    exact hp.answer h s.limit
  | size =>
    simp only [image, run, hp.size_eq]
    exact hp.answer h s.size
  | isEmpty =>
    simp only [image, run, Storage.isEmpty, hp.size_eq]
    exact hp.answer h (s.size == 0)
  | ids =>
    simp only [image, run, hp.ids_eq]
    exact hp.answer h s.ids
  | indexOf? k =>
    simp only [image, run, hp.indexOf?_eq]
    exact hp.answer h (s.indexOf? r k)
  | contains k =>
    simp only [image, run, Storage.contains, hp.indexOf?_eq]
    exact hp.answer h (s.indexOf? r k).isSome
  | get? k =>
    obtain ⟨a, hs, ht⟩ := hp.get? r k
    simp only [image, run, hs, ht, Run.lift_ok, pure_bind]
    exact hp.answer h a
  | get k =>
    obtain ⟨a, hs, ht⟩ := hp.get r k
    simp only [image, run, hs, ht, Run.lift_ok, pure_bind]
    exact hp.answer h a
  | update? k f =>
    rcases hp.update? r k f with ⟨hs, ht⟩ | ⟨s', t', hs, ht, es', hp'⟩
    · simp only [image, run, hs, ht, Run.lift_ok, pure_bind]
      exact hp.answer h false
    · simp only [image, run, hs, ht, Run.lift_ok, pure_bind]
      exact hp'.answer h true
  | update k f =>
    rcases hp.update r k f with ⟨e, hs, ht⟩ | ⟨s', t', hs, ht, es', hp'⟩
    · simp only [image, run, hs, ht, Run.lift_ok, pure_bind]
      exact hp.answer h (Except.error e)
    · simp only [image, run, hs, ht, Run.lift_ok, pure_bind]
      exact hp'.answer h (Except.ok ())
  | add k x => exact hp.add hI h k x
  | spawn m x => exact hp.spawn hI h m x
  | take k target => exact hp.take hI h k target
  | remove k target => exact hp.remove hI h k target
  | erase k => exact hp.remove hI h k C.stores.invalid
  | removeAll target => exact hp.removeAll hI h target
  | clear => exact hp.removeAll hI h C.stores.invalid
  | setLimit n => exact (hp.setLimit n).answer h ()
  | reserve extra => exact absurd trivial hc
  | shrink => exact hp.answer h ()

end StorageCall

open Storage (Twins Kin)

section Shared

variable {τ L L' ρ α : Type} [Tenant τ] [Layout L ρ] [LawfulLayout L ρ] [Layout L' ρ] [LawfulLayout L' ρ]
  [Capacious L] [Capacious L'] {I : Registry C → Prop} {E : Fault → Prop} {r : Registry C} {s : Storage τ L}
  {t : Storage τ L'} {es : List (τ × ρ)}

theorem StorageCall.run_alike (c : StorageCall C ρ α) (hc : ¬ c.Reserves) (hI : Registry.Custody I E)
    (ht : Twins s t es) (h : I r) : Run.Alike (Kin I) E (c.run r s) (c.run r t) := by
  have hlike := c.run_like hc hI ht.peers h
  dsimp only [Likeness.same] at hlike
  rw [image_refl] at hlike
  exact Storage.alike_of_like hlike

variable [LawfulCapacity L] [LawfulCapacity L']

theorem StorageCall.alike_or_overflows (c : StorageCall C ρ α) (hI : Registry.Custody I E) (ht : Twins s t es)
    (h : I r) : Run.Alike (Kin I) E (c.run r s) (c.run r t) ∨
      c.Reserves ∧ ((c.run r s).Overflows ∨ (c.run r t).Overflows) := by
  by_cases hc : c.Reserves
  · cases c with
    | reserve extra =>
      rcases run_reserve (ρ := ρ) extra r s with hs | hs
      · rcases run_reserve (ρ := ρ) extra r t with ht' | ht'
        · rw [hs, ht']
          exact .inl (ht.answer h ())
        · exact .inr ⟨hc, .inr ht'⟩
      · exact .inr ⟨hc, .inl hs⟩
    | _ => exact hc.elim
  · exact .inl (c.run_alike hc hI ht h)

end Shared

section Archetypes

variable {κ α L L' : Type} [DecidableEq κ] {El : κ → Type} {ks : List κ} [ColumnLayout L El ks]
  [LawfulColumnLayout L El ks] [ColumnLayout L' El ks] [LawfulColumnLayout L' El ks] {s : ArchetypeStorage L}
  {t : ArchetypeStorage L'}
  {es : List (EntityId × Row El ks)}

theorem ArchetypeCall.run_alike [Capacious L] [Capacious L'] (c : ArchetypeCall C El ks α) (hc : ¬ c.Reserves)
    (hI : Registry.Custody I E) (ht : Twins s t es) (h : I r) : Run.Alike (Kin I) E (c.run r s) (c.run r t) := by
  cases c with
  | shared c => exact c.run_alike hc hI ht h
  | component? key k =>
    simp only [run, ht.left.component?, ht.right.component?, ht.indexOf?_eq, Run.lift_ok, pure_bind]
    exact ht.answer h _
  | updateComponent? key k f =>
    cases hi : s.indexOf? r key with
    | none =>
      have hi' : t.indexOf? r key = none := by rw [ht.indexOf?_eq, hi]
      simp only [run, Storage.updateComponent?, hi, hi', Run.lift_ok, pure_bind]
      exact ht.answer h none
    | some i =>
      obtain ⟨e, he, _⟩ := ht.left.exists_of_indexOf? hi
      obtain ⟨l, hl, hcar⟩ := ht.left.updateComponent? k f hi he
      obtain ⟨l', hl', hcar'⟩ := ht.right.updateComponent? k f ((ht.indexOf?_eq r key).trans hi) he
      simp only [run, hl, hl', Run.lift_ok, pure_bind]
      exact Twins.answer ⟨hcar, hcar', ht.store, ht.limit⟩ h _
  | row? i =>
    simp only [run, ht.left.row?, ht.right.row?, Run.lift_ok, pure_bind]
    exact ht.answer h _
  | updateRow? i f =>
    simp only [run, Storage.updateRow?, ht.left.getElem?_tenants, ht.right.getElem?_tenants]
    cases he : es[i]? with
    | none => exact ht.answer h none
    | some e =>
      obtain ⟨s', t', hs, ht', htwins⟩ := ht.updateRow he f
      simp only [Option.map_some, hs, ht', Checked.map_ok, Run.lift_ok, pure_bind]
      exact htwins.answer h _
  | rows ends =>
    simp only [run, ht.left.size_eq, ht.right.size_eq, ht.left.walk (c := .start es.length) (Nat.le_refl _),
      ht.right.walk (c := .start es.length) (Nat.le_refl _), Run.lift_ok, pure_bind]
    exact ht.answer h _
  | updateRowsAt f =>
    obtain ⟨l, hl, hcar⟩ := ht.left.updateRowsAt f
    obtain ⟨l', hl', hcar'⟩ := ht.right.updateRowsAt f
    simp only [run, hl, hl', Run.lift_ok, pure_bind]
    exact Twins.answer ⟨hcar, hcar', ht.store, ht.limit⟩ h ()
  | eraseWhere p =>
    exact ht.sweep Storage.Carries.reads_eraseWhere Storage.Carries.reads_eraseWhere p hI h
  | eraseByKind k kindName p =>
    rw [run, run, Storage.eraseByKind, Storage.eraseByKind]
    cases hn : positionOf? ks k with
    | none =>
      exact Run.Alike.map ((Run.Alike.of_note _).bind fun _ _ _ => .of_pure (ht.kin h (#[], 0)))
    | some n =>
      exact ht.sweep (Storage.Carries.reads_eraseByKind hn) (Storage.Carries.reads_eraseByKind hn) p hI h
  | eraseByColumn n p =>
    exact ht.sweep (Storage.Carries.reads_eraseByColumn n) (Storage.Carries.reads_eraseByColumn n) p hI h
  | describe =>
    rw [run, run, Storage.describe, Storage.describe, ht.store, ht.limit, ht.size_eq]
    exact ht.answer h _

variable [Capacious L] [Capacious L'] [LawfulCapacity L] [LawfulCapacity L']

theorem ArchetypeCall.alike_or_overflows (c : ArchetypeCall C El ks α) (hI : Registry.Custody I E)
    (ht : Twins s t es) (h : I r) : Run.Alike (Kin I) E (c.run r s) (c.run r t) ∨
      c.Reserves ∧ ((c.run r s).Overflows ∨ (c.run r t).Overflows) := by
  by_cases hc : c.Reserves
  · cases c with
    | shared c => exact c.alike_or_overflows hI ht h
    | _ => exact hc.elim
  · exact .inl (c.run_alike hc hI ht h)

end Archetypes

end

variable {C : Config} {I : Registry C → Prop} {E : Fault → Prop} {r : Registry C}

theorem Registry.custody_represents :
    Custody (C := C) (fun r => ∃ v, r.Represents v) fun f => ∃ id, f = .deadRelocation id where
  relocate := by
    rintro r ⟨v, h⟩ id l
    by_cases hid : v.Lives id
    · obtain ⟨r', hr, hv⟩ := h.relocate hid l
      exact Run.ends_of_ok hr ⟨_, hv⟩
    · exact Run.ends_of_error (h.relocate_dead hid l) ⟨id, rfl⟩
  createHandle := by
    rintro r ⟨v, h⟩ l m
    obtain ⟨r', hr, hv⟩ := h.createHandle l m
    exact Run.ends_of_ok hr ⟨_, hv⟩

def Storage.Kept {α τ L ρ : Type} [Layout L ρ] [LawfulLayout L ρ] (I : Registry C → Prop)
    (a : α × Registry C × Storage τ L) : Prop := I a.2.1 ∧ ∃ es, a.2.2.Carries es

theorem Storage.kept_of_alike {α τ L ρ : Type} [Layout L ρ] [LawfulLayout L ρ]
    {x y : Run (α × Registry C × Storage τ L)} (h : Run.Alike (Kin I) E x y) : x.Ends (Kept I) E :=
  h.ends.imp (fun _ ⟨_, _, _, hr, es, ht⟩ => ⟨hr, es, ht.left⟩) fun _ hf => hf

theorem Storage.Carries.twins {τ L ρ : Type} [Layout L ρ] [LawfulLayout L ρ] {s : Storage τ L} {es : List (τ × ρ)}
    (h : s.Carries es) : Twins s s es := ⟨h, h, rfl, rfl⟩

theorem Storage.kept_of_alike_or {α τ L ρ : Type} [Layout L ρ] [LawfulLayout L ρ] {p : Prop}
    {x : Run (α × Registry C × Storage τ L)} (h : Run.Alike (Kin I) E x x ∨ p ∧ (x.Overflows ∨ x.Overflows)) :
    x.Ends (Kept I) fun f => E f ∨ p ∧ f.IsOverflow := by
  rcases h with h | ⟨hp, h⟩
  · exact (kept_of_alike h).imp (fun _ ha => ha) fun _ hf => .inl hf
  · obtain ⟨f, hf, ho⟩ := or_self_iff.1 h
    exact Run.ends_of_error hf (.inr ⟨hp, ho⟩)

theorem StorageCall.run_kept {α τ L ρ : Type} [Tenant τ] [Layout L ρ] [LawfulLayout L ρ] [Capacious L]
    [LawfulCapacity L] (c : StorageCall C ρ α) (hI : Registry.Custody I E) {s : Storage τ L} {es : List (τ × ρ)}
    (hs : s.Carries es)
    (h : I r) : (c.run r s).Ends (Storage.Kept I) fun f => E f ∨ c.Reserves ∧ f.IsOverflow :=
  Storage.kept_of_alike_or (c.alike_or_overflows hI hs.twins h)

section Archetypes

variable {κ α L : Type} {El : κ → Type} {ks : List κ} [ColumnLayout L El ks] [LawfulColumnLayout L El ks]
  {es : List (EntityId × Row El ks)}

theorem ArchetypeCall.run_kept [DecidableEq κ] [Capacious L] [LawfulCapacity L] (c : ArchetypeCall C El ks α)
    (hI : Registry.Custody I E) {s : ArchetypeStorage L} (hs : s.Carries es) (h : I r) :
    (c.run r s).Ends (Storage.Kept I) fun f => E f ∨ c.Reserves ∧ f.IsOverflow :=
  Storage.kept_of_alike_or (c.alike_or_overflows hI hs.twins h)

theorem ColumnCall.run_carries [DecidableEq κ] (c : ColumnCall El ks α) {s : ArchetypeStorage (Dense El ks)}
    (hs : s.Carries es) : ∃ es', (c.run s).2.Carries es' := by
  cases c with
  | columns | column? | columnAt => exact ⟨es, hs⟩
  | updateColumn? k f =>
    rcases hs.updateColumn? k f with hn | ⟨l, hl, hcar⟩
    · simp only [run, hn]
      exact ⟨es, hs⟩
    · simp only [run, hl]
      exact ⟨_, hcar⟩

theorem ChunkCall.run_carries [∀ k, Footprint (El k)] {k : κ} {shift : Nat} [Chunked.Fits El (k :: ks) shift]
    {es : List (EntityId × Row El (k :: ks))} (c : ChunkCall El (k :: ks) α)
    {s : ArchetypeStorage (Chunked El (k :: ks) shift)} (hs : s.Carries es) :
    ∃ es', (c.run s).2.Carries es' := by
  cases c with
  | chunkCount | chunks => exact ⟨es, hs⟩
  | updateChunks f =>
    obtain ⟨l, hl, hcar⟩ := hs.updateChunks f
    simp only [run, hl]
    exact ⟨_, hcar⟩

end Archetypes

theorem ComponentCall.run_kept {α β : Type} [Footprint β] (c : ComponentCall C β α) (hI : Registry.Custody I E)
    {s : ComponentStorage β} {es : List (Handle × β)} (hs : s.Carries es) (h : I r) :
    (c.run r s).Ends (Storage.Kept I) fun f => E f ∨ c.MayFault (Storage.size s) f := by
  rw [hs.size_eq]
  cases c with
  | shared c =>
    rw [run, c.runComponents_eq hs]
    exact c.run_kept hI hs h
  | handles | components => exact Run.ends_pure ⟨h, es, hs⟩
  | componentAt i =>
    rcases hs.run_componentAt r i with ⟨e, he, ho⟩ | ⟨hi, ho⟩
    · exact Run.ends_of_ok ho ⟨h, es, hs⟩
    · exact Run.ends_of_error ho (.inr ⟨hi, rfl⟩)
  | modify i f =>
    rcases hs.run_modify r i f with ⟨-, l, ho, hc⟩ | ⟨hi, ho⟩
    · exact Run.ends_of_ok ho ⟨h, _, hc⟩
    · exact Run.ends_of_error ho (.inr ⟨hi, rfl⟩)
  | updateComponents f => exact Run.ends_pure ⟨h, _, hs.updateComponents f⟩
  | entries ends =>
    rw [run, hs.start_walk, hs.entries (Nat.le_refl _)]
    exact Run.ends_pure ⟨h, es, hs⟩
  | updateEntries ends =>
    obtain ⟨as, l, hl, hcar⟩ := hs.updateEntries (c := .start es.length) (Nat.le_refl _) ends
    rw [run, hs.start_walk, hl]
    exact Run.ends_pure ⟨h, _, hcar⟩
  | eraseWhere p =>
    rw [run, ComponentStorage.eraseWhere_eq hs]
    have ha := hs.twins.sweep ComponentStorage.reads_question ComponentStorage.reads_question p hI h
    exact (Storage.kept_of_alike ha).imp (fun _ ha => ha) fun _ hf => .inl hf

theorem StoreCall.run_kept {κ α : Type} [DecidableEq κ] {El : κ → Type} [∀ k, Footprint (El k)] {shape : Shape κ}
    [shape.Proper El] (c : StoreCall C El shape α) (hI : Registry.Custody I E)
    {s : Storage shape.Tenant (shape.Rows El)}
    {es : List (shape.Tenant × shape.Item El)} (hs : s.Carries es) (h : I r) :
    (c.run r s).Ends (Storage.Kept I) fun f => E f ∨ c.MayFault s.size f := by
  cases c with
  | component c => exact c.run_kept hI hs h
  | dense c => exact c.run_kept hI hs h
  | columns c => exact Run.ends_pure ⟨h, c.run_carries hs⟩
  | @chunked ks shift _ c =>
    obtain ⟨k, ks, rfl, hfits⟩ := Shape.exists_cons ‹(Shape.chunked ks shift).Proper El›
    exact c.run_kept hI hs h
  | @chunks ks shift _ c =>
    obtain ⟨k, ks, rfl, hfits⟩ := Shape.exists_cons ‹(Shape.chunked ks shift).Proper El›
    exact Run.ends_pure ⟨h, c.run_carries hs⟩

end EntityStore
