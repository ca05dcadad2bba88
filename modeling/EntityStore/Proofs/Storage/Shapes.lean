import EntityStore.Proofs.Storage.Archetype
import EntityStore.Proofs.Storage.Component
import EntityStore.Proofs.Storage.Served

/-! What the calls of archetype storages and of component storages do to settled ones. -/

namespace EntityStore

namespace Storage.Settled

variable {C : Config} {τ L ρ : Type} [Tenant τ] [Layout L ρ] [LawfulLayout L ρ] {v : Ledger C} {r : Registry C}
  {s : Storage τ L} {es : List (τ × ρ)}

theorem ids_bind_contents (hs : s.Settled v es) (i : Nat) : s.ids[i]?.bind s.contents = es[i]?.map (·.2) := by
  rw [hs.getElem?_ids]
  cases he : es[i]? with
  | none => rfl
  | some e => exact hs.contents_eq he

theorem ids_bind_entry (hs : s.Settled v es) (i : Nat) :
    (s.ids[i]?.bind fun id => (s.contents id).map (id, ·)) = es[i]?.map fun e => (Tenant.id e.1, e.2) := by
  rw [hs.getElem?_ids]
  cases he : es[i]? with
  | none => rfl
  | some e =>
    rw [Option.map_some, Option.bind_some, hs.contents_eq he]
    rfl

theorem sweep_serves {β : Type} (hs : s.Settled v es) (h : r.Represents v)
    {view : Storage τ L → Nat → Checked (Option β)} {g : Nat → τ → ρ → Option β} (hview : Reads view g)
    {ident : β → EntityId}
    (hident : ∀ i t x q, g i t x = some q → ident q = Tenant.id t) (p : Predicate β) {tells : β → Prop}
    (ht : ∀ i (e : τ × ρ) q, s.contents (Tenant.id e.1) = some e.2 → g i e.1 e.2 = some q → tells q)
    {E : Fault → Prop} :
    (Swept.answer <$> s.sweep view p r).Ends
      (fun a => s.Served v (.drop ((p.hits #[] a.1.1.toList).map ident)) a.2.1 a.2.2 ∧
        a.1.2 = (p.hits #[] a.1.1.toList).length ∧ ∀ q ∈ a.1.1.toList, tells q) E := by
  refine Run.Ends.map ((hs.sweep_served h hview hident p).imp ?_ fun _ he => he.elim)
  rintro w ⟨hw, hn, hq⟩
  refine ⟨hw, hn, fun q hqa => ?_⟩
  obtain ⟨i, e, he, hg⟩ := hq q hqa
  exact ht i e q (hs.contents_eq_some_iff.2 ⟨e.1, he, rfl⟩) hg

end Storage.Settled

namespace ArchetypeCall

variable {κ α : Type} {El : κ → Type} {ks : List κ} {C : Config}

def viewOf (ids : List EntityId) (m : EntityId → Option (Row El ks)) (i : Nat) : Option (RowView El ks) :=
  ids[i]?.bind fun id => (m id).map (⟨i, id, ·⟩)

section Rows

variable {L : Type} [ColumnLayout L El ks] [LawfulColumnLayout L El ks] {v : Ledger C} {r : Registry C}
  {s : ArchetypeStorage L} {es : List (EntityId × Row El ks)}

theorem viewOf_eq (hs : s.Settled v es) : viewOf s.ids s.contents = Storage.Carries.view es := by
  funext i
  rw [viewOf, Storage.Carries.view, hs.getElem?_ids]
  cases he : es[i]? with
  | none => rfl
  | some e =>
    have hc := hs.contents_eq he
    simp only [Option.map_some, Option.bind_some, hc]
    rfl

end Rows

variable [DecidableEq κ]

def change : ArchetypeCall C El ks α → α → Change (Row El ks)
  | shared c, a => c.change a
  | updateComponent? key k f, some _ =>
    .rewrite fun id _ row => if id = key.entity then (row.modifyOf? k f).getD row else row
  | updateRow? i f, some _ => .rewrite fun _ j row => if j = i then f row else row
  | updateRowsAt f, _ => .rewrite fun id i row => f i id row
  | eraseWhere p, (asked, _) => .drop ((p.hits #[] asked.toList).map (·.id))
  | eraseByKind _ _ p, (asked, _) => .drop ((p.hits #[] asked.toList).map (·.2))
  | eraseByColumn _ p, (asked, _) => .drop ((p.hits #[] asked.toList).map (·.2))
  | _, _ => .keep

def Tells (r : Registry C) (ids : List EntityId) (m : EntityId → Option (Row El ks)) :
    ArchetypeCall C El ks α → α → Prop
  | shared c, a => c.Tells r ids m a
  | component? key k, a => a = ((r.resolve? key).bind m).bind (·.entryOf? k)
  | updateComponent? key k f, a => a = (((r.resolve? key).bind m).bind (·.entryOf? k)).map f
  | row? i, a => a = viewOf ids m i
  | updateRow? i _, a => a = ids[i]?
  | rows ends, a => a = ((Cursor.start ids.length).walk ends).map (·.bind (viewOf ids m))
  | eraseWhere p, (asked, n) => n = (p.hits #[] asked.toList).length ∧ ∀ q ∈ asked.toList, m q.id = some q.components
  | eraseByKind k _ p, (asked, n) =>
    n = (p.hits #[] asked.toList).length ∧ ∀ q ∈ asked.toList, (m q.2).bind (·.entryOf? k) = some q.1
  | eraseByColumn j p, (asked, n) =>
    n = (p.hits #[] asked.toList).length ∧ ∀ q ∈ asked.toList, (m q.2).map (·.get j) = some q.1
  | _, _ => True

def Reserves : ArchetypeCall C El ks α → Prop
  | shared c => c.Reserves
  | _ => False

variable {L : Type} [ColumnLayout L El ks] [LawfulColumnLayout L El ks] {v : Ledger C} {r : Registry C}
  {s : ArchetypeStorage L} {es : List (EntityId × Row El ks)}

def Serves (c : ArchetypeCall C El ks α) (v : Ledger C) (r : Registry C) (s : ArchetypeStorage L)
    (a : α × Registry C × ArchetypeStorage L) : Prop :=
  s.Served v (c.change a.1) a.2.1 a.2.2 ∧ c.Tells r s.ids s.contents a.1

theorem updateComponent?_serves (hs : s.Settled v es) (h : r.Represents v) (key : Key) (k : κ) (f : El k → El k) :
    ∃ a s', s.updateComponent? r key k f = .ok (a, s') ∧
      s.Served v ((updateComponent? (C := C) key k f).change a) r s' ∧
      a = (((r.resolve? key).bind s.contents).bind (·.entryOf? k)).map f := by
  rcases hs.indexOf?_contents h key with ⟨i, e, he, hi, hk, hc⟩ | ⟨hi, hc⟩
  · obtain ⟨l, hl, hcar⟩ := hs.carries.updateComponent? k f hi he
    refine ⟨_, _, hl, ?_, by rw [hc, Option.bind_some]⟩
    cases hx : e.2.entryOf? k with
    | none =>
      have hset : es.set i (e.1, e.2) = es := by
        obtain ⟨hlt, rfl⟩ := List.getElem?_eq_some_iff.1 he
        exact List.set_getElem_self hlt
      rw [Columns.modifyOf?_eq_none hx, Option.getD_none, hset] at hcar
      have hs' : Storage.Settled { s with rows := l } v es := ⟨hcar, hs.seated, hs.store_ne⟩
      exact ⟨⟨v, es, h, hs', rfl, .refl v s.store⟩, hs.contents_keep hs'⟩
    | some x =>
      rw [Storage.set_eq_mapIdx he (fun row => (row.modifyOf? k f).getD row),
        hs.mapIdx_index_eq he (fun row => (row.modifyOf? k f).getD row)] at hcar
      have hid : Tenant.id e.1 = key.entity := (Registry.entity_of_resolve? hk).symm
      rw [hid] at hcar
      exact hs.rewrite_served h hcar
  · refine ⟨none, s, ?_, hs.served_keep h, by rw [hc]; rfl⟩
    rw [Storage.updateComponent?, hi]

theorem updateRow?_serves [Capacious L] (hs : s.Settled v es) (h : r.Represents v) (i : Nat)
    (f : Row El ks → Row El ks) :
    ∃ a s', ((updateRow? i f).run r s).outcome = .ok (a, r, s') ∧ (updateRow? i f).Serves v r s (a, r, s') := by
  cases he : es[i]? with
  | none =>
    have ht : s.tenants[i]? = none := by rw [hs.carries.getElem?_tenants, he, Option.map_none]
    refine ⟨none, s, ?_, hs.served_keep h, by rw [Tells, hs.getElem?_ids, he, Option.map_none]⟩
    simp only [run, Storage.updateRow?, ht, Run.lift_ok, pure_bind, Run.outcome_pure]
  | some e =>
    have ht : s.tenants[i]? = some e.1 := by rw [hs.carries.getElem?_tenants, he, Option.map_some]
    obtain ⟨s', hu, -, hserved⟩ := hs.updateRow_served h he f
    refine ⟨some e.1, s', ?_, hserved, by rw [Tells, hs.getElem?_ids, he, Option.map_some]; rfl⟩
    simp only [run, Storage.updateRow?, ht, hu, Checked.map_ok, Run.lift_ok, pure_bind, Run.outcome_pure]

theorem eraseByKind_serves (hs : s.Settled v es) (h : r.Represents v) (k : κ) (kindName : κ → String)
    (p : Predicate (El k × EntityId)) {E : Fault → Prop} :
    (Swept.answer <$> s.eraseByKind r k kindName p).Ends ((eraseByKind k kindName p).Serves v r s) E := by
  rw [Storage.eraseByKind]
  cases hn : positionOf? ks k with
  | none =>
    have hs' : s.contents = (Change.drop []).apply s.ids s.contents := hs.contents_drop hs fun e => by simp
    exact Run.ends_of_ok rfl ⟨⟨⟨v, es, hs.step_refl h⟩, hs'⟩, rfl, fun q hq => nomatch hq⟩
  | some n =>
    refine hs.sweep_serves h (Storage.Carries.reads_eraseByKind hn) ?_ p ?_
    · rintro i t x q hq
      obtain ⟨y, _, rfl⟩ := Option.map_eq_some_iff.1 hq
      rfl
    · rintro i e q he hq
      obtain ⟨y, hy, rfl⟩ := Option.map_eq_some_iff.1 hq
      have hm : s.contents e.1 = some e.2 := he
      simp only [hm, Option.bind_some, Tuple.entryOf?, hn, hy]

theorem run_serves [Capacious L] [LawfulCapacity L] (c : ArchetypeCall C El ks α) (hs : s.Settled v es)
    (h : r.Represents v) : (c.run r s).Ends (c.Serves v r s) fun f => c.Reserves ∧ f.IsOverflow := by
  cases c with
  | shared c => exact c.run_serves hs h
  | component? key k =>
    have ho : ((component? key k).run r s).outcome =
        .ok (((r.resolve? key).bind s.contents).bind (·.entryOf? k), r, s) := by
      simp only [run, hs.carries.component?, Run.lift_ok, pure_bind, Run.outcome_pure]
      rcases hs.indexOf?_contents h key with ⟨i, e, he, hi, hk, hc⟩ | ⟨hi, hc⟩
      · rw [hi, hc, Option.bind_some, he]
        rfl
      · rw [hi, hc]
        rfl
    exact Run.ends_of_ok ho ⟨hs.served_keep h, rfl⟩
  | updateComponent? key k f =>
    obtain ⟨a, s', hu, hserved, ha⟩ := updateComponent?_serves hs h key k f
    have ho : ((updateComponent? key k f).run r s).outcome = .ok (a, r, s') := by
      simp only [run, hu, Run.lift_ok, pure_bind, Run.outcome_pure]
    exact Run.ends_of_ok ho ⟨hserved, ha⟩
  | row? i =>
    have ho : ((row? i).run r s).outcome = .ok (Storage.Carries.view es i, r, s) := by
      simp only [run, hs.carries.row? i, Run.lift_ok, pure_bind, Run.outcome_pure]
    exact Run.ends_of_ok ho ⟨hs.served_keep h, by rw [Tells, viewOf_eq hs]⟩
  | updateRow? i f =>
    obtain ⟨a, s', ho, ha⟩ := updateRow?_serves hs h i f
    exact Run.ends_of_ok ho ha
  | rows ends =>
    have ho : ((rows ends).run r s).outcome =
        .ok (((Cursor.start es.length).walk ends).map (·.bind (Storage.Carries.view es)), r, s) := by
      rw [run, hs.carries.size_eq, hs.carries.walk (Nat.le_refl _)]
      rfl
    exact Run.ends_of_ok ho ⟨hs.served_keep h, by rw [Tells, viewOf_eq hs, hs.length_ids]⟩
  | updateRowsAt f =>
    obtain ⟨l, hl, hcar⟩ := hs.carries.updateRowsAt f
    have ho : ((updateRowsAt f).run r s).outcome = .ok ((), r, { s with rows := l }) := by
      simp only [run, hl, Run.lift_ok, pure_bind, Run.outcome_pure]
    exact Run.ends_of_ok ho ⟨hs.rewrite_served h hcar, trivial⟩
  | eraseWhere p =>
    refine hs.sweep_serves h Storage.Carries.reads_eraseWhere ?_ p ?_
    · rintro i t x q hq
      cases hq
      rfl
    · rintro i e q he hq
      cases hq
      exact he
  | eraseByKind k kindName p => exact eraseByKind_serves hs h k kindName p
  | eraseByColumn n p =>
    refine hs.sweep_serves h (Storage.Carries.reads_eraseByColumn n) ?_ p ?_
    · rintro i t x q hq
      cases hq
      rfl
    · rintro i e q he hq
      cases hq
      have hm : s.contents e.1 = some e.2 := he
      simp only [hm, Option.map_some]
  | describe => exact Run.ends_pure ⟨hs.served_keep h, trivial⟩

end ArchetypeCall

namespace ComponentCall

variable {α β : Type} {C : Config}

def change (n : Nat) : ComponentCall C β α → α → Change β
  | shared c, a => c.change a
  | modify i f, _ => .rewrite fun _ j x => if j = i then f x else x
  | updateComponents f, _ => .rewrite fun _ i x => f i x
  | updateEntries ends, _ => .rewrite fun _ i x => (Cursor.start n).updates ends i x
  | eraseWhere p, (asked, _) => .drop ((p.hits #[] asked.toList).map (·.2))
  | _, _ => .keep

def Tells (r : Registry C) (ids : List EntityId) (m : EntityId → Option β) : ComponentCall C β α → α → Prop
  | shared c, a => c.Tells r ids m a
  | handles, a => a.map (·.id) = ids
  | components, a => a.map some = ids.map m
  | componentAt i, a => ids[i]?.bind m = some a
  | modify i _, _ => i < ids.length
  | entries ends, a => a.map (·.map fun e => (e.1.id, e.2)) =
      ((Cursor.start ids.length).walk ends).map (·.bind fun i => ids[i]?.bind fun id => (m id).map (id, ·))
  | eraseWhere p, (asked, n) => n = (p.hits #[] asked.toList).length ∧ ∀ q ∈ asked.toList, m q.2 = some q.1
  | _, _ => True

def MayFault (n : Nat) (f : Fault) : ComponentCall C β α → Prop
  | shared c => c.Reserves ∧ f.IsOverflow
  | componentAt i | modify i _ => n ≤ i ∧ f = .indexOutOfBounds n i
  | _ => False

variable {v : Ledger C} {r : Registry C} {s : ComponentStorage β} {es : List (Handle × β)}

def Serves (c : ComponentCall C β α) (v : Ledger C) (r : Registry C) (s : ComponentStorage β)
    (a : α × Registry C × ComponentStorage β) : Prop :=
  s.Served v (c.change s.ids.length a.1) a.2.1 a.2.2 ∧ c.Tells r s.ids s.contents a.1

theorem run_serves [Footprint β] (c : ComponentCall C β α) (hs : s.Settled v es) (h : r.Represents v) :
    (c.run r s).Ends (c.Serves v r s) fun f => c.MayFault s.ids.length f := by
  cases c with
  | shared c =>
    rw [run, c.runComponents_eq hs.carries]
    exact c.run_serves hs h
  | handles =>
    refine Run.ends_pure ⟨hs.served_keep h, ?_⟩
    rw [Tells, hs.carries.handles, hs.carries.ids_eq, List.map_map]
    rfl
  | components =>
    refine Run.ends_pure ⟨hs.served_keep h, ?_⟩
    rw [Tells, hs.carries.components, hs.carries.ids_eq, List.map_map, List.map_map]
    refine List.map_congr_left fun e he => ?_
    exact (hs.contents_eq_some_iff.2 ⟨e.1, he, rfl⟩).symm
  | componentAt i =>
    rcases hs.carries.run_componentAt r i with ⟨e, he, ho⟩ | ⟨hi, ho⟩
    · exact Run.ends_of_ok ho ⟨hs.served_keep h, by rw [Tells, hs.ids_bind_contents, he, Option.map_some]⟩
    · rw [← hs.length_ids] at hi ho
      exact Run.ends_of_error ho ⟨hi, rfl⟩
  | modify i f =>
    rcases hs.carries.run_modify r i f with ⟨hi, l, ho, hc⟩ | ⟨hi, ho⟩
    · rw [← hs.length_ids] at hi
      exact Run.ends_of_ok ho ⟨hs.rewrite_served h hc, hi⟩
    · rw [← hs.length_ids] at hi ho
      exact Run.ends_of_error ho ⟨hi, rfl⟩
  | updateComponents f => exact Run.ends_pure ⟨hs.rewrite_served h (hs.carries.updateComponents f), trivial⟩
  | entries ends =>
    have ho : ((entries ends).run r s).outcome =
        .ok (((Cursor.start es.length).walk ends).map (·.bind (es[·]?)), r, s) := by
      rw [run, hs.carries.start_walk, hs.carries.entries (Nat.le_refl _)]
      rfl
    refine Run.ends_of_ok ho ⟨hs.served_keep h, ?_⟩
    rw [Tells, hs.length_ids, List.map_map]
    refine List.map_congr_left fun i? _ => ?_
    cases i? with
    | none => rfl
    | some i => exact (hs.ids_bind_entry i).symm
  | updateEntries ends =>
    obtain ⟨as, l, hl, hcar⟩ := hs.carries.updateEntries (c := .start es.length) (Nat.le_refl _) ends
    have ho : ((updateEntries ends).run r s).outcome = .ok (as, r, { s with rows := l }) := by
      rw [run, hs.carries.start_walk, hl]
      rfl
    refine Run.ends_of_ok ho ⟨?_, trivial⟩
    rw [hs.length_ids]
    exact hs.rewrite_served h hcar
  | eraseWhere p =>
    rw [run, ComponentStorage.eraseWhere_eq hs.carries]
    refine hs.sweep_serves h ComponentStorage.reads_question ?_ p ?_
    · rintro i t x q hq
      cases hq
      rfl
    · rintro i e q he hq
      cases hq
      exact he

end ComponentCall

end EntityStore
