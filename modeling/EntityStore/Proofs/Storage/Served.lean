import EntityStore.Proofs.Storage.Settled
import EntityStore.Proofs.Walk

/-! A storage as a map from entities to rows. -/

namespace EntityStore

inductive Change (ρ : Type) where
  | keep
  | insert (id : EntityId) (x : ρ)
  | drop (gone : List EntityId)
  | empty
  | rewrite (f : EntityId → Nat → ρ → ρ)

def Change.apply {ρ : Type} (ids : List EntityId) (m : EntityId → Option ρ) : Change ρ → EntityId → Option ρ
  | keep, id => m id
  | insert id' x, id => if id = id' then some x else m id
  | drop gone, id => if id ∈ gone then none else m id
  | empty, _ => none
  | rewrite f, id => (m id).map (f id (ids.idxOf id))

namespace Storage

variable {τ L ρ : Type} [Tenant τ] [Layout L ρ]

def contents (s : Storage τ L) (id : EntityId) : Option ρ :=
  (s.ids.idxOf? id).bind fun i => (Layout.read s.rows i).toOption

variable [LawfulLayout L ρ] {C : Config} {s s' : Storage τ L} {v w : Ledger C} {es es' : List (τ × ρ)} {e : τ × ρ}
  {i : Nat}

namespace Settled

theorem nodup_ids (hs : s.Settled v es) : s.ids.Nodup := by
  have hn := hs.seated.nodup
  rw [List.map_map] at hn
  rw [hs.carries.ids_eq]
  exact hn

theorem length_ids (hs : s.Settled v es) : s.ids.length = es.length := by
  rw [hs.carries.ids_eq, List.length_map]

theorem getElem?_ids (hs : s.Settled v es) (i : Nat) : s.ids[i]? = es[i]?.map fun e => Tenant.id e.1 := by
  rw [hs.carries.ids_eq, List.getElem?_map]

theorem idxOf_eq (hs : s.Settled v es) (hi : es[i]? = some e) : s.ids.idxOf (Tenant.id e.1) = i := by
  have hid : s.ids[i]? = some (Tenant.id e.1) := by rw [hs.getElem?_ids, hi, Option.map_some]
  obtain ⟨hlt, hg⟩ := List.getElem?_eq_some_iff.1 hid
  rw [← hg]
  exact hs.nodup_ids.idxOf_getElem i hlt

theorem idxOf?_eq (hs : s.Settled v es) (hi : es[i]? = some e) : s.ids.idxOf? (Tenant.id e.1) = some i := by
  have hid : s.ids[i]? = some (Tenant.id e.1) := by rw [hs.getElem?_ids, hi, Option.map_some]
  have hmem := List.isSome_idxOf?.2 (List.mem_of_getElem? hid)
  obtain ⟨j, hj⟩ := Option.isSome_iff_exists.1 hmem
  obtain ⟨hlt, hg, _⟩ := List.idxOf?_eq_some_iff.1 hj
  obtain ⟨hlt', hg'⟩ := List.getElem?_eq_some_iff.1 hid
  rw [hj, hs.nodup_ids.getElem_inj_iff.1 (hg.trans hg'.symm)]

theorem contents_eq (hs : s.Settled v es) (hi : es[i]? = some e) : s.contents (Tenant.id e.1) = some e.2 := by
  rw [contents, hs.idxOf?_eq hi, Option.bind_some, hs.carries.read hi]
  rfl

theorem contents_eq_some_iff (hs : s.Settled v es) {id : Nat} {x : ρ} :
    s.contents id = some x ↔ ∃ t, (t, x) ∈ es ∧ Tenant.id t = id := by
  constructor
  · intro h
    obtain ⟨i, hi, hx⟩ := Option.bind_eq_some_iff.1 h
    obtain ⟨hlt, hg, _⟩ := List.idxOf?_eq_some_iff.1 hi
    have hid : s.ids[i]? = some id := List.getElem?_eq_some_iff.2 ⟨hlt, hg⟩
    rw [hs.getElem?_ids] at hid
    obtain ⟨e, he, rfl⟩ := Option.map_eq_some_iff.1 hid
    have hc := hs.contents_eq he
    rw [h] at hc
    cases hc
    exact ⟨e.1, List.mem_of_getElem? he, rfl⟩
  · rintro ⟨t, ht, rfl⟩
    obtain ⟨i, hi⟩ := List.mem_iff_getElem?.1 ht
    exact hs.contents_eq hi

theorem contents_ext (hs : s.Settled v es) {m : EntityId → Option ρ}
    (h : ∀ (id : Nat) (x : ρ), m id = some x ↔ ∃ t, (t, x) ∈ es ∧ Tenant.id t = id) : s.contents = m := by
  funext id
  apply Option.ext
  intro x
  exact hs.contents_eq_some_iff.trans (h id x).symm

theorem mem_ids_iff (hs : s.Settled v es) {id : Nat} : id ∈ s.ids ↔ (s.contents id).isSome := by
  rw [hs.carries.ids_eq, List.mem_map, Option.isSome_iff_exists]
  constructor
  · rintro ⟨e, he, rfl⟩
    exact ⟨e.2, hs.contents_eq_some_iff.2 ⟨e.1, he, rfl⟩⟩
  · rintro ⟨x, hx⟩
    obtain ⟨t, ht, rfl⟩ := hs.contents_eq_some_iff.1 hx
    exact ⟨_, ht, rfl⟩

theorem contents_eq_none_of_concat (hs : s.Settled v es) {t : τ} {x : ρ} (hs' : s'.Settled w (es ++ [(t, x)])) :
    s.contents (Tenant.id t) = none := by
  by_contra hne
  obtain ⟨y, hy⟩ := Option.ne_none_iff_exists'.1 hne
  obtain ⟨u, hu, hid⟩ := hs.contents_eq_some_iff.1 hy
  obtain ⟨i, hi⟩ := List.mem_iff_getElem?.1 hu
  have hlt := (List.getElem?_eq_some_iff.1 hi).1
  have hi' : (es ++ [(t, x)])[i]? = some (u, y) := by rw [List.getElem?_append_left hlt, hi]
  have := ((hs'.seat hi').unique (hs'.seat List.getElem?_concat_length) hid).2
  omega

theorem contents_keep (hs : s.Settled v es) (hs' : s'.Settled w es) :
    s'.contents = Change.keep.apply s.ids s.contents :=
  hs'.contents_ext fun _ _ => hs.contents_eq_some_iff

theorem contents_insert (hs : s.Settled v es) {t : τ} {x : ρ} (hs' : s'.Settled w (es ++ [(t, x)])) :
    s'.contents = (Change.insert (Tenant.id t) x).apply s.ids s.contents := by
  refine hs'.contents_ext fun id y => ?_
  have hlast : s'.contents (Tenant.id t) = some x := hs'.contents_eq List.getElem?_concat_length
  simp only [Change.apply]
  split
  · rename_i hid
    subst hid
    rw [← hs'.contents_eq_some_iff, hlast]
  · rename_i hid
    rw [hs.contents_eq_some_iff]
    constructor
    · rintro ⟨u, hu, hid'⟩
      exact ⟨u, List.mem_append_left _ hu, hid'⟩
    · rintro ⟨u, hu, rfl⟩
      rcases List.mem_append.1 hu with hu | hu
      · exact ⟨u, hu, rfl⟩
      · cases List.mem_singleton.1 hu
        exact absurd rfl hid

theorem contents_drop (hs : s.Settled v es) {gone : List EntityId} (hs' : s'.Settled w es')
    (h : ∀ e, e ∈ es' ↔ e ∈ es ∧ Tenant.id e.1 ∉ gone) : s'.contents = (Change.drop gone).apply s.ids s.contents := by
  refine hs'.contents_ext fun id x => ?_
  simp only [Change.apply, h]
  split
  · rename_i hid
    constructor
    · intro hn
      cases hn
    · rintro ⟨t, ⟨_, hnot⟩, rfl⟩
      exact absurd hid hnot
  · rename_i hid
    rw [hs.contents_eq_some_iff]
    constructor
    · rintro ⟨t, ht, rfl⟩
      exact ⟨t, ⟨ht, hid⟩, rfl⟩
    · rintro ⟨t, ⟨ht, _⟩, he⟩
      exact ⟨t, ht, he⟩

theorem contents_empty (hs' : s'.Settled w []) (ids : List EntityId) (m : EntityId → Option ρ) :
    s'.contents = Change.empty.apply ids m := by
  refine hs'.contents_ext fun id x => ?_
  simp [Change.apply]

theorem contents_rewrite (hs : s.Settled v es) {f : EntityId → Nat → ρ → ρ}
    (hs' : s'.Settled w (es.mapIdx fun i e => (e.1, f (Tenant.id e.1) i e.2))) :
    s'.contents = (Change.rewrite f).apply s.ids s.contents := by
  refine hs'.contents_ext fun id y => ?_
  simp only [Change.apply, Option.map_eq_some_iff, hs.contents_eq_some_iff]
  constructor
  · rintro ⟨x, ⟨t, ht, rfl⟩, rfl⟩
    obtain ⟨i, hi⟩ := List.mem_iff_getElem?.1 ht
    refine ⟨t, List.mem_of_getElem? (i := i) ?_, rfl⟩
    rw [List.getElem?_mapIdx, hi, Option.map_some, hs.idxOf_eq hi]
  · rintro ⟨t, ht, rfl⟩
    obtain ⟨i, hi⟩ := List.mem_iff_getElem?.1 ht
    rw [List.getElem?_mapIdx] at hi
    obtain ⟨e, he, heq⟩ := Option.map_eq_some_iff.1 hi
    cases heq
    exact ⟨e.2, ⟨e.1, List.mem_of_getElem? he, rfl⟩, by rw [hs.idxOf_eq he]⟩

theorem mapIdx_index_eq (hs : s.Settled v es) (hi : es[i]? = some e) (f : ρ → ρ) :
    (es.mapIdx fun j e' => (e'.1, if j = i then f e'.2 else e'.2)) =
      es.mapIdx fun _ e' => (e'.1, if Tenant.id e'.1 = Tenant.id e.1 then f e'.2 else e'.2) := by
  apply List.ext_getElem?
  intro j
  rw [List.getElem?_mapIdx, List.getElem?_mapIdx]
  cases he' : es[j]? with
  | none => rfl
  | some e' =>
    have hiff : j = i ↔ Tenant.id e'.1 = Tenant.id e.1 := by
      constructor
      · rintro rfl
        rw [hi] at he'
        cases he'
        rfl
      · intro hid
        rw [← hs.idxOf_eq he', hid, hs.idxOf_eq hi]
    simp only [Option.map_some, hiff]

theorem indexOf?_eq (hs : s.Settled v es) {r : Registry C} (h : r.Represents v) (k : Key) :
    s.indexOf? r k = (r.resolve? k).bind (s.ids.idxOf? ·) := by
  apply Option.ext
  intro i
  rw [hs.indexOf?_iff h, Option.bind_eq_some_iff]
  constructor
  · rintro ⟨e, he, hk⟩
    exact ⟨_, hk, hs.idxOf?_eq he⟩
  · rintro ⟨id, hk, hi⟩
    obtain ⟨hlt, hg, _⟩ := List.idxOf?_eq_some_iff.1 hi
    have hid : s.ids[i]? = some id := List.getElem?_eq_some_iff.2 ⟨hlt, hg⟩
    rw [hs.getElem?_ids] at hid
    obtain ⟨e, he, rfl⟩ := Option.map_eq_some_iff.1 hid
    exact ⟨e, he, hk⟩

theorem indexOf?_contents (hs : s.Settled v es) {r : Registry C} (h : r.Represents v) (k : Key) :
    (∃ i e, es[i]? = some e ∧ s.indexOf? r k = some i ∧ r.resolve? k = some (Tenant.id e.1) ∧
      (r.resolve? k).bind s.contents = some e.2) ∨
    s.indexOf? r k = none ∧ (r.resolve? k).bind s.contents = none := by
  cases hi : s.indexOf? r k with
  | some i =>
    obtain ⟨e, he, hk⟩ := (hs.indexOf?_iff h).1 hi
    exact .inl ⟨i, e, he, rfl, hk, by rw [hk, Option.bind_some, hs.contents_eq he]⟩
  | none =>
    refine .inr ⟨rfl, Option.bind_eq_none_iff.2 fun id hk => ?_⟩
    by_contra hne
    obtain ⟨x, hx⟩ := Option.ne_none_iff_exists'.1 hne
    obtain ⟨t, ht, rfl⟩ := hs.contents_eq_some_iff.1 hx
    obtain ⟨i, he⟩ := List.mem_iff_getElem?.1 ht
    have := (hs.indexOf?_iff h).2 ⟨_, he, hk⟩
    rw [hi] at this
    cases this

end Settled

end Storage

variable {C : Config} {τ L ρ α : Type} [Tenant τ] [Layout L ρ]

def StorageCall.Reserves : StorageCall C ρ α → Prop
  | reserve _ => True
  | _ => False

def Run.Overflows {β : Type} (x : Run β) : Prop := ∃ f, x.outcome = .error f ∧ f.IsOverflow

theorem StorageCall.run_reserve [Capacious L] [LawfulCapacity L] (extra : Nat) (r : Registry C) (s : Storage τ L) :
    (reserve extra : StorageCall C ρ Unit).run r s = pure ((), r, s) ∨
      ((reserve extra : StorageCall C ρ Unit).run r s).Overflows := by
  have hroom : (s.room C extra).Ends (fun _ => True) Fault.IsOverflow :=
    (checkRoom_ends _ _ _).bind fun _ _ => LawfulCapacity.room_ends s.rows extra
  rw [run]
  cases hr : s.room C extra with
  | ok _ => exact .inl rfl
  | error f =>
    rw [hr] at hroom
    exact .inr ⟨f, rfl, hroom⟩

variable [LawfulLayout L ρ]

structure Storage.Served (v : Ledger C) (s : Storage τ L) (change : Change ρ) (r' : Registry C) (s' : Storage τ L) :
    Prop where
  step : ∃ w es', s.Step v w r' s' es'
  contents : s'.contents = change.apply s.ids s.contents

namespace Storage.Settled

variable {v : Ledger C} {r : Registry C} {s : Storage τ L} {es : List (τ × ρ)} {e : τ × ρ} {i : Nat}

theorem served_keep (hs : s.Settled v es) (h : r.Represents v) : s.Served v .keep r s :=
  ⟨⟨v, es, hs.step_refl h⟩, hs.contents_keep hs⟩

theorem rewrite_served (hs : s.Settled v es) (h : r.Represents v) {l : L} {f : EntityId → Nat → ρ → ρ}
    (hc : Carries { s with rows := l } (es.mapIdx fun i e => (e.1, f (Tenant.id e.1) i e.2))) :
    s.Served v (.rewrite f) r { s with rows := l } := by
  have hs' : Settled { s with rows := l } v (es.mapIdx fun i e => (e.1, f (Tenant.id e.1) i e.2)) := by
    refine ⟨hc, ?_, hs.store_ne⟩
    rw [map_mapIdx, mapIdx_const]
    exact hs.seated
  exact ⟨⟨v, _, h, hs', rfl, .refl v s.store⟩, hs.contents_rewrite hs'⟩

theorem sweep_served (hs : s.Settled v es) (h : r.Represents v) {β : Type}
    {view : Storage τ L → Nat → Checked (Option β)} {g : Nat → τ → ρ → Option β} (hview : Reads view g)
    {ident : β → EntityId}
    (hident : ∀ i t x q, g i t x = some q → ident q = Tenant.id t) (p : Predicate β) :
    (s.sweep view p r).Ends (fun w => s.Served v (.drop ((p.hits #[] w.asked.toList).map ident)) w.state.1 w.state.2 ∧
      w.erased = (p.hits #[] w.asked.toList).length ∧ ∀ q ∈ w.asked.toList, ∃ i, ∃ e ∈ es, g i e.1 e.2 = some q)
      fun _ => False := by
  obtain ⟨r', s', w, es', qs, ho, hw, hes, hqs⟩ := hs.sweep hview hident p h
  exact Run.ends_of_ok ho ⟨⟨⟨w, es', hw⟩, hs.contents_drop hw.settled hes⟩, rfl, hqs⟩

theorem updateRow_served (hs : s.Settled v es) (h : r.Represents v) (hi : es[i]? = some e) (f : ρ → ρ) :
    ∃ s', s.updateRow i f = .ok s' ∧ s'.Settled v (es.set i (e.1, f e.2)) ∧
      s.Served v (.rewrite fun _ j x => if j = i then f x else x) r s' := by
  obtain ⟨l, hl, hs'⟩ := hs.updateRow hi f
  refine ⟨_, hl, hs', ⟨v, _, h, hs', rfl, .refl v s.store⟩, ?_⟩
  rw [set_eq_mapIdx hi f] at hs'
  exact hs.contents_rewrite hs'

theorem updateRow_served_entity (hs : s.Settled v es) (h : r.Represents v) (k : Key) (f : ρ → ρ) :
    (∃ i s', s.indexOf? r k = some i ∧ s.updateRow i f = .ok s' ∧ ((r.resolve? k).bind s.contents).isSome ∧
        s.Served v (.rewrite fun id _ x => if id = k.entity then f x else x) r s') ∨
      s.indexOf? r k = none ∧ (r.resolve? k).bind s.contents = none := by
  rcases hs.indexOf?_contents h k with ⟨i, e, he, hi, hk, hc⟩ | ⟨hi, hc⟩
  · obtain ⟨s', ho, hs', hv⟩ := hs.updateRow_served h he f
    refine .inl ⟨i, s', hi, ho, by rw [hc, Option.isSome_some], hv.step, ?_⟩
    rw [set_eq_mapIdx he f, hs.mapIdx_index_eq he] at hs'
    rw [Registry.entity_of_resolve? hk]
    exact hs.contents_rewrite hs'
  · exact .inr ⟨hi, hc⟩

theorem contains_eq (hs : s.Settled v es) (h : r.Represents v) (k : Key) :
    s.contains r k = ((r.resolve? k).bind s.contents).isSome := by
  rcases hs.indexOf?_contents h k with ⟨i, e, he, hi, hk, hc⟩ | ⟨hi, hc⟩
  · rw [Storage.contains, hi, hc]
    rfl
  · rw [Storage.contains, hi, hc]
    rfl

theorem get?_eq (hs : s.Settled v es) (h : r.Represents v) (k : Key) :
    s.get? r k = .ok ((r.resolve? k).bind s.contents) := by
  rcases hs.indexOf?_contents h k with ⟨i, e, he, hi, hk, hc⟩ | ⟨hi, hc⟩
  · rw [Storage.get?, hi, hc]
    simp only [hs.carries.read he]
    rfl
  · rw [Storage.get?, hi, hc]

theorem get_eq (hs : s.Settled v es) (h : r.Represents v) (k : Key) :
    ∃ a, s.get r k = .ok a ∧ a.toOption = (r.resolve? k).bind s.contents := by
  rcases hs.indexOf?_contents h k with ⟨i, e, he, hi, hk, hc⟩ | ⟨hi, hc⟩
  · refine ⟨.ok e.2, ?_, hc.symm⟩
    rw [Storage.get, hi]
    simp only [hs.carries.read he]
    rfl
  · refine ⟨.error (s.miss r k), ?_, hc.symm⟩
    rw [Storage.get, hi]

theorem take_served (hs : s.Settled v es) (h : r.Represents v) (k : Key) (target : StoreId) :
    ∃ a r' s', (s.take r k target).outcome = .ok (a, r', s') ∧ a = (r.resolve? k).bind s.contents ∧
      s.Served v (if a.isSome then .drop [k.entity] else .keep) r' s' := by
  rcases hs.indexOf?_contents h k with ⟨i, e, he, hi, hk, hc⟩ | ⟨hi, hc⟩
  · obtain ⟨r', s', w, ho, hw⟩ := hs.take h he hi target
    refine ⟨some e.2, r', s', ho, hc.symm, ⟨w, _, hw⟩, ?_⟩
    refine hs.contents_drop hw.settled fun e' => ?_
    rw [hs.mem_swapPop he, Registry.entity_of_resolve? hk, List.mem_singleton]
  · exact ⟨none, r, s, by rw [Storage.take, hi]; rfl, hc.symm, hs.served_keep h⟩

end Storage.Settled

namespace StorageCall

def change : StorageCall C ρ α → α → Change ρ
  | update? k f, true => .rewrite fun id _ x => if id = k.entity then f x else x
  | update k f, .ok _ => .rewrite fun id _ x => if id = k.entity then f x else x
  | add k x, true => .insert k.entity x
  | spawn _ x, some h => .insert h.id x
  | take k _, some _ => .drop [k.entity]
  | remove k _, true => .drop [k.entity]
  | erase k, true => .drop [k.entity]
  | removeAll _, _ => .empty
  | clear, _ => .empty
  | _, _ => .keep

def Tells (r : Registry C) (ids : List EntityId) (m : EntityId → Option ρ) : StorageCall C ρ α → α → Prop
  | size, a => a = ids.length
  | isEmpty, a => a = ids.isEmpty
  | .ids, a => a = ids
  | indexOf? k, a => a = (r.resolve? k).bind (ids.idxOf? ·)
  | contains k, a => a = ((r.resolve? k).bind m).isSome
  | get? k, a => a = (r.resolve? k).bind m
  | get k, a => a.toOption = (r.resolve? k).bind m
  | update? k _, a => a = ((r.resolve? k).bind m).isSome
  | update k _, a => a.toOption.isSome = ((r.resolve? k).bind m).isSome
  | add k _, a => a → r.resolve? k = some k.entity ∧ m k.entity = none
  | spawn _ _, a => ∀ h ∈ a, m h.id = none
  | take k _, a => a = (r.resolve? k).bind m
  | remove k _, a => a = ((r.resolve? k).bind m).isSome
  | erase k, a => a = ((r.resolve? k).bind m).isSome
  | removeAll _, a => a = ids.length
  | clear, a => a = ids.length
  | _, _ => True

variable {v : Ledger C} {r : Registry C} {s : Storage τ L}
  {es : List (τ × ρ)}

def Serves (c : StorageCall C ρ α) (v : Ledger C) (r : Registry C) (s : Storage τ L)
    (a : α × Registry C × Storage τ L) : Prop :=
  s.Served v (c.change a.1) a.2.1 a.2.2 ∧ c.Tells r s.ids s.contents a.1

theorem add_serves (hs : s.Settled v es) (h : r.Represents v) (k : Key) (x : ρ) {E : Fault → Prop} :
    (s.add r k x).Ends ((add k x).Serves v r s) E := by
  by_cases ha : ∃ id, s.Accepts r k id
  · obtain ⟨id, ha⟩ := ha
    obtain ⟨hd, r', s', w, hh, ho, hw⟩ := hs.add h ha x
    have hid : Tenant.id (Tenant.ofHandle hd : τ) = k.entity := by
      rw [Tenant.id_ofHandle, Registry.id_of_handle? hh, Registry.entity_of_resolve? ha.resolves]
    have hc := hs.contents_insert hw.settled
    have hn := hs.contents_eq_none_of_concat hw.settled
    rw [hid] at hc hn
    refine Run.ends_of_ok ho ⟨⟨⟨w, _, hw⟩, hc⟩, fun _ => ⟨?_, hn⟩⟩
    rw [Registry.entity_of_resolve? ha.resolves, ha.resolves]
  · have ho := Storage.add_outcome_of_refused x fun id hid => ha ⟨id, hid⟩
    exact Run.ends_of_ok ho ⟨hs.served_keep h, fun ht => nomatch ht⟩

theorem spawn_serves (hs : s.Settled v es) (h : r.Represents v) (m : C.Metadata) (x : ρ) {E : Fault → Prop} :
    (s.spawn r m x).Ends ((spawn m x).Serves v r s) E := by
  obtain ⟨r', s', w, ⟨ho, hw⟩ | ⟨hd, ho, hw⟩⟩ := hs.spawn h m x
  · exact Run.ends_of_ok ho ⟨⟨⟨w, _, hw⟩, hs.contents_keep hw.settled⟩, fun _ hn => nomatch hn⟩
  · have hid : Tenant.id (Tenant.ofHandle hd : τ) = hd.id := Tenant.id_ofHandle hd
    have hc := hs.contents_insert hw.settled
    have hn := hs.contents_eq_none_of_concat hw.settled
    rw [hid] at hc hn
    refine Run.ends_of_ok ho ⟨⟨⟨w, _, hw⟩, hc⟩, fun hd' hd'' => ?_⟩
    cases hd''
    exact hn

theorem run_serves [Capacious L] [LawfulCapacity L] (c : StorageCall C ρ α) (hs : s.Settled v es) (h : r.Represents v) :
    (c.run r s).Ends (c.Serves v r s) fun f => c.Reserves ∧ f.IsOverflow := by
  cases c with
  | store | limit | shrink => exact Run.ends_pure ⟨hs.served_keep h, trivial⟩
  | size =>
    refine Run.ends_pure ⟨hs.served_keep h, ?_⟩
    rw [Tells, hs.length_ids, hs.carries.size_eq]
  | isEmpty =>
    refine Run.ends_pure ⟨hs.served_keep h, ?_⟩
    rw [Tells, Storage.isEmpty, hs.carries.size_eq, ← hs.length_ids]
    cases s.ids <;> rfl
  | ids => exact Run.ends_pure ⟨hs.served_keep h, rfl⟩
  | indexOf? k => exact Run.ends_pure ⟨hs.served_keep h, hs.indexOf?_eq h k⟩
  | contains k => exact Run.ends_pure ⟨hs.served_keep h, hs.contains_eq h k⟩
  | get? k =>
    have ho : ((get? k).run r s).outcome = .ok ((r.resolve? k).bind s.contents, r, s) := by
      simp only [run, hs.get?_eq h k, Run.lift_ok, pure_bind, Run.outcome_pure]
    exact Run.ends_of_ok ho ⟨hs.served_keep h, rfl⟩
  | get k =>
    obtain ⟨a, hg, ha⟩ := hs.get_eq h k
    have ho : ((get k).run r s).outcome = .ok (a, r, s) := by
      simp only [run, hg, Run.lift_ok, pure_bind, Run.outcome_pure]
    exact Run.ends_of_ok ho ⟨hs.served_keep h, ha⟩
  | update? k f =>
    rcases hs.updateRow_served_entity h k f with ⟨i, s', hi, hu, hc, hv⟩ | ⟨hi, hc⟩
    · have ho : ((update? k f).run r s).outcome = .ok (true, r, s') := by
        simp only [run, Storage.update?, hi, hu, Checked.map_ok, Run.lift_ok, pure_bind, Run.outcome_pure]
      exact Run.ends_of_ok ho ⟨hv, hc.symm⟩
    · have ho : ((update? k f).run r s).outcome = .ok (false, r, s) := by
        simp only [run, Storage.update?, hi, Run.lift_ok, pure_bind, Run.outcome_pure]
      exact Run.ends_of_ok ho ⟨hs.served_keep h, by rw [Tells, hc, Option.isSome_none]⟩
  | update k f =>
    rcases hs.updateRow_served_entity h k f with ⟨i, s', hi, hu, hc, hv⟩ | ⟨hi, hc⟩
    · have ho : ((update k f).run r s).outcome = .ok (.ok (), r, s') := by
        simp only [run, Storage.update, hi, hu, Checked.map_ok, Run.lift_ok, pure_bind, Run.outcome_pure]
      exact Run.ends_of_ok ho ⟨hv, hc.symm⟩
    · have ho : ((update k f).run r s).outcome = .ok (.error (s.miss r k), r, s) := by
        simp only [run, Storage.update, hi, Run.lift_ok, pure_bind, Run.outcome_pure]
      exact Run.ends_of_ok ho ⟨hs.served_keep h, by rw [Tells, hc]; rfl⟩
  | add k x => exact add_serves hs h k x
  | spawn m x => exact spawn_serves hs h m x
  | take k target =>
    obtain ⟨a, r', s', ho, ha, hv⟩ := hs.take_served h k target
    refine Run.ends_of_ok ho ⟨?_, ha⟩
    cases a <;> exact hv
  | remove k target =>
    obtain ⟨a, r', s', ho, ha, hv⟩ := hs.take_served h k target
    refine Run.ends_of_ok (a := (a.isSome, r', s')) (by simp [run, Storage.remove, ho]) ⟨?_, ha ▸ rfl⟩
    cases a <;> exact hv
  | erase k =>
    obtain ⟨a, r', s', ho, ha, hv⟩ := hs.take_served h k C.stores.invalid
    refine Run.ends_of_ok (a := (a.isSome, r', s')) (by simp [run, Storage.erase, Storage.remove, ho]) ⟨?_, ha ▸ rfl⟩
    cases a <;> exact hv
  | removeAll target =>
    obtain ⟨r', s', w, ho, hw⟩ := hs.removeAll h target
    exact Run.ends_of_ok ho ⟨⟨⟨w, _, hw⟩, hw.settled.contents_empty _ _⟩, hs.length_ids.symm⟩
  | clear =>
    obtain ⟨r', s', w, ho, hw⟩ := hs.removeAll h C.stores.invalid
    exact Run.ends_of_ok ho ⟨⟨⟨w, _, hw⟩, hw.settled.contents_empty _ _⟩, hs.length_ids.symm⟩
  | setLimit n =>
    have hs' : (s.setLimit n).Settled v es := ⟨⟨hs.carries.tenants, hs.carries.rows⟩, hs.seated, hs.store_ne⟩
    exact Run.ends_pure ⟨⟨⟨v, es, h, hs', rfl, .refl v s.store⟩, hs.contents_keep hs'⟩, trivial⟩
  | reserve extra =>
    rcases StorageCall.run_reserve (ρ := ρ) extra r s with hr | ⟨f, hr, hf⟩
    · rw [hr]
      exact Run.ends_pure ⟨hs.served_keep h, trivial⟩
    · exact Run.ends_of_error hr ⟨trivial, hf⟩

end StorageCall

end EntityStore
