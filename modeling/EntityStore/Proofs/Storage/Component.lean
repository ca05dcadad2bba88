import EntityStore.Calls
import EntityStore.Proofs.Layout.Columns
import EntityStore.Proofs.Storage.Carries
import EntityStore.Proofs.Walk

/-! Component storages that carry lists of entries. -/

namespace EntityStore

namespace ComponentStorage

variable {β : Type} {C : Config} {s : ComponentStorage β} {es : List (Handle × β)} {r : Registry C} {k : Key} {i : Nat}

theorem empty_eq (C : Config) (store : StoreId) : (empty C store : Run (Except Refusal (ComponentStorage β))) =
    Storage.empty C store := rfl

section Room

variable [Footprint β]

theorem room_eq (C : Config) (s : ComponentStorage β) (extra : Nat) : s.room C extra = Storage.room C s extra := by
  change (checkRoom s.rows.size extra (Footprint.bytes β) >>= fun _ =>
      checkRoom s.tenants.size extra (Handle.bytes C)) =
    checkRoom s.tenants.size extra (Handle.bytes C) >>= fun _ => checkRoom s.rows.size extra (Footprint.bytes β)
  simp only [checkRoom]
  split <;> split <;> rfl

theorem ofSettings_eq (C : Config) (store : StoreId) (settings : StorageSettings) :
    (ofSettings C store settings : Run (Except Refusal (ComponentStorage β))) =
      Storage.ofSettings C store settings := by
  rw [ofSettings, Storage.ofSettings, empty_eq]
  refine bind_congr fun made => ?_
  cases made with
  | error e => rfl
  | ok s =>
    dsimp only
    rw [room_eq]
    rfl

end Room

theorem size_eq (h : s.Carries es) : s.size = Storage.size s := by
  have hrows : s.rows = (es.map (·.2)).toArray := h.rows
  rw [h.size_eq, size, hrows, List.size_toArray, List.length_map]

theorem modify_eq (s : ComponentStorage β) (i : Nat) (f : β → β) : s.modify i f = s.updateRow i f := by
  change _ = ((·.2) <$> Column.update s.rows i f) >>= fun rows => .ok { s with rows := rows }
  rw [modify]
  cases Column.update s.rows i f <;> rfl

theorem get?_eq (s : ComponentStorage β) (r : Registry C) (k : Key) : s.get? r k = Storage.get? s r k := by
  have hindex : Storage.indexOf? s r k = s.indexOf? r k := rfl
  rw [get?, Storage.get?, hindex]
  cases s.indexOf? r k <;> rfl

theorem get_eq (s : ComponentStorage β) (r : Registry C) (k : Key) : s.get r k = Storage.get s r k := by
  have hindex : Storage.indexOf? s r k = s.indexOf? r k := rfl
  rw [get, Storage.get, hindex]
  cases s.indexOf? r k <;> rfl

theorem update?_eq (s : ComponentStorage β) (r : Registry C) (k : Key) (f : β → β) :
    s.update? r k f = Storage.update? s r k f := by
  have hindex : Storage.indexOf? s r k = s.indexOf? r k := rfl
  rw [update?, Storage.update?, hindex]
  cases s.indexOf? r k with
  | none => rfl
  | some i => exact congrArg (some <$> ·) (modify_eq s i f)

theorem update_eq (s : ComponentStorage β) (r : Registry C) (k : Key) (f : β → β) :
    s.update r k f = Storage.update s r k f := by
  have hindex : Storage.indexOf? s r k = s.indexOf? r k := rfl
  rw [update, Storage.update, hindex]
  cases s.indexOf? r k with
  | none => rfl
  | some i => exact congrArg (Except.ok <$> ·) (modify_eq s i f)

theorem add_eq (h : s.Carries es) (r : Registry C) (k : Key) (x : β) : s.add r k x = Storage.add s r k x := by
  have hsize : s.rows.size = s.tenants.size := size_eq h
  rw [add, Storage.add]
  cases r.resolve? k with
  | none => rfl
  | some id =>
    change (if s.limit ≤ s.rows.size then _ else _) = if s.limit ≤ s.tenants.size then _ else _
    rw [hsize]
    refine if_congr Iff.rfl rfl ?_
    have hacquire : (Tenant.acquire r id : Option Handle) = r.handle? id := rfl
    rw [hacquire]
    cases r.locationOf? id with
    | none => rfl
    | some l =>
      cases r.handle? id with
      | none => rfl
      | some hd =>
        refine if_congr Iff.rfl ?_ rfl
        change (r.relocate id (.housed s.store s.rows.size) >>= fun r => _) = _
        rw [hsize]
        rfl

theorem spawn_eq (h : s.Carries es) (r : Registry C) (m : C.Metadata) (x : β) :
    s.spawn r m x = Storage.spawn s r m x := by
  have hsize : s.rows.size = s.tenants.size := size_eq h
  rw [spawn, Storage.spawn, hsize]
  refine if_congr Iff.rfl rfl (bind_congr fun made => ?_)
  obtain ⟨_ | hd, r⟩ := made
  · rfl
  · dsimp only
    rw [add_eq h]
    refine bind_congr fun added => ?_
    obtain ⟨_ | _, r, s⟩ := added <;> rfl

theorem removeAt_eq (s : ComponentStorage β) (r : Registry C) (i : Nat) : s.removeAt r i = Storage.removeAt s r i := by
  rw [removeAt, Storage.removeAt]
  refine bind_congr fun left => bind_congr fun row => ?_
  obtain ⟨h, handles⟩ := left
  dsimp only
  cases handles[i]? with
  | none => rfl
  | some moved => rfl

theorem take_eq (s : ComponentStorage β) (r : Registry C) (k : Key) (target : StoreId) :
    s.take r k target = Storage.take s r k target := by
  have hindex : Storage.indexOf? s r k = s.indexOf? r k := rfl
  rw [take, Storage.take, hindex]
  cases s.indexOf? r k with
  | none => rfl
  | some i =>
    dsimp only
    rw [removeAt_eq]
    rfl

theorem remove_eq (s : ComponentStorage β) (r : Registry C) (k : Key) (target : StoreId) :
    s.remove r k target = Storage.remove s r k target := by
  rw [remove, take_eq]
  rfl

theorem relocateAll_eq (r : Registry C) (target : StoreId) (hs : List Handle) :
    relocateAll r target hs = Storage.relocateAll r target (hs.map Handle.id) := by
  induction hs generalizing r with
  | nil => rfl
  | cons h hs ih =>
    rw [List.map_cons, relocateAll, Storage.relocateAll]
    simp only [ih]

theorem removeAll_eq (s : ComponentStorage β) (r : Registry C) (target : StoreId) :
    s.removeAll r target = Storage.removeAll s r target := by
  rw [removeAll, relocateAll_eq]
  rfl

def question (s : ComponentStorage β) (i : Nat) : Checked (Option (β × EntityId)) := do
  let x ← Column.read s.rows i
  let h ← Column.read s.tenants i
  return some (x, h.id)

theorem reads_question : Storage.Reads question fun _ (h : Handle) (x : β) => some (x, h.id) := by
  intro s es i e h hi
  have hrows : s.rows = (es.map (·.2)).toArray := h.rows
  rw [question, hrows, h.tenants, Column.read_toArray (Storage.getElem?_rows hi), Checked.ok_bind,
    Column.read_toArray (Storage.getElem?_tenant hi)]
  rfl

theorem eraseFrom_eq (p : Predicate (β × EntityId)) {n : Nat} (h : s.Carries es) (hn : i + n = es.length)
    (asked : Array (β × EntityId)) (erased : Nat) :
    eraseFrom p n i ⟨(r, s), asked, erased⟩ = Storage.sweepFrom question p n i ⟨(r, s), asked, erased⟩ := by
  -- every round leaves one row less to ask about, so that the loop stops at the last round and not before
  induction n generalizing i r s es asked erased with
  | zero => rfl
  | succ n ih =>
    obtain ⟨e, hi⟩ : ∃ e, es[i]? = some e := ⟨es[i], List.getElem?_eq_getElem (by omega)⟩
    have hnext : i + 1 + n = es.length := by omega
    have hrows : s.rows = (es.map (·.2)).toArray := h.rows
    have hlt : i < s.rows.size := by
      rw [hrows, List.size_toArray, List.length_map]
      omega
    rw [eraseFrom, Storage.sweepFrom, reads_question s es i e h hi, if_pos hlt, hrows, h.tenants,
      Column.read_toArray (Storage.getElem?_rows hi), Column.read_toArray (Storage.getElem?_tenant hi)]
    simp only [Run.lift_ok, pure_bind]
    split
    · obtain ⟨s', hc, -, -, hs⟩ := h.removeAt hi
      rw [removeAt_eq, hs r]
      simp only [map_eq_pure_bind, bind_assoc, pure_bind]
      refine bind_congr fun r₁ => bind_congr fun r₂ => ih hc ?_ _ _
      rw [length_swapPop]
      omega
    · exact ih h hnext _ _

theorem eraseWhere_eq (h : s.Carries es) (r : Registry C) (p : Predicate (β × EntityId)) :
    s.eraseWhere r p = s.sweep question p r := by
  have hsize : s.rows.size = Storage.size s := size_eq h
  rw [eraseWhere, Storage.sweep, hsize]
  exact eraseFrom_eq p h (by rw [Nat.zero_add, h.size_eq]) #[] 0

end ComponentStorage

theorem StorageCall.runComponents_eq {α β : Type} [Footprint β] {C : Config} (c : StorageCall C β α)
    {s : ComponentStorage β} {es : List (Handle × β)} (h : s.Carries es) (r : Registry C) :
    c.runComponents r s = c.run r s := by
  cases c with
  | size => exact congrArg (fun n => pure (n, r, s)) (ComponentStorage.size_eq h)
  | isEmpty =>
    have hempty : s.isEmpty = Storage.isEmpty s := by
      rw [Storage.isEmpty, ← ComponentStorage.size_eq h]
      rfl
    exact congrArg (fun b => pure (b, r, s)) hempty
  | get? k =>
    rw [runComponents, ComponentStorage.get?_eq]
    rfl
  | get k =>
    rw [runComponents, ComponentStorage.get_eq]
    rfl
  | update? k f =>
    rw [runComponents, run, ComponentStorage.update?_eq]
    refine bind_congr fun updated => ?_
    cases updated <;> rfl
  | update k f =>
    rw [runComponents, run, ComponentStorage.update_eq]
    refine bind_congr fun updated => ?_
    cases updated <;> rfl
  | add k x => exact ComponentStorage.add_eq h r k x
  | spawn m x => exact ComponentStorage.spawn_eq h r m x
  | take k target => exact ComponentStorage.take_eq s r k target
  | remove k target => exact ComponentStorage.remove_eq s r k target
  | erase k => exact ComponentStorage.remove_eq s r k C.stores.invalid
  | removeAll target => exact ComponentStorage.removeAll_eq s r target
  | clear => exact ComponentStorage.removeAll_eq s r C.stores.invalid
  | reserve extra =>
    rw [runComponents, ComponentStorage.room_eq]
    rfl
  | _ => rfl

namespace Storage.Carries

variable {β : Type} {s : ComponentStorage β} {es : List (Handle × β)} {e : Handle × β} {i : Nat}

theorem rows_eq (h : s.Carries es) : s.rows = (es.map (·.2)).toArray := h.rows

theorem handles (h : s.Carries es) : s.handles = es.map (·.1) := by
  rw [ComponentStorage.handles, h.tenants]

theorem components (h : s.Carries es) : s.components = es.map (·.2) := by
  rw [ComponentStorage.components, h.rows_eq]

section Positions

variable [Footprint β] {C : Config}

theorem run_componentAt (h : s.Carries es) (r : Registry C) (i : Nat) :
    (∃ e, es[i]? = some e ∧ ((ComponentCall.componentAt i).run r s).outcome = .ok (e.2, r, s)) ∨
      es.length ≤ i ∧ ((ComponentCall.componentAt i).run r s).outcome = .error (.indexOutOfBounds es.length i) := by
  cases he : es[i]? with
  | none =>
    have hi : es.length ≤ i := List.getElem?_eq_none_iff.1 he
    have hread : s.componentAt i = .error (.indexOutOfBounds es.length i) := by
      rw [ComponentStorage.componentAt, h.rows_eq, Column.read_of_none, List.length_map]
      rw [List.getElem?_map, he, Option.map_none]
    exact .inr ⟨hi, by rw [ComponentCall.run, hread]; rfl⟩
  | some e =>
    have hread : s.componentAt i = .ok e.2 := h.read he
    exact .inl ⟨e, rfl, by rw [ComponentCall.run, hread]; rfl⟩

theorem run_modify (h : s.Carries es) (r : Registry C) (i : Nat) (f : β → β) :
    (i < es.length ∧ ∃ l, ((ComponentCall.modify i f).run r s).outcome = .ok ((), r, { s with rows := l }) ∧
        Carries { s with rows := l } (es.mapIdx fun j e => (e.1, if j = i then f e.2 else e.2))) ∨
      es.length ≤ i ∧ ((ComponentCall.modify i f).run r s).outcome = .error (.indexOutOfBounds es.length i) := by
  cases he : es[i]? with
  | none =>
    have hi : es.length ≤ i := List.getElem?_eq_none_iff.1 he
    have hu : Column.update (es.map (·.2)).toArray i f = .error (.indexOutOfBounds es.length i) := by
      rw [Column.update_of_none, List.length_map]
      rw [List.getElem?_map, he, Option.map_none]
    have hm : s.modify i f = .error (.indexOutOfBounds es.length i) := by
      rw [ComponentStorage.modify_eq, Storage.updateRow, h.rows_eq]
      change ((·.2) <$> Column.update (es.map (·.2)).toArray i f) >>= _ = _
      rw [hu]
      rfl
    exact .inr ⟨hi, by rw [ComponentCall.run, hm]; rfl⟩
  | some e =>
    obtain ⟨l, hl, hc⟩ := h.updateRow he f
    have hm : s.modify i f = .ok { s with rows := l } := (ComponentStorage.modify_eq s i f).trans hl
    rw [set_eq_mapIdx he] at hc
    exact .inl ⟨(List.getElem?_eq_some_iff.1 he).1, l, by rw [ComponentCall.run, hm]; rfl, hc⟩

end Positions

theorem updateComponents (h : s.Carries es) (f : Nat → β → β) :
    Carries { s with rows := s.rows.mapIdx f } (es.mapIdx fun i e => (e.1, f i e.2)) := by
  refine ⟨?_, ?_⟩
  · rw [map_mapIdx, mapIdx_const]
    exact h.tenants
  · change s.rows.mapIdx f = _
    rw [h.rows_eq, List.mapIdx_toArray, map_mapIdx, mapIdx_map]

theorem start_walk (h : s.Carries es) : s.walk = Cursor.start es.length := by
  rw [ComponentStorage.walk, h.rows_eq, h.tenants]
  simp

theorem entryAt (h : s.Carries es) (hi : es[i]? = some e) : s.entryAt i = .ok e := by
  rw [ComponentStorage.entryAt, h.tenants, Column.read_toArray (getElem?_tenant hi), h.rows_eq,
    Checked.ok_bind, Column.read_toArray (getElem?_rows hi)]
  rfl

theorem entries (h : s.Carries es) {c : Cursor} (hc : c.back ≤ es.length) (ends : List End) :
    c.walkBy (ComponentCall.nextAt s) ends = .ok ((c.walk ends).map (·.bind (es[·]?))) := by
  have hget : ∀ i, i < es.length → ∃ e, s.entryAt i = .ok e ∧ es[i]? = some e := by
    intro i hi
    have he : es[i]? = some es[i] := List.getElem?_eq_getElem hi
    exact ⟨_, h.entryAt he, he⟩
  refine Cursor.walkBy_eq (fun c e hc => ?_) hc ends
  cases e with
  | front => exact Cursor.fetch_pick hget hc .front
  | back => exact Cursor.fetch_pick hget hc .back

def update (s : ComponentStorage β) (f : β → β) : Option Nat × Cursor →
    Checked (Option (Handle × β) × Cursor × ComponentStorage β)
  | (none, c) => .ok (none, c, s)
  | (some i, c) => do
    let s ← s.modify i f
    return (some (← s.entryAt i), c, s)

theorem update_eq (h : s.Carries es) (f : β → β) (o : Option Nat) (c : Cursor)
    (ho : ∀ i, o = some i → i < es.length) :
    ∃ x l, update s f (o, c) = .ok (x, c, { s with rows := l }) ∧
      Carries { s with rows := l } (es.mapIdx fun i e => (e.1, if o = some i then f e.2 else e.2)) := by
  cases o with
  | none =>
    refine ⟨none, s.rows, rfl, ?_⟩
    simp only [reduceCtorEq, if_false, mapIdx_const, List.map_id']
    exact h
  | some i =>
    have hlt := ho i rfl
    have hi : es[i]? = some es[i] := List.getElem?_eq_getElem hlt
    obtain ⟨l, hl, hc⟩ := h.updateRow hi f
    have hget : (es.set i (es[i].1, f es[i].2))[i]? = some (es[i].1, f es[i].2) := by
      rw [List.getElem?_set, if_pos rfl, if_pos hlt]
    refine ⟨some (es[i].1, f es[i].2), l, ?_, ?_⟩
    · rw [update, ComponentStorage.modify_eq, hl]
      simp only [Checked.ok_bind, hc.entryAt hget]
      rfl
    · rw [set_eq_mapIdx hi] at hc
      simpa only [Option.some_inj, eq_comm] using hc

theorem updateAt (h : s.Carries es) {c : Cursor} (hc : c.back ≤ es.length) (f : β → β) (e : End) :
    ∃ x l, ComponentCall.updateAt s c f e = .ok (x, (c.pick e).2, { s with rows := l }) ∧
      Carries { s with rows := l }
        (es.mapIdx fun i e' => (e'.1, if (c.pick e).1 = some i then f e'.2 else e'.2)) := by
  have hlt : ∀ i, (c.pick e).1 = some i → i < es.length := fun i hi => Nat.lt_of_lt_of_le (c.pick_lt e hi) hc
  have hu := h.update_eq f (c.pick e).1 (c.pick e).2 hlt
  cases e with
  | front => exact hu
  | back => exact hu

theorem updateEntries (h : s.Carries es) {c : Cursor} (hc : c.back ≤ es.length) (ends : List (End × (β → β))) :
    ∃ xs l, ComponentCall.updateWalk s c ends = .ok (xs, { s with rows := l }) ∧
      Carries { s with rows := l } (es.mapIdx fun i e => (e.1, c.updates ends i e.2)) := by
  induction ends generalizing s es c with
  | nil => exact ⟨[], s.rows, rfl, by simpa [Cursor.updates, mapIdx_const] using h⟩
  | cons move ends ih =>
    obtain ⟨e, f⟩ := move
    obtain ⟨x, l₁, hl₁, hc₁⟩ := h.updateAt hc f e
    have hback := Nat.le_trans (c.pick_back_le e) hc
    obtain ⟨xs, l, hl, hcar⟩ := ih hc₁ (c := (c.pick e).2) (by rwa [List.length_mapIdx])
    refine ⟨x :: xs, l, ?_, ?_⟩
    · simp only [ComponentCall.updateWalk, hl₁, Checked.ok_bind, hl]
      rfl
    · rw [List.mapIdx_mapIdx] at hcar
      exact hcar

end Storage.Carries

end EntityStore
