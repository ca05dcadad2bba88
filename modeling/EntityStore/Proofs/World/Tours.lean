import EntityStore.Proofs.World.Chunks

/-! Tours through the rows of a storage, from both ends. -/

namespace EntityStore

structure Tour (ρ : Type) where
  front : List ρ
  back : List ρ
  cursor : Cursor

namespace Tour

variable {ρ : Type} {rows : List ρ} {f b : Nat}

def count (t : Tour ρ) : Nat := t.front.length + t.back.length

def hand (t : Tour ρ) : End → Option ρ × Cursor → Tour ρ
  | .front, (x, c) => ⟨t.front ++ x.toList, t.back, c⟩
  | .back, (x, c) => ⟨t.front, t.back ++ x.toList, c⟩

def along (rows : List ρ) (f b : Nat) : Tour ρ := ⟨rows.take f, rows.reverse.take b, ⟨f, rows.length - b⟩⟩

theorem count_along (h : f + b ≤ rows.length) : (along rows f b).count = f + b := by
  simp only [along, count, List.length_take, List.length_reverse]
  omega

theorem remaining_along (h : f + b ≤ rows.length) :
    (along rows f b).cursor.remaining = .ok (rows.length - (along rows f b).count) := by
  have hback : ¬ rows.length - b < f := by omega
  have hleft : rows.length - b - f = rows.length - (f + b) := by omega
  rw [count_along h, ← hleft]
  exact if_neg hback

theorem exists_between (h : f + b ≤ rows.length) :
    ∃ rest, rows = (along rows f b).front ++ rest ++ (along rows f b).back.reverse ∧
      rest.length = rows.length - (f + b) := by
  refine ⟨(rows.drop f).take (rows.length - (f + b)), ?_, ?_⟩
  · have hdrop : rows.drop (rows.length - b) = (rows.drop f).drop (rows.length - (f + b)) := by
      rw [List.drop_drop]
      congr 1
      omega
    simp only [along, List.take_reverse, List.reverse_reverse]
    rw [hdrop, List.append_assoc, List.take_append_drop, List.take_append_drop]
  · rw [List.length_take, List.length_drop]
    omega

theorem perm_along {rest : List ρ} {t : Tour ρ} (h : rows = t.front ++ rest ++ t.back.reverse) :
    (t.front ++ t.back ++ rest).Perm rows := by
  rw [h, List.append_assoc, List.append_assoc]
  apply List.Perm.append_left
  calc (t.back ++ rest).Perm (rest ++ t.back) := List.perm_append_comm
    _ |>.Perm (rest ++ t.back.reverse) := (List.reverse_perm _).symm.append_left _

theorem getElem?_front {j : Nat} {x : ρ} (h : (along rows f b).front[j]? = some x) : rows[j]? = some x := by
  rw [along, List.getElem?_take] at h
  split at h
  · exact h
  · cases h

theorem getElem?_back {j : Nat} {x : ρ} (h : (along rows f b).back[j]? = some x) :
    ∃ i, i + (j + 1) = rows.length ∧ rows[i]? = some x := by
  rw [along, List.getElem?_take] at h
  split at h
  · have hj := (List.getElem?_eq_some_iff.1 h).1
    rw [List.length_reverse] at hj
    rw [List.getElem?_reverse hj] at h
    exact ⟨_, by omega, h⟩
  · cases h

end Tour

namespace Storage

variable {κ : Type} {El : κ → Type} {ks : List κ} {L : Type} [ColumnLayout L El ks]

def tourFrom (s : ArchetypeStorage L) : Tour (RowView El ks) → List End → Checked (Tour (RowView El ks))
  | t, [] => .ok t
  | t, e :: ends => do
    let a ← ArchetypeCall.nextAt s t.cursor e
    s.tourFrom (t.hand e a) ends

def tour (s : ArchetypeStorage L) (ends : List End) : Checked (Tour (RowView El ks)) :=
  s.tourFrom ⟨[], [], .start s.size⟩ ends

structure Toured (s : ArchetypeStorage L) (ends : List End) (t : Tour (RowView El ks)) : Prop where
  front {j : Nat} {v : RowView El ks} : t.front[j]? = some v →
    v.index = j ∧ s.row? j = .ok (some v) ∧ s.ids[j]? = some v.id
  back {j : Nat} {v : RowView El ks} : t.back[j]? = some v →
    v.index + (j + 1) = s.size ∧ s.row? v.index = .ok (some v) ∧ s.ids[v.index]? = some v.id
  count : t.count = min ends.length s.size
  remaining : t.cursor.remaining = .ok (s.size - t.count)
  next (e : End) : ∃ a, ArchetypeCall.nextAt s t.cursor e = .ok a ∧ (a.1 = none ↔ t.count = s.size)
  exhausted : t.count = s.size → ∀ later, s.tour (ends ++ later) = .ok t
  once : ((t.front ++ t.back).map RowView.index).Nodup
  whole : s.size ≤ ends.length → (t.front ++ t.back.reverse).map RowView.id = s.ids ∧
    (t.front ++ t.back.reverse).map (fun v => .ok (some v)) = (List.range s.size).map s.row?

section Rows

variable {s : ArchetypeStorage L} {rows : List (RowView El ks)} {f b : Nat}

open Tour (along)

theorem nextAt_eq (s : ArchetypeStorage L) (c : Cursor) (e : End) :
    ArchetypeCall.nextAt s c e = Cursor.fetch s.rowAt (c.pick e) := by
  cases e <;> rfl

theorem nextAt_over (h : f + b = rows.length) (e : End) :
    ArchetypeCall.nextAt s (along rows f b).cursor e = .ok (none, (along rows f b).cursor) := by
  have hmet : (along rows f b).cursor.back ≤ (along rows f b).cursor.front := by
    simp only [along]
    omega
  rw [nextAt_eq, Cursor.pick_met hmet]
  rfl

theorem tourFrom_over (h : f + b = rows.length) (ends : List End) :
    s.tourFrom (along rows f b) ends = .ok (along rows f b) := by
  induction ends with
  | nil => rfl
  | cons e ends ih =>
    have hsame : (along rows f b).hand e (none, (along rows f b).cursor) = along rows f b := by
      cases e <;> simp [Tour.hand, along]
    rw [tourFrom, nextAt_over h, Checked.ok_bind, hsame, ih]

variable (hrows : ∀ i v, rows[i]? = some v → s.rowAt i = .ok v)

include hrows

theorem nextAt_front (h : f + b < rows.length) : ∃ v, ArchetypeCall.nextAt s (along rows f b).cursor .front =
    .ok (some v, (along rows (f + 1) b).cursor) ∧ rows.take (f + 1) = rows.take f ++ [v] := by
  have hopen : (along rows f b).cursor.front < (along rows f b).cursor.back := by
    simp only [along]
    omega
  have hf : f < rows.length := by omega
  refine ⟨rows[f], ?_, List.take_succ_eq_append_getElem hf⟩
  have hrow : s.rowAt (along rows f b).cursor.front = .ok rows[f] := hrows f _ (List.getElem?_eq_getElem hf)
  rw [nextAt_eq, Cursor.pick_front hopen, Cursor.fetch, hrow]
  rfl

theorem nextAt_back (h : f + b < rows.length) : ∃ v, ArchetypeCall.nextAt s (along rows f b).cursor .back =
    .ok (some v, (along rows f (b + 1)).cursor) ∧ rows.reverse.take (b + 1) = rows.reverse.take b ++ [v] := by
  have hopen : (along rows f b).cursor.front < (along rows f b).cursor.back := by
    simp only [along]
    omega
  have hb : b < rows.reverse.length := by
    rw [List.length_reverse]
    omega
  have hlast : rows[rows.length - b - 1]? = some rows.reverse[b] := by
    rw [List.getElem_reverse, ← List.getElem?_eq_getElem, Nat.sub_right_comm]
  refine ⟨rows.reverse[b], ?_, List.take_succ_eq_append_getElem hb⟩
  have hrow : s.rowAt ((along rows f b).cursor.back - 1) = .ok rows.reverse[b] := hrows _ _ hlast
  rw [nextAt_eq, Cursor.pick_back hopen, Cursor.fetch, hrow]
  rfl

theorem exists_nextAt (h : f + b < rows.length) (e : End) : ∃ v c f' b',
    ArchetypeCall.nextAt s (along rows f b).cursor e = .ok (some v, c) ∧
      (along rows f b).hand e (some v, c) = along rows f' b' ∧ f' + b' = f + b + 1 := by
  cases e with
  | front =>
    obtain ⟨v, hv, htake⟩ := nextAt_front hrows h
    refine ⟨v, _, f + 1, b, hv, ?_, by omega⟩
    simp only [Tour.hand, along, htake, Option.toList_some]
  | back =>
    obtain ⟨v, hv, htake⟩ := nextAt_back hrows h
    refine ⟨v, _, f, b + 1, hv, ?_, by omega⟩
    simp only [Tour.hand, along, htake, Option.toList_some]

theorem tourFrom_along (h : f + b ≤ rows.length) (ends : List End) : ∃ f' b',
    s.tourFrom (along rows f b) ends = .ok (along rows f' b') ∧ f' + b' = min (f + b + ends.length) rows.length := by
  induction ends generalizing f b with
  | nil => exact ⟨f, b, rfl, (Nat.min_eq_left h).symm⟩
  | cons e ends ih =>
    rcases Nat.lt_or_eq_of_le h with hlt | heq
    · obtain ⟨v, c, f₁, b₁, hnext, hhand, hcount⟩ := exists_nextAt hrows hlt e
      obtain ⟨f', b', htour, hends⟩ := ih (f := f₁) (b := b₁) (by omega)
      refine ⟨f', b', ?_, ?_⟩
      · rw [tourFrom, hnext, Checked.ok_bind, hhand, htour]
      · rw [hends, hcount, List.length_cons]
        omega
    · exact ⟨f, b, tourFrom_over heq _, by omega⟩

end Rows

theorem tourFrom_append (s : ArchetypeStorage L) (t : Tour (RowView El ks)) (ends later : List End) :
    s.tourFrom t (ends ++ later) = s.tourFrom t ends >>= fun t => s.tourFrom t later := by
  induction ends generalizing t with
  | nil => rfl
  | cons e ends ih =>
    rw [List.cons_append, tourFrom, tourFrom]
    cases ArchetypeCall.nextAt s t.cursor e with
    | error f => rfl
    | ok a => exact ih _

namespace Carries

variable [LawfulColumnLayout L El ks] {s : ArchetypeStorage L} {es : List (EntityId × Row El ks)} {f b : Nat}

open Tour (along)

def views (es : List (EntityId × Row El ks)) : List (RowView El ks) := es.mapIdx fun i e => ⟨i, e.1, e.2⟩

theorem getElem?_views (es : List (EntityId × Row El ks)) (i : Nat) : (views es)[i]? = view es i := by
  rw [views, List.getElem?_mapIdx, view]

theorem length_views (h : s.Carries es) : (views es).length = s.size := by
  rw [views, List.length_mapIdx, h.size_eq]

theorem map_id_views (h : s.Carries es) : (views es).map RowView.id = s.ids := by
  rw [views, map_mapIdx, mapIdx_const, h.ids_eq]
  rfl

theorem map_index_views (h : s.Carries es) : (views es).map RowView.index = List.range s.size := by
  apply List.ext_getElem?
  intro i
  by_cases hi : i < es.length <;> simp [views, h.size_eq, hi]

theorem map_row?_views (h : s.Carries es) :
    (views es).map (fun v => .ok (some v)) = (List.range s.size).map s.row? := by
  apply List.ext_getElem?
  intro i
  rw [List.getElem?_map, List.getElem?_map, getElem?_views, view, h.size_eq]
  by_cases hi : i < es.length
  · rw [List.getElem?_range hi, List.getElem?_eq_getElem hi]
    simp [h.row?, view, hi]
  · simp [hi]

theorem row_of_views (h : s.Carries es) {i : Nat} {v : RowView El ks} (hv : (views es)[i]? = some v) :
    v.index = i ∧ s.rowAt i = .ok v ∧ s.row? i = .ok (some v) ∧ s.ids[i]? = some v.id := by
  have hrow := h.row? i
  rw [getElem?_views] at hv
  rw [hv] at hrow
  obtain ⟨e, he, rfl⟩ := Option.map_eq_some_iff.1 hv
  exact ⟨rfl, h.rowAt he, hrow, h.getElem?_ids he⟩

theorem toured_along (h : s.Carries es) {ends : List End} (htour : s.tour ends = .ok (along (views es) f b))
    (hends : f + b = min ends.length (views es).length) : s.Toured ends (along (views es) f b) := by
  have hle : f + b ≤ (views es).length := hends ▸ Nat.min_le_right _ _
  have hcount := Tour.count_along hle
  have hrows : ∀ i v, (views es)[i]? = some v → s.rowAt i = .ok v := fun i v hv => (h.row_of_views hv).2.1
  obtain ⟨rest, hmeet, hrest⟩ := Tour.exists_between hle
  constructor
  case front =>
    intro j v hv
    obtain ⟨hindex, -, hrow, hid⟩ := h.row_of_views (Tour.getElem?_front hv)
    exact ⟨hindex, hrow, hid⟩
  case back =>
    intro j v hv
    obtain ⟨i, hi, hv⟩ := Tour.getElem?_back hv
    obtain ⟨rfl, -, hrow, hid⟩ := h.row_of_views hv
    exact ⟨hi.trans h.length_views, hrow, hid⟩
  case count => rw [hcount, hends, h.length_views]
  case remaining =>
    rw [← h.length_views]
    exact Tour.remaining_along hle
  case next =>
    intro e
    rw [hcount, ← h.length_views]
    rcases Nat.lt_or_eq_of_le hle with hlt | heq
    · obtain ⟨v, c, -, -, hnext, -, -⟩ := exists_nextAt hrows hlt e
      refine ⟨_, hnext, fun hv => ?_, fun hf => absurd hf (Nat.ne_of_lt hlt)⟩
      cases hv
    · exact ⟨_, nextAt_over heq e, fun _ => heq, fun _ => rfl⟩
  case exhausted =>
    intro hover later
    rw [hcount, ← h.length_views] at hover
    rw [tour, tourFrom_append]
    rw [tour] at htour
    rw [htour, Checked.ok_bind, tourFrom_over hover]
  case once =>
    have hindex := (List.nodup_range (n := s.size))
    rw [← h.map_index_views, ← (Tour.perm_along hmeet).map _ |>.nodup_iff, List.map_append] at hindex
    exact (List.nodup_append.1 hindex).1
  case whole =>
    intro hall
    have hnil : rest = [] := List.length_eq_zero_iff.1 (by rw [hrest, hends, h.length_views]; omega)
    rw [hnil, List.append_nil] at hmeet
    rw [← hmeet]
    exact ⟨h.map_id_views, h.map_row?_views⟩

theorem exists_toured (h : s.Carries es) (ends : List End) : ∃ t, s.tour ends = .ok t ∧ s.Toured ends t := by
  have hrows : ∀ i v, (views es)[i]? = some v → s.rowAt i = .ok v := fun i v hv => (h.row_of_views hv).2.1
  obtain ⟨f, b, htour, hends⟩ := tourFrom_along hrows (f := 0) (b := 0) (Nat.zero_le _) ends
  have hstart : (⟨[], [], .start s.size⟩ : Tour (RowView El ks)) = along (views es) 0 0 := by
    rw [along, h.length_views]
    rfl
  rw [← hstart] at htour
  exact ⟨_, htour, h.toured_along htour (hends.trans (by rw [Nat.zero_add]))⟩

end Carries

end Storage

def Shape.Tours {κ : Type} {El : κ → Type} [∀ k, Footprint (El k)] (ends : List End) :
    (shape : Shape κ) → Storage shape.Tenant (shape.Rows El) → Prop
  | component _, _ => True
  | dense _, s => ∃ t, Storage.tour s ends = .ok t ∧ Storage.Toured s ends t
  | chunked _ _, s => ∃ t, Storage.tour s ends = .ok t ∧ Storage.Toured s ends t

theorem Storage.Carries.tours {κ : Type} {El : κ → Type} [∀ k, Footprint (El k)] {shape : Shape κ}
    [shape.Proper El] {s : Storage shape.Tenant (shape.Rows El)} {es : List (shape.Tenant × shape.Item El)}
    (hs : s.Carries es)
    (ends : List End) : shape.Tours ends s := by
  cases shape with
  | component k => trivial
  | dense ks => exact exists_toured hs ends
  | chunked ks shift =>
    obtain ⟨k, ks, rfl, hfits⟩ := Shape.exists_cons ‹(Shape.chunked ks shift).Proper El›
    exact exists_toured hs ends

namespace World

variable {C : Config} {ι κ : Type} {El : κ → Type} {shapes : ι → Shape κ} [DecidableEq ι] [DecidableEq κ]
  [∀ k, Footprint (El k)] [∀ i, (shapes i).Proper El] {w₀ w : World C El shapes}

/-- Wherever calls lead, the rows of a storage are gone through from both ends without a gap and without meeting one
twice, in whatever order the ends are asked. -/
theorem rows_toured (h₀ : w₀.Fresh) (h : Leads (fun _ _ => True) w₀ w) (i : ι) (ends : List End) :
    (shapes i).Tours ends (w.stores i) := by
  obtain ⟨v, hw⟩ := h₀.leads_steady h
  obtain ⟨es, hs⟩ := hw.carries i
  exact hs.tours ends

theorem rows_toured_twin : (housedTwin.stores true).ids = [0, 3, 2] ∧
    (twinShapes true).Tours [.front, .back, .front, .back] (housedTwin.stores true) :=
  ⟨rfl, rows_toured twin_fresh housedTwin_leads true [.front, .back, .front, .back]⟩

end World

end EntityStore
