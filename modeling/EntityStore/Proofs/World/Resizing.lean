import EntityStore.Proofs.World.Journal

/-! Slots that are made ahead, dropped or forbidden. -/

namespace EntityStore

variable {C : Config} {id n : Nat}

namespace Ledger

variable {v w : Ledger C}

structure Resized (v w : Ledger C) : Prop where
  common : ∀ id : Nat, id < v.faces.length → id < w.faces.length → w.faces[id]? = v.faces[id]?
  living : ∀ id : Nat, w.faces[id]?.bind Face.living? = v.faces[id]?.bind Face.living?

theorem living?_eq_none (h : ¬ v.Lives id) : v.faces[id]?.bind Face.living? = none := by
  rw [Lives, not_not, location?] at h
  cases hf : v.faces[id]? with
  | none => rfl
  | some a =>
    rw [hf, Option.bind_some] at h
    rw [Option.bind_some, Face.living?, h, Option.map_none]

theorem Resized.refl (v : Ledger C) : v.Resized v := ⟨fun _ _ _ => rfl, fun _ => rfl⟩

theorem resized_prefill (v : Ledger C) (n : Nat) : v.Resized (v.prefill n) := by
  constructor
  · intro id hid _
    exact List.getElem?_append_left hid
  · intro id
    by_cases hid : id < v.faces.length
    · rw [prefill, List.getElem?_append_left hid]
    · have hdead : ¬ v.Lives id := fun hl => hid hl.lt
      rw [living?_eq_none hdead, living?_eq_none]
      rwa [Lives, location?_prefill]

theorem resized_truncate (hn : ∀ id : Nat, v.Lives id → id < n) : v.Resized (v.truncate n) := by
  have htaken : ∀ id : Nat, id < n → (v.truncate n).faces[id]? = v.faces[id]? := by
    intro id hid
    rw [truncate, List.getElem?_take, if_pos hid]
  constructor
  · intro id _ hid
    rw [length_truncate] at hid
    exact htaken id (Nat.lt_of_lt_of_le hid (Nat.min_le_left _ _))
  · intro id
    by_cases hid : id < n
    · rw [htaken id hid]
    · have hdead : ¬ v.Lives id := fun hl => hid (hn id hl)
      rw [living?_eq_none hdead, living?_eq_none]
      exact fun hl => hdead (lives_truncate.1 hl).1

theorem resized_reserve (v : Ledger C) (n : Nat) (ahead : Bool) : v.Resized (v.reserve n ahead) := by
  cases ahead with
  | false => exact .refl v
  | true => exact v.resized_prefill _

theorem lives_liveBound (h : 0 < v.liveBound) : v.Lives (v.liveBound - 1) := by
  have hsplit := List.takeWhile_append_dropWhile (p := fun f : Face C => f.location?.isNone) (l := v.faces.reverse)
  obtain ⟨last, rest, hdrop⟩ := List.exists_cons_of_length_pos h
  have hbound : v.liveBound = rest.length + 1 := by rw [liveBound, hdrop, List.length_cons]
  have hlast : last.location?.isNone = false := by
    have hhead := List.head_dropWhile_not (fun f : Face C => f.location?.isNone) (hdrop ▸ List.cons_ne_nil last rest)
    simpa only [hdrop, List.head_cons] using hhead
  have hfaces := congrArg List.reverse hsplit
  rw [hdrop, List.reverse_reverse, List.reverse_append, List.reverse_cons, List.append_assoc] at hfaces
  have hface : v.faces[rest.length]? = some last := by
    rw [← hfaces, List.getElem?_append_right (by simp), List.length_reverse, Nat.sub_self]
    rfl
  rw [hbound, Nat.add_sub_cancel, Lives, location?, hface, Option.bind_some]
  exact fun hnone => by simp [hnone] at hlast

theorem lt_liveBound_iff : id < v.liveBound ↔ ∃ j : Nat, id ≤ j ∧ v.Lives j := by
  constructor
  · intro h
    exact ⟨v.liveBound - 1, Nat.le_sub_one_of_lt h, lives_liveBound (Nat.zero_lt_of_lt h)⟩
  · rintro ⟨j, hj, hl⟩
    exact Nat.lt_of_le_of_lt hj hl.lt_liveBound

theorem lt_length_trim_iff : id < v.trim.faces.length ↔ ∃ j : Nat, id ≤ j ∧ v.Lives j := by
  rw [trim, length_truncate, Nat.lt_min, lt_liveBound_iff]
  constructor
  · exact And.left
  · rintro ⟨j, hj, hl⟩
    exact ⟨⟨j, hj, hl⟩, Nat.lt_of_le_of_lt hj hl.lt⟩

theorem any_live_drop_iff : (v.faces.drop n).any (·.location?.isSome) ↔ ∃ id : Nat, v.Lives id ∧ n ≤ id := by
  constructor
  · intro hany
    obtain ⟨f, hf, hl⟩ := List.any_eq_true.1 hany
    obtain ⟨i, hi⟩ := List.mem_iff_getElem?.1 hf
    rw [List.getElem?_drop] at hi
    refine ⟨n + i, ?_, Nat.le_add_right n i⟩
    rw [Lives, location?, hi]
    exact Option.isSome_iff_ne_none.1 hl
  · rintro ⟨id, hl, hid⟩
    by_contra hnone
    exact Nat.not_lt.2 hid (lt_of_none_beyond (Bool.eq_false_iff.2 hnone) hl)

theorem setIdLimit_of_lives_lt (h : ∀ id : Nat, v.Lives id → id < min n C.ids.invalid) :
    v.setIdLimit n = (true, { v.truncate (min n C.ids.invalid) with idLimit := min n C.ids.invalid }) := by
  rw [setIdLimit]
  refine if_neg fun hany => ?_
  obtain ⟨id, hl, hid⟩ := any_live_drop_iff.1 hany
  exact Nat.not_lt.2 hid (h id hl)

end Ledger

namespace Registry

variable {r r' : Registry C} {v w : Ledger C}

structure Resized (r r' : Registry C) : Prop where
  isValid (k : Key) : r'.isValid k = r.isValid k
  location? (k : Key) : r'.location? k = r.location? k
  metadata? (k : Key) : r'.metadata? k = r.metadata? k
  handle? (id : Nat) : r'.handle? id = r.handle? id
  living : r'.living = r.living
  entities : r'.entities = r.entities
  generation {id : Nat} {e e' : Record C} : r.records[id]? = some e → r'.records[id]? = some e' →
    e'.generation = e.generation

theorem Represents.resized (h : r.Represents v) (h' : r'.Represents w) (hd : v.Resized w) : r.Resized r' := by
  have hliving : ∀ id : Nat, r'.livingAt? id = r.livingAt? id := by
    intro id
    rw [h.livingAt?_eq, h'.livingAt?_eq, hd.living]
  have hentities := h.entities_of_livingAt? h' hliving
  refine ⟨fun k => ?_, fun k => location?_of_livingAt? (hliving _), fun k => metadata?_of_livingAt? (hliving _),
    fun id => ?_, ?_, hentities, fun {id e e'} he he' => ?_⟩
  · rw [Registry.isValid, Registry.isValid, resolve?_of_livingAt? (hliving _)]
  · rw [handle?_eq_livingAt?, handle?_eq_livingAt?, hliving]
  · rw [← h'.length_entities, ← h.length_entities, hentities]
  · have hlt := (Array.getElem?_eq_some_iff.1 he).1
    have hlt' := (Array.getElem?_eq_some_iff.1 he').1
    rw [h.size_eq] at hlt
    rw [h'.size_eq] at hlt'
    have hface := hd.common id hlt hlt'
    rw [h.getElem?_face, h'.getElem?_face, he, he'] at hface
    exact congrArg Face.generation (Option.some.inj hface)

/-- Room is made and given back behind the backs of those who live. A limit is refused only where somebody lives beyond
it, and no slot goes that is below the limit, or below somebody who lives. -/
structure Resizes (r : Registry C) : Prop where
  reserve (n : Nat) (ahead : Bool) : (r.reserve n ahead).Ends
    (fun r' => r.Resized r' ∧ r.records.size ≤ r'.records.size) (· = .capacityOverflow)
  trim : ∃ r', r.trim = .ok r' ∧ r.Resized r' ∧
    ∀ id, id < r'.records.size ↔ ∃ j : Nat, id ≤ j ∧ r.isAlive j
  limits (n : Nat) : (∀ id : Nat, r.isAlive id → id < min n C.ids.invalid) →
    ∃ r', (r.setIdLimit n).outcome = .ok (true, r') ∧ r.Resized r' ∧ r'.idLimit = min n C.ids.invalid ∧
      ∀ id, id < r'.records.size ↔ id < r.records.size ∧ id < min n C.ids.invalid
  refuses (n id : Nat) : r.isAlive id → min n C.ids.invalid ≤ id → (r.setIdLimit n).outcome = .ok (false, r)

theorem Represents.resizes (h : r.Represents v) : r.Resizes where
  reserve n ahead := by
    rcases h.reserve n ahead with ⟨r', hr, hw⟩ | he
    · rw [hr]
      refine ⟨h.resized hw (v.resized_reserve n ahead), ?_⟩
      rw [h.size_eq, hw.size_eq]
      cases ahead with
      | false => exact Nat.le_refl _
      | true => exact (v.length_prefill _).symm ▸ Nat.le_add_right _ _
    · rw [he]
      exact rfl
  trim := by
    obtain ⟨r', hr, hw⟩ := h.trim
    refine ⟨r', hr, h.resized hw (Ledger.resized_truncate fun _ hid => hid.lt_liveBound), fun id => ?_⟩
    rw [hw.size_eq, Ledger.lt_length_trim_iff]
    simp only [h.isAlive_iff]
  limits n hn := by
    have hlives : ∀ id : Nat, v.Lives id → id < min n C.ids.invalid := fun id hl => hn id (h.isAlive_iff.2 hl)
    have hcut := Ledger.resized_truncate hlives
    obtain ⟨r', hr, hw⟩ := h.setIdLimit n
    rw [Ledger.setIdLimit_of_lives_lt hlives] at hr hw
    refine ⟨r', hr, h.resized hw ⟨hcut.common, hcut.living⟩, hw.idLimit, fun id => ?_⟩
    rw [hw.size_eq, h.size_eq]
    dsimp only
    rw [Ledger.length_truncate, Nat.lt_min, and_comm]
  refuses n id hid hle := by
    have hany : (r.records.drop (min n C.ids.invalid)).any Record.isLive := by
      rw [h.any_live_drop]
      exact Ledger.any_live_drop_iff.2 ⟨id, h.isAlive_iff.1 hid, hle⟩
    rw [Registry.setIdLimit]
    dsimp only
    rw [if_pos hany]
    rfl

end Registry

end EntityStore

namespace EntityStore.World

variable {C : Config} {ι κ : Type} {El : κ → Type} {shapes : ι → Shape κ} [DecidableEq ι] [DecidableEq κ]
  [∀ k, Footprint (El k)] [∀ i, (shapes i).Proper El] {w₀ w : World C El shapes}

/-- Wherever calls lead, those who live are not affected by slots that are made ahead, dropped or forbidden, and a dead
slot is dropped only beyond the limit, or beyond the last of the living. -/
theorem resizing_unseen (h₀ : w₀.Fresh) (h : Leads (fun _ _ => True) w₀ w) : w.registry.Resizes := by
  obtain ⟨v, hw⟩ := h₀.leads_steady h
  exact hw.represents.resizes

theorem resizing_unseen_pair : ∃ w, Leads (fun _ _ => True) pair w ∧ w.registry.freeList = .ok [3, 2, 0] ∧
    w.registry.isAlive 1 ∧ w.registry.Resizes := by
  have h : ∃ w, Leads (fun _ _ => True) pair w ∧ w.registry.freeList = .ok [3, 2, 0] ∧ w.registry.isAlive 1 :=
    ⟨_, .step (.registry (.erase (.id 0)))
      (.step (.registry (.erase (.id 2)))
      (.step (.registry (.create .staged ()))
      (.step (.registry (.create .staged ()))
      (.step (.registry (.create .staged ()))
      (.step (.registry (.reserve 4 true)) .refl trivial rfl) trivial rfl) trivial rfl) trivial rfl) trivial rfl)
      trivial rfl, rfl, rfl⟩
  obtain ⟨w, hw, hfree, halive⟩ := h
  exact ⟨w, hw, hfree, halive, resizing_unseen pair_fresh hw⟩

end EntityStore.World
