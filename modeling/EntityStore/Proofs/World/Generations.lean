import EntityStore.Proofs.World.Journal
import Mathlib.Data.Nat.ModEq

/-! Stale handles. The generation of a slot counts, up to the width of its counter, how often its entity was destroyed,
and so a handle is valid again only when the count has come around. -/

namespace EntityStore

variable {C : Config}

namespace Generations

def Fits (g : Nat) : Generations → Prop
  | disabled => True
  | counter bits => g < 2 ^ bits

theorem fits_initial (gs : Generations) : gs.Fits initial := by
  cases gs with
  | disabled => exact trivial
  | counter bits => exact Nat.two_pow_pos bits

theorem bump_counter (bits g : Nat) : (counter bits).bump g = (g + 1) % 2 ^ bits := by rw [bump, Nat.one_shiftLeft]

theorem fits_bump (gs : Generations) (g : Nat) : gs.Fits (gs.bump g) := by
  cases gs with
  | disabled => exact trivial
  | counter bits =>
    rw [bump_counter]
    exact Nat.mod_lt _ (Nat.two_pow_pos bits)

theorem iterate_bump_disabled (n g : Nat) : disabled.bump^[n] g = g := by
  induction n with
  | zero => rfl
  | succ n ih => rw [Function.iterate_succ_apply', ih, bump]

theorem iterate_bump_counter {bits g : Nat} (hg : g < 2 ^ bits) (n : Nat) :
    (counter bits).bump^[n] g = (g + n) % 2 ^ bits := by
  induction n with
  | zero => exact (Nat.mod_eq_of_lt hg).symm
  | succ n ih => rw [Function.iterate_succ_apply', ih, bump_counter, Nat.mod_add_mod, Nat.add_assoc]

theorem iterate_bump_eq_iff {bits g : Nat} (hg : g < 2 ^ bits) (n : Nat) :
    (counter bits).bump^[n] g = g ↔ n % 2 ^ bits = 0 := by
  have hmod : Nat.ModEq (2 ^ bits) (g + n) (g + 0) ↔ Nat.ModEq (2 ^ bits) n 0 :=
    ⟨Nat.ModEq.add_left_cancel' g, Nat.ModEq.add_left g⟩
  rw [Nat.ModEq, Nat.ModEq, Nat.add_zero, Nat.mod_eq_of_lt hg, Nat.zero_mod] at hmod
  rw [iterate_bump_counter hg, hmod]

end Generations

namespace Ledger

variable {v w : Ledger C} {p : Posting C} {ps : List (Posting C)} {id g : Nat}

def Fits (v : Ledger C) : Prop := ∀ id g, v.generation? id = some g → C.generations.Fits g

theorem Posts.fits (h : v.Posts p w) (hv : v.Fits) : w.Fits := by
  intro id g hg
  obtain ⟨a, ha, rfl⟩ := Option.map_eq_some_iff.1 hg
  have halter := h.getElem?_faces (List.getElem?_eq_some_iff.1 ha).1
  have hbase : C.generations.Fits (v.faces[id]?.getD .vacant).generation := by
    cases hf : v.faces[id]? with
    | none => exact C.generations.fits_initial
    | some b => exact hv id _ (by rw [generation?, hf, Option.map_some, Option.getD_some])
  rw [ha, Option.some_inj] at halter
  rw [halter]
  generalize v.faces[id]?.getD .vacant = b at hbase
  cases p with
  | destroy j =>
    by_cases hj : j = id
    · rw [Posting.alter, if_pos hj]
      exact C.generations.fits_bump _
    · rwa [Posting.alter, if_neg hj]
  | create j | place j | amend j => by_cases hj : j = id <;> simpa [Posting.alter, hj] using hbase
  | extend | truncate | limit => exact hbase

theorem Posted.fits (h : v.Posted ps w) (hv : v.Fits) : w.Fits := by
  induction h with
  | nil => exact hv
  | snoc _ hp ih => exact hp.fits ih

theorem fits_empty : (empty C).Fits := fun _ _ h => nomatch h

theorem Posted.generation?_eq (h : v.Posted ps w) (hps : ∀ p ∈ ps, p.Retains id) (hg : v.generation? id = some g) :
    w.generation? id = some (C.generations.bump^[ps.countP (·.destroys id)] g) := by
  obtain ⟨a, ha, rfl⟩ := Option.map_eq_some_iff.1 hg
  rw [generation?, h.getElem?_faces hps ha, Option.map_some, Posting.generation_foldl_alter]

end Ledger

variable {ι κ α : Type} {El : κ → Type} {r : Registry C} {v : Ledger C}

theorem Run.ends_none {β : Type} (x : Run β) {f : β → Handle → Prop} :
    x.Ends (fun b => ∀ h, (none : Option Handle) = some h → f b h) fun _ => True :=
  x.ends_trivial.imp (fun _ _ _ hh => nomatch hh) fun _ hf => hf

namespace RegistryCall

def issued? : RegistryCall C α → α → Option Handle
  | createHandle _ _, h => h
  | _, _ => none

theorem run_issues (c : RegistryCall C α) (hr : r.Represents v) :
    (c.run r).Ends (fun a => ∀ h, c.issued? a.1 = some h → a.2.handle? h.id = some h) fun _ => True := by
  cases c with
  | createHandle l m =>
    refine (hr.createHandle_posts l m).imp ?_ fun _ hf => hf
    rintro ⟨hd, r'⟩ ⟨-, hh⟩ h rfl
    exact (hh h rfl).1
  | _ => exact Run.ends_none _

end RegistryCall

namespace StorageCall

variable {τ L ρ : Type}

def issued? : StorageCall C ρ α → α → Option Handle
  | spawn _ _, h => h
  | _, _ => none

theorem run_issues [Tenant τ] [Layout L ρ] [LawfulLayout L ρ] [Capacious L] (c : StorageCall C ρ α) {s : Storage τ L}
    {es : List (τ × ρ)} (hs : s.Carries es) (hr : r.Represents v) :
    (c.run r s).Ends (fun a => ∀ h, c.issued? a.1 = some h → a.2.1.handle? h.id = some h) fun _ => True := by
  cases c with
  | spawn m x => exact (hs.spawn_posts hr m x).imp (fun _ ha => ha.2) fun _ hf => hf
  | _ => exact Run.ends_none _

end StorageCall

namespace StoreCall

def issued? : {shape : Shape κ} → StoreCall C El shape α → α → Option Handle
  | _, component (.shared c), a => c.issued? a
  | _, dense (.shared c), a => c.issued? a
  | _, chunked (.shared c), a => c.issued? a
  | _, _, _ => none

theorem run_issues [DecidableEq κ] [∀ k, Footprint (El k)] {shape : Shape κ} [shape.Proper El]
    (c : StoreCall C El shape α) {s : Storage shape.Tenant (shape.Rows El)} {es : List (shape.Tenant × shape.Item El)}
    (hs : s.Carries es) (hr : r.Represents v) :
    (c.run r s).Ends (fun a => ∀ h, c.issued? a.1 = some h → a.2.1.handle? h.id = some h) fun _ => True := by
  cases c with
  | component c =>
    cases c with
    | shared c =>
      rw [run, ComponentCall.run, c.runComponents_eq hs]
      exact c.run_issues hs hr
    | _ => exact Run.ends_none _
  | dense c =>
    cases c with
    | shared c => exact c.run_issues hs hr
    | _ => exact Run.ends_none _
  | @chunked ks shift _ c =>
    obtain ⟨k, ks, rfl, hfits⟩ := Shape.exists_cons ‹(Shape.chunked ks shift).Proper El›
    cases c with
    | shared c => exact c.run_issues hs hr
    | _ => exact Run.ends_none _
  | columns | chunks => exact Run.ends_none _

end StoreCall

variable {shapes : ι → Shape κ} [DecidableEq ι] [DecidableEq κ] [∀ k, Footprint (El k)] {w₀ w w' : World C El shapes}

namespace WorldCall

def issued? : WorldCall C El shapes α → α → Option Handle
  | registry c, a => c.issued? a
  | store _ c, a => c.issued? a

theorem run_issues [∀ i, (shapes i).Proper El] (c : WorldCall C El shapes α) (hw : w.Steady v) :
    (c.run w).Ends (fun a => ∀ h, c.issued? a.1 = some h → a.2.registry.handle? h.id = some h) fun _ => True := by
  cases c with
  | registry c => exact Run.Ends.map (c.run_issues hw.represents)
  | store i c =>
    obtain ⟨es, hs⟩ := hw.carries i
    exact Run.Ends.map (c.run_issues hs hw.represents)

end WorldCall

namespace World

/-- A handle that was asked for, or that a call has just made. -/
inductive Issued (w₀ : World C El shapes) (h : Handle) : World C El shapes → Prop
  | asked {w : World C El shapes} {id : EntityId} : Leads (fun _ _ => True) w₀ w → w.registry.handle? id = some h →
      Issued w₀ h w
  | made {w w' : World C El shapes} {α : Type} {a : α} (c : WorldCall C El shapes α) : Leads (fun _ _ => True) w₀ w →
      (c.run w).outcome = .ok (a, w') → c.issued? a = some h → Issued w₀ h w'

/-- Calls that keep a slot lead from one world to another, and destroy its entity so many times on the way. -/
inductive Deaths (id : Nat) (w₀ : World C El shapes) : Nat → World C El shapes → Prop
  | refl : Deaths id w₀ 0 w₀
  | spared {n : Nat} {w w' : World C El shapes} {α : Type} {a : α} (c : WorldCall C El shapes α) : Deaths id w₀ n w →
      (c.run w).outcome = .ok (a, w') → id < w'.registry.records.size →
      (w.registry.isAlive id → w'.registry.isAlive id) → Deaths id w₀ n w'
  | destroyed {n : Nat} {w w' : World C El shapes} {α : Type} {a : α} (c : WorldCall C El shapes α) :
      Deaths id w₀ n w → (c.run w).outcome = .ok (a, w') → id < w'.registry.records.size → w.registry.isAlive id →
      ¬ w'.registry.isAlive id → Deaths id w₀ (n + 1) w'

variable [∀ i, (shapes i).Proper El] {hd : Handle} {id g n : Nat}

theorem Issued.handle? (h : Issued w₀ hd w) (h₀ : w₀.Fresh) :
    ∃ v, w.Steady v ∧ w.registry.handle? hd.id = some hd := by
  cases h with
  | asked hw hh =>
    obtain ⟨v, hv⟩ := h₀.leads_steady hw
    rw [Registry.id_of_handle? hh]
    exact ⟨v, hv, hh⟩
  | made c hw ho hc =>
    obtain ⟨v, hv⟩ := h₀.leads_steady hw
    obtain ⟨v', hv', -⟩ := (c.run_posts hv).ok ho
    exact ⟨v', hv', (c.run_issues hv).ok ho hd hc⟩

theorem Steady.generation?_call (hw : w.Steady v) (hg : v.generation? id = some g) {α : Type}
    (c : WorldCall C El shapes α) {a : α} (ho : (c.run w).outcome = .ok (a, w')) (hid : id < w'.registry.records.size) :
    ∃ v', w'.Steady v' ∧
      ((w.registry.isAlive id ∧ ¬ w'.registry.isAlive id ∧ v'.generation? id = some (C.generations.bump g)) ∨
        ((w.registry.isAlive id → w'.registry.isAlive id) ∧ v'.generation? id = some g)) := by
  obtain ⟨v', hw', hp⟩ := (c.run_posts hw).ok ho
  have hb := c.postings_batch hw a
  rw [hw'.represents.size_eq] at hid
  have hg' := hp.generation?_eq (hp.retains hb hid) hg
  refine ⟨v', hw', ?_⟩
  rw [hw.represents.isAlive_iff, hw'.represents.isAlive_iff]
  -- a call destroys a slot that it keeps at most once, and then leaves it dead
  rcases hp.batch_cases hw.represents.valid hb hid with ⟨hl, hn, hcount⟩ | ⟨hkeeps, hcount⟩
  · rw [hcount] at hg'
    exact .inl ⟨hl, hn, hg'⟩
  · rw [hcount] at hg'
    exact .inr ⟨hkeeps, hg'⟩

theorem Deaths.generation? (h : Deaths id w n w') (hw : w.Steady v) (hg : v.generation? id = some g) :
    ∃ v', w'.Steady v' ∧ v'.generation? id = some (C.generations.bump^[n] g) ∧
      (n = 0 → w.registry.isAlive id → w'.registry.isAlive id) := by
  induction h with
  | refl => exact ⟨v, hw, hg, fun _ hl => hl⟩
  | spared c _ ho hid hkeeps ih =>
    obtain ⟨v₁, hw₁, hg₁, hl₁⟩ := ih
    obtain ⟨v₂, hw₂, ⟨hl, hn, -⟩ | ⟨-, hg₂⟩⟩ := hw₁.generation?_call hg₁ c ho hid
    · exact absurd (hkeeps hl) hn
    · exact ⟨v₂, hw₂, hg₂, fun h0 hl => hkeeps (hl₁ h0 hl)⟩
  | @destroyed n _ _ _ _ c _ ho hid hl hn ih =>
    obtain ⟨v₁, hw₁, hg₁, -⟩ := ih
    obtain ⟨v₂, hw₂, ⟨-, -, hg₂⟩ | ⟨hkeeps, -⟩⟩ := hw₁.generation?_call hg₁ c ho hid
    · refine ⟨v₂, hw₂, ?_, fun h0 => absurd h0 (Nat.succ_ne_zero n)⟩
      rw [hg₂, Function.iterate_succ_apply']
    · exact absurd (hkeeps hl) hn

theorem Issued.isValid_iff (h : Issued w₀ hd w) (h₀ : w₀.Fresh) (hn : Deaths hd.id w n w') :
    C.generations.Fits hd.generation ∧
    (w'.registry.isValid (.handle hd) ↔
      w'.registry.isAlive hd.id ∧ C.generations.bump^[n] hd.generation = hd.generation) ∧
    (n = 0 → w'.registry.isAlive hd.id) := by
  obtain ⟨v, hw, hh⟩ := h.handle? h₀
  rw [hw.represents.handle?_eq] at hh
  obtain ⟨l, hl, hg⟩ := Option.bind_eq_some_iff.1 hh
  obtain ⟨g, hg, hhd⟩ := Option.map_eq_some_iff.1 hg
  obtain rfl : g = hd.generation := congrArg Handle.generation hhd
  obtain ⟨v', hw', hg', hlives⟩ := hn.generation? hw hg
  obtain ⟨ps, hps⟩ := hw.posted
  refine ⟨hps.fits Ledger.fits_empty _ _ hg, ?_, fun h0 => ?_⟩
  · rw [Registry.isValid, Option.isSome_iff_exists, hw'.represents.isAlive_iff]
    constructor
    · rintro ⟨id, hk⟩
      obtain ⟨rfl, hl, hgen⟩ := hw'.represents.resolve?_handle_iff.1 hk
      rw [hg', Option.some_inj] at hgen
      exact ⟨hl, hgen⟩
    · rintro ⟨hl, hgen⟩
      exact ⟨_, hw'.represents.resolve?_handle_iff.2 ⟨rfl, hl, by rw [hg', hgen]⟩⟩
  · exact hlives h0 (hw.represents.isAlive_iff.2 (Ledger.lives_iff.2 ⟨l, hl⟩))

/-- A handle is valid as long as its own entity lives. Once that was destroyed, the handle is valid if another entity
lives in the slot and the number of times that the slot was destroyed has filled the counter of generations, or if there
are no generations. -/
theorem stale_handles (h₀ : w₀.Fresh) (h : Issued w₀ hd w) (hn : Deaths hd.id w n w') :
    (C.generations = .disabled → (w'.registry.isValid (.handle hd) ↔ w'.registry.isAlive hd.id)) ∧
    (∀ bits, C.generations = .counter bits →
      (w'.registry.isValid (.handle hd) ↔ w'.registry.isAlive hd.id ∧ n % 2 ^ bits = 0) ∧
      (0 < n → n < 2 ^ bits → ¬ w'.registry.isValid (.handle hd))) ∧
    (n = 0 → w'.registry.isValid (.handle hd)) := by
  obtain ⟨hfits, hvalid, hlives⟩ := h.isValid_iff h₀ hn
  refine ⟨fun hgs => ?_, fun bits hgs => ?_, fun h0 => ?_⟩
  · rw [hvalid, hgs]
    exact and_iff_left (Generations.iterate_bump_disabled n _)
  · rw [hgs] at hfits hvalid
    rw [Generations.iterate_bump_eq_iff hfits] at hvalid
    refine ⟨hvalid, fun hpos hlt hv => ?_⟩
    have hzero := (hvalid.1 hv).2
    rw [Nat.mod_eq_of_lt hlt] at hzero
    omega
  · subst h0
    exact hvalid.2 ⟨hlives rfl, rfl⟩

theorem stale_handles_pair : ∃ w w', Issued pair ⟨0, 0⟩ w ∧ Deaths 0 w 1 w' ∧ w'.registry.isAlive 0 ∧
    ¬ w'.registry.isValid (.handle ⟨0, 0⟩) :=
  have h : Issued pair ⟨0, 0⟩ _ := .made (.store false (.component (.shared (.spawn () true)))) .refl rfl rfl
  have hn : Deaths 0 _ 1 _ := .spared (.registry (.create .staged ()))
    (.destroyed (.registry (.erase (.id 0))) .refl rfl (by decide) rfl (by decide)) rfl (by decide) (fun _ => rfl)
  ⟨_, _, h, hn, rfl, ((stale_handles pair_fresh h hn).2.1 32 rfl).2 (by decide) (by decide)⟩

end World

end EntityStore
