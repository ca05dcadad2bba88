import EntityStore.Component.Kind
import EntityStore.Proofs.Fresh
import EntityStore.Proofs.Storage.Alike
import Mathlib.Logic.Function.Basic

/-! One registry and the storages over it, called in any order. -/

namespace EntityStore

structure World (C : Config) {ι κ : Type} (El : κ → Type) (shapes : ι → Shape κ) where
  registry : Registry C
  stores : (i : ι) → Storage (shapes i).Tenant ((shapes i).Rows El)

inductive WorldCall (C : Config) {ι κ : Type} (El : κ → Type) (shapes : ι → Shape κ) : Type → Type 1 where
  | registry {α : Type} (c : RegistryCall C α) : WorldCall C El shapes α
  | store {α : Type} (i : ι) (c : StoreCall C El (shapes i) α) : WorldCall C El shapes α

variable {C : Config} {ι κ α : Type} {El : κ → Type} [∀ k, Footprint (El k)] {shapes : ι → Shape κ}

namespace WorldCall

def run [DecidableEq ι] [DecidableEq κ] :
    WorldCall C El shapes α → World C El shapes → Run (α × World C El shapes)
  | registry c, w => (fun a => (a.1, { w with registry := a.2 })) <$> c.run w.registry
  | store i c, w => (fun a => (a.1, ⟨a.2.1, Function.update w.stores i a.2.2⟩)) <$> c.run w.registry (w.stores i)

def runEach [DecidableEq ι] [DecidableEq κ] :
    List (WorldCall C El shapes α) → World C El shapes → Run (List α × World C El shapes)
  | [], w => return ([], w)
  | c :: cs, w => do
    let (a, w) ← c.run w
    let (as, w) ← runEach cs w
    return (a :: as, w)

/-- Whoever is housed in a storage is moved and destroyed through storages only. -/
def Considerate (w : World C El shapes) : WorldCall C El shapes α → Prop
  | registry c => ∀ (i : ι) (id : Nat), (w.stores i).contains w.registry (.id id) → c.Spares w.registry id
  | store _ _ => True

def MayFault (w : World C El shapes) (f : Fault) : WorldCall C El shapes α → Prop
  | registry c => f = .capacityOverflow ∧ c.Reserves
  | store i c => c.MayFault (w.stores i).size f

omit [∀ k, Footprint (El k)] in
theorem not_deadRelocation_of_mayFault {w : World C El shapes} (c : WorldCall C El shapes α) (id : Nat) :
    ¬ c.MayFault w (.deadRelocation id) := by
  cases c with
  | registry c => exact fun h => nomatch h.1
  | store i c => exact c.not_deadRelocation_of_mayFault id

end WorldCall

namespace World

variable [DecidableEq ι] [DecidableEq κ] {w₀ w w' : World C El shapes}

structure Fresh (w : World C El shapes) : Prop where
  registry : w.registry.Fresh
  stores (i : ι) : (shapes i).Fresh C (w.stores i)

/-- Calls that are allowed where they are made lead from one world to another. -/
inductive Leads (allowed : {α : Type} → World C El shapes → WorldCall C El shapes α → Prop) (w₀ : World C El shapes) :
    World C El shapes → Prop
  | refl : Leads allowed w₀ w₀
  | step {w w' : World C El shapes} {α : Type} {a : α} (c : WorldCall C El shapes α) : Leads allowed w₀ w →
      allowed w c → (c.run w).outcome = .ok (a, w') → Leads allowed w₀ w'

theorem Leads.invariant {allowed : {α : Type} → World C El shapes → WorldCall C El shapes α → Prop}
    {I : World C El shapes → Prop} (h : Leads allowed w₀ w) (h₀ : I w₀)
    (hstep : ∀ {α : Type} (w : World C El shapes) (c : WorldCall C El shapes α) (a : α) (w' : World C El shapes),
      I w → allowed w c → (c.run w).outcome = .ok (a, w') → I w') : I w := by
  induction h with
  | refl => exact h₀
  | step c _ hc ho ih => exact hstep _ c _ _ ih hc ho

def after (w : World C El shapes) (c : WorldCall C El shapes α) : World C El shapes :=
  match (c.run w).outcome with
  | .ok a => a.2
  | .error _ => w

theorem Leads.after {allowed : {α : Type} → World C El shapes → WorldCall C El shapes α → Prop} (h : Leads allowed w₀ w)
    (c : WorldCall C El shapes α) (hc : allowed w c) : Leads allowed w₀ (w.after c) := by
  rw [World.after]
  split
  · exact .step c h hc ‹_›
  · exact h

def put (w : World C El shapes) (i : ι) (r : Registry C) (s : Storage (shapes i).Tenant ((shapes i).Rows El)) :
    World C El shapes := ⟨r, Function.update w.stores i s⟩

theorem outcome_registry {c : RegistryCall C α} {a : α} {r : Registry C}
    (ho : (c.run w.registry).outcome = .ok (a, r)) :
    ((WorldCall.registry c).run w).outcome = .ok (a, { w with registry := r }) := by
  rw [WorldCall.run, Run.outcome_map, ho]
  rfl

theorem outcome_store {i : ι} {c : StoreCall C El (shapes i) α} {a : α} {r : Registry C}
    {s : Storage (shapes i).Tenant ((shapes i).Rows El)}
    (ho : (c.run w.registry (w.stores i)).outcome = .ok (a, r, s)) :
    ((WorldCall.store i c).run w).outcome = .ok (a, w.put i r s) := by
  rw [WorldCall.run, Run.outcome_map, ho]
  rfl

theorem outcome_idle {i : ι} {c : StoreCall C El (shapes i) α} {a : α}
    (ho : (c.run w.registry (w.stores i)).outcome = .ok (a, w.registry, w.stores i)) :
    ((WorldCall.store i c).run w).outcome = .ok (a, w) := by
  rw [outcome_store ho, put, Function.update_eq_self]

theorem outcome_shared {i : ι} [(shapes i).Proper El] {c : StorageCall C ((shapes i).Item El) α} {a : α}
    {r : Registry C}
    {s s' : Storage (shapes i).Tenant ((shapes i).Rows El)} {es : List ((shapes i).Tenant × (shapes i).Item El)}
    (hc : s.Carries es) (hs : w.stores i = s) (ho : (c.run w.registry s).outcome = .ok (a, r, s')) :
    ((WorldCall.store i (.shared (shapes i) c)).run w).outcome = .ok (a, ⟨r, Function.update w.stores i s'⟩) := by
  subst hs
  apply outcome_store
  rw [StoreCall.run_shared hc, ho]

omit [DecidableEq κ] [∀ k, Footprint (El k)] in
theorem stores_put (w : World C El shapes) (i : ι) (r : Registry C)
    (s : Storage (shapes i).Tenant ((shapes i).Rows El)) : (w.put i r s).stores i = s := by
  rw [put]
  exact Function.update_self ..

omit [DecidableEq κ] [∀ k, Footprint (El k)] in
theorem put_put {i : ι} (r r' : Registry C) (s s' : Storage (shapes i).Tenant ((shapes i).Rows El)) :
    (w.put i r s).put i r' s' = w.put i r' s' := by
  rw [put, put, put, Function.update_idem]

theorem outcome_runEach {c : WorldCall C El shapes α} {cs : List (WorldCall C El shapes α)} {a : α} {as : List α}
    {w₁ : World C El shapes} (h : (c.run w).outcome = .ok (a, w₁))
    (hs : (WorldCall.runEach cs w₁).outcome = .ok (as, w')) :
    (WorldCall.runEach (c :: cs) w).outcome = .ok (a :: as, w') := by
  simp only [WorldCall.runEach, Run.outcome_bind, h, Checked.ok_bind, hs]
  rfl

def pairShapes : Bool → Shape Kind
  | false => .component .flag
  | true => .chunked [.flag, .word8] 0

instance : Chunked.Fits Kind.Value [.flag, .word8] 0 := ⟨by decide⟩

instance : (i : Bool) → (pairShapes i).Proper Kind.Value
  | false => inferInstanceAs (Shape.Proper (.component Kind.flag) Kind.Value)
  | true => inferInstanceAs (Shape.Proper (.chunked [Kind.flag, Kind.word8] 0) Kind.Value)

def pair : World Config.standard Kind.Value pairShapes where
  registry := .empty _
  stores
    | false => ⟨1, Storage.unlimited, #[], #[]⟩
    | true => ⟨2, Storage.unlimited, #[], .empty⟩

theorem pair_fresh : pair.Fresh where
  registry := .inl rfl
  stores
    | false => .inl ⟨1, rfl⟩
    | true => .inl ⟨2, rfl⟩

theorem pair_distinct : Function.Injective fun i => (pair.stores i).store := by
  rintro (_ | _) (_ | _) h
  · rfl
  · cases h
  · cases h
  · rfl

end World

end EntityStore
