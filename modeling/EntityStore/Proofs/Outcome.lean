import EntityStore.Run

/-! Runs that end, and runs that end alike. -/

namespace EntityStore

section

variable {α β γ δ : Type}

theorem Checked.bind_eq_ok {x : Checked α} {f : α → Checked β} {b : β} :
    x >>= f = .ok b ↔ ∃ a, x = .ok a ∧ f a = .ok b := by
  cases x with
  | error e =>
    constructor
    · intro h
      cases h
    · rintro ⟨a, h, _⟩
      cases h
  | ok a =>
    constructor
    · exact fun h => ⟨a, rfl, h⟩
    · rintro ⟨a', h, hf⟩
      cases h
      exact hf

@[simp] theorem Checked.ok_bind (a : α) (f : α → Checked β) : (Except.ok a : Checked α) >>= f = f a := rfl

@[simp] theorem Checked.map_ok (f : α → β) (a : α) : f <$> (Except.ok a : Checked α) = .ok (f a) := rfl

@[simp] theorem Checked.map_error (f : α → β) (e : Fault) :
    f <$> (Except.error e : Checked α) = .error e := rfl

def Checked.Ends (x : Checked α) (P : α → Prop) (E : Fault → Prop) : Prop :=
  match x with
  | .ok a => P a
  | .error f => E f

theorem Checked.Ends.bind {x : Checked α} {f : α → Checked β} {P : α → Prop} {Q : β → Prop} {E : Fault → Prop}
    (h : x.Ends P E) (hf : ∀ a, P a → (f a).Ends Q E) : (x >>= f).Ends Q E := by
  cases x with
  | error e => exact h
  | ok a => exact hf a h

namespace Run

@[simp] theorem lift_ok (a : α) : (liftM (Except.ok a : Checked α) : Run α) = pure a := rfl

def Ends (x : Run α) (P : α → Prop) (E : Fault → Prop) : Prop := x.outcome.Ends P E

variable {P : α → Prop} {Q : β → Prop} {E : Fault → Prop}

theorem Ends.ok {x : Run α} {a : α} (h : x.Ends P E) (ha : x.outcome = .ok a) : P a := by
  rw [Ends, ha] at h
  exact h

theorem Ends.error {x : Run α} {f : Fault} (h : x.Ends P E) (hf : x.outcome = .error f) : E f := by
  rw [Ends, hf] at h
  exact h

theorem ends_of_ok {x : Run α} {a : α} (ha : x.outcome = .ok a) (h : P a) : x.Ends P E := by
  rw [Ends, ha]
  exact h

theorem ends_of_error {x : Run α} {f : Fault} (hf : x.outcome = .error f) (h : E f) : x.Ends P E := by
  rw [Ends, hf]
  exact h

theorem ends_pure {a : α} (h : P a) : (pure a : Run α).Ends P E := h

theorem ends_lift {x : Checked α} (h : x.Ends P E) : (liftM x : Run α).Ends P E := h

theorem ends_note (e : Event) {P : Unit → Prop} (h : P ()) : (note e).Ends P E := h

@[simp] theorem outcome_map (f : α → β) (x : Run α) : (f <$> x).outcome = f <$> x.outcome := by
  rcases x with ⟨events, _ | a⟩ <;> rfl

theorem Ends.map {x : Run α} {f : α → β} (h : x.Ends (fun a => Q (f a)) E) : (f <$> x).Ends Q E := by
  rw [Ends, outcome_map]
  cases ha : x.outcome with
  | ok a => exact h.ok ha
  | error e => exact h.error ha

theorem Ends.imp {x : Run α} {P' : α → Prop} {E' : Fault → Prop} (h : x.Ends P E) (hp : ∀ a, P a → P' a)
    (he : ∀ f, E f → E' f) : x.Ends P' E' := by
  cases ha : x.outcome with
  | ok a => exact ends_of_ok ha (hp a (h.ok ha))
  | error f => exact ends_of_error ha (he f (h.error ha))

theorem Ends.and {x : Run α} {P' : α → Prop} {E' : Fault → Prop} (h : x.Ends P E) (h' : x.Ends P' E') :
    x.Ends (fun a => P a ∧ P' a) E := by
  cases ha : x.outcome with
  | ok a => exact ends_of_ok ha ⟨h.ok ha, h'.ok ha⟩
  | error f => exact ends_of_error ha (h.error ha)

theorem Ends.bind {x : Run α} {f : α → Run β} (h : x.Ends P E) (hf : ∀ a, P a → (f a).Ends Q E) :
    (x >>= f).Ends Q E := by
  cases ha : x.outcome with
  | ok a =>
    have he : (x >>= f).outcome = (f a).outcome := by rw [outcome_bind, ha]; rfl
    have hq := hf a (h.ok ha)
    rw [Ends, ← he] at hq
    exact hq
  | error e =>
    apply ends_of_error (f := e)
    · rw [outcome_bind, ha]
      rfl
    · exact h.error ha

theorem ends_trivial (x : Run α) : x.Ends (fun _ => True) fun _ => True := by
  cases ha : x.outcome with
  | ok a => exact ends_of_ok ha trivial
  | error f => exact ends_of_error ha trivial

inductive Alike (R : α → β → Prop) (E : Fault → Prop) : Run α → Run β → Prop
  | ok (events : List Event) {a : α} {b : β} : R a b → Alike R E ⟨events, .ok a⟩ ⟨events, .ok b⟩
  | error (events : List Event) {f : Fault} : E f → Alike R E ⟨events, .error f⟩ ⟨events, .error f⟩

namespace Alike

variable {R : α → β → Prop} {S : γ → δ → Prop}

theorem of_pure {a : α} {b : β} (h : R a b) : Alike R E (pure a) (pure b) := .ok [] h

theorem of_ends {x : Run α} (h : x.Ends P E) : Alike (fun a b => a = b ∧ P a) E x x := by
  obtain ⟨events, _ | a⟩ := x
  · exact .error events h
  · exact .ok events ⟨rfl, h⟩

theorem of_note (e : Event) : Alike (fun _ _ => True) E (note e) (note e) := .ok [e] trivial

theorem ends {x : Run α} {y : Run β} (h : Alike R E x y) : x.Ends (fun a => ∃ b, R a b) E := by
  cases h with
  | ok events hab => exact ⟨_, hab⟩
  | error events hf => exact hf

theorem bind {x : Run α} {y : Run β} {f : α → Run γ} {g : β → Run δ} (h : Alike R E x y)
    (hfg : ∀ a b, R a b → Alike S E (f a) (g b)) : Alike S E (x >>= f) (y >>= g) := by
  cases h with
  | error events hf => exact .error events hf
  | @ok events a b hab =>
    have hnext := hfg a b hab
    rw [bind_def, bind_def, andThen, andThen]
    cases hx : f a
    cases hy : g b
    rw [hx, hy] at hnext
    cases hnext with
    | ok events' hcd => exact .ok _ hcd
    | error events' hf => exact .error _ hf

theorem map {x : Run α} {y : Run β} {f : α → γ} {g : β → δ} (h : Alike (fun a b => S (f a) (g b)) E x y) :
    Alike S E (f <$> x) (g <$> y) := by
  rw [map_eq_pure_bind, map_eq_pure_bind]
  exact h.bind fun _ _ hab => of_pure hab

theorem imp {R' : α → β → Prop} {x : Run α} {y : Run β} (h : Alike R E x y) (hr : ∀ a b, R a b → R' a b) :
    Alike R' E x y := by
  cases h with
  | ok events hab => exact .ok events (hr _ _ hab)
  | error events hf => exact .error events hf

end Alike

def relabel (f : Event → Event) (x : Run α) : Run α := ⟨x.events.map f, x.outcome⟩

theorem relabel_id (x : Run α) : x.relabel id = x := by rw [relabel, List.map_id]

theorem relabel_bind (f : Event → Event) (x : Run α) (g : α → Run β) :
    (x >>= g).relabel f = x.relabel f >>= fun a => (g a).relabel f := by
  rcases x with ⟨events, _ | a⟩
  · rfl
  · simp [bind_def, andThen, relabel]

def Like (f : Event → Event) (R : α → β → Prop) (E : Fault → Prop) (x : Run α) (y : Run β) : Prop :=
  Alike R E (x.relabel f) (y.relabel f)

namespace Like

variable {f : Event → Event} {R : α → β → Prop} {S : γ → δ → Prop}

theorem alike {x : Run α} {y : Run β} (h : Like id R E x y) : Alike R E x y := by
  rw [Like, relabel_id, relabel_id] at h
  exact h

theorem outcome {x : Run α} {y : Run β} (h : Like f R E x y) :
    (∃ e, x.outcome = .error e ∧ y.outcome = .error e) ∨
      ∃ a b, x.outcome = .ok a ∧ y.outcome = .ok b ∧ R a b := by
  change (∃ e, (x.relabel f).outcome = .error e ∧ (y.relabel f).outcome = .error e) ∨
    ∃ a b, (x.relabel f).outcome = .ok a ∧ (y.relabel f).outcome = .ok b ∧ R a b
  rw [Like] at h
  generalize x.relabel f = x' at h ⊢
  generalize y.relabel f = y' at h ⊢
  cases h with
  | error _ _ => exact .inl ⟨_, rfl, rfl⟩
  | ok _ hab => exact .inr ⟨_, _, rfl, rfl, hab⟩

theorem of_pure {a : α} {b : β} (h : R a b) : Like f R E (pure a) (pure b) := .ok [] h

theorem of_ends {x : Run α} (h : x.Ends P E) : Like f (fun a b => a = b ∧ P a) E x x :=
  Alike.of_ends (x := x.relabel f) h

theorem of_note {e e' : Event} (h : f e = f e') : Like f (fun _ _ => True) E (note e) (note e') := by
  have hnote : ∀ e, (note e).relabel f = note (f e) := fun _ => rfl
  rw [Like, hnote, hnote, h]
  exact .of_note (f e')

theorem bind {x : Run α} {y : Run β} {g : α → Run γ} {h : β → Run δ} (hxy : Like f R E x y)
    (hgh : ∀ a b, R a b → Like f S E (g a) (h b)) : Like f S E (x >>= g) (y >>= h) := by
  rw [Like, relabel_bind, relabel_bind]
  exact Alike.bind hxy hgh

theorem map {x : Run α} {y : Run β} {g : α → γ} {h : β → δ} (hxy : Like f (fun a b => S (g a) (h b)) E x y) :
    Like f S E (g <$> x) (h <$> y) := by
  rw [map_eq_pure_bind, map_eq_pure_bind]
  exact hxy.bind fun _ _ hab => of_pure hab

theorem imp {R' : α → β → Prop} {x : Run α} {y : Run β} (h : Like f R E x y) (hr : ∀ a b, R a b → R' a b) :
    Like f R' E x y :=
  Alike.imp h hr

end Like

end Run

end

namespace Predicate

variable {α : Type}

def hits (p : Predicate α) : Array α → List α → List α
  | _, [] => []
  | asked, q :: qs => if p asked q then q :: p.hits (asked.push q) qs else p.hits (asked.push q) qs

theorem hits_sublist (p : Predicate α) (asked : Array α) (qs : List α) : (p.hits asked qs).Sublist qs := by
  induction qs generalizing asked with
  | nil => exact .slnil
  | cons q qs ih =>
    rw [hits]
    split
    · exact (ih _).cons_cons q
    · exact (ih _).cons q

theorem hits_always (asked : Array α) (qs : List α) : Predicate.hits (fun _ _ => true) asked qs = qs := by
  induction qs generalizing asked with
  | nil => rfl
  | cons q qs ih => rw [hits, if_pos rfl, ih]

end Predicate

end EntityStore
