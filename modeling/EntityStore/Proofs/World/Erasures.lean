import EntityStore.Proofs.World.Chunks
import EntityStore.Proofs.World.Sweeps

/-! Selective erasure by kind, by column and by row. -/

namespace EntityStore

variable {C : Config} {κ α β τ L ρ : Type} {El : κ → Type} {ks : List κ}

def Predicate.through (ask : β → Option α) (p : Predicate α) : Predicate β :=
  fun asked q => (ask q).any (p (asked.filterMap ask))

def Swept.told {σ : Type} (ask : β → Option α) (w : Swept σ β) : Swept σ α :=
  ⟨w.state, w.asked.filterMap ask, w.erased⟩

namespace Predicate

variable {p : Predicate α} {ask : β → Option α} {asked : Array β} {q : β}

theorem through_of_none (h : ask q = none) : p.through ask asked q = false := by rw [through, h, Option.any_none]

theorem through_of_some {a : α} (h : ask q = some a) : p.through ask asked q = p (asked.filterMap ask) a := by
  rw [through, h, Option.any_some]

theorem through_some (p : Predicate α) : p.through some = p := by
  funext asked q
  rw [through_of_some rfl, Array.filterMap_some]

end Predicate

def heard {γ : Type} (ask : β → Option α) (a : (Array β × Nat) × γ) : (Array α × Nat) × γ :=
  ((a.1.1.filterMap ask, a.1.2), a.2)

theorem Swept.answer_told {σ : Type} (ask : β → Option α) (w : Swept σ β) :
    (w.told ask).answer = heard ask w.answer := rfl

namespace Storage

variable [Tenant τ] [Layout L ρ] [LawfulLayout L ρ] {s : Storage τ L} {es : List (τ × ρ)}
  {view : Storage τ L → Nat → Checked (Option α)} {view' : Storage τ L → Nat → Checked (Option β)}
  {question : Nat → τ → ρ → β} {ask : β → Option α}

theorem Carries.sweepFrom_through (hview' : Reads view' fun i t x => some (question i t x))
    (hview : Reads view fun i t x => ask (question i t x)) (p : Predicate α) (n : Nat) {i : Nat} (hs : s.Carries es)
    (hn : i + n = es.length) (r : Registry C) (asked : Array β) (erased : Nat) :
    Swept.told ask <$> sweepFrom view' (p.through ask) n i ⟨(r, s), asked, erased⟩ =
      sweepFrom view p n i ⟨(r, s), asked.filterMap ask, erased⟩ := by
  -- along both sweeps at once: the rows are the same, and so are the questions that the predicate learned of
  induction n generalizing i s es r asked erased with
  | zero => rfl
  | succ n ih =>
    have hi : es[i]? = some es[i] := List.getElem?_eq_getElem (by omega)
    have hnext : i + 1 + n = es.length := by omega
    have hq : view' s i = .ok (some (question i es[i].1 es[i].2)) := hview' s es i es[i] hs hi
    have ha : view s i = .ok (ask (question i es[i].1 es[i].2)) := hview s es i es[i] hs hi
    generalize question i es[i].1 es[i].2 = q at hq ha
    rw [sweepFrom, sweepFrom, hq, ha]
    dsimp only
    cases hask : ask q with
    | none =>
      have hpush : (asked.push q).filterMap ask = asked.filterMap ask :=
        Array.filterMap_push_none hask (Array.size_push q)
      rw [Predicate.through_of_none hask, if_neg Bool.false_ne_true, ih hs hnext, hpush]
    | some a =>
      have hpush : (asked.push q).filterMap ask = (asked.filterMap ask).push a :=
        Array.filterMap_push_some hask (Array.size_push q)
      rw [Predicate.through_of_some hask]
      dsimp only
      by_cases hyes : p (asked.filterMap ask) a
      · obtain ⟨s', hs', -, -, hremove⟩ := hs.removeAt (C := C) hi
        have hrest : i + n = (swapPop es i).length := by
          rw [length_swapPop]
          omega
        simp only [if_pos hyes, hremove, map_bind, bind_map_left, ih hs' hrest, hpush]
      · rw [if_neg hyes, if_neg hyes, ih hs hnext, hpush]

theorem Carries.sweep_through (hview' : Reads view' fun i t x => some (question i t x))
    (hview : Reads view fun i t x => ask (question i t x)) (p : Predicate α) (hs : s.Carries es) (r : Registry C) :
    heard ask <$> Swept.answer <$> s.sweep view' (p.through ask) r = Swept.answer <$> s.sweep view p r := by
  have hall : 0 + s.size = es.length := by rw [Nat.zero_add, hs.size_eq]
  have hsweep := hs.sweepFrom_through hview' hview p s.size hall r #[] 0
  rw [Array.filterMap_empty] at hsweep
  rw [sweep, sweep, ← hsweep]
  simp only [Functor.map_map, Swept.answer_told]

end Storage

section Kinds

variable [DecidableEq κ] {k : κ}

def RowView.cell? (k : κ) (v : RowView El ks) : Option (El k × EntityId) := (v.component? k).map (·, v.id)

theorem Storage.reads_cell? {L : Type} [ColumnLayout L El ks] [LawfulColumnLayout L El ks] {n : Nat}
    (hn : positionOf? ks k = some n) :
    Reads (fun (s : ArchetypeStorage L) i => do
      let (c, slot) ← ColumnLayout.locate s.rows i
      match c.entry? n |>.bind (cast? k) with
      | none => return none
      | some a => return some (← Column.read a slot, ← Column.read s.tenants i))
      fun i id row => RowView.cell? k ⟨i, id, row⟩ := by
  intro s es i e hs hi
  refine (Carries.reads_eraseByKind hn s es i e hs hi).trans ?_
  dsimp only
  rw [RowView.cell?, RowView.component?, Tuple.entryOf?, hn, Option.bind_some]

end Kinds

namespace ArchetypeCall

variable [DecidableEq κ]

/-- The first call asks the predicate of the second one, which is told of a component and whose it is: of those in the
column that is the first of the kind, or of those that rows show. -/
inductive Rephrases : {α β : Type} → ArchetypeCall C El ks (Array β × Nat) → (β → Option α) →
    ArchetypeCall C El ks (Array α × Nat) → Prop
  | eraseByColumn (n : Fin ks.length) (h : ∀ m, m < n → ks.get m ≠ ks.get n) (kindName : κ → String)
      (p : Predicate (El (ks.get n) × EntityId)) :
      Rephrases (.eraseByColumn n p) some (.eraseByKind (ks.get n) kindName p)
  | eraseWhere {k : κ} (h : k ∈ ks) (kindName : κ → String) (p : Predicate (El k × EntityId)) :
      Rephrases (.eraseWhere (p.through (RowView.cell? k))) (RowView.cell? k) (.eraseByKind k kindName p)

variable {L : Type} [ColumnLayout L El ks] [LawfulColumnLayout L El ks] [Capacious L] {s : ArchetypeStorage L}
  {es : List (EntityId × Row El ks)} {c : ArchetypeCall C El ks (Array β × Nat)} {ask : β → Option α}
  {d : ArchetypeCall C El ks (Array α × Nat)}

theorem Rephrases.run_eq (hc : c.Rephrases ask d) (hs : s.Carries es) (r : Registry C) :
    heard ask <$> c.run r s = d.run r s := by
  cases hc with
  | eraseByColumn n h kindName p =>
    have hn := positionOf?_first h
    have hview := Storage.reads_cell? (L := L) hn
    have hcell : ∀ i id (row : Row El ks), RowView.cell? (ks.get n) ⟨i, id, row⟩ = some (row.get n, id) := by
      intro i id row
      rw [RowView.cell?, RowView.component?, Tuple.entryOf?_first row h, Option.map_some]
    simp only [hcell] at hview
    rw [run, run, Storage.eraseByKind, hn]
    have hsweep := hs.sweep_through (Storage.Carries.reads_eraseByColumn n) hview p r
    rwa [p.through_some] at hsweep
  | eraseWhere h kindName p =>
    obtain ⟨n, hn⟩ := exists_positionOf? h
    rw [run, run, Storage.eraseByKind, hn]
    exact hs.sweep_through Storage.Carries.reads_eraseWhere (Storage.reads_cell? hn) p r

end ArchetypeCall

namespace StoreCall

variable [DecidableEq κ]

inductive Rephrases : {shape : Shape κ} → {α β : Type} → StoreCall C El shape (Array β × Nat) → (β → Option α) →
    StoreCall C El shape (Array α × Nat) → Prop
  | dense {ks : List κ} {α β : Type} {c : ArchetypeCall C El ks (Array β × Nat)} {ask : β → Option α}
      {d : ArchetypeCall C El ks (Array α × Nat)} : c.Rephrases ask d → Rephrases (.dense c) ask (.dense d)
  | chunked {ks : List κ} {n : Nat} {α β : Type} {c : ArchetypeCall C El ks (Array β × Nat)} {ask : β → Option α}
      {d : ArchetypeCall C El ks (Array α × Nat)} : c.Rephrases ask d →
        Rephrases (.chunked c : StoreCall C El (.chunked ks n) (Array β × Nat)) ask (.chunked d)

variable {shape : Shape κ} {c : StoreCall C El shape (Array β × Nat)} {ask : β → Option α}
  {d : StoreCall C El shape (Array α × Nat)}

theorem Rephrases.not_mayFault (hc : c.Rephrases ask d) (n : Nat) (f : Fault) : ¬ d.MayFault n f := by
  cases hc with
  | dense hc | chunked hc =>
    cases hc with
    | eraseByColumn | eraseWhere => exact fun h => h.1

theorem Rephrases.run_eq [∀ k, Footprint (El k)] [shape.Proper El] (hc : c.Rephrases ask d)
    {s : Storage shape.Tenant (shape.Rows El)} {es : List (shape.Tenant × shape.Item El)} (hs : s.Carries es)
    (r : Registry C) : heard ask <$> c.run r s = d.run r s := by
  cases hc with
  | dense hc => exact hc.run_eq hs r
  | @chunked ks _ _ _ _ _ _ hc =>
    obtain ⟨k, ks, rfl, hfits⟩ := Shape.exists_cons ‹(Shape.chunked ks _).Proper El›
    exact hc.run_eq hs r

end StoreCall

end EntityStore

namespace EntityStore.World

variable {C : Config} {ι κ : Type} {El : κ → Type} {shapes : ι → Shape κ} [DecidableEq ι] [DecidableEq κ]
  [∀ k, Footprint (El k)] {w₀ w : World C El shapes} {v : Ledger C} {i : ι}

structure ErasesAlike (w : World C El shapes) (i : ι) : Prop where
  alike {α β : Type} {c : StoreCall C El (shapes i) (Array β × Nat)} {ask : β → Option α}
    {d : StoreCall C El (shapes i) (Array α × Nat)} (r : Registry C) : c.Rephrases ask d →
    heard ask <$> c.run r (w.stores i) = d.run r (w.stores i)
  stops {α β : Type} {c : StoreCall C El (shapes i) (Array β × Nat)} {ask : β → Option α}
    {d : StoreCall C El (shapes i) (Array α × Nat)} : c.Rephrases ask d →
    ((WorldCall.store i d).run w).Ends (fun _ => True) fun f => ∃ id, f = .deadRelocation id
  blind {α : Type} {c : StoreCall C El (shapes i) (Array α × Nat)} (r : Registry C) : c.Blind →
    (c.run r (w.stores i)).outcome = .ok ((#[], 0), r, w.stores i)

variable [∀ i, (shapes i).Proper El]

theorem Steady.erasesAlike (hw : w.Steady v) (i : ι) : w.ErasesAlike i := by
  obtain ⟨es, hs⟩ := hw.carries i
  refine ⟨fun r hc => hc.run_eq hs r, fun hc => ?_, fun r hc => hc.outcome r (w.stores i)⟩
  apply Run.Ends.map
  refine (StoreCall.run_kept _ Registry.custody_represents hs ⟨v, hw.represents⟩).imp (fun _ _ => trivial) ?_
  rintro f (hdead | hmay)
  · exact hdead
  · exact absurd hmay (hc.not_mayFault _ f)

/-- Wherever calls lead, and whatever the registry, the erasures by kind, by column and by row run alike where they put
the same questions to a predicate, and stop only where someone is dead; an erasure by a kind that no row has asks
nothing and changes nothing. -/
theorem erasures_alike (h₀ : w₀.Fresh) (h : Leads (fun _ _ => True) w₀ w) (i : ι) : w.ErasesAlike i := by
  obtain ⟨v, hw⟩ := h₀.leads_steady h
  exact hw.erasesAlike i

def choosy : Predicate (UInt8 × EntityId) := fun asked q => asked.isEmpty || q.1 == 2

def choosyCull : StoreCall Config.standard Kind.Value (twinShapes true) (Array (UInt8 × EntityId) × Nat) :=
  .chunked (.eraseByKind .word8 Kind.typeName choosy)

theorem erasures_alike_twin : (housedTwin.stores true).ids = [0, 3, 2] ∧
    (choosyCull.run housedTwin.registry (housedTwin.stores true)).outcome.map Prod.fst =
      .ok (#[(0, 0), (2, 2), (3, 3)], 2) ∧
    heard some <$> (StoreCall.chunked (.eraseByColumn 0 choosy)).run housedTwin.registry (housedTwin.stores true) =
      choosyCull.run housedTwin.registry (housedTwin.stores true) ∧
    heard (RowView.cell? Kind.word8) <$> (StoreCall.chunked (.eraseWhere (choosy.through (RowView.cell? .word8)))).run
        housedTwin.registry (housedTwin.stores true) =
      choosyCull.run housedTwin.registry (housedTwin.stores true) := by
  have h := erasures_alike twin_fresh housedTwin_leads true
  let kinds := [Kind.word8, .flag, .word8]
  have hfirst : ∀ m : Fin kinds.length, m < 0 → kinds.get m ≠ kinds.get 0 := fun m hm => absurd hm (Nat.not_lt_zero m)
  have hcolumn := @ArchetypeCall.Rephrases.eraseByColumn Config.standard Kind Kind.Value kinds _ 0 hfirst
    Kind.typeName choosy
  have hrow := @ArchetypeCall.Rephrases.eraseWhere Config.standard Kind Kind.Value kinds _ .word8 (by decide)
    Kind.typeName choosy
  exact ⟨rfl, rfl, h.alike _ (.chunked hcolumn), h.alike _ (.chunked hrow)⟩

end EntityStore.World
