import EntityStore.Proofs.Json.Grammar
import EntityStore.Settings
import Mathlib.Data.List.Nodup

/-! What is documented of the library, a step at a time, and what follows for whole documents. -/

namespace EntityStore.Json

def Scalar.Fits : (k : Scalar) → k.Value → Prop
  | count, n => n < 1 <<< 64
  | limit, r => ∀ n ∈ r, n < 1 <<< 64
  | flag, _ => True

namespace Library

def Fails {α : Type} (r : Except String α) : Prop := ∃ message, r = .error message

structure Scalars (lib : Library) : Prop where
  count {n : Nat} {rest : List Char} : n < 1 <<< 64 → Stops rest →
    lib.scalar .count ((Scalar.count.text n).toList ++ rest) = .ok (n, rest)
  none (rest : List Char) : lib.scalar .limit ((Scalar.limit.text none).toList ++ rest) = .ok (none, rest)
  some {n : Nat} {cs rest : List Char} : lib.scalar .count cs = .ok (n, rest) →
    lib.scalar .limit cs = .ok (some n, rest)
  flag (b : Bool) (rest : List Char) : lib.scalar .flag ((Scalar.flag.text b).toList ++ rest) = .ok (b, rest)
  blanks (k : Scalar) (ws : Blanks) (cs : List Char) : lib.scalar k (ws.chars ++ cs) = lib.scalar k cs
  whole {k : Scalar} {p : Padded} {x : k.Value} {rest cs : List Char} : Value p.core → Stops rest →
    lib.scalar k (p.text ++ rest) = .ok (x, cs) → cs = p.after.chars ++ rest
  ignored {p : Padded} {rest : List Char} : Value p.core → Stops rest →
    lib.ignored (p.text ++ rest) = .ok (p.after.chars ++ rest)

/-- A member sets the field of its name, which must not have been seen before. A member that is no field's is
ignored. -/
structure Objects {σ : Type} (lib : Library) (d : Declaration σ) : Prop where
  close (ws : Blanks) (first : Bool) (seen : List String) (s : σ) (rest : List Char) :
    lib.members d first seen s (ws.chars ++ '\x7d' :: rest) = .ok (s, rest)
  field {f : Field σ} {e : Entry} {x : f.scalar.Value} {seen : List String} {rest : List Char}
    (ws : Blanks) (first : Bool) (s : σ) : f ∈ d.fields → e.key = f.name → f.name ∉ seen →
    lib.scalar f.scalar (e.value.text ++ rest) = .ok (x, e.value.after.chars ++ rest) →
    lib.members d first seen s (lead ws first (e.text ++ rest)) =
      lib.members d false (f.name :: seen) (f.set x s) (e.value.after.chars ++ rest)
  unread {f : Field σ} {e : Entry} {seen : List String} {rest : List Char} (ws : Blanks) (first : Bool) (s : σ) :
    f ∈ d.fields → e.key = f.name → Fails (lib.scalar f.scalar (e.value.text ++ rest)) →
    Fails (lib.members d first seen s (lead ws first (e.text ++ rest)))
  again {f : Field σ} {e : Entry} {seen : List String} (ws : Blanks) (first : Bool) (s : σ) (rest : List Char) :
    f ∈ d.fields → e.key = f.name → f.name ∈ seen →
    Fails (lib.members d first seen s (lead ws first (e.text ++ rest)))
  other {e : Entry} {seen : List String} {rest : List Char} (ws : Blanks) (first : Bool) (s : σ) : e.key ∉ d.names →
    lib.ignored (e.value.text ++ rest) = .ok (e.value.after.chars ++ rest) →
    lib.members d first seen s (lead ws first (e.text ++ rest)) =
      lib.members d false seen s (e.value.after.chars ++ rest)

/-- An item sets the next field. A list may end before all fields are set, but not go on after that. -/
structure Lists {σ : Type} (lib : Library) (d : Declaration σ) : Prop where
  close (ws : Blanks) (first : Bool) (fs : List (Field σ)) (s : σ) (rest : List Char) :
    lib.items d first fs s (ws.chars ++ ']' :: rest) = .ok (s, rest)
  field {f : Field σ} {p : Padded} {x : f.scalar.Value} {rest : List Char} (ws : Blanks) (first : Bool)
    (fs : List (Field σ)) (s : σ) : lib.scalar f.scalar (p.text ++ rest) = .ok (x, p.after.chars ++ rest) →
    lib.items d first (f :: fs) s (lead ws first (p.text ++ rest)) =
      lib.items d false fs (f.set x s) (p.after.chars ++ rest)
  unread {f : Field σ} {p : Padded} {rest : List Char} (ws : Blanks) (first : Bool) (fs : List (Field σ)) (s : σ) :
    Value p.core → Stops rest → Fails (lib.scalar f.scalar (p.text ++ rest)) →
    Fails (lib.items d first (f :: fs) s (lead ws first (p.text ++ rest)))
  surplus {p : Padded} {rest : List Char} (ws : Blanks) (first : Bool) (s : σ) : Value p.core → Stops rest →
    Fails (lib.items d first [] s (lead ws first (p.text ++ rest)))

/-- A document is one object or one list with nothing but blanks around. -/
structure Documents {σ : Type} (lib : Library) (d : Declaration σ) : Prop where
  object {s : σ} {cs : List Char} (before after : Blanks) :
    lib.members d true [] d.default cs = .ok (s, after.chars) →
    lib.read d (String.ofList (before.chars ++ '\x7b' :: cs)) = .ok s
  brokenObject {cs : List Char} (before : Blanks) : Fails (lib.members d true [] d.default cs) →
    Fails (lib.read d (String.ofList (before.chars ++ '\x7b' :: cs)))
  list {s : σ} {cs : List Char} (before after : Blanks) :
    lib.items d true d.fields d.default cs = .ok (s, after.chars) →
    lib.read d (String.ofList (before.chars ++ '[' :: cs)) = .ok s
  brokenList {cs : List Char} (before : Blanks) : Fails (lib.items d true d.fields d.default cs) →
    Fails (lib.read d (String.ofList (before.chars ++ '[' :: cs)))
  write (s : σ) : (∀ name ∈ d.names, ∀ c ∈ name.toList, Plain c) →
    lib.write d s = "\x7b" ++ ",".intercalate ((d.cells s).map fun c => "\"" ++ c.1 ++ "\":" ++ c.2) ++ "\x7d"

structure Lawful (lib : Library) : Prop where
  scalars : lib.Scalars
  objects {σ : Type} (d : Declaration σ) : lib.Objects d
  lists {σ : Type} (d : Declaration σ) : lib.Lists d
  documents {σ : Type} (d : Declaration σ) : lib.Documents d

end Library

structure Declaration.Fills {σ : Type} (d : Declaration σ) (s : σ) (fill : List String → σ → σ) : Prop where
  nil (a : σ) : fill [] a = a
  cons (name : String) (names : List String) (a : σ) : fill (name :: names) a = fill names (fill [name] a)
  field {f : Field σ} (a : σ) : f ∈ d.fields → fill [f.name] a = f.set (f.get s) a
  other {name : String} (a : σ) : name ∉ d.names → fill [name] a = a

variable {σ : Type} {lib : Library} {d : Declaration σ} {f : Field σ} {fs : List (Field σ)} {s a : σ}
variable {fill : List String → σ → σ} {first : Bool} {seen : List String} {rest : List Char}

def Declaration.Fits (d : Declaration σ) (s : σ) : Prop := ∀ f ∈ d.fields, f.scalar.Fits (f.get s)

namespace Library.Scalars

variable (h : lib.Scalars)

include h

theorem text {k : Scalar} {x : k.Value} (hx : k.Fits x) (hrest : Stops rest) :
    lib.scalar k ((k.text x).toList ++ rest) = .ok (x, rest) := by
  cases k with
  | count => exact h.count hx hrest
  | flag => exact h.flag x rest
  | limit =>
    cases x with
    | none => exact h.none rest
    | some n => exact h.some (h.count (hx n rfl) hrest)

theorem padded {p : Padded} {k : Scalar} {x : k.Value} (hx : k.Fits x) (hp : String.ofList p.core = k.text x)
    (hrest : Stops rest) : lib.scalar k (p.text ++ rest) = .ok (x, p.after.chars ++ rest) := by
  have htext := h.text hx (hrest.append p.after)
  rwa [← hp, String.toList_ofList, ← h.blanks k p.before, ← List.append_assoc, ← List.append_assoc,
    List.append_assoc p.before.chars, ← Padded.text] at htext

theorem read_or_fails {p : Padded} (k : Scalar) (hp : Value p.core) (hrest : Stops rest) :
    (∃ x, lib.scalar k (p.text ++ rest) = .ok (x, p.after.chars ++ rest)) ∨ Fails (lib.scalar k (p.text ++ rest)) := by
  cases hread : lib.scalar k (p.text ++ rest) with
  | error message => exact .inr ⟨message, rfl⟩
  | ok r => exact .inl ⟨r.1, by rw [← h.whole hp hrest hread]⟩

end Library.Scalars

theorem Declaration.exists_field {name : String} (h : name ∈ d.names) : ∃ f ∈ d.fields, name = f.name := by
  obtain ⟨f, hf, rfl⟩ := List.mem_map.1 h
  exact ⟨f, hf, rfl⟩

theorem Declaration.text_eq {text : String} (hf : f ∈ d.fields) (h : (f.name, text) ∈ d.cells s) :
    text = f.scalar.text (f.get s) := by
  obtain ⟨g, hg, heq⟩ := List.mem_map.1 h
  obtain ⟨hname, rfl⟩ := Prod.mk.inj heq
  rw [List.inj_on_of_nodup_map d.distinct hg hf hname]

def Declaration.note (d : Declaration σ) (key : String) (seen : List String) : List String :=
  if key ∈ d.names then key :: seen else seen

theorem Declaration.count_note {name key : String} (h : name ∈ d.names) :
    (d.note key seen).count name = (key :: seen).count name := by
  unfold note
  split
  · rfl
  next hkey =>
    rw [List.count_cons_of_ne]
    rintro rfl
    exact hkey h

section

variable {e : Entry} {es : List Entry} (h : lib.Lawful) (ws : Blanks)

include h

theorem members_entry (hfill : d.Fills s fill) (hfits : d.Fits s) (hcell : e.key ∈ d.names → e.cell ∈ d.cells s)
    (hother : e.key ∉ d.names → Value e.value.core) (hnew : e.key ∈ d.names → e.key ∉ seen) (hrest : Stops rest) :
    lib.members d first seen a (lead ws first (e.text ++ rest)) =
      lib.members d false (d.note e.key seen) (fill [e.key] a) (e.value.after.chars ++ rest) := by
  by_cases hkey : e.key ∈ d.names
  · obtain ⟨f, hf, hname⟩ := d.exists_field hkey
    have hmem : (f.name, String.ofList e.value.core) ∈ d.cells s := by
      rw [← hname]
      exact hcell hkey
    have htext := d.text_eq hf hmem
    have hread := h.scalars.padded (hfits f hf) htext hrest
    rw [Declaration.note, if_pos hkey, hname, hfill.field a hf]
    exact (h.objects d).field ws first a hf hname (hname ▸ hnew hkey) hread
  · rw [Declaration.note, if_neg hkey, hfill.other a hkey]
    exact (h.objects d).other ws first a hkey (h.scalars.ignored (hother hkey) hrest)

theorem members_joined (hfill : d.Fills s fill) (hfits : d.Fits s)
    (hcells : ∀ e ∈ es, e.key ∈ d.names → e.cell ∈ d.cells s)
    (hothers : ∀ e ∈ es, e.key ∉ d.names → Value e.value.core)
    (honce : ∀ name ∈ d.names, (seen ++ es.map Entry.key).count name ≤ 1) :
    lib.members d first seen a (ws.chars ++ (joined first (es.map fun e => e.text) ++ '\x7d' :: rest)) =
      .ok (fill (es.map Entry.key) a, rest) := by
  -- A field moves from the names to come to those seen, so that its count is the same at every step.
  induction es generalizing first seen a ws with
  | nil =>
    rw [List.map_nil, List.map_nil, joined_nil, hfill.nil]
    exact (h.objects d).close ws first seen a rest
  | cons e es ih =>
    have hstop : Stops (joined false (es.map fun e => e.text) ++ '\x7d' :: rest) := stops_joined (by decide) _ rest
    have hnew : e.key ∈ d.names → e.key ∉ seen := by
      intro hkey hseen
      have hcount := honce e.key hkey
      have := List.count_pos_iff.2 hseen
      rw [List.count_append, List.map_cons, List.count_cons_self] at hcount
      omega
    have hcell := hcells e List.mem_cons_self
    have hother := hothers e List.mem_cons_self
    rw [List.map_cons, joined_cons, members_entry h ws hfill hfits hcell hother hnew hstop, List.map_cons,
      hfill.cons e.key (es.map Entry.key) a]
    apply ih e.value.after (fun e' he => hcells e' (List.mem_cons_of_mem e he))
      fun e' he => hothers e' (List.mem_cons_of_mem e he)
    intro name hname
    have hcount := honce name hname
    rw [List.count_append, List.map_cons, List.count_cons] at hcount
    rw [List.count_append, d.count_note hname, List.count_cons]
    omega

theorem members_again (hvalues : ∀ e ∈ es, Value e.value.core) {name : String} (hname : name ∈ d.names)
    (hseen : seen.count name ≤ 1) (hcount : 1 < (seen ++ es.map Entry.key).count name) :
    Library.Fails (lib.members d first seen a
      (ws.chars ++ (joined first (es.map fun e => e.text) ++ '\x7d' :: rest))) := by
  induction es generalizing first seen a ws with
  | nil =>
    rw [List.map_nil, List.append_nil] at hcount
    exact absurd hcount (Nat.not_lt.2 hseen)
  | cons e es ih =>
    have hstop : Stops (joined false (es.map fun e => e.text) ++ '\x7d' :: rest) := stops_joined (by decide) _ rest
    have hvalue := hvalues e List.mem_cons_self
    have hnext {seen' : List String} (hseen' : seen'.count name ≤ 1)
        (heq : seen'.count name = (e.key :: seen).count name) (a : σ) :
        Library.Fails (lib.members d false seen' a
          (e.value.after.chars ++ (joined false (es.map fun e => e.text) ++ '\x7d' :: rest))) := by
      refine ih e.value.after (fun e' he => hvalues e' (List.mem_cons_of_mem e he)) hseen' ?_
      rw [List.map_cons, List.count_append, List.count_cons] at hcount
      rw [List.count_append, heq, List.count_cons]
      omega
    rw [List.map_cons, joined_cons]
    by_cases hkey : e.key ∈ d.names
    case neg =>
      have hne : e.key ≠ name := fun heq => hkey (heq ▸ hname)
      rw [(h.objects d).other ws first a hkey (h.scalars.ignored hvalue hstop)]
      exact hnext hseen (List.count_cons_of_ne hne).symm a
    obtain ⟨f, hf, hkey⟩ := d.exists_field hkey
    by_cases hold : f.name ∈ seen
    · exact (h.objects d).again ws first a _ hf hkey hold
    obtain ⟨x, hread⟩ | hfails := h.scalars.read_or_fails f.scalar hvalue hstop
    · rw [(h.objects d).field ws first a hf hkey hold hread, ← hkey]
      refine hnext ?_ rfl _
      rw [List.count_cons]
      split
      next heq =>
        rw [beq_iff_eq] at heq
        have hnone := List.count_eq_zero_of_not_mem hold
        rw [← heq, hkey]
        omega
      · exact hseen
    · exact (h.objects d).unread ws first a hf hkey hfails

end

section

variable {items : List Padded} (h : lib.Lawful) (ws : Blanks)

include h

theorem items_joined (hfill : d.Fills s fill) (hfits : d.Fits s) (hfs : ∀ f ∈ fs, f ∈ d.fields)
    (hitems : items.map (fun p => String.ofList p.core) = fs.map fun f => f.scalar.text (f.get s))
    (fs' : List (Field σ)) :
    lib.items d first (fs ++ fs') a (ws.chars ++ (joined first (items.map Padded.text) ++ ']' :: rest)) =
      .ok (fill (fs.map Field.name) a, rest) := by
  induction items generalizing first fs a ws with
  | nil =>
    obtain rfl := List.map_eq_nil_iff.1 hitems.symm
    rw [List.map_nil, List.map_nil, joined_nil, hfill.nil]
    exact (h.lists d).close ws first fs' a rest
  | cons p items ih =>
    obtain ⟨f, fs, rfl, hp, htexts⟩ := List.map_eq_cons_iff.1 hitems.symm
    have hstop : Stops (joined false (items.map Padded.text) ++ ']' :: rest) := stops_joined (by decide) _ rest
    have hf := hfs f List.mem_cons_self
    have hread := h.scalars.padded (hfits f hf) hp.symm hstop
    rw [List.map_cons, joined_cons, List.cons_append, (h.lists d).field ws first _ a hread, ← hfill.field a hf,
      List.map_cons, hfill.cons f.name (fs.map Field.name) a]
    exact ih p.after (fun g hg => hfs g (List.mem_cons_of_mem f hg)) htexts.symm

theorem items_surplus (hvalues : ∀ p ∈ items, Value p.core) (hlen : fs.length < items.length) :
    Library.Fails (lib.items d first fs a (ws.chars ++ (joined first (items.map Padded.text) ++ ']' :: rest))) := by
  induction items generalizing first fs a ws with
  | nil => cases hlen
  | cons p items ih =>
    have hstop : Stops (joined false (items.map Padded.text) ++ ']' :: rest) := stops_joined (by decide) _ rest
    have hvalue := hvalues p List.mem_cons_self
    rw [List.map_cons, joined_cons]
    cases fs with
    | nil => exact (h.lists d).surplus ws first a hvalue hstop
    | cons f fs =>
      obtain ⟨x, hread⟩ | hfails := h.scalars.read_or_fails f.scalar hvalue hstop
      · rw [(h.lists d).field ws first fs a hread]
        exact ih p.after (fun q hq => hvalues q (List.mem_cons_of_mem p hq)) (Nat.lt_of_succ_lt_succ hlen)
      · exact (h.lists d).unread ws first fs a hvalue hstop hfails

end

def Entry.plain (cell : String × String) (h : ∀ c ∈ cell.1.toList, Plain c) : Entry where
  name := ⟨.none, cell.1.toList, .none⟩
  value := ⟨.none, cell.2.toList, .none⟩
  key := cell.1
  spelled := .of_plain h

theorem Entry.cell_plain (cell : String × String) (h : ∀ c ∈ cell.1.toList, Plain c) :
    (Entry.plain cell h).cell = cell := by
  rw [Entry.cell, Entry.plain, String.ofList_toList]

section

variable {cells : List (String × String)} (h : ∀ cell ∈ cells, ∀ c ∈ cell.1.toList, Plain c)

def ObjectDocument.written : ObjectDocument := ⟨.none, .none, cells.pmap Entry.plain h, .none⟩

theorem ObjectDocument.text_written : (ObjectDocument.written h).text =
    "\x7b" ++ ",".intercalate (cells.map fun c => "\"" ++ c.1 ++ "\":" ++ c.2) ++ "\x7d" := by
  have hmembers : ((cells.pmap Entry.plain h).map Entry.toMember).map Member.text =
      (cells.map fun c => "\"" ++ c.1 ++ "\":" ++ c.2).map String.toList := by
    rw [List.map_pmap, List.map_pmap, List.map_map, ← List.pmap_eq_map h]
    apply List.pmap_congr_left
    intro cell _ hcell _
    simp [Entry.plain, Member.text, Padded.text, Blanks.none]
  apply String.toList_inj.1
  rw [text, String.toList_ofList, Padded.text, objectText, written, hmembers]
  simp [Blanks.none, String.toList_intercalate]

theorem ObjectDocument.cells_written : (ObjectDocument.written h).cells = cells := by
  rw [ObjectDocument.cells, written, List.map_pmap]
  simp only [Entry.cell_plain]
  exact (List.pmap_eq_map h).trans (List.map_id' cells)

end

/-- How documents are read when `cells` has the fields of `s` as they are written, and `fill` makes given fields what
they are in `s`. -/
structure Documented (parse : String → Except Refusal σ) (default s : σ) (written : String)
    (cells : List (String × String)) (fill : List String → σ → σ) : Prop where
  written : parse written = .ok s
  object (d : ObjectDocument) : (∀ e ∈ d.entries, e.key ∈ cells.map Prod.fst → e.cell ∈ cells) →
    (∀ e ∈ d.entries, e.key ∉ cells.map Prod.fst → Value e.value.core) →
    (∀ name ∈ cells.map Prod.fst, d.keys.count name ≤ 1) → parse d.text = .ok (fill d.keys default)
  list (d : ListDocument) (k : Nat) : d.values = (cells.take k).map Prod.snd →
    parse d.text = .ok (fill ((cells.take k).map Prod.fst) default)
  alike (d : ListDocument) (o : ObjectDocument) (k : Nat) : d.values = (cells.take k).map Prod.snd →
    o.cells = cells.take k → parse d.text = parse o.text
  repeated (d : ObjectDocument) (name : String) : (∀ e ∈ d.entries, Value e.value.core) →
    name ∈ cells.map Prod.fst → 1 < d.keys.count name → ∃ message, parse d.text = .error (.settings message)
  excess (d : ListDocument) : (∀ p ∈ d.items, Value p.core) → cells.length < d.items.length →
    ∃ message, parse d.text = .error (.settings message)

theorem Declaration.map_fst_cells (d : Declaration σ) (s : σ) : (d.cells s).map Prod.fst = d.names := by
  rw [cells, names, List.map_map]
  rfl

namespace Library.Lawful

variable (h : lib.Lawful)

include h

theorem read_object (hfill : d.Fills s fill) (hfits : d.Fits s) {o : ObjectDocument}
    (hcells : ∀ e ∈ o.entries, e.key ∈ d.names → e.cell ∈ d.cells s)
    (hothers : ∀ e ∈ o.entries, e.key ∉ d.names → Value e.value.core)
    (honce : ∀ name ∈ d.names, o.keys.count name ≤ 1) : lib.read d o.text = .ok (fill o.keys d.default) := by
  rw [o.text_eq]
  exact (h.documents d).object o.before o.after (members_joined h o.inner hfill hfits hcells hothers honce)

theorem read_list (hfill : d.Fills s fill) (hfits : d.Fits s) {l : ListDocument} (k : Nat)
    (hitems : l.values = ((d.cells s).take k).map Prod.snd) :
    lib.read d l.text = .ok (fill (((d.cells s).take k).map Prod.fst) d.default) := by
  have htexts : l.values = (d.fields.take k).map fun f => f.scalar.text (f.get s) := by
    rw [hitems, Declaration.cells, ← List.map_take, List.map_map]
    rfl
  have hread : lib.items d true (d.fields.take k ++ d.fields.drop k) d.default
      (l.inner.chars ++ (joined true (l.items.map Padded.text) ++ ']' :: l.after.chars)) =
        .ok (fill ((d.fields.take k).map Field.name) d.default, l.after.chars) :=
    items_joined h l.inner hfill hfits (fun f hf => List.mem_of_mem_take hf) htexts (d.fields.drop k)
  rw [List.take_append_drop, List.map_take] at hread
  rw [l.text_eq, List.map_take, d.map_fst_cells]
  exact (h.documents d).list l.before l.after hread

theorem read_first (hfill : d.Fills s fill) (hfits : d.Fits s) {o : ObjectDocument} {k : Nat}
    (ho : o.cells = (d.cells s).take k) :
    lib.read d o.text = .ok (fill (((d.cells s).take k).map Prod.fst) d.default) := by
  have hkeys : o.keys = ((d.cells s).take k).map Prod.fst := by rw [o.keys_eq, ho]
  have hcells : ∀ e ∈ o.entries, e.cell ∈ d.cells s := by
    intro e he
    have hmem : e.cell ∈ o.cells := List.mem_map_of_mem he
    rw [ho] at hmem
    exact List.mem_of_mem_take hmem
  rw [← hkeys]
  apply h.read_object hfill hfits (fun e he _ => hcells e he)
  · intro e he hother
    exact absurd (d.map_fst_cells s ▸ List.mem_map_of_mem (hcells e he)) hother
  · intro name _
    rw [hkeys, List.map_take, d.map_fst_cells]
    exact List.nodup_iff_count_le_one.1 (d.distinct.sublist (List.take_sublist k _)) name

theorem documented (hfill : d.Fills s fill) (hfits : d.Fits s) (hall : fill d.names d.default = s)
    (hplain : ∀ name ∈ d.names, ∀ c ∈ name.toList, Plain c) :
    Documented (fun text => (lib.read d text).mapError .settings) d.default s (lib.write d s) (d.cells s) fill := by
  have hnames := d.map_fst_cells s
  have hfails {text : String} (hread : Fails (lib.read d text)) :
      ∃ message, (lib.read d text).mapError .settings = .error (Refusal.settings message) := by
    obtain ⟨message, hread⟩ := hread
    exact ⟨message, by rw [hread]; rfl⟩
  constructor
  case written =>
    have hcells : ∀ cell ∈ d.cells s, ∀ c ∈ cell.1.toList, Plain c := by
      intro cell hcell
      exact hplain cell.1 (hnames ▸ List.mem_map_of_mem hcell)
    have hall' : (ObjectDocument.written hcells).cells = (d.cells s).take (d.cells s).length := by
      rw [ObjectDocument.cells_written, List.take_length]
    have hread := h.read_first hfill hfits hall'
    rw [List.take_length, hnames, hall] at hread
    rw [(h.documents d).write s hplain, ← ObjectDocument.text_written hcells, hread]
    rfl
  case object =>
    intro o hcells hothers honce
    rw [hnames] at hcells hothers honce
    rw [h.read_object hfill hfits hcells hothers honce]
    rfl
  case list =>
    intro l k hl
    rw [h.read_list hfill hfits k hl]
    rfl
  case alike =>
    intro l o k hl ho
    rw [h.read_list hfill hfits k hl, h.read_first hfill hfits ho]
  case repeated =>
    intro o name hvalues hname hcount
    apply hfails
    rw [o.text_eq]
    apply (h.documents d).brokenObject
    exact members_again h o.inner hvalues (hnames ▸ hname) (Nat.zero_le 1) hcount
  case excess =>
    intro l hvalues hlen
    apply hfails
    rw [l.text_eq]
    apply (h.documents d).brokenList
    rw [Declaration.cells, List.length_map] at hlen
    exact items_surplus h l.inner hvalues hlen

end Library.Lawful

end EntityStore.Json
