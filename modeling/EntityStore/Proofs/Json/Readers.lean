import EntityStore.Json.Reader
import EntityStore.Proofs.Json.Library
import EntityStore.Proofs.Json.Skip

namespace EntityStore.Json

variable {negated : Bool} {n : Nat} {e : Int} {cs rest : List Char}

theorem exists_of_bind {α β : Type} {r : Except Problem α} {f : α → Except Problem β} {b : β} (h : r >>= f = .ok b) :
    ∃ a, r = .ok a ∧ f a = .ok b := by
  cases r with
  | error p => cases h
  | ok a => exact ⟨a, rfl, h⟩

def NoNatural (r : Except Problem (Number × List Char)) : Prop := ∀ n rest, r ≠ .ok (.natural n, rest)

theorem noNatural_error (p : Problem) : NoNatural (.error p) := fun _ _ h => nomatch h

theorem scaled_float {x : Number} (h : scaled negated n e = .ok x) : ∃ bits, x = .float bits := by
  unfold scaled at h
  extract_lets y last at h
  have hlast : ∀ z, last z = .ok x → ∃ bits, x = .float bits := fun z h => ⟨_, (Except.ok.inj h).symm⟩
  split at h
  · exact hlast _ h
  · split at h
    · split at h
      · cases h
      · exact hlast _ h
    · split at h
      · exact hlast _ h
      · cases h

theorem noNatural_scaled : NoNatural (do return (← scaled negated n e, cs)) := by
  intro m rest h
  obtain ⟨x, hx, h⟩ := exists_of_bind h
  obtain ⟨bits, rfl⟩ := scaled_float hx
  cases h

theorem noNatural_exponent : NoNatural (exponent negated n e cs) := by
  unfold exponent
  split
  next down cs heq =>
    extract_lets digits rest k small last
    have hlast : NoNatural (last ()) := by
      simp only [last]
      split
      · split
        · exact noNatural_error _
        · exact noNatural_scaled
      · exact noNatural_scaled
    split
    · exact noNatural_error _
    · split
      · exact noNatural_error _
      · exact hlast

theorem noNatural_floatEnd : NoNatural (floatEnd negated n e cs) := by
  unfold floatEnd
  split
  · exact noNatural_exponent
  · exact noNatural_exponent
  · exact noNatural_scaled

theorem noNatural_fraction : NoNatural (fraction negated n e cs) := by
  unfold fraction
  split
  extract_lets
  split
  · exact noNatural_floatEnd
  · split
    · exact noNatural_error _
    · exact noNatural_floatEnd

theorem noNatural_longEnd : NoNatural (longEnd negated n cs) := by
  unfold longEnd
  extract_lets
  split
  · exact noNatural_fraction
  · exact noNatural_floatEnd

variable {m : Nat}

theorem numberEnd_natural (h : numberEnd negated n cs = .ok (.natural m, rest)) :
    negated = false ∧ skipFraction cs = .ok rest := by
  unfold numberEnd at h
  split at h
  · exact absurd h (noNatural_fraction m rest)
  · exact absurd h (noNatural_exponent m rest)
  · exact absurd h (noNatural_exponent m rest)
  next cs hpoint hsmall hlarge =>
    cases negated with
    | true =>
      rw [if_neg (by decide)] at h
      split at h
      · exact absurd h (noNatural_scaled m rest)
      · cases h
    | false =>
      rw [if_pos (by decide)] at h
      cases h
      refine ⟨rfl, ?_⟩
      rw [skipFraction, skipExponent]
      · exact hsmall
      · exact hlarge
      · exact hpoint

theorem significand_rest (h : (significand n cs).2.head?.any Char.isDigit = false) :
    (significand n cs).2 = cs.dropWhile Char.isDigit := by
  induction cs generalizing n with
  | nil => rfl
  | cons c cs ih =>
    rw [significand] at h ⊢
    split
    next hc =>
      rw [if_pos hc] at h
      rw [List.dropWhile_cons_of_pos (Bool.and_eq_true_iff.1 hc).1]
      exact ih h
    next hc =>
      rw [if_neg hc] at h
      exact (not_isDigit_dropWhile h).symm

theorem number_natural (h : number negated cs = .ok (.natural m, rest)) :
    negated = false ∧ skipNumber cs = .ok rest := by
  unfold number at h
  split at h
  · cases h
  next cs =>
    split at h
    · cases h
    next hhead =>
      rw [skipNumber, if_neg hhead]
      exact numberEnd_natural h
  next c cs hzero =>
    split at h
    · cases h
    next hc =>
      split at h
      next k tail hsig =>
      split at h
      · exact absurd h (noNatural_longEnd m rest)
      next htail =>
        have hd : c.isDigit := by simpa using hc
        have hrest : tail = cs.dropWhile Char.isDigit := by
          have hstop : (significand (digitValue c) cs).2.head?.any Char.isDigit = false := by simpa [hsig] using htail
          simpa [hsig] using significand_rest hstop
        have hdigits : skipDigits (c :: cs) = .ok tail := by
          rw [skipDigits, if_pos (by simpa using hd), List.dropWhile_cons_of_pos hd, hrest]
        obtain ⟨hnegated, hskip⟩ := numberEnd_natural h
        refine ⟨hnegated, ?_⟩
        rw [skipNumber, hdigits]
        · exact hskip
        · exact fun _ h => hzero (List.cons.inj h).1

structure Reads {α : Type} (read : List Char → Except Problem (α × List Char)) : Prop where
  blanks {cs cs' : List Char} : skipBlanks cs = skipBlanks cs' → read cs = read cs'
  skips {cs rest : List Char} {a : α} (fuel : Nat) : read cs = .ok (a, rest) → skipValue (fuel + 1) cs = .ok rest

namespace Reads

variable {α : Type} {read : List Char → Except Problem (α × List Char)}

theorem rest_eq (h : Reads read) {p : Padded} {rest cs : List Char} {a : α} (hv : Value p.core)
    (hrest : Stops rest) (ha : read (p.text ++ rest) = .ok (a, cs)) : cs = p.after.chars ++ rest := by
  have hskip := hv.skips.padded hrest (Nat.le_succ (2 * p.text.length))
  exact Except.ok.inj ((h.skips _ ha).symm.trans hskip)

end Reads

theorem count_natural (h : count cs = .ok (n, rest)) : ∃ c cs', skipBlanks cs = c :: cs' ∧ c.isDigit ∧
    number false (c :: cs') = .ok (.natural n, rest) := by
  unfold count at h
  extract_lets natural at h
  have hnatural {negated : Bool} {cs : List Char} (h : natural (number negated cs) = .ok (n, rest)) :
      number negated cs = .ok (.natural n, rest) := by
    cases hr : number negated cs with
    | error p =>
      rw [hr] at h
      cases h
    | ok r =>
      obtain ⟨x, tail⟩ := r
      rw [hr] at h
      cases x <;> cases h
      rfl
  split at h
  · cases h
  · exact nomatch (number_natural (hnatural h)).1
  next c cs' hminus heq =>
    split at h
    next hd => exact ⟨c, cs', heq, hd, hnatural h⟩
    · cases h

theorem reads_count : Reads count where
  blanks h := by rw [count, count, h]
  skips {cs rest n} fuel h := by
    obtain ⟨c, cs', heq, hd, hnumber⟩ := count_natural h
    rw [← skipValue_blanks (skipBlanks_idem cs), heq, skipValue_digit hd]
    exact (number_natural hnumber).2

theorem reads_count? : Reads count? where
  blanks h := by
    unfold count?
    rw [h]
  skips {cs rest r} fuel h := by
    rw [← skipValue_blanks (skipBlanks_idem cs)]
    unfold count? at h
    split at h
    next cs' heq =>
      obtain ⟨tail, hword, h⟩ := exists_of_bind h
      cases h
      rw [heq, skipValue, skipBlanks_cons rfl]
      exact hword
    · obtain ⟨⟨n, tail⟩, hcount, h⟩ := exists_of_bind h
      cases h
      exact reads_count.skips fuel hcount

theorem reads_boolean : Reads boolean where
  blanks h := by rw [boolean, boolean, h]
  skips {cs rest b} fuel h := by
    rw [← skipValue_blanks (skipBlanks_idem cs)]
    unfold boolean at h
    split at h
    case h_2 cs' heq | h_3 cs' heq =>
      obtain ⟨tail, hword, h⟩ := exists_of_bind h
      cases h
      rw [heq, skipValue, skipBlanks_cons rfl]
      exact hword
    all_goals cases h

theorem exists_digits (n : Nat) : ∃ d ds, (toString n).toList = d :: ds ∧ d.isDigit := by
  obtain ⟨d, ds, hn⟩ := List.exists_cons_of_ne_nil (Nat.toDigits_ne_nil (b := 10) (n := n))
  refine ⟨d, ds, by rw [Nat.toString_eq_repr, Nat.toList_repr, hn], ?_⟩
  exact Nat.isDigit_of_mem_toDigits (b := 10) (n := n) (by decide) (by decide) (hn ▸ List.mem_cons_self)

theorem count_toString (hn : n < 1 <<< 64) (hrest : Stops rest) :
    count ((toString n).toList ++ rest) = .ok (n, rest) := by
  have hread : number false ((toString n).toList ++ rest) = .ok (.natural n, rest) := by
    rw [Nat.toString_eq_repr, Nat.toList_repr]
    exact number_toDigits hn hrest
  obtain ⟨d, ds, hds, hd⟩ := exists_digits n
  rw [hds, List.cons_append] at hread ⊢
  unfold count
  rw [skipBlanks_cons (isBlank_digit hd)]
  split
  next h => cases h
  next h =>
    cases h
    cases hd
  next h =>
    cases h
    rw [if_pos hd, hread]

theorem count?_of_count (h : count cs = .ok (n, rest)) : count? cs = .ok (some n, rest) := by
  obtain ⟨c, cs', heq, hd, -⟩ := count_natural h
  unfold count?
  split
  next hnull =>
    rw [heq] at hnull
    cases hnull
    cases hd
  next hnull => rw [reads_count.blanks (skipBlanks_idem cs), h]; rfl

theorem reads_scalar (k : Scalar) : Reads (scalar k) := by
  cases k with
  | count => exact reads_count
  | limit => exact reads_count?
  | flag => exact reads_boolean

section

variable {α : Type} {r : Except Problem α}

theorem mapError_ok {a : α} : r.mapError Problem.message = .ok a ↔ r = .ok a := by
  cases r <;> simp [Except.mapError]

theorem fails_mapError : Library.Fails (r.mapError Problem.message) ↔ ∃ p, r = .error p := by
  cases r <;> simp [Except.mapError, Library.Fails]

theorem skipBlanks_lead_true (ws : Blanks) (cs : List Char) : skipBlanks (lead ws true cs) = skipBlanks cs :=
  skipBlanks_append ws cs

theorem skipBlanks_lead_false (ws : Blanks) (cs : List Char) : skipBlanks (lead ws false cs) = ',' :: cs := by
  rw [lead, skipBlanks_append, skipBlanks_cons rfl]

end

theorem scalars_library : library.Scalars where
  count hn hrest := mapError_ok.2 (count_toString hn hrest)
  none rest := rfl
  some hcount := mapError_ok.2 (count?_of_count (mapError_ok.1 hcount))
  flag b rest := by cases b <;> rfl
  blanks k ws cs := congrArg (Except.mapError Problem.message) ((reads_scalar k).blanks (skipBlanks_append ws cs))
  whole hp hrest hread := (reads_scalar _).rest_eq hp hrest (mapError_ok.1 hread)
  ignored hp hrest := mapError_ok.2 (skip_value hp hrest)

variable {σ : Type} {d : Declaration σ} {f : Field σ} {fs : List (Field σ)} {s : σ} {ws : Blanks} {first : Bool}
variable {fuel : Nat}

theorem elements_item (hstart : skipValue fuel cs = .ok rest) :
    elements first (f :: fs) s (lead ws first cs) = (do
      let (x, cs) ← scalar f.scalar cs
      elements false fs (f.set x s) cs) := by
  have hne : skipBlanks cs ≠ [] := fun h => absurd hstart (skipValue_ends (.inl h))
  have hopen (cs' : List Char) : skipBlanks cs ≠ ']' :: cs' := fun h =>
    absurd hstart (skipValue_ends (.inr (by rw [h]; rfl)))
  have hread : scalar f.scalar (skipBlanks cs) = scalar f.scalar cs :=
    (reads_scalar f.scalar).blanks (skipBlanks_idem cs)
  rw [elements]
  cases first with
  | true =>
    rw [skipBlanks_lead_true]
    split
    next h => exact absurd h hne
    next h => exact absurd h (hopen _)
    next h =>
      rw [if_pos rfl, ← h]
      simp only [hread]
  | false =>
    rw [skipBlanks_lead_false]
    simp only [Bool.false_eq_true, if_false]
    split
    next h => cases h
    next h => cases h
    next h =>
      cases h
      rw [if_pos rfl]
      split
      next h => exact absurd h hne
      next h => exact absurd h (hopen _)
      next h => rw [hread]

theorem items_item (hstart : skipValue fuel cs = .ok rest) :
    items first (f :: fs) s (lead ws first cs) = (do
      let (x, cs) ← scalar f.scalar cs
      items false fs (f.set x s) cs) := by
  rw [items, elements_item hstart]
  cases scalar f.scalar cs <;> rfl

theorem elementsEnd_close (ws : Blanks) : elementsEnd (ws.chars ++ ']' :: rest) = .ok rest := by
  rw [elementsEnd, skipBlanks_append, skipBlanks_cons rfl]
  rfl

theorem items_close : items first fs s (ws.chars ++ ']' :: rest) = .ok (s, rest) := by
  cases fs with
  | nil =>
    rw [items, elements]
    exact congrArg (· >>= fun cs => pure (s, cs)) (elementsEnd_close ws)
  | cons f fs =>
    have hclose : elements first (f :: fs) s (ws.chars ++ ']' :: rest) = .ok (s, ']' :: rest) := by
      rw [elements, skipBlanks_append, skipBlanks_cons rfl]
      rfl
    rw [items, hclose]
    exact congrArg (· >>= fun cs => pure (s, cs)) (elementsEnd_close .none)

theorem items_surplus_error (hstart : skipValue fuel cs = .ok rest) :
    ∃ p, items first ([] : List (Field σ)) s (lead ws first cs) = .error p := by
  have hend : ∃ p, elementsEnd (lead ws first cs) = .error p := by
    rw [elementsEnd]
    cases first with
    | true =>
      rw [skipBlanks_lead_true]
      split
      next h => exact absurd hstart (skipValue_ends (.inl h))
      next h => exact absurd hstart (skipValue_ends (.inr (by rw [h]; rfl)))
      · split <;> exact ⟨_, rfl⟩
      · exact ⟨_, rfl⟩
    | false =>
      rw [skipBlanks_lead_false]
      simp only
      split <;> exact ⟨_, rfl⟩
  obtain ⟨p, hp⟩ := hend
  exact ⟨p, congrArg (· >>= fun cs => pure (s, cs)) hp⟩

theorem lists_library (d : Declaration σ) : library.Lists d where
  close ws first fs s rest := mapError_ok.2 items_close
  field ws first fs s hread := by
    have hread := mapError_ok.1 hread
    change Except.mapError _ _ = Except.mapError _ _
    rw [items_item ((reads_scalar _).skips 0 hread), hread]
    rfl
  unread ws first fs s hp hrest hfails := by
    obtain ⟨problem, hread⟩ := fails_mapError.1 hfails
    apply fails_mapError.2
    rw [items_item (hp.skips.padded hrest (Nat.le_refl _)), hread]
    exact ⟨problem, rfl⟩
  surplus ws first s hp hrest := fails_mapError.2 (items_surplus_error (hp.skips.padded hrest (Nat.le_refl _)))

def Entry.tail (e : Entry) (rest : List Char) : List Char :=
  e.name.core ++ '"' :: (e.name.after.chars ++ ':' :: (e.value.text ++ rest))

theorem Entry.text_append (e : Entry) (rest : List Char) :
    e.text ++ rest = e.name.before.chars ++ '"' :: e.tail rest := by
  simp [Member.text, Entry.tail]

variable {e : Entry} {seen : List String}

theorem length_tail_lt (e : Entry) (ws : Blanks) (first : Bool) (rest : List Char) :
    (e.value.after.chars ++ rest).length < (lead ws first (e.text ++ rest)).length := by
  have hlen : (e.value.after.chars ++ rest).length < (e.text ++ rest).length := by
    simp only [Member.text, Padded.text, List.length_append, List.length_cons]
    omega
  cases first <;> simp only [lead, List.length_append, List.length_cons] at hlen ⊢ <;> omega

theorem find?_field (hf : f ∈ d.fields) (hkey : e.key = f.name) : d.fields.find? (·.name == e.key) = some f := by
  cases hfind : d.fields.find? (·.name == e.key) with
  | none => exact absurd (beq_iff_eq.2 hkey.symm) (List.find?_eq_none.1 hfind f hf)
  | some g =>
    have hname : g.name = e.key := by simpa using List.find?_some hfind
    rw [List.inj_on_of_nodup_map d.distinct (List.mem_of_find?_eq_some hfind) hf (hname.trans hkey)]

theorem find?_other (hkey : e.key ∉ d.names) : d.fields.find? (·.name == e.key) = none := by
  rw [List.find?_eq_none]
  intro f hf hname
  exact hkey (beq_iff_eq.1 hname ▸ List.mem_map_of_mem hf)

theorem member_field (hf : f ∈ d.fields) (hkey : e.key = f.name) :
    member d seen s (e.tail rest) =
      if f.name ∈ seen then .error (.repeatedField f.name)
      else do
        let (x, cs) ← scalar f.scalar (e.value.text ++ rest)
        return ((f.name :: seen, f.set x s), cs) := by
  rw [member, Entry.tail, string_append e.spelled]
  simp only [bind, Except.bind, find?_field hf hkey]
  simp only [colon_append, List.contains_eq_mem, decide_eq_true_eq, hkey]
  split <;> rfl

theorem member_other (hkey : e.key ∉ d.names) :
    member d seen s (e.tail rest) = do return ((seen, s), ← skip (e.value.text ++ rest)) := by
  rw [member, Entry.tail, string_append e.spelled]
  simp only [bind, Except.bind, find?_other hkey, colon_append]

theorem members_entry_eq : members d first seen s (lead ws first (e.text ++ rest)) = (do
    let ((seen, s), cs) ← member d seen s (e.tail rest)
    if cs.length < (lead ws first (e.text ++ rest)).length then members d false seen s cs
    else throw (.ended .object)) := by
  have hname : skipBlanks (e.text ++ rest) = '"' :: e.tail rest := by
    rw [e.text_append, skipBlanks_append, skipBlanks_cons rfl]
  rw [members]
  cases first with
  | true =>
    rw [skipBlanks_lead_true, hname]
    rfl
  | false =>
    rw [skipBlanks_lead_false]
    simp only [Bool.false_eq_true, if_false]
    split
    next h => cases h
    next h => cases h
    next h =>
      cases h
      rw [if_pos rfl, hname]
      rfl

theorem members_close : members d first seen s (ws.chars ++ '\x7d' :: rest) = .ok (s, rest) := by
  rw [members, skipBlanks_append, skipBlanks_cons rfl]
  rfl

theorem objects_library (d : Declaration σ) : library.Objects d where
  close ws first seen s rest := mapError_ok.2 members_close
  field ws first s hf hkey hnew hread := by
    have hread := mapError_ok.1 hread
    change Except.mapError _ _ = Except.mapError _ _
    rw [members_entry_eq, member_field hf hkey, if_neg hnew, hread]
    exact congrArg _ (if_pos (length_tail_lt _ ws first _))
  unread ws first s hf hkey hfails := by
    obtain ⟨problem, hread⟩ := fails_mapError.1 hfails
    apply fails_mapError.2
    rw [members_entry_eq, member_field hf hkey, hread]
    split <;> exact ⟨_, rfl⟩
  again ws first s rest hf hkey hseen := by
    apply fails_mapError.2
    rw [members_entry_eq, member_field hf hkey, if_pos hseen]
    exact ⟨_, rfl⟩
  other ws first s hkey hskip := by
    have hskip := mapError_ok.1 hskip
    change Except.mapError _ _ = Except.mapError _ _
    rw [members_entry_eq, member_other hkey, hskip]
    exact congrArg _ (if_pos (length_tail_lt _ ws first _))

theorem value_blanks (ws : Blanks) (cs : List Char) : value d (ws.chars ++ cs) = value d cs := by
  rw [value, skipBlanks_append, value]

theorem parse_ok {before after : Blanks} (h : value d cs = .ok (s, after.chars)) :
    parse d (String.ofList (before.chars ++ cs)) = .ok s := by
  have hblank : skipBlanks after.chars = [] := by
    rw [← List.append_nil after.chars, skipBlanks_append]
    rfl
  rw [parse, String.toList_ofList, value_blanks, h]
  simp only [bind, Except.bind, hblank]
  rfl

theorem parse_error {before : Blanks} {p : Problem} (h : value d cs = .error p) :
    parse d (String.ofList (before.chars ++ cs)) = .error p := by
  rw [parse, String.toList_ofList, value_blanks, h]
  rfl

theorem documents_library (d : Declaration σ) : library.Documents d where
  object before after h := mapError_ok.2 (parse_ok (mapError_ok.1 h))
  brokenObject before h := by
    obtain ⟨problem, h⟩ := fails_mapError.1 h
    exact fails_mapError.2 ⟨problem, parse_error h⟩
  list before after h := mapError_ok.2 (parse_ok (mapError_ok.1 h))
  brokenList before h := by
    obtain ⟨problem, h⟩ := fails_mapError.1 h
    exact fails_mapError.2 ⟨problem, parse_error h⟩
  write s _ := rfl

theorem lawful_library : library.Lawful where
  scalars := scalars_library
  objects := objects_library
  lists := lists_library
  documents := documents_library

end EntityStore.Json
