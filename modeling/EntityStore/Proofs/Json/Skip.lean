import EntityStore.Proofs.Json.Tokens

/-! Values are skipped to their very ends, however deep they nest, and nothing that follows them is touched. -/

namespace EntityStore.Json

variable {rest : List Char}

theorem not_isDigit_dropWhile {cs : List Char} (h : cs.head?.any Char.isDigit = false) :
    cs.dropWhile Char.isDigit = cs := by
  cases cs with
  | nil => rfl
  | cons c cs => exact List.dropWhile_cons_of_neg (by simpa using h)

theorem skipDigits_append {d : Char} {ds : List Char} (hds : ∀ c ∈ d :: ds, c.isDigit)
    (hrest : rest.head?.any Char.isDigit = false) : skipDigits (d :: (ds ++ rest)) = .ok rest := by
  have hd : (d :: ds ++ rest).head?.any Char.isDigit := by simpa using hds d List.mem_cons_self
  rw [← List.cons_append, skipDigits, if_pos hd, List.dropWhile_append_of_pos hds, not_isDigit_dropWhile hrest]

theorem skipExponent_stop (hrest : Stops rest) : skipExponent rest = .ok rest := by
  rw [skipExponent.eq_def]
  split
  · exact absurd (hrest _ rfl).2 (by decide)
  · exact absurd (hrest _ rfl).2 (by decide)
  · rfl

theorem skipExponent_unsigned {e d : Char} {cs : List Char} (he : e ∈ ['e', 'E']) (hd : d.isDigit) :
    skipExponent (e :: d :: cs) = skipDigits (d :: cs) := by
  have hsign : d ≠ '+' ∧ d ≠ '-' := by constructor <;> rintro rfl <;> revert hd <;> decide
  simp only [List.mem_cons, List.not_mem_nil, or_false] at he
  rcases he with rfl | rfl <;> simp [skipExponent, hsign]

theorem skipExponent_signed {e c : Char} {cs : List Char} (he : e ∈ ['e', 'E']) (hc : c = '+' ∨ c = '-') :
    skipExponent (e :: c :: cs) = skipDigits cs := by
  simp only [List.mem_cons, List.not_mem_nil, or_false] at he
  rcases he with rfl | rfl <;> rcases hc with rfl | rfl <;> rfl

theorem skipExponent_append {e : List Char} (he : Exponent e) (hrest : Stops rest) :
    skipExponent (e ++ rest) = .ok rest := by
  cases he with
  | none => exact skipExponent_stop hrest
  | digits he hsign hds =>
    have hskip := skipDigits_append hds hrest.head
    simp only [List.mem_cons, List.not_mem_nil, or_false] at hsign
    rcases hsign with rfl | rfl | rfl
    · exact (skipExponent_unsigned he (hds _ List.mem_cons_self)).trans hskip
    · exact (skipExponent_signed he (.inl rfl)).trans hskip
    · exact (skipExponent_signed he (.inr rfl)).trans hskip

theorem Exponent.head {e : List Char} (he : Exponent e) (hrest : Stops rest) :
    ∀ c ∈ (e ++ rest).head?, c.isDigit = false ∧ c ≠ '.' := by
  cases he with
  | none =>
    intro c hc
    obtain ⟨hd, hmem⟩ := hrest c hc
    exact ⟨by simpa using hd, fun h => hmem (h ▸ List.mem_cons_self)⟩
  | digits he hsign hds =>
    have hletter : ∀ c ∈ ['e', 'E'], c.isDigit = false ∧ c ≠ '.' := by simp
    intro c hc
    cases hc
    exact hletter _ he

theorem Fraction.head {f e : List Char} (hf : Fraction f) (he : Exponent e) (hrest : Stops rest) :
    (f ++ (e ++ rest)).head?.any Char.isDigit = false := by
  cases hf with
  | none => exact any_isDigit_head? fun c hc => (he.head hrest c hc).1
  | digits hds => rfl

theorem skipFraction_append {f e : List Char} (hf : Fraction f) (he : Exponent e) (hrest : Stops rest) :
    skipFraction (f ++ (e ++ rest)) = .ok rest := by
  cases hf with
  | none =>
    rw [List.nil_append, skipFraction.eq_def]
    split
    · next cs heq => exact absurd rfl (he.head hrest '.' (by rw [heq]; rfl)).2
    · exact skipExponent_append he hrest
  | digits hds =>
    have hstop : (e ++ rest).head?.any Char.isDigit = false := Fraction.head .none he hrest
    rw [List.cons_append, skipFraction, List.cons_append, skipDigits_append hds hstop]
    exact skipExponent_append he hrest

theorem skipNumber_append {v : List Char} (hv : Numeral v) (hrest : Stops rest) :
    skipNumber (v ++ rest) = .ok rest := by
  obtain ⟨hw, hf, he⟩ := hv
  have hstop := hf.head he hrest
  rw [List.append_assoc, List.append_assoc]
  cases hw with
  | zero =>
    rw [List.cons_append, List.nil_append, skipNumber, hstop]
    exact skipFraction_append hf he hrest
  | digits hd hds =>
    rw [List.cons_append, skipNumber, skipDigits_append hds hstop]
    · exact skipFraction_append hf he hrest
    · exact fun cs h => hd (List.cons.inj h).1

section

variable {fuel : Nat} {cs : List Char}

theorem skipString_plain {c : Char} (hc : Plain c) (hfuel : 0 < fuel) :
    skipString fuel (c :: cs) = skipString (fuel - 1) cs := by
  obtain ⟨hmin, hquote, hslash⟩ := hc
  cases fuel with
  | zero => exact absurd hfuel (Nat.lt_irrefl 0)
  | succ fuel =>
    rw [skipString, if_neg (Nat.not_lt.2 hmin), Nat.add_sub_cancel]
    · exact hquote
    · exact hslash

theorem skipString_escape {c d : Char} (hc : (c, d) ∈ escapes) (hfuel : 0 < fuel) :
    skipString fuel ('\\' :: c :: cs) = skipString (fuel - 1) cs := by
  cases fuel with
  | zero => exact absurd hfuel (Nat.lt_irrefl 0)
  | succ fuel =>
    rw [skipString, simpleEscape?_eq hc, if_pos Option.isSome_some, Nat.add_sub_cancel]
    exact ne_u_of_escape hc

theorem skipString_unicode {n : Nat} {u : List Char} (hu : Hex n u) (hfuel : 0 < fuel) :
    skipString fuel ('\\' :: 'u' :: (u ++ cs)) = skipString (fuel - 1) cs := by
  cases fuel with
  | zero => exact absurd hfuel (Nat.lt_irrefl 0)
  | succ fuel => rw [skipString, hexUnit_append hu, Nat.add_sub_cancel]

end

theorem skipString_append {t : List Char} (h : Characters t) {fuel : Nat} (hfuel : t.length < fuel) :
    skipString fuel (t ++ '"' :: rest) = .ok rest := by
  have hpos : 0 < fuel := Nat.zero_lt_of_lt hfuel
  induction h generalizing fuel with
  | nil =>
    obtain ⟨fuel, rfl⟩ := Nat.exists_eq_add_of_lt hpos
    rw [List.nil_append, skipString]
  | plain hc ht ih =>
    rw [List.length_cons] at hfuel
    rw [List.cons_append, skipString_plain hc hpos]
    exact ih (by omega) (by omega)
  | escape hc ht ih =>
    obtain ⟨⟨c, d⟩, he, rfl⟩ := List.mem_map.1 hc
    rw [List.length_cons, List.length_cons] at hfuel
    rw [List.cons_append, List.cons_append, skipString_escape he hpos]
    exact ih (by omega) (by omega)
  | unicode hu ht ih =>
    rw [List.length_cons, List.length_cons, List.length_append] at hfuel
    rw [List.cons_append, List.cons_append, List.append_assoc, skipString_unicode hu hpos]
    exact ih (by omega) (by omega)

theorem skipString_quoted {t : List Char} (h : Characters t) :
    skipString ((t ++ '"' :: rest).length + 1) (t ++ '"' :: rest) = .ok rest := by
  apply skipString_append h
  rw [List.length_append]
  omega

theorem colon_append (ws : Blanks) (cs : List Char) : colon (ws.chars ++ ':' :: cs) = .ok cs := by
  rw [colon, skipBlanks_append, skipBlanks_cons rfl]
  rfl

variable {fuel : Nat} {cs : List Char}

theorem skipValue_ends (hend : skipBlanks cs = [] ∨ (skipBlanks cs).head? = some ']') :
    skipValue fuel cs ≠ .ok rest := by
  cases fuel with
  | zero => simp [skipValue]
  | succ fuel =>
    rw [skipValue]
    cases hcs : skipBlanks cs with
    | nil => simp
    | cons c cs' =>
      rw [hcs] at hend
      cases hend.resolve_left (List.cons_ne_nil c cs')
      simp

theorem skipElements_ends (hend : skipBlanks cs = [] ∨ (skipBlanks cs).head? = some ']') :
    skipElements fuel cs ≠ .ok rest := by
  cases fuel with
  | zero => simp [skipElements]
  | succ fuel =>
    cases hr : skipValue fuel cs with
    | error p => simp [skipElements, hr]
    | ok tail => exact absurd hr (skipValue_ends hend)

theorem skipMembers_ends (hend : skipBlanks cs = [] ∨ (skipBlanks cs).head? = some '\x7d') :
    skipMembers fuel cs ≠ .ok rest := by
  cases fuel with
  | zero => simp [skipMembers]
  | succ fuel =>
    rw [skipMembers]
    cases hcs : skipBlanks cs with
    | nil => simp
    | cons c cs' =>
      rw [hcs] at hend
      cases hend.resolve_left (List.cons_ne_nil c cs')
      simp

theorem skipValue_list (h : skipElements fuel cs = .ok rest) : skipValue (fuel + 1) ('[' :: cs) = .ok rest := by
  rw [skipValue, skipBlanks_cons rfl]
  simp only
  split
  next hend => exact absurd h (skipElements_ends (.inl hend))
  next hend => exact absurd h (skipElements_ends (.inr (by rw [hend]; rfl)))
  · rw [skipElements_blanks (skipBlanks_idem cs), h]

theorem skipValue_object (h : skipMembers fuel cs = .ok rest) : skipValue (fuel + 1) ('\x7b' :: cs) = .ok rest := by
  rw [skipValue, skipBlanks_cons rfl]
  simp only
  split
  next hend => exact absurd h (skipMembers_ends (.inl hend))
  next hend => exact absurd h (skipMembers_ends (.inr (by rw [hend]; rfl)))
  · rw [skipMembers_blanks (skipBlanks_idem cs), h]

def Skips (v : List Char) : Prop :=
  ∀ fuel rest, Stops rest → 2 * v.length ≤ fuel → skipValue fuel (v ++ rest) = .ok rest

section

variable {p : Padded} (hp : Skips p.core)

include hp

theorem Skips.padded (hrest : Stops rest) (hfuel : 2 * p.text.length ≤ fuel) :
    skipValue fuel (p.text ++ rest) = .ok (p.after.chars ++ rest) := by
  simp only [Padded.text, List.length_append] at hfuel
  rw [Padded.text, List.append_assoc, List.append_assoc, skipValue_blanks (skipBlanks_append p.before _)]
  exact hp fuel _ (hrest.append p.after) (by omega)

theorem skipElements_item (hfuel : 2 * p.text.length < fuel) :
    skipElements fuel (p.text ++ ',' :: cs) = skipElements (fuel - 1) cs ∧
      skipElements fuel (p.text ++ ']' :: cs) = .ok cs := by
  obtain ⟨fuel, rfl⟩ : ∃ n, fuel = n + 1 := ⟨fuel - 1, by omega⟩
  constructor
  all_goals
    rw [skipElements, hp.padded (Stops.cons rfl (by decide) cs) (by omega)]
    simp only [skipBlanks_append]
    rfl

end

theorem skipElements_joined {p : Padded} {ps : List Padded} (h : ∀ q ∈ p :: ps, Skips q.core)
    (hfuel : 2 * (joined true ((p :: ps).map Padded.text)).length < fuel) :
    skipElements fuel (joined true ((p :: ps).map Padded.text) ++ ']' :: rest) = .ok rest := by
  -- Twice the text pays for the reader of each item and for the step to the next.
  induction ps generalizing p fuel with
  | nil =>
    have hp := h p List.mem_cons_self
    simp only [List.map_cons, List.map_nil, joined, List.append_nil] at hfuel ⊢
    exact (skipElements_item hp hfuel).2
  | cons q ps ih =>
    have hp := h p List.mem_cons_self
    simp only [List.map_cons, joined, List.length_append, List.length_cons] at hfuel
    simp only [List.map_cons, joined, List.append_assoc, List.cons_append]
    rw [(skipElements_item hp (by omega)).1, ← List.append_assoc]
    apply ih fun r hr => h r (List.mem_cons_of_mem p hr)
    simp only [List.map_cons, joined, List.length_append]
    omega

section

variable {m : Member} (hname : Characters m.name.core) (hvalue : Skips m.value.core)

include hname hvalue

theorem skipMembers_member (hfuel : 2 * m.text.length < fuel) :
    skipMembers fuel (m.text ++ ',' :: cs) = skipMembers (fuel - 1) cs ∧
      skipMembers fuel (m.text ++ '\x7d' :: cs) = .ok cs := by
  obtain ⟨fuel, rfl⟩ : ∃ n, fuel = n + 1 := ⟨fuel - 1, by omega⟩
  simp only [Member.text, List.length_append, List.length_cons] at hfuel
  simp only [Member.text, List.append_assoc, List.cons_append]
  constructor
  all_goals
    rw [skipMembers, skipBlanks_append, skipBlanks_cons rfl]
    simp only [skipString_quoted hname, colon_append]
    rw [hvalue.padded (Stops.cons rfl (by decide) cs) (by omega)]
    simp only [skipBlanks_append]
    rfl

end

theorem skipMembers_joined {m : Member} {ms : List Member} (hnames : ∀ n ∈ m :: ms, Characters n.name.core)
    (hvalues : ∀ n ∈ m :: ms, Skips n.value.core)
    (hfuel : 2 * (joined true ((m :: ms).map Member.text)).length < fuel) :
    skipMembers fuel (joined true ((m :: ms).map Member.text) ++ '\x7d' :: rest) = .ok rest := by
  induction ms generalizing m fuel with
  | nil =>
    have hname := hnames m List.mem_cons_self
    have hvalue := hvalues m List.mem_cons_self
    simp only [List.map_cons, List.map_nil, joined, List.append_nil] at hfuel ⊢
    exact (skipMembers_member hname hvalue hfuel).2
  | cons n ms ih =>
    have hname := hnames m List.mem_cons_self
    have hvalue := hvalues m List.mem_cons_self
    simp only [List.map_cons, joined, List.length_append, List.length_cons] at hfuel
    simp only [List.map_cons, joined, List.append_assoc, List.cons_append]
    rw [(skipMembers_member hname hvalue (by omega)).1, ← List.append_assoc]
    apply ih (fun r hr => hnames r (List.mem_cons_of_mem m hr)) (fun r hr => hvalues r (List.mem_cons_of_mem m hr))
    simp only [List.map_cons, joined, List.length_append]
    omega

theorem Skips.of_succ {c : Char} {v : List Char} (h : ∀ fuel rest, Stops rest → 2 * (c :: v).length ≤ fuel + 1 →
    skipValue (fuel + 1) (c :: (v ++ rest)) = .ok rest) : Skips (c :: v) := by
  intro fuel rest hrest hfuel
  cases fuel with
  | zero => cases hfuel
  | succ fuel => exact h fuel rest hrest hfuel

theorem skipValue_digit {d : Char} (hd : d.isDigit) : skipValue (fuel + 1) (d :: cs) = skipNumber (d :: cs) := by
  rw [skipValue, skipBlanks_cons (isBlank_digit hd)]
  split
  case h_9 heq =>
    cases heq
    rw [if_pos hd]
  -- The other texts start with no digit.
  all_goals
    next heq => cases heq <;> exact absurd hd (by decide)

theorem Numeral.exists_digit {v : List Char} (hv : Numeral v) : ∃ d ds, v = d :: ds ∧ d.isDigit := by
  obtain ⟨hw, hf, he⟩ := hv
  cases hw with
  | zero => exact ⟨_, _, rfl, rfl⟩
  | digits hd hds => exact ⟨_, _, rfl, hds _ List.mem_cons_self⟩

theorem Value.skips {v : List Char} (h : Value v) : Skips v := by
  induction h with
  | null => exact .of_succ fun fuel rest _ _ => by rw [skipValue]; rfl
  | true => exact .of_succ fun fuel rest _ _ => by rw [skipValue]; rfl
  | false => exact .of_succ fun fuel rest _ _ => by rw [skipValue]; rfl
  | numeral hv =>
    obtain ⟨d, ds, rfl, hd⟩ := hv.exists_digit
    refine .of_succ fun fuel rest hrest _ => ?_
    rw [skipValue_digit hd]
    exact skipNumber_append hv hrest
  | negative hv =>
    refine .of_succ fun fuel rest hrest _ => ?_
    rw [skipValue, skipBlanks_cons rfl]
    exact skipNumber_append hv hrest
  | string ht =>
    refine .of_succ fun fuel rest _ _ => ?_
    rw [List.append_assoc, skipValue, skipBlanks_cons rfl]
    exact skipString_quoted ht
  | @list ws items hitems ih =>
    refine .of_succ fun fuel rest hrest hfuel => ?_
    rw [List.append_assoc, List.append_assoc, intercalate_eq_joined]
    cases items with
    | nil =>
      rw [skipValue, skipBlanks_cons rfl]
      simp only [skipBlanks_append]
      rfl
    | cons p ps =>
      apply skipValue_list
      rw [skipElements_blanks (skipBlanks_append ws _)]
      apply skipElements_joined ih
      simp only [← intercalate_eq_joined, List.length_append, List.length_cons] at hfuel ⊢
      omega
  | @object ws members hnames hvalues ih =>
    refine .of_succ fun fuel rest hrest hfuel => ?_
    rw [List.append_assoc, List.append_assoc, intercalate_eq_joined]
    cases members with
    | nil =>
      rw [skipValue, skipBlanks_cons rfl]
      simp only [skipBlanks_append]
      rfl
    | cons m ms =>
      apply skipValue_object
      rw [skipMembers_blanks (skipBlanks_append ws _)]
      apply skipMembers_joined hnames ih
      simp only [← intercalate_eq_joined, List.length_append, List.length_cons] at hfuel ⊢
      omega

theorem skip_value {p : Padded} (hv : Value p.core) (hrest : Stops rest) :
    skip (p.text ++ rest) = .ok (p.after.chars ++ rest) := by
  apply hv.skips.padded hrest
  rw [List.length_append]
  omega

end EntityStore.Json
