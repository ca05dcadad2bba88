import EntityStore.Json.Token
import EntityStore.Proofs.Json.Grammar

namespace EntityStore.Json

variable {rest : List Char}

theorem skipBlanks_cons {c : Char} (hc : isBlank c = false) (cs : List Char) : skipBlanks (c :: cs) = c :: cs :=
  List.dropWhile_cons_of_neg (by simp [hc])

theorem isBlank_digit {d : Char} (hd : d.isDigit) : isBlank d = false := by
  rw [← Bool.not_eq_true]
  simp only [isBlank, Bool.or_eq_true, beq_iff_eq, or_assoc]
  rintro (rfl | rfl | rfl | rfl) <;> exact absurd hd (by decide)

theorem skipBlanks_append (ws : Blanks) (cs : List Char) : skipBlanks (ws.chars ++ cs) = skipBlanks cs := by
  obtain ⟨ws, hws⟩ := ws
  induction ws with
  | nil => rfl
  | cons w ws ih =>
    have hw : isBlank w := by simpa [isBlank, or_assoc] using hws w List.mem_cons_self
    rw [List.cons_append, skipBlanks, List.dropWhile_cons_of_pos hw]
    exact ih fun c hc => hws c (List.mem_cons_of_mem w hc)

theorem skipBlanks_idem (cs : List Char) : skipBlanks (skipBlanks cs) = skipBlanks cs := by
  induction cs with
  | nil => rfl
  | cons c cs ih =>
    cases hc : isBlank c with
    | true =>
      have hskip : skipBlanks (c :: cs) = skipBlanks cs := List.dropWhile_cons_of_pos hc
      rw [hskip, ih]
    | false => rw [skipBlanks_cons hc, skipBlanks_cons hc]

theorem any_isDigit_head? {cs : List Char} (h : ∀ c ∈ cs.head?, c.isDigit = false) :
    cs.head?.any Char.isDigit = false := by
  cases cs with
  | nil => rfl
  | cons c cs => exact h c rfl

theorem Stops.head (h : Stops rest) : rest.head?.any Char.isDigit = false :=
  any_isDigit_head? fun c hc => by simp [(h c hc).1]

theorem hexValue?_eq {n : Nat} {c : Char} (h : IsHex n c) : hexValue? c = some n := by
  have hlower : ∀ n : Fin 16, hexValue? "0123456789abcdef".toList[n] = some n := by decide
  have hupper : ∀ n : Fin 16, hexValue? "0123456789ABCDEF".toList[n] = some n := by decide
  rcases h with h | h
  · obtain ⟨hn, rfl⟩ := List.getElem?_eq_some_iff.1 h
    exact hlower ⟨n, hn⟩
  · obtain ⟨hn, rfl⟩ := List.getElem?_eq_some_iff.1 h
    exact hupper ⟨n, hn⟩

theorem hexUnit_append {n : Nat} {u : List Char} (h : Hex n u) (rest : List Char) :
    hexUnit (u ++ rest) = .ok (n, rest) := by
  obtain @⟨a, b, c, d, k, l, m, n, ha, hb, hc, hd⟩ := h
  have hlen : ¬ (([a, b, c, d] ++ rest).take 4).foldl (fun n c => n + c.utf8Size) 0 < 4 := by
    simp only [List.cons_append, List.take_succ_cons, List.take_zero, List.foldl_cons, List.foldl_nil]
    have := a.utf8Size_pos
    have := b.utf8Size_pos
    have := c.utf8Size_pos
    have := d.utf8Size_pos
    omega
  unfold hexUnit
  rw [if_neg hlen]
  simp only [List.cons_append, List.nil_append, hexValue?_eq ha, hexValue?_eq hb, hexValue?_eq hc, hexValue?_eq hd]

theorem simpleEscape?_eq {c d : Char} (h : (c, d) ∈ escapes) : simpleEscape? c = some d := by
  have hall : ∀ e ∈ escapes, simpleEscape? e.1 = some e.2 := by decide
  exact hall _ h

theorem ne_u_of_escape {c d : Char} (h : (c, d) ∈ escapes) : c ≠ 'u' := by
  have hall : ∀ e ∈ escapes, e.1 ≠ 'u' := by decide
  exact hall _ h

theorem unicodeEscape_unit {d : Char} {u : List Char} (h : Hex d.toNat u) (rest : List Char) :
    unicodeEscape (u ++ rest) = .ok (d, rest) := by
  have hd : d.toNat < 0xD800 ∨ 0xDFFF < d.toNat := d.valid.imp id And.left
  have hhigh : isHighSurrogate d.toNat = false := by
    simp only [isHighSurrogate, Bool.and_eq_false_iff, decide_eq_false_iff_not]
    omega
  have hlow : isLowSurrogate d.toNat = false := by
    simp only [isLowSurrogate, Bool.and_eq_false_iff, decide_eq_false_iff_not]
    omega
  simp only [unicodeEscape, hexUnit_append h, bind, Except.bind, hhigh, hlow]
  simp only [Bool.not_false, if_true, Char.ofNat_toNat]
  rfl

theorem unicodeEscape_surrogates {d : Char} {hi lo : Nat} {u v : List Char} (hu : Hex hi u) (hv : Hex lo v)
    (hhigh : 0xD800 ≤ hi ∧ hi < 0xDC00) (hlow : 0xDC00 ≤ lo ∧ lo < 0xE000)
    (hd : d.toNat = (hi - 0xD800) * 0x400 + (lo - 0xDC00) + 0x10000) (rest : List Char) :
    unicodeEscape (u ++ '\\' :: 'u' :: (v ++ rest)) = .ok (d, rest) := by
  have hfirst : isHighSurrogate hi = true ∧ isLowSurrogate hi = false := by
    simp only [isHighSurrogate, isLowSurrogate, Bool.and_eq_true, Bool.and_eq_false_iff, decide_eq_true_eq,
      decide_eq_false_iff_not]
    omega
  have hsecond : isLowSurrogate lo = true := by
    simp only [isLowSurrogate, Bool.and_eq_true, decide_eq_true_eq]
    exact hlow
  simp only [unicodeEscape, hexUnit_append hu, hexUnit_append hv, bind, Except.bind, hfirst, hsecond, ← hd]
  simp only [Bool.not_true, Char.ofNat_toNat]
  rfl

variable {fuel : Nat} {read cs : List Char}

theorem stringFrom_plain {c : Char} (hc : Plain c) (hfuel : 0 < fuel) :
    stringFrom fuel read (c :: cs) = stringFrom (fuel - 1) (c :: read) cs := by
  obtain ⟨hmin, hquote, hslash⟩ := hc
  cases fuel with
  | zero => exact absurd hfuel (Nat.lt_irrefl 0)
  | succ fuel =>
    rw [stringFrom, if_neg (Nat.not_lt.2 hmin), Nat.add_sub_cancel]
    · exact hquote
    · exact hslash

theorem stringFrom_escape {c d : Char} (hc : (c, d) ∈ escapes) (hfuel : 0 < fuel) :
    stringFrom fuel read ('\\' :: c :: cs) = stringFrom (fuel - 1) (d :: read) cs := by
  cases fuel with
  | zero => exact absurd hfuel (Nat.lt_irrefl 0)
  | succ fuel =>
    rw [stringFrom, simpleEscape?_eq hc, Nat.add_sub_cancel]
    exact ne_u_of_escape hc

theorem stringFrom_unicode {d : Char} {cs' : List Char} (hd : unicodeEscape cs = .ok (d, cs')) (hfuel : 0 < fuel) :
    stringFrom fuel read ('\\' :: 'u' :: cs) = stringFrom (fuel - 1) (d :: read) cs' := by
  cases fuel with
  | zero => exact absurd hfuel (Nat.lt_irrefl 0)
  | succ fuel => rw [stringFrom, hd, Nat.add_sub_cancel]

theorem stringFrom_append {t s : List Char} (h : Spells t s) (hfuel : t.length < fuel) :
    stringFrom fuel read (t ++ '"' :: rest) = .ok (read.reverse ++ s, rest) := by
  have hpos : 0 < fuel := Nat.zero_lt_of_lt hfuel
  induction h generalizing fuel read with
  | nil =>
    obtain ⟨fuel, rfl⟩ := Nat.exists_eq_add_of_lt hpos
    rw [List.nil_append, List.append_nil, stringFrom]
  | plain hc ht ih =>
    rw [List.length_cons] at hfuel
    rw [List.cons_append, stringFrom_plain hc hpos, ih (by omega) (by omega)]
    simp
  | escape hc ht ih =>
    rw [List.length_cons, List.length_cons] at hfuel
    rw [List.cons_append, List.cons_append, stringFrom_escape hc hpos, ih (by omega) (by omega)]
    simp
  | unicode hu ht ih =>
    rw [List.length_cons, List.length_cons, List.length_append] at hfuel
    rw [List.cons_append, List.cons_append, List.append_assoc,
      stringFrom_unicode (unicodeEscape_unit hu _) hpos, ih (by omega) (by omega)]
    simp
  | surrogates hu hv hhi hhi' hlo hlo' hd ht ih =>
    have hread := unicodeEscape_surrogates hu hv ⟨hhi, hhi'⟩ ⟨hlo, hlo'⟩ hd
    simp only [List.length_cons, List.length_append] at hfuel
    simp only [List.cons_append, List.append_assoc]
    rw [stringFrom_unicode (hread _) hpos, ih (by omega) (by omega)]
    simp

theorem string_append {t : List Char} {s : String} (h : Spells t s.toList) :
    string (t ++ '"' :: rest) = .ok (s, rest) := by
  have hfuel : t.length < (t ++ '"' :: rest).length + 1 := by
    rw [List.length_append]
    omega
  rw [string, stringFrom_append h hfuel]
  change Except.ok (String.ofList s.toList, rest) = _
  rw [String.ofList_toList]

theorem head?_toDigits {n : Nat} (h : 0 < n) : (Nat.toDigits 10 n).head? ≠ some '0' := by
  induction n using Nat.strongRecOn with
  | ind n ih =>
    by_cases hn : n < 10
    · have hall : ∀ n : Fin 10, 0 < n → n.1.digitChar ≠ '0' := by decide
      rw [Nat.toDigits_of_lt_base hn, List.head?_cons, Ne, Option.some.injEq]
      exact hall ⟨n, hn⟩ h
    · rw [Nat.toDigits_of_base_le (by decide) (Nat.not_lt.1 hn), List.head?_append_of_ne_nil _ Nat.toDigits_ne_nil]
      exact ih (n / 10) (by omega) (by omega)

theorem significand_stop (m : Nat) (hrest : rest.head?.any Char.isDigit = false) :
    significand m rest = (m, rest) := by
  cases rest with
  | nil => rfl
  | cons c cs =>
    have hc : c.isDigit = false := hrest
    simp [significand, hc]

theorem significand_append {ds : List Char} {m : Nat} (hds : ∀ c ∈ ds, c.isDigit)
    (hbound : Nat.ofDigitChars 10 ds m < 1 <<< 64) (hrest : rest.head?.any Char.isDigit = false) :
    significand m (ds ++ rest) = (Nat.ofDigitChars 10 ds m, rest) := by
  induction ds generalizing m with
  | nil => exact significand_stop m hrest
  | cons d ds ih =>
    have hd : Nat.ofDigitChars 10 (d :: ds) m = Nat.ofDigitChars 10 ds (m * 10 + digitValue d) := by
      rw [Nat.ofDigitChars_cons, Nat.mul_comm]
      rfl
    have hfits : m * 10 + digitValue d < 1 <<< 64 := by
      rw [hd, Nat.ofDigitChars_eq_ofDigitChars_zero] at hbound
      have hpow : 0 < 10 ^ ds.length := Nat.pow_pos (by decide)
      have := Nat.le_mul_of_pos_left (m * 10 + digitValue d) hpow
      omega
    have hboth : d.isDigit && m * 10 + digitValue d < 1 <<< 64 := by
      rw [hds d List.mem_cons_self, Bool.true_and]
      exact decide_eq_true hfits
    rw [List.cons_append, significand, if_pos hboth, hd]
    exact ih (fun c hc => hds c (List.mem_cons_of_mem d hc)) (hd ▸ hbound)

theorem numberEnd_stop (n : Nat) (hrest : Stops rest) : numberEnd false n rest = .ok (.natural n, rest) := by
  unfold numberEnd
  split
  · exact absurd (hrest _ rfl).2 (by decide)
  · exact absurd (hrest _ rfl).2 (by decide)
  · exact absurd (hrest _ rfl).2 (by decide)
  · rfl

theorem number_toDigits {n : Nat} (hn : n < 1 <<< 64) (hrest : Stops rest) :
    number false (Nat.toDigits 10 n ++ rest) = .ok (.natural n, rest) := by
  rcases Nat.eq_zero_or_pos n with rfl | hpos
  · rw [Nat.toDigits_zero, List.cons_append, List.nil_append, number, hrest.head]
    exact numberEnd_stop 0 hrest
  · obtain ⟨d, ds, hn'⟩ := List.exists_cons_of_ne_nil (Nat.toDigits_ne_nil (b := 10) (n := n))
    have hdigits : ∀ c ∈ d :: ds, c.isDigit := fun c hc =>
      Nat.isDigit_of_mem_toDigits (by decide) (by decide) (hn' ▸ hc)
    have hzero : d ≠ '0' := by
      rintro rfl
      exact head?_toDigits hpos (by rw [hn']; rfl)
    have hvalue : Nat.ofDigitChars 10 ds (digitValue d) = n := by
      rw [← Nat.ofDigitChars_ten_toDigits (n := n), hn', Nat.ofDigitChars_cons, Nat.mul_zero, Nat.zero_add]
      rfl
    have hread : significand (digitValue d) (ds ++ rest) = (n, rest) := by
      rw [significand_append (fun c hc => hdigits c (List.mem_cons_of_mem d hc)) (hvalue.symm ▸ hn) hrest.head, hvalue]
    rw [hn', List.cons_append, number, hread]
    · simp only [hdigits d List.mem_cons_self, hrest.head]
      exact numberEnd_stop n hrest
    · exact fun h => hzero h

end EntityStore.Json
