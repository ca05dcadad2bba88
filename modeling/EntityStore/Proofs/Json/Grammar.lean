import Mathlib.Data.List.Basic

/-! The grammar of documents. Blanks may stand around every value and every name; what stands in the text is told apart
from the blanks around it. -/

namespace EntityStore.Json

structure Blanks where
  chars : List Char
  blank : ∀ c ∈ chars, c ∈ [' ', '\n', '\t', '\r']

def Blanks.none : Blanks := ⟨[], by simp⟩

structure Padded where
  before : Blanks
  core : List Char
  after : Blanks

def Padded.text (p : Padded) : List Char := p.before.chars ++ (p.core ++ p.after.chars)

inductive Whole : List Char → Prop
  | zero : Whole ['0']
  | digits {d : Char} {ds : List Char} : d ≠ '0' → (∀ c ∈ d :: ds, c.isDigit) → Whole (d :: ds)

inductive Fraction : List Char → Prop
  | none : Fraction []
  | digits {d : Char} {ds : List Char} : (∀ c ∈ d :: ds, c.isDigit) → Fraction ('.' :: d :: ds)

inductive Exponent : List Char → Prop
  | none : Exponent []
  | digits {e d : Char} {sign ds : List Char} : e ∈ ['e', 'E'] → sign ∈ [[], ['+'], ['-']] →
      (∀ c ∈ d :: ds, c.isDigit) → Exponent (e :: (sign ++ d :: ds))

inductive Numeral : List Char → Prop
  | mk {w f e : List Char} : Whole w → Fraction f → Exponent e → Numeral (w ++ (f ++ e))

def IsHex (n : Nat) (c : Char) : Prop :=
  "0123456789abcdef".toList[n]? = some c ∨ "0123456789ABCDEF".toList[n]? = some c

inductive Hex : Nat → List Char → Prop
  | mk {a b c d : Char} {k l m n : Nat} : IsHex k a → IsHex l b → IsHex m c → IsHex n d →
      Hex (k * 4096 + l * 256 + m * 16 + n) [a, b, c, d]

def escapes : List (Char × Char) :=
  [('"', '"'), ('\\', '\\'), ('/', '/'), ('b', '\x08'), ('f', '\x0c'), ('n', '\n'), ('r', '\r'), ('t', '\t')]

def Plain (c : Char) : Prop := 0x20 ≤ c.toNat ∧ c ≠ '"' ∧ c ≠ '\\'

instance (c : Char) : Decidable (Plain c) := inferInstanceAs (Decidable (_ ∧ _))

inductive Characters : List Char → Prop
  | nil : Characters []
  | plain {c : Char} {t : List Char} : Plain c → Characters t → Characters (c :: t)
  | escape {c : Char} {t : List Char} : c ∈ escapes.map Prod.fst → Characters t → Characters ('\\' :: c :: t)
  | unicode {n : Nat} {u t : List Char} : Hex n u → Characters t → Characters ('\\' :: 'u' :: (u ++ t))

inductive Spells : List Char → List Char → Prop
  | nil : Spells [] []
  | plain {c : Char} {t s : List Char} : Plain c → Spells t s → Spells (c :: t) (c :: s)
  | escape {c d : Char} {t s : List Char} : (c, d) ∈ escapes → Spells t s → Spells ('\\' :: c :: t) (d :: s)
  | unicode {d : Char} {u t s : List Char} : Hex d.toNat u → Spells t s → Spells ('\\' :: 'u' :: (u ++ t)) (d :: s)
  | surrogates {d : Char} {hi lo : Nat} {u v t s : List Char} : Hex hi u → Hex lo v →
      0xD800 ≤ hi → hi < 0xDC00 → 0xDC00 ≤ lo → lo < 0xE000 →
      d.toNat = (hi - 0xD800) * 0x400 + (lo - 0xDC00) + 0x10000 → Spells t s →
      Spells ('\\' :: 'u' :: (u ++ '\\' :: 'u' :: (v ++ t))) (d :: s)

theorem Spells.of_plain {t : List Char} (h : ∀ c ∈ t, Plain c) : Spells t t := by
  induction t with
  | nil => exact .nil
  | cons c t ih => exact .plain (h c List.mem_cons_self) (ih fun d hd => h d (List.mem_cons_of_mem c hd))

structure Member where
  name : Padded
  value : Padded

def Member.text (m : Member) : List Char :=
  m.name.before.chars ++ '"' :: (m.name.core ++ '"' :: (m.name.after.chars ++ ':' :: m.value.text))

def listText (ws : Blanks) (items : List Padded) : List Char :=
  '[' :: (ws.chars ++ ([','].intercalate (items.map Padded.text) ++ [']']))

def objectText (ws : Blanks) (members : List Member) : List Char :=
  '\x7b' :: (ws.chars ++ ([','].intercalate (members.map Member.text) ++ ['\x7d']))

inductive Value : List Char → Prop
  | null : Value "null".toList
  | true : Value "true".toList
  | false : Value "false".toList
  | numeral {v : List Char} : Numeral v → Value v
  | negative {v : List Char} : Numeral v → Value ('-' :: v)
  | string {t : List Char} : Characters t → Value ('"' :: (t ++ ['"']))
  | list (ws : Blanks) {items : List Padded} : (∀ p ∈ items, Value p.core) → Value (listText ws items)
  | object (ws : Blanks) {members : List Member} : (∀ m ∈ members, Characters m.name.core) →
      (∀ m ∈ members, Value m.value.core) → Value (objectText ws members)

def Stops (rest : List Char) : Prop := ∀ c ∈ rest.head?, ¬ c.isDigit ∧ c ∉ ['.', 'e', 'E']

variable {rest : List Char}

theorem Stops.cons {c : Char} (hd : c.isDigit = false) (hc : c ∉ ['.', 'e', 'E']) (cs : List Char) :
    Stops (c :: cs) := by
  intro x hx
  cases hx
  exact ⟨by simp [hd], hc⟩

theorem Stops.append (ws : Blanks) (h : Stops rest) : Stops (ws.chars ++ rest) := by
  obtain ⟨ws, hws⟩ := ws
  cases ws with
  | nil => exact h
  | cons w ws =>
    have hblank : ∀ w ∈ [' ', '\n', '\t', '\r'], w.isDigit = false ∧ w ∉ ['.', 'e', 'E'] := by simp
    obtain ⟨hd, hc⟩ := hblank w (hws w List.mem_cons_self)
    exact Stops.cons hd hc _

def joined : Bool → List (List Char) → List Char
  | _, [] => []
  | true, t :: ts => t ++ joined false ts
  | false, t :: ts => ',' :: (t ++ joined false ts)

theorem intercalate_eq_joined (ts : List (List Char)) : [','].intercalate ts = joined true ts := by
  induction ts with
  | nil => rfl
  | cons t ts ih =>
    cases ts with
    | nil => simp [joined, List.intercalate]
    | cons t' ts =>
      rw [List.intercalate_cons_cons, ih, joined, joined, joined, List.append_assoc]
      rfl

theorem stops_joined {close : Char} (hclose : close ∈ [']', '\x7d']) (ts : List (List Char)) (rest : List Char) :
    Stops (joined false ts ++ close :: rest) := by
  have hstop : ∀ c ∈ [']', '\x7d'], c.isDigit = false ∧ c ∉ ['.', 'e', 'E'] := by simp
  cases ts with
  | nil => exact Stops.cons (hstop close hclose).1 (hstop close hclose).2 rest
  | cons t ts => exact Stops.cons rfl (by decide) _

def lead (ws : Blanks) : Bool → List Char → List Char
  | true, cs => ws.chars ++ cs
  | false, cs => ws.chars ++ ',' :: cs

theorem joined_cons (ws : Blanks) (first : Bool) (t : List Char) (ts : List (List Char)) (rest : List Char) :
    ws.chars ++ (joined first (t :: ts) ++ rest) = lead ws first (t ++ (joined false ts ++ rest)) := by
  cases first <;> simp [joined, lead]

theorem joined_nil (first : Bool) : joined first [] = [] := by cases first <;> rfl

structure Entry extends Member where
  key : String
  spelled : Spells name.core key.toList

def Entry.cell (e : Entry) : String × String := (e.key, String.ofList e.value.core)

structure ObjectDocument where
  before : Blanks
  inner : Blanks
  entries : List Entry
  after : Blanks

structure ListDocument where
  before : Blanks
  inner : Blanks
  items : List Padded
  after : Blanks

namespace ObjectDocument

def text (d : ObjectDocument) : String :=
  String.ofList (Padded.text ⟨d.before, objectText d.inner (d.entries.map Entry.toMember), d.after⟩)

def keys (d : ObjectDocument) : List String := d.entries.map Entry.key

def cells (d : ObjectDocument) : List (String × String) := d.entries.map Entry.cell

theorem keys_eq (d : ObjectDocument) : d.keys = d.cells.map Prod.fst := by
  rw [cells, List.map_map]
  rfl

theorem text_eq (d : ObjectDocument) : d.text = String.ofList (d.before.chars ++ '\x7b' ::
    (d.inner.chars ++ (joined true (d.entries.map fun e => e.text) ++ '\x7d' :: d.after.chars))) := by
  rw [text, Padded.text, objectText, intercalate_eq_joined, List.cons_append, List.append_assoc, List.append_assoc,
    List.map_map]
  rfl

end ObjectDocument

namespace ListDocument

def text (d : ListDocument) : String := String.ofList (Padded.text ⟨d.before, listText d.inner d.items, d.after⟩)

def values (d : ListDocument) : List String := d.items.map fun p => String.ofList p.core

theorem text_eq (d : ListDocument) : d.text = String.ofList (d.before.chars ++ '[' ::
    (d.inner.chars ++ (joined true (d.items.map Padded.text) ++ ']' :: d.after.chars))) := by
  rw [text, Padded.text, listText, intercalate_eq_joined, List.cons_append, List.append_assoc, List.append_assoc]
  rfl

end ListDocument

end EntityStore.Json
