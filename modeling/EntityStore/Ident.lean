/-! Identifiers are words, of which the largest names nothing. Generations count how often a slot was vacated. -/

namespace EntityStore

structure IdSpace where
  bits : Nat
  label : Option String
deriving DecidableEq

namespace IdSpace

variable (s : IdSpace)

def invalid : Nat := (1 <<< s.bits) - 1

def bytes : Nat := s.bits / 8

def isValid (id : Nat) : Bool := id != s.invalid

def ofIndex? (index : Nat) : Option Nat := if index < s.invalid then some index else none

def next? (id : Nat) : Option Nat := if id = s.invalid then none else s.ofIndex? (id + 1)

def prev? (id : Nat) : Option Nat :=
  if id = s.invalid then none else
    match id with
    | 0 => none
    | index + 1 => s.ofIndex? index

theorem ofIndex?_of_lt {index : Nat} (h : index < s.invalid) : s.ofIndex? index = some index := if_pos h

theorem ofIndex?_eq_some_iff {index id : Nat} :
    s.ofIndex? index = some id ↔ index = id ∧ index < s.invalid := by
  grind [ofIndex?]

theorem prev?_next? {id next : Nat} (h : s.next? id = some next) : s.prev? next = some id := by
  rw [next?] at h
  split at h
  · simp at h
  · obtain ⟨rfl, hlt⟩ := (ofIndex?_eq_some_iff s).1 h
    have hne : id + 1 ≠ s.invalid := by omega
    have hid : id < s.invalid := by omega
    simp [prev?, ofIndex?, hne, hid]

def describe (id : Nat) : String :=
  match s.label with
  | none => toString id
  | some name => if id = s.invalid then s!"{name}(invalid)" else s!"{name}({id})"

end IdSpace

abbrev EntityId := Nat

abbrev StoreId := Nat

inductive Generations where
  | disabled
  | counter (bits : Nat)
deriving DecidableEq

namespace Generations

def initial : Nat := 0

def enabled : Generations → Bool
  | disabled => false
  | counter _ => true

def bytes : Generations → Nat
  | disabled => 0
  | counter bits => bits / 8

def bump : Generations → Nat → Nat
  | disabled, g => g
  | counter bits, g => (g + 1) % (1 <<< bits)

def describe : Generations → Nat → String
  | disabled, _ => "NoGeneration"
  | counter _, g => toString g

end Generations

end EntityStore
