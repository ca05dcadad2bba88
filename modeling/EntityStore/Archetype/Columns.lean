import EntityStore.Column

/-! Rows with one component of each kind, kept as one column per kind. -/

namespace EntityStore

inductive Tuple {κ : Type} (F : κ → Type) : List κ → Type where
  | nil : Tuple F []
  | cons {k : κ} {ks : List κ} (head : F k) (tail : Tuple F ks) : Tuple F (k :: ks)

namespace Tuple

variable {κ : Type} {F G H : κ → Type} {β : Type}

def ofFun (f : (k : κ) → F k) : (ks : List κ) → Tuple F ks
  | [] => nil
  | k :: ks => cons (f k) (ofFun f ks)

def map (f : (k : κ) → F k → G k) : {ks : List κ} → Tuple F ks → Tuple G ks
  | [], nil => nil
  | k :: _, cons x t => cons (f k x) (t.map f)

def zipWith (f : (k : κ) → F k → G k → H k) : {ks : List κ} → Tuple F ks → Tuple G ks → Tuple H ks
  | [], nil, nil => nil
  | k :: _, cons x t, cons y u => cons (f k x y) (zipWith f t u)

def toList (f : (k : κ) → F k → β) : {ks : List κ} → Tuple F ks → List β
  | [], nil => []
  | k :: _, cons x t => f k x :: t.toList f

def get : {ks : List κ} → Tuple F ks → (i : Fin ks.length) → F (ks.get i)
  | _ :: _, cons x _, ⟨0, _⟩ => x
  | _ :: _, cons _ t, ⟨i + 1, h⟩ => t.get ⟨i, Nat.lt_of_succ_lt_succ h⟩

def entry? : {ks : List κ} → Tuple F ks → Nat → Option ((k : κ) × F k)
  | [], nil, _ => none
  | k :: _, cons x _, 0 => some ⟨k, x⟩
  | _ :: _, cons _ t, i + 1 => t.entry? i

def modify (f : (k : κ) → F k → F k) : {ks : List κ} → Tuple F ks → Nat → Tuple F ks
  | [], nil, _ => nil
  | k :: _, cons x t, 0 => cons (f k x) t
  | _ :: _, cons x t, i + 1 => cons x (t.modify f i)

def mapIdx (f : Nat → (k : κ) → F k → G k) : {ks : List κ} → Tuple F ks → Tuple G ks
  | [], nil => nil
  | k :: _, cons x t => cons (f 0 k x) (t.mapIdx fun i => f (i + 1))

end Tuple

def positionOf? {κ : Type} [DecidableEq κ] (ks : List κ) (k : κ) : Option Nat := ks.findIdx? (· = k)

def cast? {κ : Type} [DecidableEq κ] {F : κ → Type} (k : κ) : (k : κ) × F k → Option (F k)
  | ⟨k', x⟩ => if h : k' = k then some (h ▸ x) else none

namespace Tuple

variable {κ : Type} [DecidableEq κ] {F : κ → Type} {ks : List κ}

def entryOf? (t : Tuple F ks) (k : κ) : Option (F k) :=
  (positionOf? ks k).bind fun i => t.entry? i |>.bind (cast? k)

def modifyOf? (t : Tuple F ks) (k : κ) (f : F k → F k) : Option (Tuple F ks) :=
  (positionOf? ks k).map fun i => t.modify (fun k' x => if h : k = k' then h ▸ f (h ▸ x) else x) i

end Tuple

variable {κ : Type} {El : κ → Type}

abbrev Row (El : κ → Type) (ks : List κ) := Tuple El ks

abbrev Columns (El : κ → Type) (ks : List κ) := Tuple (fun k => Array (El k)) ks

namespace Columns

def empty (ks : List κ) : Columns El ks := Tuple.ofFun (fun _ => #[]) ks

def rowCount : {ks : List κ} → Columns El ks → Nat
  | [], _ => 0
  | _ :: _, .cons a _ => a.size

def push {ks : List κ} (c : Columns El ks) (row : Row El ks) : Columns El ks :=
  c.zipWith (fun _ a x => a.push x) row

def pop? : {ks : List κ} → Columns El ks → Option (Row El ks) × Columns El ks
  | [], .nil => (some .nil, .nil)
  | _ :: _, .cons a t =>
    match a.back? with
    | none => (none, .cons a t)
    | some x => ((pop? t).1.map (.cons x), .cons a.pop (pop? t).2)

def popRow? {ks : List κ} (c : Columns El ks) : Option (Row El ks) × Columns El ks :=
  if c.rowCount = 0 then (none, c) else c.pop?

def read : {ks : List κ} → Columns El ks → Nat → Checked (Row El ks)
  | [], .nil, _ => .ok .nil
  | _ :: _, .cons a t, i => do
    let x ← Column.read a i
    let row ← read t i
    return .cons x row

def swapPop : {ks : List κ} → Columns El ks → Nat → Checked (Row El ks × Columns El ks)
  | [], .nil, _ => .ok (.nil, .nil)
  | _ :: _, .cons a t, i => do
    let (x, a) ← Column.swapPop a i
    let (row, t) ← swapPop t i
    return (.cons x row, .cons a t)

def replace : {ks : List κ} → Columns El ks → Nat → Row El ks → Checked (Row El ks × Columns El ks)
  | [], .nil, _, .nil => .ok (.nil, .nil)
  | _ :: _, .cons a t, i, .cons y row => do
    let (x, a) ← Column.update a i fun _ => y
    let (old, t) ← replace t i row
    return (.cons x old, .cons a t)

def update {ks : List κ} (c : Columns El ks) (i : Nat) (f : Row El ks → Row El ks) : Checked (Columns El ks) := do
  let row ← c.read i
  let (_, c) ← c.replace i (f row)
  return c

def mapCells {ks : List κ} (c : Columns El ks) (f : Nat → Nat → (k : κ) → El k → El k) : Columns El ks :=
  c.mapIdx fun n k a => a.mapIdx fun i x => f n i k x

def clear {ks : List κ} (c : Columns El ks) : Columns El ks := c.map fun _ _ => #[]

def room [∀ k, Footprint (El k)] : {ks : List κ} → Columns El ks → Nat → Checked Unit
  | [], .nil, _ => .ok ()
  | k :: _, .cons a t, extra => do
    checkRoom a.size extra (Footprint.bytes (El k))
    room t extra

def withCapacity [∀ k, Footprint (El k)] (ks : List κ) (n : Nat) : Checked (Columns El ks) :=
  (fun _ => empty ks) <$> (empty ks : Columns El ks).room n

end Columns

end EntityStore
