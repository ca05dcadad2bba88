import EntityStore.Archetype.Columns

/-! Rows in one set of columns, or in a list of chunks of `1 <<< shift` rows, full but for the last. -/

namespace EntityStore

class ColumnLayout {κ : outParam Type} (L : Type) (El : outParam (κ → Type)) (ks : outParam (List κ)) extends
    Layout L (Row El ks) where
  locate : L → Nat → Checked (Columns El ks × Nat)
  adjust {α : Type} : L → Nat → (Columns El ks → Nat → Checked (α × Columns El ks)) → Checked (α × L)

structure Dense {κ : Type} (El : κ → Type) (ks : List κ) where
  columns : Columns El ks

namespace Dense

variable {κ : Type} {El : κ → Type} {ks : List κ}

def locate (d : Dense El ks) (i : Nat) : Checked (Columns El ks × Nat) := .ok (d.columns, i)

def adjust {α : Type} (d : Dense El ks) (i : Nat) (f : Columns El ks → Nat → Checked (α × Columns El ks)) :
    Checked (α × Dense El ks) := do
  let (a, c) ← f d.columns i
  return (a, ⟨c⟩)

def swapPop (d : Dense El ks) (i : Nat) : Checked (Row El ks × Dense El ks) := do
  let (row, c) ← d.columns.swapPop i
  return (row, ⟨c⟩)

def update (d : Dense El ks) (i : Nat) (f : Row El ks → Row El ks) : Checked (Dense El ks) := do
  let c ← d.columns.update i f
  return ⟨c⟩

instance : ColumnLayout (Dense El ks) El ks where
  empty := ⟨.empty ks⟩
  size d := d.columns.rowCount
  push d row := .ok ⟨d.columns.push row⟩
  swapPop := swapPop
  read d i := d.columns.read i
  update := update
  clear d := ⟨d.columns.clear⟩
  locate := locate
  adjust := adjust

instance [∀ k, Footprint (El k)] : Capacious (Dense El ks) := ⟨fun d extra => d.columns.room extra⟩

end Dense

structure Chunked {κ : Type} (El : κ → Type) (ks : List κ) (shift : Nat) where
  chunks : Array (Columns El ks)
  length : Nat

namespace Chunked

variable {κ : Type} {El : κ → Type} {ks : List κ} {shift : Nat}

def chunkSize (shift : Nat) : Nat := 1 <<< shift

def shiftOf? (size : Nat) : Option Nat := if chunkSize size.log2 = size then some size.log2 else none

def split (shift i : Nat) : Nat × Nat := (i >>> shift, i &&& ((1 <<< shift) - 1))

theorem split_eq (shift i : Nat) : split shift i = (i / chunkSize shift, i % chunkSize shift) := by
  simp [split, chunkSize, Nat.one_shiftLeft, Nat.shiftRight_eq_div_pow, Nat.and_two_pow_sub_one_eq_mod]

def empty : Chunked El ks shift := ⟨#[], 0⟩

def chunkAt (d : Chunked El ks shift) (n : Nat) : Checked (Columns El ks) := Column.read d.chunks n

def chunksFor [∀ k, Footprint (El k)] (shift : Nat) (chunks : Array (Columns El ks)) (slot : Nat) :
    Checked (Array (Columns El ks)) :=
  if slot = 0 then chunks.push <$> Columns.withCapacity ks (chunkSize shift) else .ok chunks

def push [∀ k, Footprint (El k)] (d : Chunked El ks shift) (row : Row El ks) : Checked (Chunked El ks shift) := do
  let ⟨chunks, length⟩ := d
  let (n, slot) := split shift length
  let chunks ← chunksFor shift chunks slot
  let (_, chunks) ← Column.update chunks n fun c => c.push row
  return ⟨chunks, length + 1⟩

def popLast (d : Chunked El ks shift) : Checked (Row El ks × Chunked El ks shift) := do
  let last := d.length - 1
  let (n, _) := split shift last
  let c ← d.chunkAt n
  match c.popRow? with
  | (none, _) => throw .lastChunkEmpty
  | (some row, c) =>
    let chunks := d.chunks.setIfInBounds n c
    return (row, ⟨if (split shift last).2 = 0 then chunks.pop else chunks, last⟩)

def swapPop (d : Chunked El ks shift) (i : Nat) : Checked (Row El ks × Chunked El ks shift) := do
  if d.length ≤ i then
    throw (.noRowToSwap d.length i)
  else
    let (tail, rest) ← d.popLast
    if i = rest.length then
      return (tail, rest)
    else
      let (n, slot) := split shift i
      let c ← rest.chunkAt n
      let (row, c) ← c.replace slot tail
      return (row, { rest with chunks := rest.chunks.setIfInBounds n c })

def locate (d : Chunked El ks shift) (i : Nat) : Checked (Columns El ks × Nat) := do
  let (n, slot) := split shift i
  let c ← d.chunkAt n
  return (c, slot)

def adjust {α : Type} (d : Chunked El ks shift) (i : Nat)
    (f : Columns El ks → Nat → Checked (α × Columns El ks)) : Checked (α × Chunked El ks shift) := do
  let (n, slot) := split shift i
  let c ← d.chunkAt n
  let (a, c) ← f c slot
  return (a, { d with chunks := d.chunks.setIfInBounds n c })

def read (d : Chunked El ks shift) (i : Nat) : Checked (Row El ks) := do
  let (c, slot) ← d.locate i
  c.read slot

def update (d : Chunked El ks shift) (i : Nat) (f : Row El ks → Row El ks) : Checked (Chunked El ks shift) := do
  let (_, d) ← d.adjust i fun c slot => (((), ·)) <$> c.update slot f
  return d

def chunkBytes (ks : List κ) : Nat := 24 * ks.length

def room (d : Chunked El ks shift) (extra : Nat) : Checked Unit :=
  if 1 <<< 64 ≤ d.length + extra then .error .additionOverflow
  else
    let needed := (d.length + extra + chunkSize shift - 1) / chunkSize shift
    checkRoom d.chunks.size (needed - d.chunks.size) (chunkBytes ks)

instance [∀ k, Footprint (El k)] : ColumnLayout (Chunked El ks shift) El ks where
  empty := empty
  size d := d.length
  push := push
  swapPop := swapPop
  read := read
  update := update
  clear _ := empty
  locate := locate
  adjust := adjust

instance : Capacious (Chunked El ks shift) := ⟨room⟩

end Chunked

end EntityStore
