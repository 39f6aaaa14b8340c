/-!
# Heaps

A `Heap` holds cells by the order in which they were made; the address of a cell is how many were
made before it. Cells are changed in place and never taken away, so an address stays good. The
laws say what `alloc` and `update` do to each cell (`get?_alloc`, `get?_update`).
-/

namespace Marginalia

/-- Cells by the order in which they were made. -/
structure Heap (α : Type) where
  cells : Array α
deriving Repr

namespace Heap

variable {α : Type}

/-- A heap without cells. -/
def empty : Heap α := ⟨#[]⟩

/-- How many cells were made; the address of the next one. -/
def size (heap : Heap α) : Nat := heap.cells.size

/-- The cell at an address. -/
def get? (heap : Heap α) (address : Nat) : Option α := heap.cells[address]?

/-- The heap with one more cell, at address `heap.size`. -/
def alloc (heap : Heap α) (cell : α) : Heap α := ⟨heap.cells.push cell⟩

/-- The heap with the cell at an address changed; without such a cell nothing changes. -/
def update (heap : Heap α) (address : Nat) (change : α → α) : Heap α :=
  ⟨heap.cells.modify address change⟩

theorem size_alloc (heap : Heap α) (cell : α) : (heap.alloc cell).size = heap.size + 1 := by
  simp [alloc, size]

theorem size_lt_alloc (heap : Heap α) (cell : α) : heap.size < (heap.alloc cell).size := by
  rw [size_alloc]
  exact Nat.lt_succ_self _

theorem size_update (heap : Heap α) (address : Nat) (change : α → α) :
    (heap.update address change).size = heap.size := by
  simp [update, size]

theorem get?_alloc (heap : Heap α) (cell : α) (address : Nat) :
    (heap.alloc cell).get? address =
      if address = heap.size then some cell else heap.get? address := by
  by_cases same : address = heap.cells.size <;> simp [alloc, get?, size, Array.getElem?_push, same]

theorem get?_update (heap : Heap α) (address : Nat) (change : α → α) (other : Nat) :
    (heap.update address change).get? other =
      if address = other then (heap.get? other).map change else heap.get? other := by
  simp [update, get?, Array.getElem?_modify]

end Heap

end Marginalia
