/-!
# Heaps

A heap keeps its items in an array in which no item stands above its parent, so that the first item
is one that no other stands above.  Which one it is when several could be first follows from the
places in the array: an item moves up or down only past items that it strictly has to pass.
-/

namespace NextBuild

/-- A heap of items. -/
structure Heap (α : Type) where
  items : Array α

namespace Heap

variable {α : Type}

/-- The heap without items. -/
def empty : Heap α := ⟨#[]⟩

/-- Move the item at a place up, past every parent that it stands above. -/
def siftUp (above : α → α → Bool) (xs : Array α) (i : Nat) : Array α :=
  if h : 0 < i ∧ i < xs.size then
    if above xs[i] (xs[(i - 1) / 2]) then
      siftUp above (xs.swap i ((i - 1) / 2)) ((i - 1) / 2)
    else xs
  else xs
termination_by i

/-- The place below another one whose item comes first: the left one unless the right one stands
above it. -/
def firstBelow (above : α → α → Bool) (xs : Array α) (i : Nat) (h : 2 * i + 1 < xs.size) :
    { c : Nat // i < c ∧ c < xs.size } :=
  if h' : 2 * i + 2 < xs.size then
    if above xs[2 * i + 2] xs[2 * i + 1] then ⟨2 * i + 2, by omega, h'⟩
    else ⟨2 * i + 1, by omega, h⟩
  else ⟨2 * i + 1, by omega, h⟩

/-- Move the item at a place down, as long as one below stands above it. -/
def siftDown (above : α → α → Bool) (xs : Array α) (i : Nat) : Array α :=
  if h : 2 * i + 1 < xs.size then
    match firstBelow above xs i h with
    | ⟨c, hc⟩ => if above xs[c] xs[i] then siftDown above (xs.swap i c) c else xs
  else xs
termination_by xs.size - i
decreasing_by
  simp only [Array.size_swap]
  omega

/-- Put an item into a heap. -/
def push (above : α → α → Bool) (heap : Heap α) (a : α) : Heap α :=
  ⟨siftUp above (heap.items.push a) heap.items.size⟩

/-- Take the first item out of a heap; the last one takes its place and moves down. -/
def pop? (above : α → α → Bool) (heap : Heap α) : Option (α × Heap α) :=
  match heap.items[0]?, heap.items.back? with
  | some first, some last =>
    let rest := heap.items.pop
    if h : 0 < rest.size then some (first, ⟨siftDown above (rest.set 0 last h) 0⟩)
    else some (first, ⟨rest⟩)
  | _, _ => none

/-- The items in the order of their places. -/
def toList (heap : Heap α) : List α :=
  heap.items.toList

end Heap

end NextBuild
