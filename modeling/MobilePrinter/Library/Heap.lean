import Mathlib.Order.Basic
import Mathlib.Tactic.Basic

abbrev Heap.Ptr := Nat

structure Heap (α : Type*) where
  blocks : List (Option (List α))

namespace Heap

variable {α : Type*} {h : Heap α} {p q : Ptr} {xs : List α}

def empty : Heap α where
  blocks := []

def next (h : Heap α) : Ptr :=
  h.blocks.length

def alloc (h : Heap α) (xs : List α) : Heap α where
  blocks := h.blocks ++ [some xs]

def deref (h : Heap α) (p : Ptr) : Option (List α) :=
  h.blocks[p]?.join

def delete (h : Heap α) (p : Ptr) : Heap α where
  blocks := h.blocks.set p none

@[simp]
theorem deref_alloc_next : (h.alloc xs).deref h.next = some xs := by
  simp [deref, alloc, next]

end Heap
