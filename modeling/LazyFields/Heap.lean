import LazyFields.Cell

/-!
The cells of a run, numbered in the order of their creation, apart for each kind. A
handle is the number of a cell, so copies of a handle name the same cell, and two handles
share a cell exactly when they are equal.
-/

namespace LazyFields

structure Handle (k : Kind) where
  index : Nat
  deriving DecidableEq

structure CellId where
  kind : Kind
  index : Nat
  deriving DecidableEq

def Handle.id {k : Kind} (h : Handle k) : CellId := ⟨k, h.index⟩

def CellId.handle (c : CellId) : Handle c.kind := ⟨c.index⟩

theorem Handle.id_injective {k : Kind} {h h' : Handle k} (e : h.id = h'.id) : h = h' := by
  cases h; cases h'; simpa [id] using e

theorem Handle.eq_of_id {k l : Kind} {h : Handle k} {h' : Handle l} (e : h.id = h'.id) :
    k = l ∧ HEq h h' := by
  obtain rfl : k = l := congrArg CellId.kind e
  exact ⟨rfl, heq_of_eq (id_injective e)⟩

structure Heap (π : Kind → Type) where
  ints : List (Cell π .int)
  texts : List (Cell π .text)

namespace Heap

variable {π : Kind → Type}

def empty : Heap π := ⟨[], []⟩

def cells (heap : Heap π) : (k : Kind) → List (Cell π k)
  | .int => heap.ints
  | .text => heap.texts

def withCells (heap : Heap π) : {k : Kind} → List (Cell π k) → Heap π
  | .int, cs => { heap with ints := cs }
  | .text, cs => { heap with texts := cs }

@[simp] theorem cells_withCells (heap : Heap π) {k : Kind} (cs : List (Cell π k)) :
    (heap.withCells cs).cells k = cs := by
  cases k <;> rfl

theorem cells_withCells_of_ne (heap : Heap π) {k l : Kind} (cs : List (Cell π k)) (h : l ≠ k) :
    (heap.withCells cs).cells l = heap.cells l := by
  cases k <;> cases l <;> simp_all [cells, withCells]

def cell? (heap : Heap π) {k : Kind} (h : Handle k) : Option (Cell π k) :=
  (heap.cells k)[h.index]?

def alloc (heap : Heap π) {k : Kind} (c : Cell π k) : Handle k × Heap π :=
  (⟨(heap.cells k).length⟩, heap.withCells (heap.cells k ++ [c]))

def modify (heap : Heap π) {k : Kind} (h : Handle k) (f : Cell π k → Cell π k) : Heap π :=
  heap.withCells ((heap.cells k).modify h.index f)

def peek (heap : Heap π) {k : Kind} (h : Handle k) : Option k.Val :=
  (heap.cell? h).bind Cell.value?

theorem cell?_alloc_of_some (heap : Heap π) {k l : Kind} (c : Cell π k) {h : Handle l}
    {d : Cell π l} (hd : heap.cell? h = some d) : (heap.alloc c).2.cell? h = some d := by
  by_cases e : l = k
  · subst e
    simp only [cell?, alloc, cells_withCells] at hd ⊢
    rw [List.getElem?_append_left (List.getElem?_eq_some_iff.mp hd).1, hd]
  · simpa [cell?, alloc, cells_withCells_of_ne _ _ e] using hd

theorem cell?_alloc_cases (heap : Heap π) {k l : Kind} (c : Cell π k) {h : Handle l}
    {d : Cell π l} (hd : (heap.alloc c).2.cell? h = some d) :
    heap.cell? h = some d ∨ heap.cell? h = none ∧ h.id = (heap.alloc c).1.id ∧
      (⟨l, d⟩ : (k : Kind) × Cell π k) = ⟨k, c⟩ := by
  by_cases e : l = k
  · subst e
    simp only [cell?, alloc, cells_withCells, List.getElem?_append] at hd ⊢
    split at hd
    · exact .inl hd
    · right
      obtain ⟨hi, hd⟩ := List.getElem?_eq_some_iff.mp hd
      have hlength : h.index = (heap.cells l).length := by
        rw [List.length_singleton] at hi
        omega
      refine ⟨by simp [hlength], by simp [Handle.id, hlength], ?_⟩
      rw [← hd]
      simp
  · exact .inl (by simpa [cell?, alloc, cells_withCells_of_ne _ _ e] using hd)

theorem cell?_modify (heap : Heap π) {k : Kind} (h : Handle k) (f : Cell π k → Cell π k) :
    (heap.modify h f).cell? h = (heap.cell? h).map f := by
  simp [modify, cell?]

theorem cell?_modify_of_ne (heap : Heap π) {k l : Kind} {h : Handle k} {h' : Handle l}
    (f : Cell π k → Cell π k) (hne : h'.id ≠ h.id) :
    (heap.modify h f).cell? h' = heap.cell? h' := by
  by_cases e : l = k
  · subst e
    have hi : h.index ≠ h'.index := fun hi => hne (by simp [Handle.id, hi])
    simp [modify, cell?, hi]
  · simp [modify, cell?, cells_withCells_of_ne _ _ e]

theorem modify_modify (heap : Heap π) {k : Kind} (h : Handle k) (f g : Cell π k → Cell π k) :
    (heap.modify h f).modify h g = heap.modify h (g ∘ f) := by
  cases k <;> simp [modify, cells, withCells, List.modify_modify_eq]

theorem modify_eq_self {heap : Heap π} {k : Kind} {h : Handle k} {c : Cell π k}
    {f : Cell π k → Cell π k} (hc : heap.cell? h = some c) (hf : f c = c) :
    heap.modify h f = heap := by
  have hcells : (heap.cells k).modify h.index f = heap.cells k := by
    refine List.ext_getElem? fun i => ?_
    rw [List.getElem?_modify]
    split
    next hi =>
      subst hi
      rw [show (heap.cells k)[h.index]? = some c from hc]
      simp [hf]
    next => simp
  rw [modify, hcells]
  cases k <;> rfl

end Heap

end LazyFields
