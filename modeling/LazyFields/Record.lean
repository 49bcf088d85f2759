import LazyFields.Heap

/-!
Immutable records with a lazy field. `A` has a plain field and a lazy one; `B` extends it
by a second plain field. Updates copy the record and carry the handle of the lazy field
across, so a copy shares its cell with the record it was made from.
-/

namespace LazyFields

structure A where
  normalField : Int32
  lazyField : Handle .int
  deriving DecidableEq

structure B extends A where
  dummyField : Int32
  deriving DecidableEq

namespace A

def withNormalField (a : A) (n : Int32) : A := { a with normalField := n }

def withLazyField (a : A) (h : Handle .int) : A := { a with lazyField := h }

@[simp] theorem normalField_withNormalField (a : A) (n : Int32) :
    (a.withNormalField n).normalField = n := rfl

@[simp] theorem lazyField_withNormalField (a : A) (n : Int32) :
    (a.withNormalField n).lazyField = a.lazyField := rfl

@[simp] theorem normalField_withLazyField (a : A) (h : Handle .int) :
    (a.withLazyField h).normalField = a.normalField := rfl

@[simp] theorem lazyField_withLazyField (a : A) (h : Handle .int) :
    (a.withLazyField h).lazyField = h := rfl

end A

namespace B

/-- The base record, whether it is lent or given away. -/
def asA (b : B) : A := b.toA

def withNormalField (b : B) (n : Int32) : B := { b with toA := b.toA.withNormalField n }

def withDummyField (b : B) (n : Int32) : B := { b with dummyField := n }

def withLazyField (b : B) (h : Handle .int) : B := { b with toA := b.toA.withLazyField h }

@[simp] theorem asA_withNormalField (b : B) (n : Int32) :
    (b.withNormalField n).asA = b.asA.withNormalField n := rfl

@[simp] theorem asA_withDummyField (b : B) (n : Int32) : (b.withDummyField n).asA = b.asA := rfl

@[simp] theorem asA_withLazyField (b : B) (h : Handle .int) :
    (b.withLazyField h).asA = b.asA.withLazyField h := rfl

@[simp] theorem dummyField_withNormalField (b : B) (n : Int32) :
    (b.withNormalField n).dummyField = b.dummyField := rfl

@[simp] theorem dummyField_withDummyField (b : B) (n : Int32) :
    (b.withDummyField n).dummyField = n := rfl

@[simp] theorem dummyField_withLazyField (b : B) (h : Handle .int) :
    (b.withLazyField h).dummyField = b.dummyField := rfl

end B

end LazyFields
