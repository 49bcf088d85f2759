import LazyFields.Division
import LazyFields.Value

/-!
Producers: deferred computations, of which a few are fixed and all others are programs
named by a code from `π`. What a code means is said by the host of the run, so a lazy
field holds the name of its computation and never the computation itself.
-/

namespace LazyFields

inductive Producer (π : Kind → Type) : Kind → Type
  | constant {k : Kind} (v : k.Val) : Producer π k
  | division (dividend divisor : Int32) : Producer π .int
  | custom {k : Kind} (code : π k) : Producer π k

structure Counter where
  index : Nat
  deriving DecidableEq

structure Source (π : Kind → Type) (k : Kind) where
  producer : Producer π k
  counter : Option Counter

def Source.plain {π : Kind → Type} {k : Kind} (p : Producer π k) : Source π k := ⟨p, none⟩

def Source.counted {π : Kind → Type} {k : Kind} (c : Counter) (p : Producer π k) : Source π k :=
  ⟨p, some c⟩

end LazyFields
