import LazyFields.Program
import LazyFields.Record

/-!
Equality of records. Plain fields are compared first; lazy fields that share a cell are
equal without a look at it; otherwise both are forced, the left one before the right one,
and an error of either is the answer.
-/

namespace LazyFields

variable {π : Kind → Type} {σ : Type}

def Handle.tryEq {k : Kind} (l r : Handle k) : Proc π σ (Except EvalError Bool) :=
  if l = r then
    return .ok true
  else do
    match ← l.get with
    | .error e => return .error e
    | .ok v =>
      match ← r.get with
      | .error e => return .error e
      | .ok v' => return .ok (v = v')

def A.tryEq (l r : A) : Proc π σ (Except EvalError Bool) :=
  if l.normalField = r.normalField then l.lazyField.tryEq r.lazyField else return .ok false

def B.tryEq (l r : B) : Proc π σ (Except EvalError Bool) :=
  if l.dummyField = r.dummyField then l.asA.tryEq r.asA else return .ok false

end LazyFields
