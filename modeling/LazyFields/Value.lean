/-!
The values of a lazy field: machine integers and texts. A kind is the static type of a
field; a `Value` carries its kind along with it, for places where several kinds meet.
-/

namespace LazyFields

inductive Kind
  | int
  | text
  deriving DecidableEq

@[reducible] def Kind.Val : Kind → Type
  | .int => Int32
  | .text => String

instance Kind.decidableEqVal : (k : Kind) → DecidableEq k.Val
  | .int => inferInstanceAs (DecidableEq Int32)
  | .text => inferInstanceAs (DecidableEq String)

inductive Value
  | int (n : Int32)
  | text (s : String)
  deriving DecidableEq

def Value.kind : Value → Kind
  | .int _ => .int
  | .text _ => .text

def Value.of : {k : Kind} → k.Val → Value
  | .int, n => .int n
  | .text, s => .text s

def Value.as? : (k : Kind) → Value → Option k.Val
  | .int, .int n => some n
  | .text, .text s => some s
  | _, _ => none

@[simp] theorem Value.as?_of {k : Kind} (v : k.Val) : (Value.of v).as? k = some v := by
  cases k <;> rfl

@[simp] theorem Value.kind_of {k : Kind} (v : k.Val) : (Value.of v).kind = k := by
  cases k <;> rfl

theorem Value.of_injective {k : Kind} {v w : k.Val} (h : Value.of v = Value.of w) : v = w := by
  simpa using congrArg (Value.as? k) h

end LazyFields
