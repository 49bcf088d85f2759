import LazyFields.Record
import LazyFields.Text.Decimal

/-!
How values, lazy fields and records are shown. Showing never forces a lazy field: it is
given what the field holds at the moment, if anything, and writes a placeholder otherwise.
-/

namespace LazyFields

open Text (Shape decimal quoted)

def Value.shape : Value → Shape
  | .int n => .atom (decimal n)
  | .text s => .atom (quoted s)

def Value.constantShape (v : Value) : Shape := .group (.tuple "Constant") [v.shape]

def Flavour.name : Flavour → String
  | .single => "Lazy"
  | .shared => "LazySync"

def Flavour.shape (f : Flavour) {k : Kind} (held : Option k.Val) : Shape :=
  match held with
  | some v => .group (.tuple f.name) [(Value.of v).shape]
  | none => .atom (f.name ++ "(<unevaluated>)")

def lazyText : Option Int32 → String
  | some v => decimal v
  | none => "<lazy>"

def A.display (a : A) (held : Option Int32) : String :=
  "A(normalField: " ++ decimal a.normalField ++ ", lazyField: " ++ lazyText held ++ ")"

def B.display (b : B) (held : Option Int32) : String :=
  "B(normalField: " ++ decimal b.normalField ++ ", dummyField: " ++ decimal b.dummyField ++
    ", lazyField: " ++ lazyText held ++ ")"

def A.shape (a : A) (held : Option Int32) : Shape :=
  .group (.record "A")
    [.labelled "normal_field" (.atom (decimal a.normalField)),
     .labelled "lazy_field" (Flavour.single.shape (k := .int) held)]

def B.shape (b : B) (held : Option Int32) : Shape :=
  .group (.record "B")
    [.labelled "base" (b.asA.shape held),
     .labelled "dummy_field" (.atom (decimal b.dummyField))]

end LazyFields
