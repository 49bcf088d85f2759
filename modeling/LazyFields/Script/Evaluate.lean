import LazyFields.Script.Perform

/-!
Expressions and their values. An expression yields a value, an error or a panic; arithmetic
takes its operands from left to right and is given up at the first that is no integer.
-/

namespace LazyFields.Script

namespace Arith

def mismatch : EvalError := .failed "type mismatch"

def operand : Except EvalError Value → Except EvalError Int32
  | .ok (.int n) => .ok n
  | .ok (.text _) => .error mismatch
  | .error e => .error e

def apply : Arith → Int32 → Int32 → Except EvalError Int32
  | .div, a, b => LazyFields.checkedDiv a b
  | .add, a, b => .ok (a + b)

end Arith

namespace Expr

def unknown (name : String) : Except EvalError Value := .error (.failed ("no such name: " ++ name))

def truth (b : Bool) : Value := .int (if b then 1 else 0)

def evalGet (name : String) : Job (Except EvalError Value) := do
  match ← Job.thing? name with
  | some (.handle _ _ h _) => return (← h.get).map Value.of
  | _ => return unknown name

def evalIsEvaluated (name : String) : Job (Except EvalError Value) := do
  match ← Job.thing? name with
  | some (.handle _ _ h _) => return .ok (truth (← h.isEvaluated))
  | _ => return unknown name

def evalField (name : String) : Job (Except EvalError Value) := do
  match ← Job.thing? name with
  | some (.a r) => return (← r.lazyField.get).map Value.int
  | some (.b r) => return (← r.lazyField.get).map Value.int
  | _ => return unknown name

def evalEqual (l r : String) : Job (Except EvalError Value) := do
  match ← Job.thing? l, ← Job.thing? r with
  | none, _ => return unknown l
  | _, none => return unknown r
  | some (.a l), some (.a r) => return (← l.tryEq r).map truth
  | some (.b l), some (.b r) => return (← l.tryEq r).map truth
  | _, _ => return .error Arith.mismatch

def evalRun (name : String) : Job (Except EvalError Value) := do
  match ← Job.thing? name with
  | some (.scenario s) =>
    match ← s.verify with
    | .ok report => return .ok (.int (Int32.ofNat report.checks.length))
    | .error e => return .error (.failed e.message)
  | _ => return unknown name

def evalCell (name : String) : Job (Except EvalError Value) := do
  match ← Proc.ask (·.cells[name]?) with
  | some v => return .ok v
  | none => return unknown name

mutual

def eval (site : Site) : Expr → Job (Except EvalError Value)
  | .const v => return .ok v
  | .fail e => return .error e
  | .panic text => Proc.panic text
  | .arith op l r => do
    match Arith.operand (← l.eval (site.below 0)) with
    | .error e => return .error e
    | .ok a =>
      match Arith.operand (← r.eval (site.below 1)) with
      | .error e => return .error e
      | .ok b => return (op.apply a b).map Value.int
  | .calls first rest => do
    match ← Proc.host (·.visit site) with
    | 0 => first.eval (site.below 0)
    | n + 1 => evalNth site 1 (fun _ => first.eval (site.below 0)) n rest
  | .sequence first rest => do
    match ← first.eval (site.below 0) with
    | .error e => return .error e
    | .ok v => evalRest site 1 v rest
  | .orElse l r => do
    match ← l.eval (site.below 0) with
    | .ok v => return .ok v
    | .error _ => r.eval (site.below 1)
  | .catching e => do
    match ← (e.eval (site.below 0)).attempt with
    | .ok r => return r
    | .error text => return .error (.failed ("caught: " ++ text))
  | .cell name => evalCell name
  | .setCell name v => do
    Proc.tell (·.setCell name v)
    return .ok v
  | .get name => evalGet name
  | .isEvaluated name => evalIsEvaluated name
  | .field name => evalField name
  | .equal l r => evalEqual l r
  | .run name => evalRun name
  | .step s => do
    let _ ← s.answer
    return .ok (.int 0)

/-- Evaluates the element at `n`, or the last one, which is `last` if there are no others. -/
def evalNth (site : Site) (i : Nat) (last : Unit → Job (Except EvalError Value)) :
    Nat → List Expr → Job (Except EvalError Value)
  | _, [] => last ()
  | 0, e :: _ => e.eval (site.below i)
  | n + 1, e :: rest => evalNth site (i + 1) (fun _ => e.eval (site.below i)) n rest

def evalRest (site : Site) (i : Nat) (v : Value) : List Expr → Job (Except EvalError Value)
  | [] => return .ok v
  | e :: rest => do
    match ← e.eval (site.below i) with
    | .error e => return .error e
    | .ok v => evalRest site (i + 1) v rest

end

end Expr

namespace Recipe

def produce (k : Kind) (r : Recipe) : Job (Except EvalError k.Val) := do
  Proc.tell (·.beginCall r.number)
  match ← r.expr.eval ⟨r.number, []⟩ with
  | .error e => return .error e
  | .ok v =>
    match v.as? k with
    | some v => return .ok v
    | none => return .error Arith.mismatch

end Recipe

def listen (e : Event) : Job Unit := do
  for s in ← Proc.host (·.hear e) do
    let _ ← s.answer

def host : Host (fun _ => Recipe) Session := ⟨Recipe.produce, listen⟩

/-- More calls than any memory has room for, so a script that comes to an end by itself
never nests so deep. -/
def nesting : Nat := Nat.pow 2 62

def answers (logging : Bool) (steps : List Step) : Ending (List Outcome) :=
  (host.run nesting (steps.mapM Step.answer) (.start (.start logging))).1

end LazyFields.Script
