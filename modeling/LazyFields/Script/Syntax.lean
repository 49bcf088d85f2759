import LazyFields.Scenario.Report
import LazyFields.Text.Shape
import LazyFields.Cell

/-!
Scripts: sequences of steps that name fields, records and scenarios and do things to them.
The producer of a field that a script makes is an expression, and an expression can run a
step, so expressions and steps are defined together.
-/

namespace LazyFields.Script

open Text (Layout)

inductive Arith
  | div
  | add
  deriving DecidableEq

mutual

inductive Expr
  | const (v : Value)
  | fail (e : EvalError)
  | panic (text : String)
  | arith (op : Arith) (l r : Expr)
  /-- Counts its own evaluations, and evaluates the element of that number or the last. -/
  | calls (first : Expr) (rest : List Expr)
  | sequence (first : Expr) (rest : List Expr)
  | orElse (l r : Expr)
  | catching (e : Expr)
  | cell (name : String)
  | setCell (name : String) (v : Value)
  | get (name : String)
  | isEvaluated (name : String)
  | field (name : String)
  | equal (l r : String)
  | run (name : String)
  | step (s : Step)

inductive Step
  | malformed
  | checkedDiv (a b : Int32)
  | constant (v : Value) (times : Nat)
  | evalError (e : EvalError)
  | evalErrorEq (l r : EvalError)
  | verifyError (e : VerifyError)
  | defer (name : String) (f : Flavour) (k : Kind) (producer : Expr)
  | ready (name : String) (f : Flavour) (v : Value)
  | get (source : String)
  | isEvaluated (source : String)
  | calls (source : String)
  | sameCell (l r : String)
  | threads (source : String) (n : Nat)
  | setCell (name : String) (v : Value)
  | clone (source name : String)
  | drop (name : String)
  | hook (message : String) (nth : Nat) (steps : List Step)
  | newA (name : String) (normal : Int32) (lazyName : String)
  | newB (name : String) (normal dummy : Int32) (lazyName : String)
  | withNormalField (source name : String) (n : Int32)
  | withDummyField (source name : String) (n : Int32)
  | withLazyField (source name lazyName : String)
  | normalField (source : String)
  | dummyField (source : String)
  | lazyField (source : String)
  | asA (source name : String)
  | tryEq (l r : String)
  | display (source : String)
  | debug (source : String) (layout : Layout)
  /-- Without a layout the answer is the report, with one it is the text of the answer. -/
  | verify (layout : Option Layout)
  | run (source : String) (layout : Option Layout)
  | scenario (name : String) (producer : Option Expr)
  | evaluations (source : String)
  | console (setting : Option String)

end

end LazyFields.Script
