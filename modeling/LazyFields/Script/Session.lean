import LazyFields.Console
import LazyFields.Record
import LazyFields.Script.Syntax
import Std.Data.TreeMap

/-!
The state that a script keeps while it runs: what its names stand for, the hooks that wait
for events, and the steps in progress with the answers and log lines gathered in each.
-/

namespace LazyFields.Script

abbrev Attempt := Except String (Except EvalError Value)

inductive Payload
  | value (v : Value)
  | count (n : Nat)
  | flag (b : Bool)
  | nothing
  | errorTexts (display debug pretty : String)
  | constant (debug pretty : String) (values : List Value)
  | report (r : Report)
  | gathered (attempts : List Attempt)
  | transcript (t : Transcript)

inductive Verdict
  | ok (p : Payload)
  | evalError (e : EvalError)
  | verifyError (e : VerifyError)
  | panicked (text : String)
  | badInput

structure Outcome where
  verdict : Verdict
  inner : List Outcome
  log : List String

/-- The producer of a field: an expression, and a number that tells it from all others. -/
structure Recipe where
  number : Nat
  expr : Expr

inductive Thing
  | handle (f : Flavour) (k : Kind) (h : Handle k) (recipe : Option Nat)
  | a (r : A)
  | b (r : B)
  | scenario (s : Scenario)

structure Hook where
  message : String
  remaining : Nat
  steps : List Step

/-- A step in progress; its lists have the newest entry first. -/
structure Frame where
  inner : List Outcome
  log : List String

/-- The place of an expression: its recipe, and the way down from the root, innermost first. -/
structure Site where
  recipe : Nat
  path : List Nat
  deriving Ord

def Site.below (s : Site) (i : Nat) : Site := { s with path := i :: s.path }

structure Session where
  names : Std.TreeMap String Thing
  cells : Std.TreeMap String Value
  hooks : List Hook
  recipes : Nat
  begun : Std.TreeMap Nat Nat
  visits : Std.TreeMap Site Nat
  frames : List Frame
  /-- The detached frames that are open; while there are any, hooks hear nothing. -/
  detached : Nat
  logging : Bool

namespace Session

def start (logging : Bool) : Session := ⟨∅, ∅, [], 0, ∅, ∅, [], 0, logging⟩

def define (name : String) (t : Thing) (s : Session) : Session :=
  { s with names := s.names.insert name t }

def undefine (name : String) (s : Session) : Session :=
  { s with names := s.names.erase name }

def setCell (name : String) (v : Value) (s : Session) : Session :=
  { s with cells := s.cells.insert name v }

def newRecipe (e : Expr) (s : Session) : Recipe × Session :=
  (⟨s.recipes, e⟩, { s with recipes := s.recipes + 1 })

def beginCall (recipe : Nat) (s : Session) : Session :=
  { s with begun := s.begun.insert recipe (s.begun.getD recipe 0 + 1) }

def callsOf (s : Session) (recipe : Nat) : Nat := s.begun.getD recipe 0

def visit (site : Site) (s : Session) : Nat × Session :=
  let n := s.visits.getD site 0
  (n, { s with visits := s.visits.insert site (n + 1) })

def addHook (h : Hook) (s : Session) : Session := { s with hooks := s.hooks ++ [h] }

def openFrame (s : Session) : Session := { s with frames := ⟨[], []⟩ :: s.frames }

def openDetached (s : Session) : Session := { s.openFrame with detached := s.detached + 1 }

def closeFrame (v : Verdict) (s : Session) : Outcome × Session :=
  match s.frames with
  | [] => (⟨v, [], []⟩, s)
  | frame :: rest =>
    let outcome : Outcome := ⟨v, frame.inner.reverse, frame.log.reverse⟩
    (outcome, { s with frames := rest.modifyHead fun f => { f with inner := outcome :: f.inner } })

/-- The log of a detached frame goes to the step around it in alphabetic order. -/
def closeDetached (s : Session) : Session :=
  match s.frames with
  | [] => s
  | frame :: rest =>
    let sorted := frame.log.mergeSort fun a b => decide (a ≤ b)
    { s with
      frames := rest.modifyHead fun f =>
        { f with inner := frame.inner ++ f.inner, log := sorted.reverse ++ f.log }
      detached := s.detached - 1 }

def writeLog (e : Event) (s : Session) : Session :=
  if s.logging then
    { s with frames := s.frames.modifyHead fun f => { f with log := e.line id :: f.log } }
  else
    s

def hearing (message : String) (h : Hook) : Hook :=
  if h.message = message then { h with remaining := h.remaining - 1 } else h

def ringHooks (e : Event) (s : Session) : List Step × Session :=
  if s.detached ≠ 0 then
    ([], s)
  else
    let heard := s.hooks.map (hearing e.message)
    ((heard.filter (·.remaining = 0)).flatMap Hook.steps,
     { s with hooks := heard.filter (·.remaining ≠ 0) })

def hear (e : Event) (s : Session) : List Step × Session := (s.writeLog e).ringHooks e

end Session

end LazyFields.Script
