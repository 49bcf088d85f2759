import LazyFields.Event
import LazyFields.Scenario.Report

/-!
The state of a run: its cells, its tallies, the state `σ` of its host, and a journal of
everything that happened. Nothing in a run reads the journal. It brackets each access to a
field, each call of a producer and each verification between two marks, and keeps with
every mark the cells and tallies of that moment.

Tallies are natural numbers. They stand for counters of 64 bits in runs with fewer than
`2 ^ 64` calls of a producer, in which no counter wraps around.
-/

namespace LazyFields

inductive Finish (ε α : Type)
  | value (a : α)
  | error (e : ε)
  | panic (message : String)
  deriving DecidableEq

namespace Finish

def of {ε α : Type} : Except ε α → Finish ε α
  | .ok a => .value a
  | .error e => .error e

def map {ε α β : Type} (f : α → β) : Finish ε α → Finish ε β
  | .value a => .value (f a)
  | .error e => .error e
  | .panic message => .panic message

end Finish

inductive Mark
  | asked (c : CellId)
  | answered (c : CellId) (finish : Finish EvalError Value)
  | begun (c : CellId)
  | ended (c : CellId) (finish : Finish EvalError Value)
  | emitted (e : Event)
  | panicked (message : String)
  | caught (message : String)
  | verifying (run : RunId)
  | accessing (run : RunId)
  | verified (run : RunId) (finish : Finish VerifyError Report)
  deriving DecidableEq

structure Moment (π : Kind → Type) where
  mark : Mark
  heap : Heap π
  tallies : List Nat

structure World (π : Kind → Type) (σ : Type) where
  heap : Heap π
  tallies : List Nat
  runs : Nat
  /-- The newest moment comes first. -/
  journal : List (Moment π)
  host : σ

namespace World

variable {π : Kind → Type} {σ : Type}

def start (host : σ) : World π σ := ⟨.empty, [], 0, [], host⟩

def history (w : World π σ) : List (Moment π) := w.journal.reverse

def marks (w : World π σ) : List Mark := w.history.map Moment.mark

def events (w : World π σ) : List Event :=
  w.marks.filterMap fun
    | .emitted e => some e
    | _ => none

def note (w : World π σ) (m : Mark) : World π σ :=
  { w with journal := ⟨m, w.heap, w.tallies⟩ :: w.journal }

@[simp] theorem heap_note (w : World π σ) (m : Mark) : (w.note m).heap = w.heap := rfl

@[simp] theorem tallies_note (w : World π σ) (m : Mark) : (w.note m).tallies = w.tallies := rfl

@[simp] theorem runs_note (w : World π σ) (m : Mark) : (w.note m).runs = w.runs := rfl

@[simp] theorem history_note (w : World π σ) (m : Mark) :
    (w.note m).history = w.history ++ [⟨m, w.heap, w.tallies⟩] := by
  simp [history, note]

@[simp] theorem marks_note (w : World π σ) (m : Mark) : (w.note m).marks = w.marks ++ [m] := by
  simp [marks]

def peek (w : World π σ) {k : Kind} (h : Handle k) : Option k.Val := w.heap.peek h

theorem peek_of_cell? {w : World π σ} {k : Kind} {h : Handle k} {c : Cell π k}
    (hc : w.heap.cell? h = some c) : w.peek h = c.value? := by
  rw [peek, Heap.peek, hc, Option.bind_some]

def isEvaluated (w : World π σ) {k : Kind} (h : Handle k) : Bool := (w.peek h).isSome

def modify (w : World π σ) {k : Kind} (h : Handle k) (f : Cell π k → Cell π k) : World π σ :=
  { w with heap := w.heap.modify h f }

@[simp] theorem tallies_modify (w : World π σ) {k : Kind} (h : Handle k)
    (f : Cell π k → Cell π k) : (w.modify h f).tallies = w.tallies := rfl

@[simp] theorem runs_modify (w : World π σ) {k : Kind} (h : Handle k) (f : Cell π k → Cell π k) :
    (w.modify h f).runs = w.runs := rfl

@[simp] theorem marks_modify (w : World π σ) {k : Kind} (h : Handle k) (f : Cell π k → Cell π k) :
    (w.modify h f).marks = w.marks := rfl

/-- Stores a value in a cell that has none, and answers with what the cell then holds. -/
def store (w : World π σ) {k : Kind} (h : Handle k) (v : k.Val) : k.Val × World π σ :=
  match w.peek h with
  | some held => (held, w)
  | none => (v, w.modify h (·.fill v))

theorem store_of_peek {w : World π σ} {k : Kind} {h : Handle k} {held : k.Val}
    (e : w.peek h = some held) (v : k.Val) : w.store h v = (held, w) := by
  simp [store, e]

theorem peek_store {w : World π σ} {k : Kind} {h : Handle k} {c : Cell π k}
    (hc : w.heap.cell? h = some c) (v : k.Val) :
    (w.store h v).2.peek h = some (w.store h v).1 := by
  cases e : w.peek h with
  | some held => simp [store, e]
  | none =>
    have hv : c.value? = none := by rwa [peek_of_cell? hc] at e
    simp [store, peek, Heap.peek, modify, Heap.cell?_modify, hc, Cell.value?_fill, hv]

theorem cell?_store (w : World π σ) {k : Kind} (h : Handle k) (v : k.Val) :
    (w.store h v).2.heap.cell? h = (w.heap.cell? h).map (Cell.fill v) := by
  cases e : w.peek h with
  | some held =>
    obtain ⟨c, hc, hv⟩ := Option.bind_eq_some_iff.mp e
    have hfill : c.fill v = c := Cell.fill_of_isEvaluated (by simp [Cell.isEvaluated, hv])
    rw [store_of_peek e, hc, Option.map_some, hfill]
  | none => simp [store, e, modify, Heap.cell?_modify]

theorem cell?_store_of_ne (w : World π σ) {k l : Kind} {h : Handle k} {h' : Handle l} (v : k.Val)
    (hne : h'.id ≠ h.id) : (w.store h v).2.heap.cell? h' = w.heap.cell? h' := by
  unfold store
  split
  · rfl
  · exact Heap.cell?_modify_of_ne _ _ hne

@[simp] theorem journal_store (w : World π σ) {k : Kind} (h : Handle k) (v : k.Val) :
    (w.store h v).2.journal = w.journal := by
  unfold store
  split <;> rfl

@[simp] theorem marks_store (w : World π σ) {k : Kind} (h : Handle k) (v : k.Val) :
    (w.store h v).2.marks = w.marks := by
  simp [marks, history]

def alloc (w : World π σ) {k : Kind} (c : Cell π k) : Handle k × World π σ :=
  ((w.heap.alloc c).1, { w with heap := (w.heap.alloc c).2 })

def tally (w : World π σ) (c : Counter) : Nat := w.tallies.getD c.index 0

def bump (w : World π σ) : Option Counter → World π σ
  | none => w
  | some c => { w with tallies := w.tallies.modify c.index (· + 1) }

@[simp] theorem heap_bump (w : World π σ) (c : Option Counter) : (w.bump c).heap = w.heap := by
  cases c <;> rfl

@[simp] theorem runs_bump (w : World π σ) (c : Option Counter) : (w.bump c).runs = w.runs := by
  cases c <;> rfl

@[simp] theorem marks_bump (w : World π σ) (c : Option Counter) : (w.bump c).marks = w.marks := by
  cases c <;> rfl

def newCounter (w : World π σ) : Counter × World π σ :=
  (⟨w.tallies.length⟩, { w with tallies := w.tallies ++ [0] })

def newRun (w : World π σ) : RunId × World π σ := (⟨w.runs⟩, { w with runs := w.runs + 1 })

def productions (w : World π σ) (c : CellId) : Nat := w.marks.count (.begun c)

theorem tally_newCounter (w : World π σ) : w.newCounter.2.tally w.newCounter.1 = 0 := by
  simp [newCounter, tally]

theorem tally_bump (w : World π σ) {c : Counter} (h : c.index < w.tallies.length) :
    (w.bump (some c)).tally c = w.tally c + 1 := by
  simp [bump, tally, List.getD, h]

theorem tally_bump_of_ne (w : World π σ) {c d : Counter} (h : d ≠ c) :
    (w.bump (some c)).tally d = w.tally d := by
  have hi : c.index ≠ d.index := fun hi => h (by cases c; cases d; simp_all)
  simp [bump, tally, List.getD, hi]

end World

end LazyFields
