import LazyFields.Proofs.Keeps

/-!
The course of a computation: what it does to the world, with its program and its results
left out. Nested accesses, productions, unwinding panics and verifications all appear in the
one relation, so a law of all runs is an induction with a case for each kind of event. What
every single step keeps is kept by every course: that induction is done once.
-/

namespace LazyFields

variable {π : Kind → Type} {σ α β : Type} {k : Kind} {w w' : World π σ}

namespace Ending

def forget : Ending α → Ending Unit
  | .value _ => .value ()
  | .panicked message => .panicked message
  | .halted reason => .halted reason

end Ending

@[simp] theorem Ending.forget_value (a : α) : (Ending.value a).forget = .value () := rfl

@[simp] theorem Ending.forget_panicked (message : String) :
    (Ending.panicked message : Ending α).forget = .panicked message := rfl

@[simp] theorem Ending.forget_halted (reason : Halt) :
    (Ending.halted reason : Ending α).forget = .halted reason := rfl

def Mark.run? : Mark → Option RunId
  | .emitted (.passed r _) | .emitted (.untouched r _) | .emitted (.raised r _) => some r
  | .accessing r | .verified r _ => some r
  | _ => none

theorem Mark.ne_begun_of_run? {m : Mark} {r : RunId} (h : m.run? = some r) (c : CellId) :
    m ≠ .begun c := by
  rintro rfl
  cases h

namespace World

def call (w : World π σ) (h : Handle k) (s : Source π k) : World π σ :=
  (w.bump s.counter).note (.begun h.id)

def conclude (w : World π σ) (h : Handle k) (f : Flavour) :
    Ending (Except EvalError k.Val) → World π σ
  | .value (.ok v) => ((w.note (.ended h.id (.value (.of v)))).store h v).2
  | .value (.error e) =>
    (w.note (.ended h.id (.error e))).note (.emitted (.evaluationFailed f h.id e))
  | .panicked message => w.note (.ended h.id (.panic message))
  | .halted _ => w

def release (w : World π σ) (h : Handle k) : Ending Unit → World π σ
  | .value _ => w.modify h (·.withGuard .free)
  | .panicked _ => w.modify h (·.withGuard .poisoned)
  | .halted _ => w

def answer (w : World π σ) (h : Handle k) : Ending (Except EvalError k.Val) → World π σ
  | .value r => w.note (.answered h.id ((Finish.of r).map Value.of))
  | .panicked message => w.note (.answered h.id (.panic message))
  | .halted _ => w

@[simp] theorem heap_call (w : World π σ) (h : Handle k) (s : Source π k) :
    (w.call h s).heap = w.heap := by
  simp [call]

@[simp] theorem journal_quiet (w : World π σ) (q : Quiet π σ α) :
    (q.apply w).2.journal = w.journal := by
  cases q <;> rfl

@[simp] theorem marks_quiet (w : World π σ) (q : Quiet π σ α) : (q.apply w).2.marks = w.marks := by
  cases q <;> rfl

theorem history_congr {w w' : World π σ} (h : w'.journal = w.journal) : w'.history = w.history := by
  rw [history, history, h]

@[simp] theorem history_quiet (w : World π σ) (q : Quiet π σ α) :
    (q.apply w).2.history = w.history :=
  history_congr (w.journal_quiet q)

theorem history_prefix_note (w : World π σ) (m : Mark) : w.history <+: (w.note m).history := by
  rw [history_note]
  exact List.prefix_append _ _

@[simp] theorem history_bump (w : World π σ) (c : Option Counter) :
    (w.bump c).history = w.history := by
  cases c <;> rfl

theorem history_prefix_call (w : World π σ) (h : Handle k) (s : Source π k) :
    w.history <+: (w.call h s).history := by
  have hnote := (w.bump s.counter).history_prefix_note (.begun h.id)
  rwa [history_bump] at hnote

theorem history_prefix_conclude (w : World π σ) (h : Handle k) (f : Flavour)
    (r : Ending (Except EvalError k.Val)) : w.history <+: (w.conclude h f r).history := by
  rcases r with (e | v) | message | reason
  · exact (w.history_prefix_note _).trans (history_prefix_note _ _)
  · rw [show (w.conclude h f (.value (.ok v))).history = _ from
      history_congr (journal_store _ h v)]
    exact w.history_prefix_note _
  · exact w.history_prefix_note _
  · exact List.prefix_refl _

@[simp] theorem history_release (w : World π σ) (h : Handle k) (e : Ending Unit) :
    (w.release h e).history = w.history := by
  cases e <;> rfl

theorem history_prefix_answer (w : World π σ) (h : Handle k)
    (r : Ending (Except EvalError k.Val)) : w.history <+: (w.answer h r).history := by
  cases r with
  | value | panicked => exact w.history_prefix_note _
  | halted => exact List.prefix_refl _

@[simp] theorem marks_call (w : World π σ) (h : Handle k) (s : Source π k) :
    (w.call h s).marks = w.marks ++ [.begun h.id] := by
  simp [call]

@[simp] theorem heap_answer (w : World π σ) (h : Handle k) (r : Ending (Except EvalError k.Val)) :
    (w.answer h r).heap = w.heap := by
  cases r <;> rfl

theorem conclude_keeps (w : World π σ) (h : Handle k) (f : Flavour)
    (r : Ending (Except EvalError k.Val)) : w.heap.Keeps (w.conclude h f r).heap := by
  rcases r with (e | v) | message | reason
  · exact .refl _
  · exact store_keeps (w.note (.ended h.id (.value (.of v)))) h v
  · exact .refl _
  · exact .refl _

theorem release_keeps (w : World π σ) (h : Handle k) (e : Ending Unit) :
    w.heap.Keeps (w.release h e).heap := by
  cases e with
  | value | panicked => exact .modify _ h (.withGuard _)
  | halted => exact .refl _

end World

/-- What every single step of a run keeps, whatever it is a step of. -/
structure World.Invariant (I : World π σ → Prop) : Prop where
  quiet : ∀ {α : Type} {w : World π σ} (q : Quiet π σ α), I w → I (q.apply w).2
  note : ∀ {w : World π σ} {m : Mark}, (∀ c, m ≠ .begun c) → I w → I (w.note m)
  withGuard : ∀ {k : Kind} {w : World π σ} (h : Handle k) (g : Guard), I w →
    I (w.modify h (·.withGuard g))
  call : ∀ {k : Kind} {w : World π σ} {h : Handle k} {c : Cell π k} {s : Source π k},
    w.heap.cell? h = some c → c.source? = some s → I w → I (w.call h s)
  store : ∀ {k : Kind} {w : World π σ} (h : Handle k) (v : k.Val), I w → I (w.store h v).2
  newRun : ∀ {w : World π σ}, I w → I w.newRun.2

namespace World.Invariant

variable {I : World π σ → Prop} (hI : World.Invariant I) (hw : I w)

include hI hw

theorem conclude (h : Handle k) (f : Flavour) (r : Ending (Except EvalError k.Val)) :
    I (w.conclude h f r) := by
  rcases r with (e | v) | message | reason
  · exact hI.note (by simp) (hI.note (by simp) hw)
  · exact hI.store h v (hI.note (by simp) hw)
  · exact hI.note (by simp) hw
  · exact hw

theorem release (h : Handle k) (e : Ending Unit) : I (w.release h e) := by
  cases e with
  | value | panicked => exact hI.withGuard h _ hw
  | halted => exact hw

theorem answer (h : Handle k) (r : Ending (Except EvalError k.Val)) : I (w.answer h r) := by
  cases r with
  | value | panicked => exact hI.note (by simp) hw
  | halted => exact hw

end World.Invariant

/-- A computation can take the first world to the second and end in this way. A halt leaves
open what it interrupts. -/
inductive Course : World π σ → Ending Unit → World π σ → Prop
  | rest (w : World π σ) : Course w (.value ()) w
  | andThen {w w₁ w₂ : World π σ} {e : Ending Unit} :
      Course w (.value ()) w₁ → Course w₁ e w₂ → Course w e w₂
  | quiet {α : Type} (q : Quiet π σ α) (w : World π σ) : Course w (.value ()) (q.apply w).2
  | halted (reason : Halt) (w : World π σ) : Course w (.halted reason) w
  | panicked (message : String) (w : World π σ) :
      Course w (.panicked message) (w.note (.panicked message))
  | caught {w w₁ : World π σ} {message : String} :
      Course w (.panicked message) w₁ → Course w (.value ()) (w₁.note (.caught message))
  | known {k : Kind} {h : Handle k} {w : World π σ} {v : k.Val} : w.peek h = some v →
      Course w (.value ()) ((w.note (.asked h.id)).answer h (.value (.ok v)))
  | accessed {k : Kind} {h : Handle k} {c : Cell π k} {w w₁ : World π σ}
      {r : Ending (Except EvalError k.Val)} :
      w.heap.cell? h = some c → c.value? = none → Course (w.note (.asked h.id)) r.forget w₁ →
      (∀ v, r = .value (.ok v) → w₁.peek h = some v) → Course w r.forget (w₁.answer h r)
  | guarded {k : Kind} {h : Handle k} {s : Source π k} {w w₁ : World π σ} {e : Ending Unit} :
      w.heap.cell? h = some (.deferred .shared s none .free) →
      Course (w.modify h (·.withGuard .held)) e w₁ → Course w e (w₁.release h e)
  | interrupted {c : CellId} {f : Flavour} {w w₁ : World π σ} {e : Ending Unit} :
      Course (w.note (.emitted (.forcing f c))) e w₁ → e ≠ .value () → Course w e w₁
  | produced {k : Kind} {h : Handle k} {c : Cell π k} {s : Source π k} {w w₁ w₂ : World π σ}
      {r : Ending (Except EvalError k.Val)} :
      w.heap.cell? h = some c → c.source? = some s → c.value? = none →
      Course (w.note (.emitted (.forcing c.flavour h.id))) (.value ()) w₁ →
      Course (w₁.call h s) r.forget w₂ → Course w r.forget (w₂.conclude h c.flavour r)
  | verifying (s : Scenario) (w : World π σ) :
      Course w (.value ()) ((Watch.begin s w).2.note (.verifying (Watch.begin s w).1.run))
  /-- The verification that began first in this course adds a mark of its own. -/
  | own {w w₁ : World π σ} {e : Ending Unit} {m : Mark} :
      Course w e w₁ → m.run? = some ⟨w.runs⟩ → Course w e (w₁.note m)

namespace Course

theorem keeps {w w' : World π σ} {e : Ending Unit} (h : Course w e w') : w.heap.Keeps w'.heap := by
  induction h with
  | rest | halted | panicked | verifying => exact .refl _
  | andThen _ _ ih₁ ih₂ => exact ih₁.trans ih₂
  | quiet q w => exact q.apply_keeps w
  | caught _ ih | own _ _ ih | interrupted _ _ ih => exact ih
  | known => rw [World.heap_answer]; exact .refl _
  | accessed _ _ _ _ ih => rw [World.heap_answer]; exact ih
  | guarded _ _ ih =>
    exact (Heap.Keeps.modify _ _ (.withGuard _)).trans (ih.trans (World.release_keeps _ _ _))
  | produced _ _ _ _ _ ih₁ ih₂ =>
    rw [World.heap_call] at ih₂
    exact ih₁.trans (ih₂.trans (World.conclude_keeps _ _ _ _))

theorem invariant {I : World π σ → Prop} {e : Ending Unit} (h : Course w e w')
    (hI : World.Invariant I) (hw : I w) : I w' := by
  induction h with
  | rest | halted => exact hw
  | andThen _ _ ih₁ ih₂ => exact ih₂ (ih₁ hw)
  | quiet q w => exact hI.quiet q hw
  | panicked message w => exact hI.note (by simp) hw
  | caught _ ih => exact hI.note (by simp) (ih hw)
  | known => exact hI.answer (hI.note (by simp) hw) _ _
  | accessed _ _ _ _ ih => exact hI.answer (ih (hI.note (by simp) hw)) _ _
  | guarded _ _ ih => exact hI.release (ih (hI.withGuard _ _ hw)) _ _
  | interrupted _ _ ih => exact ih (hI.note (by simp) hw)
  | produced hc hs _ hforced _ ih₁ ih₂ =>
    obtain ⟨d, hd, hcd⟩ := hforced.keeps _ _ hc
    have hheard := ih₁ (hI.note (by simp) hw)
    exact hI.conclude (ih₂ (hI.call hd (hcd.source?.trans hs) hheard)) _ _ _
  | verifying s w => exact hI.note (by simp) (hI.newRun hw)
  | own _ hm ih => exact hI.note (Mark.ne_begun_of_run? hm) (ih hw)

theorem history_grows {w w' : World π σ} {e : Ending Unit} (h : Course w e w') :
    w.history <+: w'.history := by
  have hI : World.Invariant fun v : World π σ => w.history <+: v.history :=
    { quiet := fun q hv => by rwa [World.history_quiet]
      note := fun _ hv => hv.trans (World.history_prefix_note _ _)
      withGuard := fun _ _ hv => hv
      call := fun _ _ hv => hv.trans (World.history_prefix_call _ _ _)
      store := fun h v hv => by rwa [World.history_congr (World.journal_store _ h v)]
      newRun := fun hv => hv }
  exact h.invariant hI (List.prefix_refl _)

theorem marks_grow {w w' : World π σ} {e : Ending Unit} (h : Course w e w') :
    w.marks <+: w'.marks :=
  h.history_grows.map Moment.mark

end Course

end LazyFields
