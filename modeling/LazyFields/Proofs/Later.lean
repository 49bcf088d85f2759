import LazyFields.Proofs.Following

/-!
What comes later. A point of a run may lie inside any calls; whatever comes after it, a field that
has a value there answers with that value for good, at once and without any effect.
-/

namespace LazyFields

variable {π : Kind → Type} {σ α : Type} {k : Kind}

namespace World

/-- What can come after a point of a run, which may lie inside any calls: more courses, and the
ends of the accesses and calls that the point lies in. -/
inductive Later (u : World π σ) : World π σ → Prop
  | now : Later u u
  | goesOn {v w : World π σ} {e : Ending Unit} : Later u v → Course v e w → Later u w
  | concluded {v : World π σ} {k : Kind} (h : Handle k) (f : Flavour)
      (r : Ending (Except EvalError k.Val)) : Later u v → Later u (v.conclude h f r)
  | released {v : World π σ} {k : Kind} (h : Handle k) (e : Ending Unit) :
      Later u v → Later u (v.release h e)
  | answered {v : World π σ} {k : Kind} (h : Handle k) (r : Ending (Except EvalError k.Val)) :
      Later u v → Later u (v.answer h r)
  | noted {v : World π σ} (m : Mark) : Later u v → Later u (v.note m)

theorem Later.keeps {u v : World π σ} (h : u.Later v) : u.heap.Keeps v.heap := by
  induction h with
  | now => exact .refl _
  | goesOn _ hcourse ih => exact ih.trans hcourse.keeps
  | concluded h f r _ ih => exact ih.trans (conclude_keeps _ h f r)
  | released h e _ ih => exact ih.trans (release_keeps _ h e)
  | answered h r _ ih => rw [heap_answer]; exact ih
  | noted m _ ih => exact ih

/-- Nothing happens from the first world to the second but accesses that are answered at once. -/
structure Undisturbed (w w' : World π σ) : Prop where
  heap : w'.heap = w.heap
  tallies : w'.tallies = w.tallies
  host : w'.host = w.host
  events : w'.events = w.events
  productions : ∀ c, w'.productions c = w.productions c

namespace Undisturbed

theorem refl (w : World π σ) : w.Undisturbed w := ⟨rfl, rfl, rfl, rfl, fun _ => rfl⟩

theorem trans {u v w : World π σ} (huv : u.Undisturbed v) (hvw : v.Undisturbed w) :
    u.Undisturbed w :=
  ⟨hvw.heap.trans huv.heap, hvw.tallies.trans huv.tallies, hvw.host.trans huv.host,
    hvw.events.trans huv.events, fun c => (hvw.productions c).trans (huv.productions c)⟩

theorem known (w : World π σ) (h : Handle k) (v : k.Val) :
    w.Undisturbed ((w.note (.asked h.id)).answer h (.value (.ok v))) where
  heap := rfl
  tallies := rfl
  host := rfl
  events := by simp [answer, World.events]
  productions := fun c => by simp [answer, World.productions]

end Undisturbed

end World

def Host.Answers (host : Host π σ) (depth : Nat) (x : Proc π σ α) (a : α) (w : World π σ) : Prop :=
  ∃ w', host.run depth x w = (.value a, w') ∧ w.Undisturbed w'

def Host.AnswersForGood (host : Host π σ) (h : Handle k) (v : k.Val) (w : World π σ) : Prop :=
  ∀ u, w.Later u → ∀ depth, host.Answers depth h.get (.ok v) u

variable {w : World π σ} {h : Handle k} {v : k.Val}

theorem Host.answers_of_peek (host : Host π σ) (depth : Nat) (hv : w.peek h = some v) :
    host.Answers depth h.get (.ok v) w :=
  ⟨_, Environment.force_known (host.environment depth) hv, .known w h v⟩

theorem Host.answersForGood_of_peek (host : Host π σ) (hv : w.peek h = some v) :
    host.AnswersForGood h v w :=
  fun _ hu depth => host.answers_of_peek depth (hu.keeps.peek hv)

end LazyFields
