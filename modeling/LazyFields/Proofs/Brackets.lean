import LazyFields.Proofs.Laws

/-!
What is under way at a point of a run, read off the marks up to there: the accesses that have not
been answered, and the calls of producers that have not ended. Whatever ends, by a return or by a
panic, has closed all that it opened.
-/

namespace LazyFields

variable {π : Kind → Type} {σ α : Type} {k : Kind}

/-- An access under way. Its production is in progress from its announcement on. -/
structure Underway where
  cell : CellId
  announced : Bool
  deriving DecidableEq

namespace Mark

def track : Mark → List Underway → List Underway
  | .asked c, accesses => ⟨c, false⟩ :: accesses
  | .emitted (.forcing _ _), accesses =>
    accesses.modifyHead fun access => { access with announced := true }
  | .answered _ _, accesses => accesses.tail
  | _, accesses => accesses

def trackCall : Mark → List CellId → List CellId
  | .begun c, calls => c :: calls
  | .ended _ _, calls => calls.tail
  | _, calls => calls

theorem track_of_run? {m : Mark} {r : RunId} (h : m.run? = some r) (accesses : List Underway) :
    m.track accesses = accesses := by
  unfold run? at h
  split at h <;> first | rfl | cases h

theorem trackCall_of_run? {m : Mark} {r : RunId} (h : m.run? = some r) (calls : List CellId) :
    m.trackCall calls = calls := by
  unfold run? at h
  split at h <;> first | rfl | cases h

end Mark

def underway (marks : List Mark) : List Underway :=
  marks.foldl (fun accesses m => m.track accesses) []

def callsUnderway (marks : List Mark) : List CellId :=
  marks.foldl (fun calls m => m.trackCall calls) []

namespace World

variable (w : World π σ)

def underway : List Underway := LazyFields.underway w.marks

def calls : List CellId := callsUnderway w.marks

theorem underway_congr {w w' : World π σ} (h : w'.marks = w.marks) : w'.underway = w.underway := by
  rw [underway, underway, h]

theorem calls_congr {w w' : World π σ} (h : w'.marks = w.marks) : w'.calls = w.calls := by
  rw [calls, calls, h]

@[simp] theorem underway_note (m : Mark) : (w.note m).underway = m.track w.underway := by
  simp [underway, LazyFields.underway, List.foldl_append]

@[simp] theorem calls_note (m : Mark) : (w.note m).calls = m.trackCall w.calls := by
  simp [calls, callsUnderway, List.foldl_append]

@[simp] theorem underway_quiet (q : Quiet π σ α) : (q.apply w).2.underway = w.underway :=
  underway_congr (by simp)

variable (h : Handle k) (f : Flavour) (s : Source π k)

@[simp] theorem underway_enter : (w.enter h f).underway = ⟨h.id, false⟩ :: w.underway := by
  cases f with
  | single => exact w.underway_note _
  | shared => exact (underway_congr rfl).trans (w.underway_note (.asked h.id))

@[simp] theorem calls_enter : (w.enter h f).calls = w.calls := by
  cases f with
  | single => exact w.calls_note _
  | shared => exact (calls_congr rfl).trans (w.calls_note (.asked h.id))

theorem underway_announce_enter :
    ((w.enter h f).announce h f).underway = ⟨h.id, true⟩ :: w.underway := by
  simp [announce, Mark.track]

@[simp] theorem calls_announce : (w.announce h f).calls = w.calls := by
  simp [announce, Mark.trackCall]

@[simp] theorem underway_call : (w.call h s).underway = w.underway := by
  rw [call, underway_note]
  exact underway_congr (marks_bump w s.counter)

@[simp] theorem calls_call : (w.call h s).calls = h.id :: w.calls := by
  rw [call, calls_note]
  exact congrArg (h.id :: ·) (calls_congr (marks_bump w s.counter))

@[simp] theorem underway_conclude (r : Ending (Except EvalError k.Val)) :
    (w.conclude h f r).underway = w.underway := by
  rcases r with (e | v) | message | reason
  · simp [conclude, Mark.track]
  · exact (underway_congr (marks_store _ h v)).trans (w.underway_note _)
  · simp [conclude, Mark.track]
  · rfl

theorem calls_conclude {r : Ending (Except EvalError k.Val)} (hr : ∀ reason, r ≠ .halted reason) :
    (w.conclude h f r).calls = w.calls.tail := by
  rcases r with (e | v) | message | reason
  · simp [conclude, Mark.trackCall]
  · exact (calls_congr (marks_store _ h v)).trans (w.calls_note _)
  · simp [conclude, Mark.trackCall]
  · exact absurd rfl (hr reason)

theorem underway_exit {r : Ending (Except EvalError k.Val)} (hr : ∀ reason, r ≠ .halted reason) :
    (w.exit h f r).underway = w.underway.tail := by
  rcases r with r | message | reason
  · cases f <;> exact underway_note _ _
  · cases f <;> exact underway_note _ _
  · exact absurd rfl (hr reason)

@[simp] theorem calls_exit (r : Ending (Except EvalError k.Val)) :
    (w.exit h f r).calls = w.calls := by
  rcases r with r | message | reason
  · cases f <;> exact calls_note _ _
  · cases f <;> exact calls_note _ _
  · cases f <;> rfl

end World

structure Closes (w w' : World π σ) : Prop where
  underway : w'.underway = w.underway
  calls : w'.calls = w.calls

namespace Closes

variable {w w₁ w₂ w₃ : World π σ} {h : Handle k} {f : Flavour} {s : Source π k}

theorem refl (w : World π σ) : Closes w w := ⟨rfl, rfl⟩

theorem trans (h₁ : Closes w w₁) (h₂ : Closes w₁ w₂) : Closes w w₂ :=
  ⟨h₂.underway.trans h₁.underway, h₂.calls.trans h₁.calls⟩

theorem of_marks (h : w₁.marks = w.marks) : Closes w w₁ :=
  ⟨World.underway_congr h, World.calls_congr h⟩

theorem note {m : Mark} (h : Closes w w₁) (ht : ∀ accesses, m.track accesses = accesses)
    (hc : ∀ calls, m.trackCall calls = calls) : Closes w (w₁.note m) :=
  ⟨by rw [World.underway_note, ht, h.underway], by rw [World.calls_note, hc, h.calls]⟩

theorem underway_announced (h₁ : Closes ((w.enter h f).announce h f) w₁) :
    w₁.underway = ⟨h.id, true⟩ :: w.underway :=
  h₁.underway.trans (w.underway_announce_enter h f)

theorem calls_announced (h₁ : Closes ((w.enter h f).announce h f) w₁) : w₁.calls = w.calls := by
  rw [h₁.calls, World.calls_announce, World.calls_enter]

theorem underway_called (h₁ : Closes ((w.enter h f).announce h f) w₁)
    (h₂ : Closes (w₁.call h s) w₂) : w₂.underway = ⟨h.id, true⟩ :: w.underway := by
  rw [h₂.underway, World.underway_call, h₁.underway_announced]

theorem calls_called (h₁ : Closes ((w.enter h f).announce h f) w₁)
    (h₂ : Closes (w₁.call h s) w₂) : w₂.calls = h.id :: w.calls := by
  rw [h₂.calls, World.calls_call, h₁.calls_announced]

theorem exit {r : Ending (Except EvalError k.Val)} (hr : ∀ reason, r ≠ .halted reason)
    (hunderway : w₁.underway = ⟨h.id, true⟩ :: w.underway) (hcalls : w₁.calls = w.calls) :
    Closes w (w₁.exit h f r) :=
  ⟨by rw [World.underway_exit _ h f hr, hunderway, List.tail_cons],
    by rw [World.calls_exit, hcalls]⟩

end Closes

/-- The law of brackets. A halt closes nothing. -/
def ClosesUnlessHalted (w : World π σ) (e : Ending Unit) (w' : World π σ) : Prop :=
  (∀ reason, e ≠ .halted reason) → Closes w w'

theorem Ending.forget_ne_halted {r : Ending α} (h : ∀ reason, r.forget ≠ .halted reason) :
    ∀ reason, r ≠ .halted reason := by
  rintro reason rfl
  exact h reason rfl

theorem Closes.lawful {Heard : Ending Unit → Prop} :
    Lawful Heard (ClosesUnlessHalted (π := π) (σ := σ)) := by
  intro w e w' hw he
  cases hw with
  | rest => exact .refl w
  | andThen h₁ h₂ => exact (h₁ (by simp)).trans (h₂ he)
  | quiet q => exact .of_marks (by simp)
  | halted reason | blocked => exact absurd rfl (he _)
  | panicked message => exact (Closes.refl w).note (fun _ => rfl) fun _ => rfl
  | caught h => exact (h (by simp)).note (fun _ => rfl) fun _ => rfl
  | known hv => exact ⟨by simp [World.answer, Mark.track], by simp [World.answer, Mark.trackCall]⟩
  | refused hc ha =>
    exact ⟨by simp [World.answer, Mark.track], by simp [World.answer, Mark.trackCall]⟩
  | unheard hc ha h₁ _ _ =>
    have h₁ := h₁ he
    exact .exit (Ending.forget_ne_halted he) h₁.underway_announced h₁.calls_announced
  | stopped hc ha h₁ h₂ _ =>
    have h₁ := h₁ (by simp)
    have h₂ := h₂ he
    have hr := Ending.forget_ne_halted he
    refine .exit hr ?_ ?_
    · rw [World.underway_conclude, h₁.underway_called h₂]
    · rw [World.calls_conclude _ _ _ hr, h₁.calls_called h₂, List.tail_cons]
  | stored hc ha h₁ h₂ _ =>
    have h₁ := h₁ (by simp)
    have h₂ := h₂ (by simp)
    refine .exit (by simp) ?_ ?_
    · rw [World.underway_conclude, h₁.underway_called h₂]
    · rw [World.calls_conclude _ _ _ (by simp), h₁.calls_called h₂, List.tail_cons]
  | failed hc ha h₁ h₂ h₃ _ _ =>
    have h₁ := h₁ (by simp)
    have h₂ := h₂ (by simp)
    have h₃ := h₃ he
    refine .exit (Ending.forget_ne_halted he) ?_ ?_
    · rw [h₃.underway, World.underway_conclude, h₁.underway_called h₂]
    · rw [h₃.calls, World.calls_conclude _ _ _ (by simp), h₁.calls_called h₂, List.tail_cons]
  | verifying s =>
    have hbegun : Closes w (Watch.begin s w).2 := .of_marks rfl
    exact hbegun.note (fun _ => rfl) fun _ => rfl
  | own h hm =>
    exact (h (by simp)).note (Mark.track_of_run? hm) (Mark.trackCall_of_run? hm)
  | overthrown h => exact (h (by simp)).note (fun _ => rfl) fun _ => rfl

end LazyFields
