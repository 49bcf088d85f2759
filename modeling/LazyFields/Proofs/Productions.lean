import LazyFields.Proofs.Laws

/-!
The calls of producers. A course never takes one back; a field that has no value before a
course and has one after it saw a call of its producer begin meanwhile; and the tally of a
scenario is the number of calls that its field has seen begin.
-/

namespace LazyFields

variable {π : Kind → Type} {σ α : Type} {k : Kind} {w w' : World π σ}

namespace World

theorem productions_note (w : World π σ) (m : Mark) (c : CellId) :
    (w.note m).productions c = w.productions c + if m = .begun c then 1 else 0 := by
  simp [productions, List.count_append, List.count_singleton]

theorem productions_note_of_ne (w : World π σ) {m : Mark} {c : CellId} (hm : m ≠ .begun c) :
    (w.note m).productions c = w.productions c := by
  rw [productions_note, if_neg hm, Nat.add_zero]

theorem productions_call (w : World π σ) (h : Handle k) (s : Source π k) (c : CellId) :
    (w.call h s).productions c = w.productions c + if h.id = c then 1 else 0 := by
  rw [call, productions_note]
  simp [productions]

@[simp] theorem productions_modify (w : World π σ) (h : Handle k) (f : Cell π k → Cell π k)
    (c : CellId) : (w.modify h f).productions c = w.productions c := rfl

@[simp] theorem productions_quiet (w : World π σ) (q : Quiet π σ α) (c : CellId) :
    (q.apply w).2.productions c = w.productions c := by
  cases q <;> rfl

@[simp] theorem productions_conclude (w : World π σ) (h : Handle k) (f : Flavour)
    (r : Ending (Except EvalError k.Val)) (c : CellId) :
    (w.conclude h f r).productions c = w.productions c := by
  rcases r with (e | v) | message | reason <;>
    simp [conclude, productions, List.count_append]

@[simp] theorem productions_answer (w : World π σ) (h : Handle k)
    (r : Ending (Except EvalError k.Val)) (c : CellId) :
    (w.answer h r).productions c = w.productions c := by
  cases r <;> simp [answer, productions, List.count_append]

@[simp] theorem productions_release (w : World π σ) (h : Handle k) (e : Ending Unit)
    (c : CellId) : (w.release h e).productions c = w.productions c := by
  cases e <;> rfl

theorem peek_release (w : World π σ) {l : Kind} (h : Handle l) (e : Ending Unit) (h' : Handle k) :
    (w.release h e).peek h' = w.peek h' := by
  cases e with
  | value | panicked => exact w.peek_modify_withGuard h _ h'
  | halted => rfl

theorem peek_conclude_of_ne (w : World π σ) {l : Kind} {h : Handle l} {h' : Handle k}
    (hne : h'.id ≠ h.id) (f : Flavour) (r : Ending (Except EvalError l.Val)) :
    (w.conclude h f r).peek h' = w.peek h' := by
  rcases r with (e | v) | message | reason
  · rfl
  · simp only [peek, Heap.peek, conclude, cell?_store_of_ne _ _ hne, heap_note]
  · rfl
  · rfl

@[simp] theorem productions_enter (w : World π σ) (h : Handle k) (f : Flavour) (c : CellId) :
    (w.enter h f).productions c = w.productions c := by
  cases f <;> simp [enter, productions_note]

@[simp] theorem productions_exit (w : World π σ) (h : Handle k) (f : Flavour)
    (r : Ending (Except EvalError k.Val)) (c : CellId) :
    (w.exit h f r).productions c = w.productions c := by
  cases f <;> simp [exit]

theorem productions_le_of_history {w w' : World π σ} (h : w.history <+: w'.history) (c : CellId) :
    w.productions c ≤ w'.productions c :=
  (h.map Moment.mark).sublist.count_le _

end World

namespace Course

variable {e : Ending Unit}

theorem productions_le (h : Course w e w') (c : CellId) : w.productions c ≤ w'.productions c :=
  World.productions_le_of_history h.history_grows c

theorem peek_eq_none {w : World π σ} {h : Handle k} {c : Cell π k}
    (hc : w.heap.cell? h = some c) (hv : c.value? = none) : w.heap.peek h = none := by
  simp [Heap.peek, hc, hv]

theorem productions_lt_of_filled (h : Course w e w') {h' : Handle k} {c : Cell π k}
    (hc : w.heap.cell? h' = some c) (hv : c.value? = none) (hfilled : w'.heap.peek h' ≠ none) :
    w.productions h'.id < w'.productions h'.id := by
  induction h generalizing c with
  | rest | halted | panicked | verifying => exact absurd (peek_eq_none hc hv) hfilled
  | known =>
    rw [World.heap_answer] at hfilled
    exact absurd (peek_eq_none hc hv) hfilled
  | quiet q w => exact absurd (peek_eq_none (q.cell?_apply w hc) hv) hfilled
  | andThen h₁ h₂ ih₁ ih₂ =>
    obtain ⟨d, hd, -⟩ := h₁.keeps _ _ hc
    cases hdv : d.value? with
    | none => exact Nat.lt_of_le_of_lt (h₁.productions_le _) (ih₂ hd hdv hfilled)
    | some v =>
      refine Nat.lt_of_lt_of_le (ih₁ hc hv ?_) (h₂.productions_le _)
      simp [Heap.peek, hd, hdv]
  | caught _ ih | interrupted _ _ ih =>
    simpa [World.productions_note] using ih hc hv hfilled
  | accessed _ _ _ _ ih =>
    rw [World.heap_answer] at hfilled
    simpa [World.productions_note] using ih hc hv hfilled
  | @guarded _ h₀ _ w _ _ _ _ ih =>
    obtain ⟨d, hd, -⟩ := Heap.Keeps.modify w.heap h₀ (.withGuard .held) h' c hc
    have hdv : d.value? = none := by
      have hpeek := w.peek_modify_withGuard h₀ .held h'
      simpa [World.peek, Heap.peek, World.modify, hd, hc, hv] using hpeek
    simpa using ih hd hdv (by rwa [← World.peek, ← World.peek_release])
  | @produced _ h₀ _ s w w₁ w₂ r _ _ _ h₁ h₂ ih₁ ih₂ =>
    have hle₁ := h₁.productions_le h'.id
    have hle₂ := h₂.productions_le h'.id
    simp only [World.productions_note, World.productions_call, reduceCtorEq, if_false,
      Nat.add_zero] at hle₁ hle₂ ih₁ ih₂
    rw [World.productions_conclude]
    by_cases e : h₀.id = h'.id
    · -- The call under way is a call of the producer of this very cell.
      rw [if_pos e] at hle₂
      omega
    rw [if_neg e] at hle₂ ih₂
    have hfilled₂ : w₂.heap.peek h' ≠ none := by
      rwa [← World.peek, ← World.peek_conclude_of_ne w₂ (Ne.symm e)]
    obtain ⟨d, hd, -⟩ := h₁.keeps _ _ hc
    cases hdv : d.value? with
    | none =>
      have hlt := ih₂ (by rwa [World.heap_call]) hdv hfilled₂
      omega
    | some v =>
      have hlt := ih₁ hc hv (by simp [Heap.peek, hd, hdv])
      omega
  | own _ hm ih =>
    rw [World.productions_note_of_ne _ (Mark.ne_begun_of_run? hm _)]
    exact ih hc hv hfilled

end Course

end LazyFields
