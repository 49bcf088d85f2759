import LazyFields.Proofs.Following

/-!
The checks of a verification, one after another. A run stops at the first check that finds a
fault, or at the first listener that does not return; all that it does itself is to announce
the checks that passed.
-/

namespace LazyFields

variable {π : Kind → Type} {σ α : Type} {k : Kind} {w w' : World π σ} {e : Ending Unit}

def World.ownMarks (w : World π σ) (r : RunId) : List Mark := w.marks.filter (·.run? = some r)

namespace World

theorem ownMarks_note (w : World π σ) {m : Mark} {r : RunId} (hm : m.run? = some r) :
    (w.note m).ownMarks r = w.ownMarks r ++ [m] := by
  simp [ownMarks, List.filter_append, hm]

theorem ownMarks_note_of_ne (w : World π σ) {m : Mark} {r : RunId} (hm : m.run? ≠ some r) :
    (w.note m).ownMarks r = w.ownMarks r := by
  simp [ownMarks, List.filter_append, hm]

@[simp] theorem ownMarks_call (w : World π σ) (h : Handle k) (s : Source π k) (r : RunId) :
    (w.call h s).ownMarks r = w.ownMarks r := by
  rw [call, ownMarks_note_of_ne _ (by simp [Mark.run?])]
  simp [ownMarks]

@[simp] theorem ownMarks_conclude (w : World π σ) (h : Handle k) (f : Flavour)
    (x : Ending (Except EvalError k.Val)) (r : RunId) :
    (w.conclude h f x).ownMarks r = w.ownMarks r := by
  rcases x with (e | v) | message | reason <;>
    simp [conclude, ownMarks, List.filter_append, Mark.run?]

@[simp] theorem ownMarks_answer (w : World π σ) (h : Handle k)
    (x : Ending (Except EvalError k.Val)) (r : RunId) :
    (w.answer h x).ownMarks r = w.ownMarks r := by
  cases x <;> simp [answer, ownMarks, List.filter_append, Mark.run?]

@[simp] theorem ownMarks_release (w : World π σ) (h : Handle k) (e : Ending Unit) (r : RunId) :
    (w.release h e).ownMarks r = w.ownMarks r := by
  cases e <;> rfl

@[simp] theorem runs_call (w : World π σ) (h : Handle k) (s : Source π k) :
    (w.call h s).runs = w.runs := by
  simp [call]

@[simp] theorem runs_store (w : World π σ) (h : Handle k) (v : k.Val) :
    (w.store h v).2.runs = w.runs := by
  unfold store
  split <;> rfl

@[simp] theorem runs_quiet (w : World π σ) (q : Quiet π σ α) : (q.apply w).2.runs = w.runs := by
  cases q <;> rfl

@[simp] theorem ownMarks_quiet (w : World π σ) (q : Quiet π σ α) (r : RunId) :
    (q.apply w).2.ownMarks r = w.ownMarks r := by
  cases q <;> rfl

end World

namespace Course

theorem runs_le (h : Course w e w') : w.runs ≤ w'.runs := by
  have hI : World.Invariant fun v : World π σ => w.runs ≤ v.runs :=
    { quiet := fun q hv => by rwa [World.runs_quiet]
      note := fun _ hv => hv
      withGuard := fun _ _ hv => hv
      call := fun _ _ hv => by rwa [World.runs_call]
      store := fun h v hv => by rwa [World.runs_store]
      newRun := fun hv => Nat.le_succ_of_le hv }
  exact h.invariant hI (Nat.le_refl _)

theorem ownMarks (h : Course w e w') {r : RunId} (hr : r.index < w.runs) :
    w'.ownMarks r = w.ownMarks r := by
  induction h with
  | rest | halted => rfl
  | panicked message w => exact w.ownMarks_note_of_ne (by simp [Mark.run?])
  | andThen h₁ _ ih₁ ih₂ => rw [ih₂ (Nat.lt_of_lt_of_le hr h₁.runs_le), ih₁ hr]
  | quiet q w => simp
  | known => rw [World.ownMarks_answer, World.ownMarks_note_of_ne _ (by simp [Mark.run?])]
  | caught _ ih => rw [World.ownMarks_note_of_ne _ (by simp [Mark.run?]), ih hr]
  | accessed _ _ _ _ ih =>
    rw [World.ownMarks_answer, ih hr, World.ownMarks_note_of_ne _ (by simp [Mark.run?])]
  | guarded _ _ ih =>
    rw [World.ownMarks_release, ih hr]
    rfl
  | interrupted _ _ ih => rw [ih hr, World.ownMarks_note_of_ne _ (by simp [Mark.run?])]
  | produced _ _ _ h₁ _ ih₁ ih₂ =>
    have hr₁ := Nat.lt_of_lt_of_le hr h₁.runs_le
    rw [World.ownMarks_conclude, ih₂ (by rwa [World.runs_call]), World.ownMarks_call, ih₁ hr,
      World.ownMarks_note_of_ne _ (by simp [Mark.run?])]
  | verifying s w => exact World.ownMarks_note_of_ne _ (by simp [Mark.run?])
  | @own w _ _ m _ hm ih =>
    rw [World.ownMarks_note_of_ne, ih hr]
    intro hmr
    obtain rfl : (⟨w.runs⟩ : RunId) = r := Option.some.inj (hm.symm.trans hmr)
    exact Nat.lt_irrefl _ hr

end Course

def Check.event (run : RunId) : Check → Event
  | .field name _ _ => .passed run name
  | .untouched name => .untouched run name

def Check.fault? (t : Watch) (w : World π σ) : Check → Option VerifyError
  | .field name expected actual =>
    if expected = actual then none else some (.check name expected actual)
  | .untouched name =>
    if t.disturbed w then some (.unexpectedEvaluation name (t.evaluations w)) else none

theorem Check.run?_event (run : RunId) (c : Check) :
    (Mark.emitted (c.event run)).run? = some run := by
  cases c <;> rfl

namespace Environment

variable (env : Environment π σ)

def visits (t : Watch) : List Check → World π σ → List (Check × World π σ)
  | [], _ => []
  | c :: rest, w =>
    (c, w) :: match env.check t [] c w with
      | (.value (.ok _), w') => visits t rest w'
      | _ => []

theorem check_of_fault {t : Watch} {c : Check} {x : VerifyError} (hx : c.fault? t w = some x)
    (reported : List String) : env.check t reported c w = (.value (.error x), w) := by
  cases c with
  | field name expected actual =>
    simp only [Check.fault?, Option.ite_none_left_eq_some, Option.some.injEq] at hx
    obtain ⟨hne, rfl⟩ := hx
    simp only [check, if_neg hne]
    rfl
  | untouched name =>
    simp only [Check.fault?, Option.ite_none_right_eq_some, Option.some.injEq] at hx
    obtain ⟨hdisturbed, rfl⟩ := hx
    simp only [check, Exec.bind_def, Exec.view, hdisturbed, if_true]
    rfl

theorem announce_eq (e : Event) (a : α) (w : World π σ) :
    (env.emit e >>= fun _ => Pure.pure a) w =
      match env.notify e (w.note (.emitted e)) with
      | (.value (), w') => (.value a, w')
      | (.panicked message, w') => (.panicked message, w')
      | (.halted reason, w') => (.halted reason, w') := by
  simp only [emit, Exec.bind_def, Exec.note, Exec.update]
  rcases env.notify e (w.note (.emitted e)) with ⟨_ | _ | _, _⟩ <;> rfl

theorem check_of_pass {t : Watch} {c : Check} (hc : c.fault? t w = none)
    (reported : List String) :
    env.check t reported c w =
      (env.emit (c.event t.run) >>= fun _ => Pure.pure (.ok (reported ++ [c.name]))) w := by
  cases c with
  | field name expected actual =>
    have heq : expected = actual := by simpa [Check.fault?] using hc
    simp only [check, if_pos heq]
    rfl
  | untouched name =>
    have hcalm : ¬ t.disturbed w = true := by simpa [Check.fault?] using hc
    simp only [check, Exec.bind_def, Exec.view, if_neg hcalm]
    rfl

theorem check_reported {t : Watch} {c : Check} {reported names : List String} {u : World π σ}
    (h : env.check t reported c w = (.value (.ok names), u)) : names = reported ++ [c.name] := by
  cases hc : c.fault? t w with
  | some x =>
    rw [check_of_fault env hc] at h
    cases h
  | none =>
    rw [check_of_pass env hc] at h
    obtain ⟨_, _, -, h⟩ := Exec.bind_eq_value_iff.mp h
    cases h
    rfl

/-- A run whose checks pass reports them all, in their order. -/
theorem checkAll_reported {t : Watch} {reported names : List String} {checks : List Check}
    {u : World π σ} (h : env.checkAll t reported checks w = (.value (.ok names), u)) :
    names = reported ++ checks.map Check.name := by
  induction checks generalizing reported w with
  | nil =>
    cases h
    simp
  | cons c rest ih =>
    obtain ⟨r, v, hcheck, hrest⟩ := Exec.bind_eq_value_iff.mp h
    cases r with
    | error x => cases hrest
    | ok reported' =>
      obtain rfl := check_reported env hcheck
      rw [ih hrest, List.append_assoc]
      rfl

/-- How the checks end that came to these visits, with what has been reported before them. -/
inductive Checked (t : Watch) (reported : List String) (checks : List Check) (w : World π σ)
    (visits : List (Check × World π σ)) :
    Ending (Except VerifyError (List String)) → World π σ → Prop
  | faulty (before : List (Check × World π σ)) {c : Check} {u : World π σ} {x : VerifyError} :
      visits = before ++ [(c, u)] → (∀ y ∈ before, y.1.fault? t y.2 = none) →
      c.fault? t u = some x →
      u.ownMarks t.run = w.ownMarks t.run ++ before.map (fun y => .emitted (y.1.event t.run)) →
      Checked t reported checks w visits (.value (.error x)) u
  | stopped (before : List (Check × World π σ)) {c : Check} {u w' : World π σ}
      {e : Ending (Except VerifyError (List String))} :
      visits = before ++ [(c, u)] → (∀ y ∈ visits, y.1.fault? t y.2 = none) →
      e.forget = (env.notify (c.event t.run) (u.note (.emitted (c.event t.run)))).1.forget →
      e.forget ≠ .value () →
      w'.ownMarks t.run = w.ownMarks t.run ++ visits.map (fun y => .emitted (y.1.event t.run)) →
      Checked t reported checks w visits e w'
  | passed {w' : World π σ} :
      w.runs ≤ w'.runs → visits.map Prod.fst = checks →
      (∀ y ∈ visits, y.1.fault? t y.2 = none) →
      w'.ownMarks t.run = w.ownMarks t.run ++ visits.map (fun y => .emitted (y.1.event t.run)) →
      Checked t reported checks w visits (.value (.ok (reported ++ checks.map Check.name))) w'

variable {env}

theorem Checked.cons {t : Watch} {c : Check} {rest : List Check} {u : World π σ}
    {visits : List (Check × World π σ)} {reported : List String}
    {e : Ending (Except VerifyError (List String))}
    (hc : c.fault? t w = none) (hruns : w.runs ≤ u.runs)
    (hu : u.ownMarks t.run = w.ownMarks t.run ++ [.emitted (c.event t.run)])
    (h : env.Checked t (reported ++ [c.name]) rest u visits e w') :
    env.Checked t reported (c :: rest) w ((c, w) :: visits) e w' := by
  cases h with
  | @faulty before d _ x hvisits hbefore hfault hown =>
    refine .faulty ((c, w) :: before) (by rw [hvisits]; rfl) ?_ hfault ?_
    · exact List.forall_mem_cons.mpr ⟨hc, hbefore⟩
    · rw [hown, hu]
      simp
  | @stopped before d v _ _ hvisits hall hends hstops hown =>
    refine .stopped ((c, w) :: before) (by rw [hvisits]; rfl) ?_ hends hstops ?_
    · exact List.forall_mem_cons.mpr ⟨hc, hall⟩
    · rw [hown, hu]
      simp
  | passed hle hvisits hall hown =>
    rw [List.append_assoc]
    refine .passed (Nat.le_trans hruns hle) (by simp [hvisits]) ?_ ?_
    · exact List.forall_mem_cons.mpr ⟨hc, hall⟩
    · rw [hown, hu]
      simp

theorem Follows.checked (henv : env.Follows) {t : Watch} (ht : t.run.index < w.runs)
    (reported : List String) (checks : List Check) :
    env.Checked t reported checks w (env.visits t checks w) (env.checkAll t reported checks w).1
      (env.checkAll t reported checks w).2 := by
  induction checks generalizing w reported with
  | nil =>
    have hpassed : env.Checked t reported [] w [] (.value (.ok (reported ++ []))) w :=
      .passed (Nat.le_refl _) rfl (by simp) (by simp)
    rwa [List.append_nil] at hpassed
  | cons c rest ih =>
    simp only [visits, checkAll, Exec.bind_def]
    cases hc : c.fault? t w with
    | some x =>
      rw [check_of_fault env hc, check_of_fault env hc]
      exact .faulty [] rfl (by simp) hc (by simp)
    | none =>
      rw [check_of_pass env hc, check_of_pass env hc, announce_eq, announce_eq]
      have hheard := henv.notify (c.event t.run) (w.note (.emitted (c.event t.run)))
      have hown := hheard.ownMarks ht
      rw [World.ownMarks_note _ (c.run?_event _)] at hown
      rcases hn : env.notify (c.event t.run) (w.note (.emitted (c.event t.run))) with
        ⟨_ | message | reason, u⟩ <;> rw [hn] at hheard hown
      · exact (ih (Nat.lt_of_lt_of_le ht hheard.runs_le) _).cons hc hheard.runs_le hown
      · exact .stopped [] rfl (by simpa using hc) (by rw [hn]; rfl) (by simp)
          (by simpa using hown)
      · exact .stopped [] rfl (by simpa using hc) (by rw [hn]; rfl) (by simp)
          (by simpa using hown)

theorem Follows.visits_course (henv : env.Follows) {w₀ : World π σ} {t : Watch}
    (ht : t.run = ⟨w₀.runs⟩) (checks : List Check) (hw : Course w₀ (.value ()) w) :
    ∀ x ∈ env.visits t checks w, x.1 ∈ checks ∧ Course w₀ (.value ()) x.2 := by
  induction checks generalizing w with
  | nil => simp [visits]
  | cons c rest ih =>
    intro x hx
    rcases List.mem_cons.mp hx with rfl | hx
    · exact ⟨List.mem_cons_self, hw⟩
    · have hcheck := check_prolongs henv ht [] c w hw
      split at hx
      next names w' heq =>
        rw [heq] at hcheck
        obtain ⟨hmem, hcourse⟩ := ih hcheck x hx
        exact ⟨List.mem_cons_of_mem c hmem, hcourse⟩
      next => cases hx

end Environment

end LazyFields
