import LazyFields.Proofs.Checks
import LazyFields.Proofs.Journal
import LazyFields.Proofs.Tallies

/-!
How a verification ends, whatever listeners do in the middle of it. It fails at the first look
at the lazy field that comes after a call of its producer, and otherwise accesses the field
once; a field that was filled without a call does not occur.
-/

namespace LazyFields

variable {π : Kind → Type} {σ : Type} {w u w' : World π σ} {s : Scenario}

/-- The world is met in some run. A halt leaves open what it interrupts, so a course from the
start can end in the middle of any calls. -/
def World.Reached (w : World π σ) : Prop := ∃ state e, Course (.start state) e w

theorem Host.run_reached {α : Type} (host : Host π σ) (depth : Nat) (x : Proc π σ α) (state : σ) :
    (host.run depth x (.start state)).2.Reached :=
  ⟨state, _, host.run_follows depth x (.start state)⟩

theorem World.Reached.tallied (hw : w.Reached) : w.Tallied := by
  obtain ⟨state, e, h⟩ := hw
  exact h.tallied (.start state)

theorem World.Reached.coherent (hw : w.Reached) : w.Coherent := by
  obtain ⟨state, e, h⟩ := hw
  exact h.coherent (.start state)

def Scenario.record (s : Scenario) : B :=
  { normalField := 0, lazyField := s.lazyField, dummyField := 1 }

def Scenario.checks (s : Scenario) : List Check := Check.all s.record

namespace World

def verifying (w : World π σ) (s : Scenario) : World π σ :=
  (Watch.begin s w).2.note (.verifying ⟨w.runs⟩)

/-- A look at the lazy field that comes after a call of its producer since the world `w`. -/
def late (w : World π σ) (s : Scenario) : Check × World π σ → Bool
  | (.untouched _, u) => w.productions s.lazyField.id < u.productions s.lazyField.id
  | (.field _ _ _, _) => false

def accesses (w : World π σ) (r : RunId) : Nat := w.marks.count (.accessing r)

theorem accesses_eq (w : World π σ) (r : RunId) :
    w.accesses r = (w.ownMarks r).count (.accessing r) :=
  (List.count_filter (by simp [Mark.run?])).symm

theorem accesses_note_of_ne (w : World π σ) {m : Mark} {r : RunId} (hm : m ≠ .accessing r) :
    (w.note m).accesses r = w.accesses r := by
  simp [accesses, List.count_append, hm]

end World

theorem Course.accesses {e : Ending Unit} (h : Course w e w') {r : RunId}
    (hr : r.index < w.runs) : w'.accesses r = w.accesses r := by
  rw [World.accesses_eq, World.accesses_eq, h.ownMarks hr]

namespace Watch

theorem evaluations_eq (hw : w.Tallied) (hs : w.Made s) (h : Course w (.value ()) u) :
    (Watch.begin s w).1.evaluations u =
      u.productions s.lazyField.id - w.productions s.lazyField.id := by
  have hu := (h.tallied hw).counted _ _ (hs.keeps h.keeps)
  have hbaseline := hw.counted _ _ hs
  simp only [evaluations, begin, hu, hbaseline]

theorem disturbed_iff (hw : w.Tallied) (hs : w.Made s) (h : Course w (.value ()) u) :
    (Watch.begin s w).1.disturbed u = true ↔
      w.productions s.lazyField.id < u.productions s.lazyField.id := by
  have hle := h.productions_le s.lazyField.id
  have hfilled : (Watch.begin s w).1.newlyEvaluated u = true →
      w.productions s.lazyField.id < u.productions s.lazyField.id := by
    intro hnew
    simp only [newlyEvaluated, begin, Bool.and_eq_true, Bool.not_eq_true'] at hnew
    exact h.productions_lt_of_evaluated hs hnew.1 hnew.2
  simp only [disturbed, evaluations_eq hw hs h, Bool.or_eq_true, bne_iff_ne]
  constructor
  · rintro (hcalls | hnew)
    · omega
    · exact hfilled hnew
  · intro hlt
    exact .inl (by omega)

end Watch

/-- The plain fields are right in every record of the run, so the only fault that a check can
find is a look that comes late. -/
theorem Scenario.fault?_eq (hw : w.Tallied) (hs : w.Made s) (h : Course w (.value ()) u)
    {c : Check} (hc : c ∈ s.checks) :
    c.fault? (Watch.begin s w).1 u =
      if w.late s (c, u) then
        some (.unexpectedEvaluation c.name
          (u.productions s.lazyField.id - w.productions s.lazyField.id))
      else none := by
  cases c with
  | field name expected actual =>
    have heq : expected = actual := by
      simp only [checks, record, Check.all, B.withNormalField, A.withNormalField,
        B.withDummyField, List.mem_cons, List.not_mem_nil, Check.field.injEq, reduceCtorEq,
        or_false, false_or] at hc
      rcases hc with h | h | h | h | h | h <;> rw [h.2.1, h.2.2]
    simp [Check.fault?, World.late, heq]
  | untouched name =>
    have hdisturbed := Watch.disturbed_iff hw hs h
    have hevaluations := Watch.evaluations_eq hw hs h
    simp only [Check.fault?, World.late, Check.name, hdisturbed, hevaluations,
      decide_eq_true_eq]

namespace Environment

variable (env : Environment π σ)

inductive Concludes (run : RunId) (checks : List String) :
    Ending (Except EvalError Int32) × World π σ → Ending (Except VerifyError Report) → Prop
  | missing {v : Int32} {u : World π σ} :
      Concludes run checks (.value (.ok v), u) (.value (.error (.missingEvaluationError v)))
  | raised {x : EvalError} {u u' : World π σ} :
      env.notify (.raised run x) (u.note (.emitted (.raised run x))) = (.value (), u') →
      Concludes run checks (.value (.error x), u) (.value (.ok ⟨checks, x⟩))
  | unheard {x : EvalError} {u : World π σ} {r : Ending (Except VerifyError Report)} :
      r.forget = (env.notify (.raised run x) (u.note (.emitted (.raised run x)))).1.forget →
      r.forget ≠ .value () → Concludes run checks (.value (.error x), u) r
  | thrown {x : Ending (Except EvalError Int32)} {u : World π σ}
      {r : Ending (Except VerifyError Report)} :
      r.forget = x.forget → r.forget ≠ .value () → Concludes run checks (x, u) r

inductive Verifies (s : Scenario) (w : World π σ) :
    Ending (Except VerifyError Report) → World π σ → Prop
  | unexpected {name : String} {u w' : World π σ} :
      (env.visits (Watch.begin s w).1 s.checks (w.verifying s)).find? (w.late s) =
        some (.untouched name, u) →
      w'.accesses ⟨w.runs⟩ = w.accesses ⟨w.runs⟩ →
      Verifies s w (.value (.error (.unexpectedEvaluation name
        (u.productions s.lazyField.id - w.productions s.lazyField.id)))) w'
  | unheard {before : List (Check × World π σ)} {c : Check} {u w' : World π σ}
      {r : Ending (Except VerifyError Report)} :
      env.visits (Watch.begin s w).1 s.checks (w.verifying s) = before ++ [(c, u)] →
      (env.visits (Watch.begin s w).1 s.checks (w.verifying s)).find? (w.late s) = none →
      r.forget = (env.notify (c.event ⟨w.runs⟩) (u.note (.emitted (c.event ⟨w.runs⟩)))).1.forget →
      r.forget ≠ .value () →
      w'.accesses ⟨w.runs⟩ = w.accesses ⟨w.runs⟩ → Verifies s w r w'
  | accessed {u w' : World π σ} {r : Ending (Except VerifyError Report)} :
      (env.visits (Watch.begin s w).1 s.checks (w.verifying s)).map Prod.fst = s.checks →
      (env.visits (Watch.begin s w).1 s.checks (w.verifying s)).find? (w.late s) = none →
      env.checkAll (Watch.begin s w).1 [] s.checks (w.verifying s) =
        (.value (.ok (s.checks.map Check.name)), u) →
      env.Concludes ⟨w.runs⟩ (s.checks.map Check.name ++ [Check.raises])
        (env.force s.lazyField (u.note (.accessing ⟨w.runs⟩))) r →
      w'.accesses ⟨w.runs⟩ = w.accesses ⟨w.runs⟩ + 1 → Verifies s w r w'

theorem verify_eq (s : Scenario) (w : World π σ) :
    (env.verify s w).1 = (env.verifyWatched (Watch.begin s w).1 s.record (w.verifying s)).1 ∧
      (env.verify s w).2.accesses ⟨w.runs⟩ =
        (env.verifyWatched (Watch.begin s w).1 s.record (w.verifying s)).2.accesses ⟨w.runs⟩ := by
  have hrecord : ({ normalField := 0, lazyField := s.lazyField, dummyField := 1 } : B) =
    s.record := rfl
  have hstart : (Watch.begin s w).2.note (.verifying (Watch.begin s w).1.run) =
    w.verifying s := rfl
  simp only [verify, Exec.bind_def, Exec.change, Exec.note, Exec.update, Exec.recorded,
    Exec.closing, hrecord, hstart]
  rcases env.verifyWatched (Watch.begin s w).1 s.record (w.verifying s) with ⟨_ | _ | _, _⟩
  · exact ⟨rfl, World.accesses_note_of_ne _ (by simp)⟩
  · exact ⟨rfl, World.accesses_note_of_ne _ (by simp)⟩
  · exact ⟨rfl, rfl⟩

theorem verifyWatched_eq (t : Watch) (b : B) {e : Ending (Except VerifyError (List String))}
    (hr : env.checkAll t [] (Check.all b) w = (e, u)) :
    env.verifyWatched t b w =
      match e with
      | .value (.ok reported) => env.access t reported b u
      | .value (.error x) => (.value (.error x), u)
      | .panicked message => (.panicked message, u)
      | .halted reason => (.halted reason, u) := by
  simp only [verifyWatched, Exec.bind_def, hr]
  rcases e with (x | _) | message | reason <;> rfl

variable {env}

theorem Follows.access (henv : env.Follows) {t : Watch} (ht : t.run.index < u.runs)
    (reported : List String) (b : B) :
    env.Concludes t.run (reported ++ [Check.raises])
        (env.force b.lazyField (u.note (.accessing t.run))) (env.access t reported b u).1 ∧
      (env.access t reported b u).2.accesses t.run = u.accesses t.run + 1 := by
  have hforced := henv.force b.lazyField (u.note (.accessing t.run))
  have haccess : (u.note (.accessing t.run)).accesses t.run = u.accesses t.run + 1 := by
    simp [World.accesses]
  have hkept := hforced.accesses ht
  rw [haccess] at hkept
  simp only [Environment.access, Exec.bind_def, Exec.note, Exec.update]
  rcases hr : env.force b.lazyField (u.note (.accessing t.run)) with
    ⟨(x | v) | message | reason, u'⟩ <;> rw [hr] at hforced hkept
  · have hheard := henv.notify (.raised t.run x) (u'.note (.emitted (.raised t.run x)))
    have hkept' := hheard.accesses (Nat.lt_of_lt_of_le ht hforced.runs_le)
    rw [World.accesses_note_of_ne _ (by simp), hkept] at hkept'
    simp only [announce_eq]
    rcases hn : env.notify (.raised t.run x) (u'.note (.emitted (.raised t.run x))) with
      ⟨_ | message | reason, u''⟩ <;> rw [hn] at hkept'
    · exact ⟨.raised hn, hkept'⟩
    · exact ⟨.unheard (by rw [hn]; rfl) (by simp), hkept'⟩
    · exact ⟨.unheard (by rw [hn]; rfl) (by simp), hkept'⟩
  · exact ⟨.missing, hkept⟩
  · exact ⟨.thrown rfl (by simp), hkept⟩
  · exact ⟨.thrown rfl (by simp), hkept⟩

theorem accesses_of_announced {r : RunId} {visits : List (Check × World π σ)}
    (h : w'.ownMarks r = u.ownMarks r ++ visits.map (fun y => .emitted (y.1.event r))) :
    w'.accesses r = u.accesses r := by
  have hnone : Mark.accessing r ∉ visits.map (fun y => .emitted (y.1.event r)) := by simp
  rw [World.accesses_eq, World.accesses_eq, h, List.count_append,
    List.count_eq_zero_of_not_mem hnone, Nat.add_zero]

theorem Follows.verifies (henv : env.Follows) (hw : w.Tallied) (hs : w.Made s) :
    env.Verifies s w (env.verify s w).1 (env.verify s w).2 := by
  have hstart : Course w (.value ()) (w.verifying s) := .verifying s w
  have haccesses : (w.verifying s).accesses ⟨w.runs⟩ = w.accesses ⟨w.runs⟩ :=
    World.accesses_note_of_ne _ (by simp)
  have hvisits := henv.visits_course (t := (Watch.begin s w).1) rfl s.checks hstart
  have hfault : ∀ x ∈ env.visits (Watch.begin s w).1 s.checks (w.verifying s),
      x.1.fault? (Watch.begin s w).1 x.2 = if w.late s x then some (.unexpectedEvaluation x.1.name
        (x.2.productions s.lazyField.id - w.productions s.lazyField.id)) else none :=
    fun x hx => Scenario.fault?_eq hw hs (hvisits x hx).2 (hvisits x hx).1
  have hchecked := henv.checked (w := w.verifying s) (t := (Watch.begin s w).1)
    (Nat.lt_succ_self w.runs) [] s.checks
  have hpunctual : ∀ x ∈ env.visits (Watch.begin s w).1 s.checks (w.verifying s),
      x.1.fault? (Watch.begin s w).1 x.2 = none → ¬ w.late s x = true := by
    intro x hx hnone hlate
    rw [hfault x hx, if_pos hlate] at hnone
    cases hnone
  obtain ⟨hends, hkept⟩ := env.verify_eq s w
  rcases hr : env.checkAll (Watch.begin s w).1 [] s.checks (w.verifying s) with ⟨e, u⟩
  rw [verifyWatched_eq env _ _ hr] at hends hkept
  rw [hr] at hchecked
  rw [hends]
  cases hchecked with
  | @faulty before c u x hall hbefore hc hown =>
    have hmem : (c, u) ∈ env.visits (Watch.begin s w).1 s.checks (w.verifying s) := by
      rw [hall]
      simp
    have hx := (hfault _ hmem).symm.trans hc
    obtain ⟨hlate, hx⟩ := Option.ite_none_right_eq_some.mp hx
    obtain rfl := Option.some.inj hx
    cases c with
    | field => cases hlate
    | untouched name =>
      refine .unexpected ?_ ((hkept.trans (accesses_of_announced hown)).trans haccesses)
      refine List.find?_eq_some_iff_append.mpr ⟨hlate, before, [], hall, fun y hy => ?_⟩
      have hpunctual' := hpunctual y (by rw [hall]; exact List.mem_append_left _ hy) (hbefore y hy)
      simpa using hpunctual'
  | @stopped before c v _ _ hall hpass hheard hstops hown =>
    have hfind := List.find?_eq_none.mpr fun x hx => hpunctual x hx (hpass x hx)
    rcases e with r | message | reason
    · exact absurd rfl hstops
    · exact .unheard hall hfind hheard (by simp)
        ((hkept.trans (accesses_of_announced hown)).trans haccesses)
    · exact .unheard hall hfind hheard (by simp)
        ((hkept.trans (accesses_of_announced hown)).trans haccesses)
  | passed hruns hall hpass hown =>
    have hfind := List.find?_eq_none.mpr fun x hx => hpunctual x hx (hpass x hx)
    obtain ⟨hconcludes, haccess⟩ := henv.access (t := (Watch.begin s w).1)
      (Nat.lt_of_succ_le hruns) (s.checks.map Check.name) s.record
    refine .accessed hall hfind hr hconcludes ?_
    rw [hkept]
    exact haccess.trans (congrArg (· + 1) ((accesses_of_announced hown).trans haccesses))

theorem Concludes.ne_unexpected {run : RunId} {checks : List String}
    {x : Ending (Except EvalError Int32) × World π σ} {r : Ending (Except VerifyError Report)}
    (h : env.Concludes run checks x r) (name : String) (n : Nat) :
    r ≠ .value (.error (.unexpectedEvaluation name n)) := by
  rintro rfl
  cases h with
  | unheard _ hstops | thrown _ hstops => exact hstops rfl

theorem Verifies.unexpected_iff {r : Ending (Except VerifyError Report)}
    (h : env.Verifies s w r w') :
    (∃ name n, r = .value (.error (.unexpectedEvaluation name n))) ↔
      ∃ x ∈ env.visits (Watch.begin s w).1 s.checks (w.verifying s), w.late s x = true := by
  constructor
  · rintro ⟨name, n, rfl⟩
    cases h with
    | unexpected hfind =>
      exact ⟨_, List.mem_of_find?_eq_some hfind, List.find?_some hfind⟩
    | unheard _ _ _ hstops => exact absurd rfl hstops
    | accessed _ _ _ hconcludes => exact absurd rfl (hconcludes.ne_unexpected name n)
  · rintro ⟨x, hx, hlate⟩
    cases h with
    | unexpected => exact ⟨_, _, rfl⟩
    | unheard _ hfind => exact absurd hlate (List.find?_eq_none.mp hfind x hx)
    | accessed _ hfind => exact absurd hlate (List.find?_eq_none.mp hfind x hx)

theorem Verifies.counts {name : String} {n : Nat}
    (h : env.Verifies s w (.value (.error (.unexpectedEvaluation name n))) w') : 0 < n := by
  cases h with
  | unexpected hfind =>
    have hlate := List.find?_some hfind
    simp only [World.late, decide_eq_true_eq] at hlate
    omega
  | unheard _ _ _ hstops => exact absurd rfl hstops
  | accessed _ _ _ hconcludes => exact absurd rfl (hconcludes.ne_unexpected name n)

end Environment

/-- A verification reports an unexpected evaluation exactly when a call of the producer began
between its start and one of its looks at the field, and it counts at least one call then. -/
theorem Host.verify_outcome (host : Host π σ) (depth : Nat) (hw : w.Reached) (hs : w.Made s) :
    let env := host.environment depth
    let looks := env.visits (Watch.begin s w).1 s.checks (w.verifying s)
    env.Verifies s w (env.verify s w).1 (env.verify s w).2 ∧
      ((∃ name n, (env.verify s w).1 = .value (.error (.unexpectedEvaluation name n))) ↔
        ∃ x ∈ looks, w.late s x = true) ∧
      ∀ name n, (env.verify s w).1 = .value (.error (.unexpectedEvaluation name n)) → 0 < n := by
  intro env looks
  have hverifies := (host.environment_follows depth).verifies hw.tallied hs
  refine ⟨hverifies, hverifies.unexpected_iff, fun name n hr => ?_⟩
  rw [hr] at hverifies
  exact hverifies.counts

def Host.meddling : Host (fun _ => Empty) Unit where
  produce := fun _ code => nomatch code
  listen
    | .passed _ _ => do
      let _ ← (⟨0⟩ : Handle .int).get
      return ()
    | _ => return ()

def World.withScenario : World (fun _ => Empty) Unit :=
  ((World.start ()).newScenario Scenario.divisionByZero).2

theorem World.withScenario_reached : World.withScenario.Reached :=
  Host.run_reached Host.meddling 0 (Proc.scenario Scenario.divisionByZero) ()

/-- The field is forced twice before the first look at it. -/
theorem Host.verify_outcome_meddling :
    World.withScenario.Reached ∧ World.withScenario.Made ⟨⟨0⟩, ⟨0⟩⟩ ∧
      ∃ x ∈ (Host.meddling.environment 2).visits (Watch.begin ⟨⟨0⟩, ⟨0⟩⟩ World.withScenario).1
        (Scenario.checks ⟨⟨0⟩, ⟨0⟩⟩) (World.withScenario.verifying ⟨⟨0⟩, ⟨0⟩⟩),
        World.withScenario.late ⟨⟨0⟩, ⟨0⟩⟩ x = true :=
  ⟨World.withScenario_reached, rfl,
    (Host.verify_outcome (s := ⟨⟨0⟩, ⟨0⟩⟩) Host.meddling 2 World.withScenario_reached rfl).2.1.mp
      ⟨"construct", 2, rfl⟩⟩

end LazyFields
