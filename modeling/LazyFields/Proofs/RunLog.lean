import LazyFields.Proofs.Verification

/-!
The log of a verification. Of its own events, those of nested verifications apart, a run leaves
one for each check that passes, in order, and one more for the error that the access raises; a
report repeats what the log says.
-/

namespace LazyFields

variable {π : Kind → Type} {σ ε α : Type} {w u w' : World π σ} {s : Scenario} {run : RunId}

namespace Event

def run? : Event → Option RunId
  | .passed r _ | .untouched r _ | .raised r _ => some r
  | _ => none

def check? : Event → Option String
  | .passed _ name | .untouched _ name => some name
  | _ => none

end Event

theorem Check.check?_event (run : RunId) (c : Check) : (c.event run).check? = some c.name := by
  cases c <;> rfl

namespace World

def eventsOf (w : World π σ) (r : RunId) : List Event := w.events.filter (·.run? = some r)

theorem eventsOf_eq (w : World π σ) (r : RunId) :
    w.eventsOf r = (w.ownMarks r).filterMap fun
      | .emitted e => some e
      | _ => none := by
  simp only [eventsOf, events, ownMarks, List.filter_filterMap, List.filterMap_filter]
  congr 1
  funext m
  cases m with
  | emitted e => cases e <;> simp [Mark.run?, Event.run?, Option.filter]
  | _ => simp

theorem eventsOf_congr {r : RunId} (h : w'.ownMarks r = w.ownMarks r) :
    w'.eventsOf r = w.eventsOf r := by
  rw [eventsOf_eq, eventsOf_eq, h]

theorem eventsOf_emitted (w : World π σ) {e : Event} {r : RunId} (he : e.run? = some r) :
    (w.note (.emitted e)).eventsOf r = w.eventsOf r ++ [e] := by
  simp [eventsOf, events, he]

theorem eventsOf_note (w : World π σ) {m : Mark} (hm : ∀ e, m ≠ .emitted e) (r : RunId) :
    (w.note m).eventsOf r = w.eventsOf r := by
  cases m with
  | emitted e => exact absurd rfl (hm e)
  | _ => simp [eventsOf, events]

theorem eventsOf_announced {t : Watch} {visits : List (Check × World π σ)}
    (h : w'.ownMarks t.run =
      w.ownMarks t.run ++ visits.map (fun y => .emitted (y.1.event t.run))) :
    w'.eventsOf t.run = w.eventsOf t.run ++ (visits.map Prod.fst).map (Check.event t.run) := by
  rw [eventsOf_eq, eventsOf_eq, h, List.filterMap_append, List.filterMap_map, List.map_map]
  show _ ++ visits.filterMap (some ∘ (Check.event t.run ∘ Prod.fst)) = _
  rw [List.filterMap_eq_map]

end World

theorem Course.eventsOf {e : Ending Unit} (h : Course w e w') {r : RunId}
    (hr : r.index < w.runs) : w'.eventsOf r = w.eventsOf r :=
  World.eventsOf_congr (h.ownMarks hr)

theorem Exec.eventsOf_recorded (x : Exec π σ (Except ε α)) {mark : Finish ε α → Mark}
    (hmark : ∀ r e, mark r ≠ .emitted e) (w : World π σ) (r : RunId) :
    (x.recorded mark w).1 = (x w).1 ∧ (x.recorded mark w).2.eventsOf r = (x w).2.eventsOf r := by
  unfold Exec.recorded Exec.closing
  rcases x w with ⟨_ | _ | _, _⟩
  · exact ⟨rfl, World.eventsOf_note _ (hmark _) r⟩
  · exact ⟨rfl, World.eventsOf_note _ (hmark _) r⟩
  · exact ⟨rfl, rfl⟩

namespace Environment

variable (env : Environment π σ)

theorem visits_prefix (t : Watch) (checks : List Check) (w : World π σ) :
    (env.visits t checks w).map Prod.fst <+: checks := by
  induction checks generalizing w with
  | nil => exact List.prefix_refl _
  | cons c rest ih =>
    simp only [visits, List.map_cons]
    refine (List.prefix_cons_inj c).mpr ?_
    split
    · exact ih _
    · exact List.nil_prefix

inductive Outcome (run : RunId) (checks : List String) : Ending (Except EvalError Int32) →
    Ending (Except VerifyError Report) → List Event → Prop
  | missing (v : Int32) :
      Outcome run checks (.value (.ok v)) (.value (.error (.missingEvaluationError v))) []
  | reported (x : EvalError) :
      Outcome run checks (.value (.error x)) (.value (.ok ⟨checks, x⟩)) [.raised run x]
  | unheard (x : EvalError) {r : Ending (Except VerifyError Report)} :
      r.forget ≠ .value () → Outcome run checks (.value (.error x)) r [.raised run x]
  | panicked (message : String) : Outcome run checks (.panicked message) (.panicked message) []
  | halted (reason : Halt) : Outcome run checks (.halted reason) (.halted reason) []

inductive Logs (s : Scenario) (w : World π σ) :
    Ending (Except VerifyError Report) → List Event → Prop
  | faulty {before after : List Check} {c : Check} {x : VerifyError} {u : World π σ} :
      env.checkAll (Watch.begin s w).1 [] s.checks (w.verifying s) = (.value (.error x), u) →
      s.checks = before ++ c :: after → c.fault? (Watch.begin s w).1 u = some x →
      Logs s w (.value (.error x)) (before.map (Check.event ⟨w.runs⟩))
  | unheard {e : Ending (Except VerifyError (List String))} {r : Ending (Except VerifyError Report)}
      {u : World π σ} (n : Nat) :
      env.checkAll (Watch.begin s w).1 [] s.checks (w.verifying s) = (e, u) →
      e.forget ≠ .value () → r.forget = e.forget →
      Logs s w r ((s.checks.take n).map (Check.event ⟨w.runs⟩))
  | accessed {r : Ending (Except VerifyError Report)} {u : World π σ} {log : List Event} :
      env.checkAll (Watch.begin s w).1 [] s.checks (w.verifying s) =
        (.value (.ok (s.checks.map Check.name)), u) →
      Outcome ⟨w.runs⟩ (s.checks.map Check.name ++ [Check.raises])
        (env.force s.lazyField (u.note (.accessing ⟨w.runs⟩))).1 r log →
      Logs s w r (s.checks.map (Check.event ⟨w.runs⟩) ++ log)

variable {env}

theorem Follows.outcome (henv : env.Follows) {t : Watch} (ht : t.run.index < u.runs)
    (reported : List String) (b : B) :
    ∃ log, (env.access t reported b u).2.eventsOf t.run = u.eventsOf t.run ++ log ∧
      Outcome t.run (reported ++ [Check.raises])
        (env.force b.lazyField (u.note (.accessing t.run))).1
        (env.access t reported b u).1 log := by
  have hforced := henv.force b.lazyField (u.note (.accessing t.run))
  have hlog := hforced.eventsOf ht
  rw [World.eventsOf_note _ (by simp)] at hlog
  simp only [Environment.access, Exec.bind_def, Exec.note, Exec.update]
  rcases hr : env.force b.lazyField (u.note (.accessing t.run)) with
    ⟨(x | v) | message | reason, v'⟩ <;> rw [hr] at hforced hlog <;> simp only
  · have hruns : t.run.index < v'.runs := Nat.lt_of_lt_of_le ht hforced.runs_le
    have hraised := (henv.notify (.raised t.run x) (v'.note (.emitted (.raised t.run x)))).eventsOf
      hruns
    rw [World.eventsOf_emitted _ rfl, hlog] at hraised
    refine ⟨[.raised t.run x], ?_⟩
    simp only [announce_eq]
    rcases hn : env.notify (.raised t.run x) (v'.note (.emitted (.raised t.run x))) with
      ⟨_ | message | reason, v''⟩ <;> rw [hn] at hraised
    · exact ⟨hraised, .reported x⟩
    · exact ⟨hraised, .unheard x (by simp)⟩
    · exact ⟨hraised, .unheard x (by simp)⟩
  · exact ⟨[], by rw [List.append_nil]; exact hlog, .missing v⟩
  · exact ⟨[], by rw [List.append_nil]; exact hlog, .panicked message⟩
  · exact ⟨[], by rw [List.append_nil]; exact hlog, .halted reason⟩

theorem Follows.logs (henv : env.Follows) (s : Scenario) (w : World π σ) :
    ∃ log, (env.verify s w).2.eventsOf ⟨w.runs⟩ = w.eventsOf ⟨w.runs⟩ ++ log ∧
      env.Logs s w (env.verify s w).1 log := by
  have hmark (r : Finish VerifyError Report) (e : Event) :
      Mark.verified ⟨w.runs⟩ r ≠ .emitted e := nofun
  have hverify : env.verify s w = (env.verifyWatched (Watch.begin s w).1 s.record).recorded
    (.verified ⟨w.runs⟩) (w.verifying s) := rfl
  obtain ⟨hanswer, hlog⟩ := Exec.eventsOf_recorded
    (env.verifyWatched (Watch.begin s w).1 s.record) hmark (w.verifying s) ⟨w.runs⟩
  rw [← hverify] at hanswer hlog
  have hstart : (w.verifying s).eventsOf ⟨w.runs⟩ = w.eventsOf ⟨w.runs⟩ :=
    World.eventsOf_note _ (by simp) _
  have hrun : (Watch.begin s w).1.run.index < (w.verifying s).runs := Nat.lt_succ_self _
  have hchecked := henv.checked hrun [] s.checks
  have hprefix := env.visits_prefix (Watch.begin s w).1 s.checks (w.verifying s)
  rw [hanswer, hlog, ← hstart]
  rcases hall : env.checkAll (Watch.begin s w).1 [] s.checks (w.verifying s) with ⟨e, v⟩
  rw [hall] at hchecked
  rw [verifyWatched_eq env _ _ hall]
  generalize env.visits (Watch.begin s w).1 s.checks (w.verifying s) = visits at hchecked hprefix
  cases hchecked with
  | @faulty before c _ x hvisits _ hfault hown =>
    rw [hvisits, List.map_append] at hprefix
    obtain ⟨after, hafter⟩ := hprefix
    have hsplit : s.checks = before.map Prod.fst ++ c :: after := by rw [← hafter]; simp
    exact ⟨_, World.eventsOf_announced hown, .faulty hall hsplit hfault⟩
  | stopped _ _ _ _ hstops hown =>
    have hlog := World.eventsOf_announced hown
    rw [List.prefix_iff_eq_take.mp hprefix] at hlog
    rcases e with e | message | reason
    · exact absurd rfl hstops
    · exact ⟨_, hlog, .unheard _ hall hstops rfl⟩
    · exact ⟨_, hlog, .unheard _ hall hstops rfl⟩
  | passed hle hvisits _ hown =>
    obtain ⟨log, haccess, houtcome⟩ := henv.outcome (Nat.lt_of_lt_of_le hrun hle)
      (s.checks.map Check.name) s.record
    have hlog := World.eventsOf_announced hown
    rw [hvisits] at hlog
    refine ⟨_, ?_, .accessed hall houtcome⟩
    rw [← List.append_assoc]
    exact haccess.trans (congrArg (· ++ log) hlog)

end Environment

/-- The log of a verification by the way it ends. The names of the checks in it are those of the
announcements, in the order of the checks. -/
structure Scenario.Logged (env : Environment π σ) (s : Scenario) (w : World π σ)
    (r : Ending (Except VerifyError Report)) (log : List Event) : Prop where
  announced : ∃ n raised, log = (s.checks.take n).map (Check.event ⟨w.runs⟩) ++ raised ∧
    (raised = [] ∨ s.checks.length ≤ n ∧ ∃ e, raised = [.raised ⟨w.runs⟩ e])
  reported : ∀ report, r = .value (.ok report) →
    log = s.checks.map (Check.event ⟨w.runs⟩) ++ [.raised ⟨w.runs⟩ report.evaluationError] ∧
      log.filterMap Event.check? = report.checks.dropLast
  unexpected : ∀ name n, r = .value (.error (.unexpectedEvaluation name n)) →
    ∃ before after, s.checks = before ++ .untouched name :: after ∧
      log = before.map (Check.event ⟨w.runs⟩)
  missing : ∀ v, r = .value (.error (.missingEvaluationError v)) →
    log = s.checks.map (Check.event ⟨w.runs⟩)
  thrown : ∀ message reported u v,
    env.checkAll (Watch.begin s w).1 [] s.checks (w.verifying s) = (.value (.ok reported), u) →
      env.force s.lazyField (u.note (.accessing ⟨w.runs⟩)) = (.panicked message, v) →
      r = .panicked message ∧ log = s.checks.map (Check.event ⟨w.runs⟩)

namespace Environment.Outcome

variable {checks : List String} {x : Ending (Except EvalError Int32)}
  {r : Ending (Except VerifyError Report)} {log : List Event}

theorem raised (h : Outcome run checks x r log) : log = [] ∨ ∃ e, log = [.raised run e] := by
  cases h with
  | missing | panicked | halted => exact .inl rfl
  | reported e | unheard e => exact .inr ⟨e, rfl⟩

theorem of_reported {report : Report} (h : Outcome run checks x (.value (.ok report)) log) :
    report.checks = checks ∧ log = [.raised run report.evaluationError] := by
  cases h with
  | reported => exact ⟨rfl, rfl⟩
  | unheard _ hstops => exact absurd rfl hstops

theorem of_error {e : VerifyError} (h : Outcome run checks x (.value (.error e)) log) :
    (∃ v, e = .missingEvaluationError v) ∧ log = [] := by
  cases h with
  | missing v => exact ⟨⟨v, rfl⟩, rfl⟩
  | unheard _ hstops => exact absurd rfl hstops

theorem of_panicked {message : String} (h : Outcome run checks (.panicked message) r log) :
    r = .panicked message ∧ log = [] := by
  cases h
  exact ⟨rfl, rfl⟩

end Environment.Outcome

theorem Check.filterMap_check?_event (run : RunId) (checks : List Check) :
    (checks.map (Check.event run)).filterMap Event.check? = checks.map Check.name := by
  rw [List.filterMap_map, ← List.filterMap_eq_map]
  congr 1
  funext c
  exact c.check?_event run

theorem Environment.Logs.logged {env : Environment π σ}
    {r : Ending (Except VerifyError Report)} {log : List Event} (h : env.Logs s w r log) :
    s.Logged env w r log := by
  cases h with
  | @faulty before after c x u hall hsplit hfault =>
    refine ⟨⟨before.length, [], by simp [hsplit], .inl rfl⟩, nofun, ?_, ?_, ?_⟩
    · rintro name n ⟨⟩
      cases c with
      | field => simp [Check.fault?] at hfault
      | untouched name' =>
        simp only [Check.fault?, Option.ite_none_right_eq_some, Option.some.injEq,
          VerifyError.unexpectedEvaluation.injEq] at hfault
        obtain ⟨-, rfl, -⟩ := hfault
        exact ⟨before, after, hsplit, rfl⟩
    · rintro v ⟨⟩
      cases c with
      | field => simp [Check.fault?] at hfault
      | untouched => simp [Check.fault?] at hfault
    · intro message reported u' v hall'
      cases hall.symm.trans hall'
  | @unheard e _ u n hall hstops hforget =>
    have hnone (x : Except VerifyError Report) : r ≠ .value x := by
      rintro rfl
      exact hstops hforget.symm
    refine ⟨⟨n, [], by simp, .inl rfl⟩, fun _ h => absurd h (hnone _),
      fun _ _ h => absurd h (hnone _), fun _ h => absurd h (hnone _), ?_⟩
    intro message reported u' v hall'
    cases hall.symm.trans hall'
    exact absurd rfl hstops
  | @accessed _ u tail hall houtcome =>
    refine ⟨⟨s.checks.length, tail, by simp,
      houtcome.raised.imp_right fun h => ⟨Nat.le_refl _, h⟩⟩, ?_, ?_, ?_, ?_⟩
    · rintro report rfl
      obtain ⟨hchecks, rfl⟩ := houtcome.of_reported
      refine ⟨rfl, ?_⟩
      rw [hchecks, List.filterMap_append, Check.filterMap_check?_event, List.dropLast_concat]
      simp [Event.check?]
    · rintro name n rfl
      obtain ⟨⟨v, hv⟩, -⟩ := houtcome.of_error
      cases hv
    · rintro v rfl
      rw [houtcome.of_error.2, List.append_nil]
    · intro message reported u' v hall' hforce
      cases hall.symm.trans hall'
      rw [hforce] at houtcome
      obtain ⟨hr, rfl⟩ := houtcome.of_panicked
      exact ⟨hr, List.append_nil _⟩

/-- The log and the answer of a verification agree, whatever listeners do in the middle of it. -/
theorem Host.verification_logged (host : Host π σ) (depth : Nat) (s : Scenario) (w : World π σ) :
    ∃ log, (host.run depth s.verify w).2.eventsOf ⟨w.runs⟩ = w.eventsOf ⟨w.runs⟩ ++ log ∧
      s.Logged (host.environment depth) w (host.run depth s.verify w).1 log := by
  obtain ⟨log, hlog, hlogs⟩ := (host.environment_follows depth).logs s w
  exact ⟨log, hlog, hlogs.logged⟩

-- The announcements of a run in which all checks pass.
example (s : Scenario) (run : RunId) : s.checks.map (Check.event run) =
    [.passed run "b.normal_field() == 0", .passed run "b.dummy_field() == 1",
      .untouched run "construct", .passed run "b.with_normal_field(1).normal_field() == 1",
      .passed run "b.with_normal_field(1).dummy_field() == 1", .untouched run "with_normal_field",
      .passed run "b.with_dummy_field(0).normal_field() == 0",
      .passed run "b.with_dummy_field(0).dummy_field() == 0",
      .untouched run "with_dummy_field"] := rfl

end LazyFields
