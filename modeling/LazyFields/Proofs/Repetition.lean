import LazyFields.Proofs.Retrying
import LazyFields.Proofs.Verification

/-!
Verifications of one scenario, one after another. If nobody but the verification asks for the
field, all its checks pass and it ends with the access; so a sequence of verifications is a
sequence of accesses, with a verdict on each.
-/

namespace LazyFields

variable {π : Kind → Type} {σ : Type}

namespace Scenario

def passes (s : Scenario) : List String := s.checks.map Check.name ++ [Check.raises]

example (s : Scenario) : s.passes =
    ["b.normal_field() == 0", "b.dummy_field() == 1", "construct",
      "b.with_normal_field(1).normal_field() == 1", "b.with_normal_field(1).dummy_field() == 1",
      "with_normal_field", "b.with_dummy_field(0).normal_field() == 0",
      "b.with_dummy_field(0).dummy_field() == 0", "with_dummy_field", "b.lazy_field() raises"] :=
  rfl

def verdict (s : Scenario) : Reply .int → Except String (Except VerifyError Report)
  | .ok (.error e) => .ok (.ok ⟨s.passes, e⟩)
  | .ok (.ok x) => .ok (.error (.missingEvaluationError x))
  | .error message => .error message

theorem missing_of_verdict {s : Scenario} {r : Reply .int} {x : VerifyError}
    (hx : s.verdict r = .ok (.error x)) : ∃ value, x = .missingEvaluationError value := by
  rcases r with message | e | value <;> cases hx
  exact ⟨value, rfl⟩

def trial (s : Scenario) : Proc π σ (Except String (Except VerifyError Report) × Nat) := do
  let r ← .attempt s.verify
  return (r, ← s.evaluations)

end Scenario

namespace Environment

variable (env : Environment π σ)

def emitAll (run : RunId) : List Check → Exec π σ Unit
  | [] => return ()
  | i :: rest => do
    env.emit (i.event run)
    emitAll run rest

/-- What a verification does apart from its field: it numbers the run, announces its checks, and
calls the producer. -/
def rehearse (s : Scenario) (q : Producer π .int) : Exec π σ (Reply .int) := do
  let t ← Exec.change (Watch.begin s)
  env.emitAll t.run s.checks
  let o ← env.outcome s.lazyField .single (.counted s.counter q)
  env.announceFailure (.raised t.run) o
  return o

def Discreet {k : Kind} (h : Handle k) (w : World π σ) : Prop :=
  ∀ e v, w.heap.Keeps v.heap →
    ∃ v', env.notify e v = (.value (), v') ∧ v'.asks h.id = v.asks h.id

structure Undisturbed (s : Scenario) (v : World π σ) : Prop where
  tallied : v.Tallied
  made : v.Made s
  discreet : env.Discreet s.lazyField v

variable {env} {s : Scenario} {w w' v v' : World π σ}

theorem rehearse_cases {q : Producer π .int} {o : Reply .int}
    (ho : env.rehearse s q w = (.value o, w')) :
    ∃ w₁ w₂, env.emitAll ⟨w.runs⟩ s.checks (Watch.begin s w).2 = (.value (), w₁) ∧
      env.outcome s.lazyField .single (.counted s.counter q) w₁ = (.value o, w₂) ∧
      env.announceFailure (.raised ⟨w.runs⟩) o w₂ = (.value (), w') := by
  obtain ⟨_, _, hbegin, ho⟩ := Exec.bind_eq_value_iff.mp ho
  cases hbegin
  obtain ⟨_, w₁, hemitted, ho⟩ := Exec.bind_eq_value_iff.mp ho
  obtain ⟨_, w₂, houtcome, ho⟩ := Exec.bind_eq_value_iff.mp ho
  obtain ⟨_, _, hannounced, ho⟩ := Exec.bind_eq_value_iff.mp ho
  cases ho
  exact ⟨w₁, w₂, hemitted, houtcome, hannounced⟩

theorem Undisturbed.course {e : Ending Unit} (hv : env.Undisturbed s v) (h : Course v e v') :
    env.Undisturbed s v' :=
  ⟨h.tallied hv.tallied, hv.made.keeps h.keeps,
    fun e u hu => hv.discreet e u (h.keeps.trans hu)⟩

theorem Discreet.emitAll (henv : env.Follows) (hv : env.Discreet s.lazyField v) (run : RunId)
    (checks : List Check) {w : World π σ} (hw : v.heap.Keeps w.heap) :
    ∃ w', env.emitAll run checks w = (.value (), w') ∧
      w'.asks s.lazyField.id = w.asks s.lazyField.id := by
  induction checks generalizing w with
  | nil => exact ⟨w, rfl, rfl⟩
  | cons i rest ih =>
    obtain ⟨w₁, hheard, hasks⟩ := hv (i.event run) (w.note (.emitted (i.event run))) hw
    have hkeeps := (henv.notify (i.event run) (w.note (.emitted (i.event run)))).keeps
    rw [hheard] at hkeeps
    obtain ⟨w', hrest, hasks'⟩ := ih (hw.trans hkeeps)
    refine ⟨w', (Exec.bind_of_value hheard).trans hrest, ?_⟩
    rw [hasks', hasks, World.asks_note_of_ne _ (by simp)]

end Environment

theorem Scenario.fault?_eq_none {s : Scenario} {v u : World π σ} (hv : v.Tallied) (hs : v.Made s)
    (h : Course v (.value ()) u)
    (hcalls : u.productions s.lazyField.id = v.productions s.lazyField.id) {i : Check}
    (hi : i ∈ s.checks) : i.fault? (Watch.begin s v).1 u = none := by
  rw [fault?_eq hv hs h hi, if_neg]
  cases i <;> simp [World.late, hcalls]

namespace Environment.Parallels

variable {env : Environment π σ} {s : Scenario} {c : Cell π .int} {p : Nat}
  {w w' v v' u : World π σ} (henv : env.Parallels s.lazyField c p)

include henv

theorem emitAll (run : RunId) (checks : List Check) :
    Exec.Parallels s.lazyField c p (env.emitAll run checks) (env.emitAll run checks) := by
  induction checks with
  | nil => exact .pure _
  | cons i rest ih => exact .bind (henv.emit _) fun _ => ih

theorem rehearse (q : Producer π .int) :
    Exec.Parallels s.lazyField c p (env.rehearse s q) (env.rehearse s q) := by
  refine .bind (.begin s) fun t => .bind (henv.emitAll t.run s.checks) fun _ => ?_
  exact .bind (henv.outcome _) fun o => .bind (henv.announceFailure _ o) fun _ => .pure o

theorem checkAll_passes (hv : v.Tallied) (hs : v.Made s)
    (hcalls : v.productions s.lazyField.id = p) {reported : List String} {checks : List Check}
    (hchecks : ∀ i ∈ checks, i ∈ s.checks) (hcourse : Course v (.value ()) u)
    (hw : w.Resembles s.lazyField c p u)
    (hemitted : env.emitAll ⟨v.runs⟩ checks w = (.value (), w'))
    (hasks : w'.asks s.lazyField.id = w.asks s.lazyField.id) :
    ∃ u', env.checkAll (Watch.begin s v).1 reported checks u =
        (.value (.ok (reported ++ checks.map Check.name)), u') ∧
      Course v (.value ()) u' ∧ w'.Resembles s.lazyField c p u' := by
  -- As long as the two worlds resemble each other, no call has begun, so no look comes late.
  induction checks generalizing w u reported with
  | nil =>
    cases hemitted
    rw [List.map_nil, List.append_nil]
    exact ⟨u, rfl, hcourse, hw⟩
  | cons i rest ih =>
    obtain ⟨hi, hrest⟩ := List.forall_mem_cons.mp hchecks
    obtain ⟨_, w₁, hheard, hemitted⟩ := Exec.bind_eq_value_iff.mp hemitted
    have hemit := henv.emit (i.event ⟨v.runs⟩)
    have hearlier : w.asks s.lazyField.id ≤ w₁.asks s.lazyField.id := hemit.asks_le hheard
    have hlater : w₁.asks s.lazyField.id ≤ w'.asks s.lazyField.id :=
      (henv.emitAll ⟨v.runs⟩ rest).asks_le hemitted
    obtain ⟨u₁, hu₁, hw₁⟩ := hemit.obtains hw hheard (by omega)
    have hfault := Scenario.fault?_eq_none hv hs hcourse (hw.productions.trans hcalls.symm) hi
    have hcheck : env.check (Watch.begin s v).1 reported i u =
        (.value (.ok (reported ++ [i.name])), u₁) :=
      (check_of_pass env hfault reported).trans (Exec.bind_of_value hu₁)
    have hcourse₁ : Course v (.value ()) u₁ := by
      have hprolonged := check_prolongs henv.follows (t := (Watch.begin s v).1) rfl reported i u
        hcourse
      rwa [hcheck] at hprolonged
    obtain ⟨u', hcheckAll, hcourse', hw'⟩ := ih hrest hcourse₁ hw₁ hemitted (by omega)
    rw [List.append_assoc] at hcheckAll
    exact ⟨u', (Exec.bind_of_value hcheck).trans hcheckAll, hcourse', hw'⟩

theorem checks_pass (hv : v.Tallied) (hs : v.Made s) (hw : w.Resembles s.lazyField c p v)
    (hemitted : env.emitAll ⟨w.runs⟩ s.checks (Watch.begin s w).2 = (.value (), w'))
    (hasks : w'.asks s.lazyField.id = w.asks s.lazyField.id) :
    ∃ v', env.checkAll (Watch.begin s v).1 [] s.checks (v.verifying s) =
        (.value (.ok (s.checks.map Check.name)), v') ∧
      Course v (.value ()) v' ∧ w'.Resembles s.lazyField c p v' := by
  rw [← hw.runs] at hemitted
  exact henv.checkAll_passes hv hs hw.productions (fun _ hi => hi) (.verifying s v)
    ((hw.begin s).note_right (by simp)) hemitted hasks

end Environment.Parallels

theorem Exec.recorded_of {ε α : Type} {x : Exec π σ (Except ε α)} {v v' : World π σ}
    {r : Except String (Except ε α)} (hx : x v = (.of r, v')) (mark : Finish ε α → Mark) :
    ∃ finish, x.recorded mark v = (.of r, v'.note (mark finish)) := by
  rcases r with message | r
  · exact ⟨.panic message, by simp [recorded, closing, hx, Ending.of]⟩
  · exact ⟨.of r, by simp [recorded, closing, hx, Ending.of]⟩

namespace Environment

variable {env : Environment π σ} {s : Scenario} {v v₁ v₂ v₃ : World π σ}

theorem access_of_force {t : Watch} {o : Reply .int}
    (hforce : env.force s.lazyField (v₁.note (.accessing t.run)) = (.of o, v₂))
    (hannounced : env.announceFailure (.raised t.run) o v₂ = (.value (), v₃)) :
    env.access t (s.checks.map Check.name) s.record v₁ = (.of (s.verdict o), v₃) := by
  have hnoted : (Exec.note (.accessing t.run) : Exec π σ Unit) v₁ =
    (.value (), v₁.note (.accessing t.run)) := rfl
  refine (Exec.bind_of_value hnoted).trans ?_
  rcases o with message | e | x
  · cases hannounced
    exact Exec.bind_of_panicked hforce
  · exact (Exec.bind_of_value hforce).trans (Exec.bind_of_value hannounced)
  · cases hannounced
    exact Exec.bind_of_value hforce

theorem attempt_verify {o : Reply .int}
    (hchecks : env.checkAll (Watch.begin s v).1 [] s.checks (v.verifying s) =
      (.value (.ok (s.checks.map Check.name)), v₁))
    (hforce : env.force s.lazyField (v₁.note (.accessing ⟨v.runs⟩)) = (.of o, v₂))
    (hannounced : env.announceFailure (.raised ⟨v.runs⟩) o v₂ = (.value (), v₃)) :
    ∃ finish, (env.verify s).attempt v =
      (.value (s.verdict o), (v₃.note (.verified ⟨v.runs⟩ finish)).caught (s.verdict o)) := by
  have hwatched : env.verifyWatched (Watch.begin s v).1 s.record (v.verifying s) =
      (.of (s.verdict o), v₃) := by
    rw [verifyWatched_eq env _ _ hchecks]
    exact access_of_force hforce hannounced
  obtain ⟨finish, hrecorded⟩ := Exec.recorded_of hwatched (.verified ⟨v.runs⟩)
  exact ⟨finish, Exec.attempt_eq_value_iff.mpr ⟨_, hrecorded, rfl⟩⟩

theorem Undisturbed.exec_trial (henv : env.Follows) (hv : env.Undisturbed s v)
    {r : Except String (Except VerifyError Report)}
    (hr : (env.verify s).attempt v = (.value r, v₁)) :
    (s.trial.exec env) v = (.value (r, v₁.productions s.lazyField.id), v₁) ∧
      env.Undisturbed s v₁ := by
  have hcourse : Course v (.value ()) v₁ := by
    have hobeys := henv.obeys.exec Course.lawful (.attempt s.verify) v
    have hattempt : (Proc.attempt s.verify).exec env v = (.value r, v₁) := hr
    rwa [hattempt] at hobeys
  have hv₁ := hv.course hcourse
  refine ⟨?_, hv₁⟩
  rw [← hv₁.tallied.counted _ _ hv₁.made]
  exact Exec.bind_of_value hr

end Environment

namespace Environment.Parallels

variable {env : Environment π σ} {s : Scenario} {q : Producer π .int} {p : Nat} {o : Reply .int}
  {w w' v : World π σ}

theorem announceFailure_tried {src : Source π .int} {event : EvalError → Event}
    (henv : env.Parallels s.lazyField (.fresh .single src) p)
    (hv : w.Tried s.lazyField .single src p o v)
    (hannounced : env.announceFailure event o w = (.value (), w'))
    (hasks : w'.asks s.lazyField.id = w.asks s.lazyField.id) :
    ∃ v', env.announceFailure event o v = (.value (), v') ∧
      w'.Tried s.lazyField .single src p o v' := by
  rcases o with message | e | x
  · cases hannounced
    exact ⟨v, rfl, hv⟩
  · obtain ⟨v', hv', hw'⟩ :=
      (henv.announceFailure event (.ok (.error e))).obtains (hv.pending rfl).resembles
        hannounced hasks
    exact ⟨v', hv', hw'.productions, by simp [Flavour.lasts], fun _ => hw'.pending⟩
  · cases hannounced
    exact ⟨v, rfl, hv⟩

theorem retries_trial (henv : ∀ c p, env.Parallels s.lazyField c p) :
    Exec.Retries s.lazyField .single (.counted s.counter q) (env.Undisturbed s)
      (fun r m => (s.verdict r, m)) (s.trial.exec env) (env.rehearse s q) where
  grows := ((henv (.fresh .single (.counted s.counter q)) 0).rehearse q).grows
  -- The rehearsal and the verification announce the same checks and call the same producer.
  pending {p w v w' o} hv hinv ho hasks := by
    obtain ⟨w₁, w₂, hemitted, houtcome, hannounced⟩ := rehearse_cases ho
    have hparallels := henv (.fresh .single (.counted s.counter q))
    have hasks₁ := ((hparallels p).emitAll _ _).asks_le hemitted
    rw [World.asks_begin] at hasks₁
    have hasks₂ := ((hparallels p).outcome _).asks_le houtcome
    have hasks₃ := ((hparallels p).announceFailure _ _).asks_le hannounced
    obtain ⟨v₁, hchecks, -, hw₁⟩ :=
      (hparallels p).checks_pass hinv.tallied hinv.made hv.resembles hemitted (by omega)
    obtain ⟨v₂, hforce, htried⟩ :=
      Parallels.round hparallels (hw₁.note_right (m := .accessing ⟨v.runs⟩) (by simp)).pending
        houtcome (by omega)
    obtain ⟨v₃, hannounced', htried'⟩ :=
      announceFailure_tried (hparallels (p + 1)) htried hannounced (by omega)
    rw [← hv.resembles.runs] at hannounced'
    obtain ⟨finish, hverify⟩ := attempt_verify hchecks hforce hannounced'
    have htried'' := (htried'.note (m := .verified ⟨v.runs⟩ finish) (by simp)).caught (s.verdict o)
    obtain ⟨htrial, hinv'⟩ := hinv.exec_trial (hparallels p).follows hverify
    rw [htried''.productions] at htrial
    exact ⟨_, htrial, hinv', htried''⟩
  -- Nothing is rehearsed any more: the world in which the checks are announced is the same one.
  final {v r} hv hinv := by
    cases hv with
    | @known _ x hx =>
      obtain ⟨c, hc, -⟩ := Option.bind_eq_some_iff.mp hx
      have hparallels := henv c (v.productions s.lazyField.id)
      obtain ⟨w₁, hemitted, hasks⟩ := hinv.discreet.emitAll hparallels.follows ⟨v.runs⟩ s.checks
        (w := (Watch.begin s v).2) (.refl _)
      obtain ⟨v₁, hchecks, hcourse, hw₁⟩ :=
        hparallels.checks_pass hinv.tallied hinv.made (.refl hc) hemitted hasks
      have hknown : (v₁.note (.accessing ⟨v.runs⟩)).Final s.lazyField .single (.ok (.ok x)) :=
        .known (hcourse.keeps.peek hx)
      obtain ⟨v₂, hforce, hheap, hproductions⟩ := hknown.force env
      obtain ⟨finish, hverify⟩ := attempt_verify hchecks hforce rfl
      obtain ⟨htrial, hinv'⟩ := hinv.exec_trial hparallels.follows hverify
      have hcount : (v₂.note (.verified ⟨v.runs⟩ finish)).productions s.lazyField.id =
          v.productions s.lazyField.id := by
        rw [World.productions_note_of_ne _ (by simp), hproductions,
          World.productions_note_of_ne _ (by simp), hw₁.productions]
      refine ⟨_, htrial.trans ?_, hinv', hknown.congr (congrArg (Heap.cell? · _) hheap), hcount⟩
      exact congrArg (fun m => (Ending.value (_, m), _)) hcount

end Environment.Parallels

/-- Verifications of a scenario whose field has no value yet, each with its panic caught, come to
verdicts on the outcomes that its producer comes to when it is called as often on its own, up to
the first value, which all later verifications find. Neither the producer nor a listener may
access the field. -/
theorem Host.verifications_retry (host : Host π σ) (depth : Nat) {s : Scenario}
    {q : Producer π .int} {w u : World π σ} (hw : w.Reached)
    (hc : w.heap.cell? s.lazyField = some (.fresh .single (.counted s.counter q)))
    (hdiscreet : (host.environment depth).Discreet s.lazyField w) {n : Nat}
    {os : List (Reply .int)}
    (hos : times ((host.environment depth).rehearse s q) n w = (.value os, u))
    (hasks : u.asks s.lazyField.id = w.asks s.lazyField.id) :
    let runs := Flavour.single.answers (fun r m => (s.verdict r, m)) (w.tally s.counter) os
    (∃ w', host.run depth (times s.trial n) w = (.value runs, w')) ∧
      ∀ a ∈ runs, ∀ x, a.1 = .ok (.error x) → ∃ value, x = .missingEvaluationError value := by
  intro runs
  have hmade : w.Made s := Heap.counter?_eq hc rfl
  have hretries := Environment.Parallels.retries_trial (q := q)
    fun c p => host.environment_parallels s.lazyField c p depth
  refine ⟨?_, fun a ha x hx => ?_⟩
  · obtain rfl := Exec.length_times hos
    obtain ⟨w', htimes, -, -⟩ := hretries.times (World.Pending.refl hc)
      ⟨hw.tallied, hmade, hdiscreet⟩ hos hasks
    rw [← hw.tallied.counted _ _ hmade] at htimes
    exact ⟨w', by rw [Host.run, Proc.exec_times]; exact htimes⟩
  · obtain ⟨i, hi, rfl⟩ := List.mem_mapIdx.mp ha
    exact Scenario.missing_of_verdict hx

def World.withWaveringScenario : World (fun _ => Unit) Nat :=
  ((World.start 0).newScenario (.custom ())).2

theorem World.withWaveringScenario_reached : World.withWaveringScenario.Reached :=
  Host.run_reached Host.wavering 0 (Proc.scenario (.custom ())) 0

instance decidableEqExcept {ε α : Type} [DecidableEq ε] [DecidableEq α] :
    DecidableEq (Except ε α)
  | .ok a, .ok b => decidable_of_iff (a = b) (by simp)
  | .error e, .error e' => decidable_of_iff (e = e') (by simp)
  | .ok _, .error _ => isFalse (by simp)
  | .error _, .ok _ => isFalse (by simp)

deriving instance DecidableEq for Ending

theorem Exec.eq_of_fst {α : Type} {x : Exec π σ α} {w : World π σ} {r : Ending α}
    (hr : (x w).1 = r) : x w = (r, (x w).2) :=
  Prod.ext hr rfl

theorem Host.wavering_rehearsed :
    ∃ u, times ((Host.wavering.environment 1).rehearse ⟨⟨0⟩, ⟨0⟩⟩ (.custom ())) 4
        World.withWaveringScenario = (.value Host.wavers, u) ∧
      u.asks ⟨.int, 0⟩ = World.withWaveringScenario.asks ⟨.int, 0⟩ := by
  have hvalue : (times ((Host.wavering.environment 1).rehearse ⟨⟨0⟩, ⟨0⟩⟩ (.custom ())) 4
      World.withWaveringScenario).1 = .value Host.wavers := by
    decide +kernel
  exact ⟨_, Exec.eq_of_fst hvalue, by decide +kernel⟩

theorem Host.verifications_retry_wavering :
    let s : Scenario := ⟨⟨0⟩, ⟨0⟩⟩
    let w := World.withWaveringScenario
    w.Reached ∧ w.heap.cell? s.lazyField = some (.fresh .single (.counted s.counter (.custom ()))) ∧
      (Host.wavering.environment 1).Discreet s.lazyField w ∧
      ∃ u, times ((Host.wavering.environment 1).rehearse s (.custom ())) 4 w =
          (.value Host.wavers, u) ∧
        u.asks s.lazyField.id = w.asks s.lazyField.id ∧
        ∃ w', Host.wavering.run 1 (times s.trial 4) w =
          (.value [(.ok (.ok ⟨s.passes, .failed "first"⟩), 1), (.error "second", 2),
            (.ok (.error (.missingEvaluationError 7)), 3),
            (.ok (.error (.missingEvaluationError 7)), 3)], w') := by
  intro s w
  have hdiscreet : (Host.wavering.environment 1).Discreet s.lazyField w :=
    fun e v _ => ⟨v, rfl, rfl⟩
  obtain ⟨u, hos, hasks⟩ := Host.wavering_rehearsed
  exact ⟨World.withWaveringScenario_reached, rfl, hdiscreet, u, hos, hasks,
    (Host.verifications_retry Host.wavering 1 World.withWaveringScenario_reached rfl hdiscreet hos
      hasks).1⟩

end LazyFields
