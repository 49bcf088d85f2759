import LazyFields.Console
import LazyFields.Proofs.Verification

/-!
What the announcements of a verification say about its field. A verification compares the field
with what it found when it began, so when it announces that nobody has touched the field, the field
holds what it held then: nothing, unless an earlier access had evaluated it.
-/

namespace LazyFields

variable {π : Kind → Type} {σ ε α : Type} {u v w w' : World π σ} {s : Scenario}
  {run : RunId} {P : Moment π → Prop}

/-- The later world has on record what the earlier one has, and of the doings of the run since then
only such as have the property. -/
structure World.Adds (run : RunId) (P : Moment π → Prop) (w w' : World π σ) : Prop where
  runs : w.runs ≤ w'.runs
  since : ∃ since, w'.history = w.history ++ since ∧ ∀ m ∈ since, m.mark.run? = some run → P m

namespace World.Adds

theorem refl (w : World π σ) : Adds run P w w := ⟨Nat.le_refl _, [], by simp⟩

theorem trans (huv : Adds run P u v) (hvw : Adds run P v w) : Adds run P u w := by
  obtain ⟨first, hfirst, hP⟩ := huv.since
  obtain ⟨second, hsecond, hP'⟩ := hvw.since
  refine ⟨Nat.le_trans huv.runs hvw.runs, first ++ second,
    by rw [hsecond, hfirst, List.append_assoc], fun m hm => ?_⟩
  rcases List.mem_append.mp hm with hm | hm
  · exact hP m hm
  · exact hP' m hm

theorem note (w : World π σ) {m : Mark} (hm : m.run? = some run → P ⟨m, w.heap, w.tallies⟩) :
    Adds run P w (w.note m) := by
  refine ⟨Nat.le_refl _, [⟨m, w.heap, w.tallies⟩], w.history_note m, fun m' hm' => ?_⟩
  obtain rfl := List.mem_singleton.mp hm'
  exact hm

end World.Adds

theorem Course.adds {e : Ending Unit} (h : Course w e w') (hrun : run.index < w.runs) :
    World.Adds run P w w' := by
  obtain ⟨since, hsince⟩ := h.history_grows
  refine ⟨h.runs_le, since, hsince.symm, fun m hm hown => ?_⟩
  have hmarks : w'.ownMarks run =
      w.ownMarks run ++ (since.map Moment.mark).filter (·.run? = some run) := by
    simp only [World.ownMarks, World.marks, ← hsince, List.map_append, List.filter_append]
  have hnone : (since.map Moment.mark).filter (·.run? = some run) = [] := by
    rw [h.ownMarks hrun] at hmarks
    exact List.self_eq_append_right.mp hmarks
  exact absurd (decide_eq_true hown)
    (List.filter_eq_nil_iff.mp hnone m.mark (List.mem_map_of_mem hm))

def Scenario.Truthful (s : Scenario) (w : World π σ) (m : Moment π) : Prop :=
  ∀ name, m.mark = .emitted (.untouched ⟨w.runs⟩ name) →
    m.heap.peek s.lazyField = w.peek s.lazyField

theorem Watch.peek_of_undisturbed {e : Ending Unit} (h : Course w e u)
    (hcalm : (Watch.begin s w).1.disturbed u = false) :
    u.peek s.lazyField = w.peek s.lazyField := by
  cases hw : w.peek s.lazyField with
  | some x => exact h.keeps.peek hw
  | none =>
    have hnew : (Watch.begin s w).1.newlyEvaluated u = false := (Bool.or_eq_false_iff.mp hcalm).2
    simpa [newlyEvaluated, begin, World.isEvaluated, hw] using hnew

theorem Check.truthful {e : Ending Unit} (h : Course w e u) {c : Check}
    (hc : c.fault? (Watch.begin s w).1 u = none) :
    s.Truthful w ⟨.emitted (c.event ⟨w.runs⟩), u.heap, u.tallies⟩ := by
  intro name hname
  cases c with
  | field => cases hname
  | untouched name' =>
    refine Watch.peek_of_undisturbed h ?_
    simpa [Check.fault?] using hc

namespace Exec

theorem adds_recorded (x : Exec π σ (Except ε α)) {mark : Finish ε α → Mark}
    (hmark : ∀ r m, m.mark = mark r → P m) (hx : World.Adds run P w (x w).2) :
    World.Adds run P w (x.recorded mark w).2 := by
  unfold recorded closing
  rcases hw : x w with ⟨r | message | reason, u⟩ <;> rw [hw] at hx
  · exact hx.trans (.note u fun _ => hmark _ _ rfl)
  · exact hx.trans (.note u fun _ => hmark _ _ rfl)
  · exact hx

end Exec

namespace Environment

variable {env : Environment π σ}

theorem announce_snd (e : Event) (a : α) (w : World π σ) :
    ((env.emit e >>= fun _ => Pure.pure a) w).2 =
      (env.notify e (w.note (.emitted e))).2 := by
  rw [announce_eq]
  rcases env.notify e (w.note (.emitted e)) with ⟨_ | _ | _, _⟩ <;> rfl

theorem Follows.check_adds (henv : env.Follows) (h : Course w (.value ()) u)
    (hrun : w.runs < u.runs) (reported : List String) (c : Check) :
    World.Adds ⟨w.runs⟩ (s.Truthful w) u (env.check (Watch.begin s w).1 reported c u).2 := by
  cases hc : c.fault? (Watch.begin s w).1 u with
  | some x =>
    rw [check_of_fault env hc]
    exact .refl u
  | none =>
    rw [check_of_pass env hc, announce_snd]
    exact (World.Adds.note u fun _ => Check.truthful h hc).trans ((henv.notify _ _).adds hrun)

theorem Follows.checkAll_adds (henv : env.Follows) (reported : List String)
    (checks : List Check) (h : Course w (.value ()) u) (hrun : w.runs < u.runs) :
    World.Adds ⟨w.runs⟩ (s.Truthful w) u
      (env.checkAll (Watch.begin s w).1 reported checks u).2 := by
  induction checks generalizing u reported with
  | nil => exact .refl u
  | cons c rest ih =>
    have hcheck := henv.check_adds (s := s) h hrun reported c
    have hcourse := check_prolongs henv (t := (Watch.begin s w).1) rfl reported c u h
    simp only [checkAll, Exec.bind_def]
    rcases hr : env.check (Watch.begin s w).1 reported c u with ⟨(x | _) | message | reason, v⟩ <;>
      rw [hr] at hcheck hcourse
    · exact hcheck
    · exact hcheck.trans (ih _ hcourse (Nat.lt_of_lt_of_le hrun hcheck.runs))
    · exact hcheck
    · exact hcheck

theorem Follows.access_adds (henv : env.Follows) {t : Watch} (hrun : t.run.index < u.runs)
    (reported : List String) (b : B) :
    World.Adds t.run (s.Truthful w) u (env.access t reported b u).2 := by
  have hnote (v : World π σ) {m : Mark} (hm : ∀ name, m ≠ .emitted (.untouched ⟨w.runs⟩ name)) :
      World.Adds t.run (s.Truthful w) v (v.note m) :=
    .note v fun _ name hname => absurd hname (hm name)
  have hforced : World.Adds t.run (s.Truthful w) u
      (env.force b.lazyField (u.note (.accessing t.run))).2 :=
    (hnote u (by simp)).trans ((henv.force b.lazyField _).adds hrun)
  simp only [Environment.access, Exec.bind_def, Exec.note, Exec.update]
  rcases hr : env.force b.lazyField (u.note (.accessing t.run)) with
    ⟨(x | y) | message | reason, v⟩ <;> rw [hr] at hforced
  · simp only [announce_snd]
    have hheard := (henv.notify (.raised t.run x) (v.note (.emitted (.raised t.run x)))).adds
      (P := s.Truthful w) (Nat.lt_of_lt_of_le hrun hforced.runs)
    exact (hforced.trans (hnote v (by simp))).trans hheard
  · exact hforced
  · exact hforced
  · exact hforced

theorem Follows.verify_adds (henv : env.Follows) (s : Scenario) (w : World π σ) :
    World.Adds ⟨w.runs⟩ (s.Truthful w) w (env.verify s w).2 := by
  have hstart : World.Adds ⟨w.runs⟩ (s.Truthful w) w (w.verifying s) :=
    ⟨Nat.le_succ _, [⟨.verifying ⟨w.runs⟩, w.heap, w.tallies⟩], World.history_note _ _,
      by simp [Mark.run?]⟩
  have hrun : w.runs < (w.verifying s).runs := Nat.lt_succ_self _
  have hchecks := henv.checkAll_adds (s := s) [] s.checks (.verifying s w) hrun
  have hwatched : World.Adds ⟨w.runs⟩ (s.Truthful w) (w.verifying s)
      (env.verifyWatched (Watch.begin s w).1 s.record (w.verifying s)).2 := by
    rcases hr : env.checkAll (Watch.begin s w).1 [] (Check.all s.record) (w.verifying s) with ⟨e, u⟩
    have hchecks : World.Adds ⟨w.runs⟩ (s.Truthful w) (w.verifying s) u := by
      rw [show u = _ from (congrArg Prod.snd hr).symm]
      exact hchecks
    rw [verifyWatched_eq env _ _ hr]
    rcases e with (x | _) | message | reason
    · exact hchecks
    · exact hchecks.trans (henv.access_adds (t := (Watch.begin s w).1)
        (Nat.lt_of_lt_of_le hrun hchecks.runs) _ _)
    · exact hchecks
    · exact hchecks
  have hmark (r : Finish VerifyError Report) (m : Moment π) (hm : m.mark = .verified ⟨w.runs⟩ r) :
      s.Truthful w m := by
    intro name hname
    rw [hm] at hname
    cases hname
  exact hstart.trans (Exec.adds_recorded _ hmark hwatched)

end Environment

/-- Whenever a verification announces that its field is untouched, the field holds at that moment
what it held when the verification began. -/
theorem Host.untouched_announced (host : Host π σ) (depth : Nat) (s : Scenario) (w : World π σ) :
    ∃ since, (host.run depth s.verify w).2.history = w.history ++ since ∧
      ∀ m ∈ since, ∀ name, m.mark = .emitted (.untouched ⟨w.runs⟩ name) →
        m.heap.peek s.lazyField = w.peek s.lazyField := by
  obtain ⟨since, hsince, htruthful⟩ := ((host.environment_follows depth).verify_adds s w).since
  exact ⟨since, hsince, fun m hm name hname => htruthful m hm (by rw [hname]; rfl) name hname⟩

def World.withVerified : World (fun _ => Empty) Unit :=
  (Host.silent.run 2 (do (← Proc.scenario (.constant 4)).verify) (.start ())).2

/-- The next verification announces that nobody has touched the field, which is evaluated. -/
theorem Host.silent_announces_evaluated :
    World.withVerified.runs = 1 ∧
      ∃ m ∈ (Host.silent.run 2 (Scenario.verify ⟨⟨0⟩, ⟨0⟩⟩) World.withVerified).2.history,
        m.mark = .emitted (.untouched ⟨1⟩ "construct") ∧
          m.heap.peek (⟨0⟩ : Handle .int) = some 4 := by
  refine ⟨rfl, ?_⟩
  have hany : (Host.silent.run 2 (Scenario.verify ⟨⟨0⟩, ⟨0⟩⟩) World.withVerified).2.history.any
      (fun m => m.mark = .emitted (.untouched ⟨1⟩ "construct") ∧
        m.heap.peek (⟨0⟩ : Handle .int) = some 4) = true := rfl
  simpa using hany

end LazyFields
