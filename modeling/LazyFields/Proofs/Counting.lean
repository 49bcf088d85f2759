import LazyFields.Proofs.Blocks
import LazyFields.Proofs.SingleAssignment

/-!
A scenario counts the calls of its producer. At every point of a run, as far inside productions,
verifications and listeners as it may be, its tally is the number of calls that have begun by then;
a block that finds the field empty and leaves it filled leaves the tally larger; and a verification
subtracts from the tally what the tally was, so the difference is the number of calls since then.
-/

namespace LazyFields

variable {π : Kind → Type} {σ α : Type} {w w' : World π σ} {s : Scenario}

namespace Moment

def tally (m : Moment π) (c : Counter) : Nat := m.tallies.getD c.index 0

def Made (m : Moment π) (s : Scenario) : Prop := m.heap.counter? s.lazyField = some s.counter

def Counts (s : Scenario) (m : Moment π) (before : List (Moment π)) : Prop :=
  m.Made s → m.tally s.counter = ((m :: before).map mark).count (.begun s.lazyField.id)

theorem Counts.le {newer older : Moment π} {between before : List (Moment π)}
    (hnewer : newer.Counts s (between ++ older :: before)) (holder : older.Counts s before)
    (hkeeps : older.heap.Keeps newer.heap) (hs : older.Made s) :
    older.tally s.counter ≤ newer.tally s.counter := by
  rw [holder hs, hnewer (hkeeps.counter?_eq_some hs), ← List.cons_append]
  exact ((List.sublist_append_right _ _).map mark).count_le _

end Moment

structure World.Audited (w : World π σ) : Prop extends w.Tallied where
  record : ∀ s : Scenario, Always (Moment.Counts s) w.journal

namespace World.Audited

theorem start (host : σ) : (World.start host : World π σ).Audited :=
  ⟨.start host, fun _ => trivial⟩

theorem of_journal (hw : w.Audited) (hj : w'.journal = w.journal) (ht : w'.Tallied) :
    w'.Audited :=
  ⟨ht, by rw [hj]; exact hw.record⟩

theorem of_note (hw : ∀ s : Scenario, Always (Moment.Counts s) w.journal) {m : Mark}
    (ht : (w.note m).Tallied) : (w.note m).Audited := by
  refine ⟨ht, fun s => ⟨fun hs => ?_, hw s⟩⟩
  have hcount := ht.counted s.lazyField s.counter hs
  rw [productions, marks, history, List.map_reverse, List.count_reverse] at hcount
  exact hcount

theorem invariant : World.Invariant (Audited (π := π) (σ := σ)) where
  quiet q hw := hw.of_journal (journal_quiet _ q) (hw.toTallied.quiet q)
  note hm hw := of_note hw.record (hw.toTallied.note hm)
  withGuard h g hw := hw.of_journal rfl (Tallied.invariant.withGuard h g hw.toTallied)
  call {_ w _ _ s} hc hs hw := by
    have hj : (w.bump s.counter).journal = w.journal := by cases s.counter <;> rfl
    exact of_note (w := w.bump s.counter) (by rw [hj]; exact hw.record) (hw.toTallied.call hc hs)
  store h v hw := hw.of_journal (journal_store _ h v) (hw.toTallied.store h v)
  newRun hw := hw.of_journal rfl (Tallied.invariant.newRun hw.toTallied)

theorem tally_eq (hw : w.Audited) {before after : List (Moment π)} {m : Moment π}
    (hsplit : w.history = before ++ m :: after) (hs : m.Made s) :
    m.tally s.counter = ((before ++ [m]).map Moment.mark).count (.begun s.lazyField.id) := by
  have hrecord := hw.record s
  rw [Coherent.journal_eq_of_history hsplit] at hrecord
  rw [hrecord.split hs, ← List.reverse_concat, List.map_reverse, List.count_reverse]

theorem tally_grows (hw : w.Audited) (hc : w.Coherent) (s : Scenario) :
    w.history.Pairwise fun older newer =>
      older.Made s → older.tally s.counter ≤ newer.tally s.counter := by
  refine List.pairwise_reverse.mpr ?_
  have hkeeps := hc.grows
  have hrecord := hw.record s
  generalize w.journal = journal at hkeeps hrecord
  induction journal with
  | nil => exact .nil
  | cons newer journal ih =>
    refine .cons (fun older holder => ?_) (ih hkeeps.of_cons hrecord.2)
    obtain ⟨between, before, rfl⟩ := List.append_of_mem holder
    exact hrecord.1.le hrecord.2.split (List.rel_of_pairwise_cons hkeeps holder)

end World.Audited

theorem World.Reached.audited (hw : w.Reached) : w.Audited := by
  obtain ⟨state, e, h⟩ := hw
  exact h.invariant World.Audited.invariant (.start state)

namespace Course

variable {e : Ending Unit}

theorem tally_le (h : Course w e w') (hw : w.Tallied) (hs : w.Made s) :
    w.tally s.counter ≤ w'.tally s.counter := by
  rw [hw.counted _ _ hs, (h.tallied hw).counted _ _ (hs.keeps h.keeps)]
  exact h.productions_le _

theorem tally_lt (h : Course w e w') (hw : w.Tallied) (hs : w.Made s)
    (hempty : w.isEvaluated s.lazyField = false) (hfilled : w'.isEvaluated s.lazyField = true) :
    w.tally s.counter < w'.tally s.counter := by
  rw [hw.counted _ _ hs, (h.tallied hw).counted _ _ (hs.keeps h.keeps)]
  exact h.productions_lt_of_evaluated hs hempty hfilled

/-- What a verification subtracts is no more than the tally, and leaves the calls since it began. -/
theorem evaluations_eq (h : Course w (.value ()) w') (hw : w.Tallied) (hs : w.Made s) :
    (Watch.begin s w).1.baseline ≤ w'.tally s.counter ∧
      ∃ since, w'.marks = w.marks ++ since ∧
        (Watch.begin s w).1.evaluations w' = since.count (.begun s.lazyField.id) := by
  obtain ⟨since, hsince⟩ := h.marks_grow
  refine ⟨h.tally_le hw hs, since, hsince.symm, ?_⟩
  rw [Watch.evaluations_eq hw hs h, World.productions, World.productions, ← hsince,
    List.count_append, Nat.add_sub_cancel_left]

end Course

namespace Host

variable (host : Host π σ)

def AnswersCalls (s : Scenario) (w : World π σ) : Prop :=
  ∀ depth, host.run depth s.evaluations w = (.value (w.productions s.lazyField.id), w)

theorem answersCalls (hw : w.Tallied) (hs : w.Made s) : host.AnswersCalls s w := by
  intro depth
  rw [← hw.counted _ _ hs]
  rfl

/-- What a scenario counts in a run until it leaves the block. -/
structure CountsCalls (s : Scenario) (b : Block π σ) : Prop where
  entry : b.entry.Made s → host.AnswersCalls s b.entry
  exit : (host.exit b).Made s → host.AnswersCalls s (host.exit b)
  record : ∀ before m after, (host.exit b).history = before ++ m :: after → m.Made s →
    m.tally s.counter = ((before ++ [m]).map Moment.mark).count (.begun s.lazyField.id)
  grows : (host.exit b).history.Pairwise fun older newer =>
    older.Made s → older.tally s.counter ≤ newer.tally s.counter
  le : b.entry.Made s → b.entry.tally s.counter ≤ (host.exit b).tally s.counter
  filled : b.entry.Made s → b.entry.isEvaluated s.lazyField = false →
    (host.exit b).isEvaluated s.lazyField = true →
      b.entry.tally s.counter < (host.exit b).tally s.counter
  /-- The looks are those of a verification that begins where the block does. -/
  looks : b.entry.Made s → ∀ look ∈ (host.environment b.depth).visits (Watch.begin s b.entry).1
      s.checks (b.entry.verifying s),
    (Watch.begin s b.entry).1.baseline ≤ look.2.tally s.counter ∧
      ∃ since, look.2.marks = b.entry.marks ++ since ∧
        (Watch.begin s b.entry).1.evaluations look.2 = since.count (.begun s.lazyField.id)

/-- At every block that a run comes to, a scenario counts the calls of its producer. -/
theorem blocks_count_calls {depth : Nat} {x : Proc π σ α} {state : σ} {b : Block π σ}
    (hb : host.Within b ⟨depth, x, .start state⟩) (s : Scenario) : host.CountsCalls s b := by
  have hentry := hb.reached rfl
  have hcourse := host.run_follows b.depth b.program b.entry
  have hexit : (host.exit b).Audited := hcourse.invariant World.Audited.invariant hentry.audited
  have henv := host.environment_follows b.depth
  exact {
    entry := host.answersCalls hentry.tallied
    exit := host.answersCalls hexit.toTallied
    record := fun _ _ _ => hexit.tally_eq
    grows := hexit.tally_grows (hcourse.coherent hentry.coherent) s
    le := hcourse.tally_le hentry.tallied
    filled := hcourse.tally_lt hentry.tallied
    looks := fun hs look hlook => (henv.visits_course rfl s.checks (.verifying s _) look
      hlook).2.evaluations_eq hentry.tallied hs }

def introspecting : Host (fun _ => Unit) Nat where
  produce
    | .int, _ => do
      let calls ← Proc.host fun n => (n, n + 1)
      if calls = 0 then
        let _ ← Scenario.verify ⟨⟨0⟩, ⟨0⟩⟩
        return .error (.failed "first")
      else
        return .error (.failed "later")
    | .text, _ => return .ok ""
  listen _ := return ()

def introspection : Proc (fun _ => Unit) Nat (Except VerifyError Report) := do
  (← Proc.scenario (.custom ())).verify

/-- A verification accesses its field, whose producer begins a verification of the same scenario. -/
theorem introspection_nested :
    ∃ w, introspecting.Within ⟨3, Scenario.verify ⟨⟨0⟩, ⟨0⟩⟩, w⟩ ⟨4, introspection, .start 0⟩ ∧
      w.Made ⟨⟨0⟩, ⟨0⟩⟩ ∧ w.tally ⟨0⟩ = 1 :=
  ⟨_, .next rfl (.accessing rfl (.producing rfl .single rfl rfl
    (.next rfl (.first .here)))), rfl, rfl⟩

theorem blocks_count_calls_introspecting :
    ∃ b, introspecting.Within b ⟨4, introspection, .start 0⟩ ∧ b.entry.Made ⟨⟨0⟩, ⟨0⟩⟩ ∧
      b.entry.tally ⟨0⟩ = 1 ∧ introspecting.CountsCalls ⟨⟨0⟩, ⟨0⟩⟩ b := by
  obtain ⟨w, hwithin, hmade, htally⟩ := introspection_nested
  exact ⟨_, hwithin, hmade, htally, introspecting.blocks_count_calls hwithin ⟨⟨0⟩, ⟨0⟩⟩⟩

end Host

end LazyFields
