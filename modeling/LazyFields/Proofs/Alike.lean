import LazyFields.Proofs.Guard

/-!
Worlds that differ only in what is on record of accesses and panics. No program can tell
them apart, and a thread does the same in each of them.
-/

namespace LazyFields

variable {π : Kind → Type} {σ ρ τ α : Type} {k : Kind} {w w' v v' : World π σ}

def Mark.traced : Mark → Bool
  | .emitted _ | .begun _ => true
  | _ => false

def World.trace (w : World π σ) : List Mark := w.marks.filter Mark.traced

structure World.Alike (w v : World π σ) : Prop where
  heap : w.heap = v.heap
  tallies : w.tallies = v.tallies
  host : w.host = v.host
  trace : w.trace = v.trace

namespace World

theorem trace_note (w : World π σ) (m : Mark) :
    (w.note m).trace = w.trace ++ if m.traced then [m] else [] := by
  rw [trace, marks_note, List.filter_append]
  cases hm : m.traced <;> simp [trace, hm]

namespace Alike

theorem refl (w : World π σ) : w.Alike w := ⟨rfl, rfl, rfl, rfl⟩

theorem symm (h : w.Alike v) : v.Alike w := ⟨h.heap.symm, h.tallies.symm, h.host.symm, h.trace.symm⟩

theorem trans {u : World π σ} (h : w.Alike v) (h' : v.Alike u) : w.Alike u :=
  ⟨h.heap.trans h'.heap, h.tallies.trans h'.tallies, h.host.trans h'.host, h.trace.trans h'.trace⟩

theorem peek (h : w.Alike v) (h' : Handle k) : w.peek h' = v.peek h' := by
  rw [World.peek, h.heap]
  rfl

theorem guard (h : w.Alike v) (c : CellId) : w.guard c = v.guard c := by
  rw [World.guard, h.heap]
  rfl

theorem productions (h : w.Alike v) (c : CellId) : w.productions c = v.productions c := by
  have hcount : ∀ u : World π σ, u.productions c = u.trace.count (.begun c) :=
    fun u => (List.count_filter rfl).symm
  rw [hcount, hcount, h.trace]

theorem events (h : w.Alike v) : w.events = v.events := by
  have hevents : ∀ {u : World π σ} {f : Mark → Option Event},
      (∀ m, m.traced = false → f m = none) → u.trace.filterMap f = u.marks.filterMap f := by
    intro u f hf
    rw [World.trace, List.filterMap_filter]
    refine congrArg (List.filterMap · u.marks) (funext fun m => ?_)
    cases hm : m.traced with
    | true => rfl
    | false => exact (hf m hm).symm
  refine (hevents ?_).symm.trans ((congrArg _ h.trace).trans (hevents ?_))
  all_goals
    intro m hm
    cases m <;> first | rfl | cases hm

theorem note (h : w.Alike v) (m : Mark) : (w.note m).Alike (v.note m) :=
  ⟨h.heap, h.tallies, h.host, by rw [trace_note, trace_note, h.trace]⟩

theorem note_left (h : w.Alike v) {m : Mark} (hm : m.traced = false) : (w.note m).Alike v :=
  ⟨h.heap, h.tallies, h.host, by rw [trace_note, hm, h.trace]; simp⟩

theorem note_right (h : w.Alike v) {m : Mark} (hm : m.traced = false) : w.Alike (v.note m) :=
  (h.symm.note_left hm).symm

theorem modify (h : w.Alike v) (h' : Handle k) (f : Cell π k → Cell π k) :
    (w.modify h' f).Alike (v.modify h' f) :=
  ⟨congrArg (·.modify h' f) h.heap, h.tallies, h.host, h.trace⟩

theorem publish (h : w.Alike v) (crew : Crew π σ) (e : Event) :
    (w.publish crew e).Alike (v.publish crew e) :=
  ⟨h.heap, h.tallies, congrArg (crew.hear e) h.host, (h.note (.emitted e)).trace⟩

theorem bump (h : w.Alike v) (c : Option Counter) : (w.bump c).Alike (v.bump c) := by
  cases c with
  | none => exact h
  | some c => exact ⟨h.heap, congrArg (·.modify c.index (· + 1)) h.tallies, h.host, h.trace⟩

theorem call (h : w.Alike v) (h' : Handle k) (s : Source π k) :
    (w.call h' s).Alike (v.call h' s) :=
  (h.bump s.counter).note (.begun h'.id)

theorem leave (h : w.Alike v) (h' : Handle k) (r : Reply k) : (w.leave h' r).Alike (v.leave h' r) :=
  (h.modify h' _).note _

theorem store (h : w.Alike v) (h' : Handle k) (x : k.Val) :
    (w.store h' x).1 = (v.store h' x).1 ∧ (w.store h' x).2.Alike (v.store h' x).2 := by
  cases hp : v.peek h' with
  | some held =>
    rw [store_of_peek ((h.peek h').trans hp), store_of_peek hp]
    exact ⟨rfl, h⟩
  | none =>
    have hw := (h.peek h').trans hp
    simp only [World.store, hp, hw]
    exact ⟨trivial, h.modify h' _⟩

theorem alloc (h : w.Alike v) (c : Cell π k) :
    (w.alloc c).1 = (v.alloc c).1 ∧ (w.alloc c).2.Alike (v.alloc c).2 :=
  ⟨congrArg (fun heap => (heap.alloc c).1) h.heap, congrArg (fun heap => (heap.alloc c).2) h.heap,
    h.tallies, h.host, h.trace⟩

theorem newScenario (h : w.Alike v) (p : Producer π .int) :
    (w.newScenario p).1 = (v.newScenario p).1 ∧
      (w.newScenario p).2.Alike (v.newScenario p).2 := by
  have hcounter : w.newCounter.1 = v.newCounter.1 := by
    simp only [newCounter, h.tallies]
  have hcounted : w.newCounter.2.Alike v.newCounter.2 :=
    ⟨h.heap, congrArg (· ++ [0]) h.tallies, h.host, h.trace⟩
  obtain ⟨hhandle, halike⟩ := hcounted.alloc (.fresh .single (.counted w.newCounter.1 p))
  simp only [World.newScenario, ← hcounter]
  exact ⟨by rw [hhandle], halike⟩

theorem quiet (h : w.Alike v) (q : Quiet π σ α) :
    (q.apply w).1 = (q.apply v).1 ∧ (q.apply w).2.Alike (q.apply v).2 := by
  cases q with
  | defer f p => exact h.alloc _
  | ready f x => exact h.alloc _
  | peek h' => exact ⟨h.peek h', h⟩
  | scenario p => exact h.newScenario p
  | evaluations s => exact ⟨congrArg (·.getD s.counter.index 0) h.tallies, h⟩
  | host f =>
    exact ⟨congrArg (fun s => (f s).1) h.host, h.heap, h.tallies,
      congrArg (fun s => (f s).2) h.host, h.trace⟩

end Alike

end World

namespace Thread

variable {crew : Crew π σ} {t t' : Thread π σ ρ}

theorem Step.alike (h : Step crew t w t' w') (hw : w.Alike v) :
    ∃ v', Step crew t v t' v' ∧ w'.Alike v' := by
  cases h with
  | back => exact ⟨_, .back, hw.note _⟩
  | @quiet _ _ q next calls =>
    obtain ⟨hresult, halike⟩ := hw.quiet q
    rw [hresult]
    exact ⟨_, .quiet, halike⟩
  | ask => exact ⟨_, .ask, hw.note _⟩
  | found hc hf hv => exact ⟨_, .found (hw.heap ▸ hc) hf hv, hw.note _⟩
  | wait hc hf hv => exact ⟨_, .wait (hw.heap ▸ hc) hf hv, hw⟩
  | take hc hf hg => exact ⟨_, .take (hw.heap ▸ hc) hf hg, hw.modify _ _⟩
  | refused hc hf hg => exact ⟨_, .refused (hw.heap ▸ hc) hf hg, hw.note _⟩
  | foundAgain hc hf hv => exact ⟨_, .foundAgain (hw.heap ▸ hc) hf hv, hw⟩
  | enter hc hf hv => exact ⟨_, .enter (hw.heap ▸ hc) hf hv, hw⟩
  | announce hc hf => exact ⟨_, .announce (hw.heap ▸ hc) hf, hw.publish _ _⟩
  | call hc hf hs => exact ⟨_, .call (hw.heap ▸ hc) hf hs, hw.call _ _⟩
  | @fill _ _ h' _ x _ _ _ hc hf =>
    obtain ⟨hheld, halike⟩ := hw.store h' x
    rw [hheld]
    exact ⟨_, .fill (hw.heap ▸ hc) hf, halike⟩
  | report hc hf => exact ⟨_, .report (hw.heap ▸ hc) hf, hw.publish _ _⟩
  | release hc hf => exact ⟨_, .release (hw.heap ▸ hc) hf, hw.leave _ _⟩

end Thread

end LazyFields
