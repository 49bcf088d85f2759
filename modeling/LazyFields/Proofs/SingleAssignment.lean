import LazyFields.Proofs.Journal
import LazyFields.Proofs.Later

/-!
A lazy field is assigned once. Whatever its producer does, forcing the same field to any depth
included, and whatever listeners do at events, the first value to come out of the producer is
the value of the field for good, for the accesses under way as for all later ones.
-/

namespace LazyFields

variable {π : Kind → Type} {σ α : Type} {k : Kind}

/-- The heaps of a run in the order of time, the present one last. A run can be cut short at
any point, so what holds of the last heap of every run holds at every point of a longer one. -/
def World.heaps (w : World π σ) : List (Heap π) := w.history.map Moment.heap ++ [w.heap]

structure World.AssignedOnce (w : World π σ) (h : Handle k) : Prop where
  stays : w.heaps.Pairwise fun before after => ∀ v, before.peek h = some v → after.peek h = some v
  atOnce : ∀ before m after v, w.history = before ++ m :: after → m.mark = .asked h.id →
    m.heap.peek h = some v →
      after.head? = some ⟨.answered h.id (.value (.of v)), m.heap, m.tallies⟩
  /-- A value that is answered was given when the cell was made, or it is the first that a call
  of the producer ended with. -/
  first : ∀ before m after x, w.history = before ++ m :: after →
    m.mark = .answered h.id (.value x) →
      (∃ f v, m.heap.cell? h = some (.ready f v) ∧ x = .of v) ∨
      (∃ f s v g, m.heap.cell? h = some (.deferred f s (some v) g) ∧ x = .of v ∧
        firstProduct (before.map Moment.mark) h.id = some x)
  agree : ∀ x y, .answered h.id (.value x) ∈ w.marks → .answered h.id (.value y) ∈ w.marks → x = y

namespace World.Coherent

variable {w : World π σ}

theorem heaps_keep (hw : w.Coherent) : w.heaps.Pairwise Heap.Keeps := by
  refine List.pairwise_append.mpr ⟨?_, List.pairwise_singleton _ _, ?_⟩
  · exact List.pairwise_map.mpr (List.pairwise_reverse.mpr hw.grows)
  · simp only [List.mem_map, List.mem_singleton]
    rintro _ ⟨m, hm, rfl⟩ _ rfl
    exact hw.recent m (List.mem_reverse.mp hm)

theorem journal_eq_of_history {before after : List (Moment π)} {m : Moment π}
    (h : w.history = before ++ m :: after) : w.journal = after.reverse ++ m :: before.reverse := by
  rw [← List.reverse_reverse w.journal, show w.journal.reverse = _ from h]
  simp

theorem answered_at_once (hw : w.Coherent) {h : Handle k} {before after : List (Moment π)}
    {m : Moment π} {v : k.Val} (hsplit : w.history = before ++ m :: after)
    (hm : m.mark = .asked h.id) (hv : m.heap.peek h = some v) :
    after.head? = some ⟨.answered h.id (.value (.of v)), m.heap, m.tallies⟩ := by
  have hdue : m.due? = some ⟨.answered h.id (.value (.of v)), m.heap, m.tallies⟩ := by
    rw [Moment.due?, hm]
    show (m.heap.peek h).map _ = _
    rw [hv]
    rfl
  have hjournal := journal_eq_of_history hsplit
  cases after with
  | nil =>
    have hsettled := hw.settled
    rw [hjournal] at hsettled
    exact absurd (hdue.symm.trans hsettled) (by simp)
  | cons next rest =>
    have hprompt := hw.prompt
    rw [hjournal, List.reverse_cons, List.append_assoc] at hprompt
    exact congrArg some (hprompt.split _ hdue)

theorem answered_explained (hw : w.Coherent) {h : Handle k} {before after : List (Moment π)}
    {m : Moment π} {x : Value} (hsplit : w.history = before ++ m :: after)
    (hm : m.mark = .answered h.id (.value x)) :
    ∃ v c, x = .of v ∧ m.heap.cell? h = some c ∧ c.value? = some v ∧
      (c.source? ≠ none → firstProduct (before.map Moment.mark) h.id = some x) := by
  have hall := hw.explained
  rw [journal_eq_of_history hsplit] at hall
  simpa using hall.split h x hm

theorem peek_of_answered (hw : w.Coherent) {h : Handle k} {x : Value}
    (hx : .answered h.id (.value x) ∈ w.marks) : ∃ v, x = .of v ∧ w.peek h = some v := by
  obtain ⟨m, hmem, hm⟩ := List.mem_map.mp hx
  obtain ⟨before, after, hsplit⟩ := List.append_of_mem hmem
  obtain ⟨v, c, rfl, hc, hv, -⟩ := hw.answered_explained hsplit hm
  have hpeek : m.heap.peek h = some v := by simp [Heap.peek, hc, hv]
  exact ⟨v, rfl, (hw.recent m (List.mem_reverse.mp hmem)).peek hpeek⟩

end World.Coherent

/-- What an access returns is on record as its answer. -/
theorem Environment.marks_of_force (env : Environment π σ) {h : Handle k} {w w' : World π σ}
    {r : Except EvalError k.Val} (hforce : env.force h w = (.value r, w')) :
    w'.marks.getLast? = some (.answered h.id ((Finish.of r).map Value.of)) := by
  cases hc : w.heap.cell? h with
  | none =>
    rw [force_dangling env h hc] at hforce
    cases hforce
  | some c =>
    rw [force_eq env h hc] at hforce
    obtain ⟨hr, rfl⟩ := Prod.mk.inj hforce
    rw [hr, World.answer, World.marks_note, List.getLast?_concat]

/-- Any number of nested productions may be under way at once, and any of them may end first. -/
theorem Host.run_assignedOnce (host : Host π σ) (depth : Nat) (x : Proc π σ α) (s : σ)
    (h : Handle k) :
    (host.run depth x (.start s)).2.AssignedOnce h ∧
      ∀ v, (host.run depth x (.start s)).2.peek h = some v →
        host.AnswersForGood h v (host.run depth x (.start s)).2 := by
  have hw := host.run_coherent depth x s
  generalize (host.run depth x (.start s)).2 = w at hw
  refine ⟨⟨?_, ?_, ?_, ?_⟩, fun _ => host.answersForGood_of_peek⟩
  · exact hw.heaps_keep.imp fun hkeeps _ => hkeeps.peek
  · exact fun before m after v => hw.answered_at_once
  · intro before m after x hsplit hm
    obtain ⟨v, c, hx, hc, hv, hfirst⟩ := hw.answered_explained hsplit hm
    rcases c with ⟨f, u⟩ | ⟨f, s, u, g⟩
    · obtain rfl : u = v := Option.some.inj hv
      exact .inl ⟨f, u, hc, hx⟩
    · obtain rfl : u = some v := hv
      exact .inr ⟨f, s, v, g, hc, hx, hfirst (by simp [Cell.source?])⟩
  · intro x y hx hy
    obtain ⟨v, rfl, hv⟩ := hw.peek_of_answered hx
    obtain ⟨u, rfl, hu⟩ := hw.peek_of_answered hy
    rw [Option.some.inj (hv.symm.trans hu)]

end LazyFields
