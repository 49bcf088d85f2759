import LazyFields.Proofs.Verification

/-!
The blocks of a run. A program is made of blocks, and an access or a verification in the middle of
one runs further programs, those of listeners and producers, each of which is made of blocks again.
A run can be cut short where any of them begins, so whatever holds of all worlds that runs can reach
holds at every block, however deep inside other blocks it is run.
-/

namespace LazyFields

variable {π : Kind → Type} {σ : Type}

structure Block (π : Kind → Type) (σ : Type) where
  {α : Type}
  depth : Nat
  program : Proc π σ α
  entry : World π σ

namespace Host

variable (host : Host π σ)

def exit (b : Block π σ) : World π σ := (host.run b.depth b.program b.entry).2

/-- The outer block, when it is run, comes to the inner one. -/
inductive Within (inner : Block π σ) : Block π σ → Prop
  | here : Within inner inner
  | first {α β : Type} {depth : Nat} {x : Proc π σ α} {f : α → Proc π σ β} {w : World π σ} :
      Within inner ⟨depth, x, w⟩ → Within inner ⟨depth, .bind x f, w⟩
  | next {α β : Type} {depth : Nat} {x : Proc π σ α} {f : α → Proc π σ β} {a : α}
      {w w₁ : World π σ} :
      host.run depth x w = (.value a, w₁) → Within inner ⟨depth, f a, w₁⟩ →
      Within inner ⟨depth, .bind x f, w⟩
  | attempt {α : Type} {depth : Nat} {x : Proc π σ α} {w : World π σ} :
      Within inner ⟨depth, x, w⟩ → Within inner ⟨depth, .attempt x, w⟩
  | forcing {k : Kind} {h : Handle k} {c : Cell π k} {f : Flavour} {s : Source π k} {depth : Nat}
      {w : World π σ} :
      w.heap.cell? h = some c → c.Awaits f s →
      Within inner ⟨depth, host.listen (.forcing f h.id), (w.enter h f).announce h f⟩ →
      Within inner ⟨depth + 1, h.get, w⟩
  | producing {k : Kind} {h : Handle k} {c : Cell π k} {f : Flavour} {s : Source π k} {code : π k}
      {depth : Nat} {w w₁ : World π σ} :
      w.heap.cell? h = some c → c.Awaits f s → s.producer = .custom code →
      (host.environment (depth + 1)).notify (.forcing f h.id) ((w.enter h f).announce h f) =
        (.value (), w₁) →
      Within inner ⟨depth, host.produce k code, w₁.call h s⟩ → Within inner ⟨depth + 1, h.get, w⟩
  | failing {k : Kind} {h : Handle k} {c : Cell π k} {f : Flavour} {s : Source π k} {e : EvalError}
      {depth : Nat} {w w₁ w₂ : World π σ} :
      w.heap.cell? h = some c → c.Awaits f s →
      (host.environment (depth + 1)).notify (.forcing f h.id) ((w.enter h f).announce h f) =
        (.value (), w₁) →
      (host.environment (depth + 1)).produce s.producer (w₁.call h s) = (.value (.error e), w₂) →
      Within inner
        ⟨depth, host.listen (.evaluationFailed f h.id e), w₂.conclude h f (.value (.error e))⟩ →
      Within inner ⟨depth + 1, h.get, w⟩
  | checking {s : Scenario} {c : Check} {depth : Nat} {w w₁ : World π σ} :
      (c, w₁) ∈ (host.environment (depth + 1)).visits (Watch.begin s w).1 s.checks
        (w.verifying s) →
      c.fault? (Watch.begin s w).1 w₁ = none →
      Within inner ⟨depth, host.listen (c.event ⟨w.runs⟩), w₁.note (.emitted (c.event ⟨w.runs⟩))⟩ →
      Within inner ⟨depth + 1, s.verify, w⟩
  | accessing {s : Scenario} {reported : List String} {depth : Nat} {w w₁ : World π σ} :
      (host.environment depth).checkAll (Watch.begin s w).1 [] s.checks (w.verifying s) =
        (.value (.ok reported), w₁) →
      Within inner ⟨depth, s.lazyField.get, w₁.note (.accessing ⟨w.runs⟩)⟩ →
      Within inner ⟨depth, s.verify, w⟩
  | raising {s : Scenario} {reported : List String} {e : EvalError} {depth : Nat}
      {w w₁ w₂ : World π σ} :
      (host.environment (depth + 1)).checkAll (Watch.begin s w).1 [] s.checks (w.verifying s) =
        (.value (.ok reported), w₁) →
      (host.environment (depth + 1)).force s.lazyField (w₁.note (.accessing ⟨w.runs⟩)) =
        (.value (.error e), w₂) →
      Within inner
        ⟨depth, host.listen (.raised ⟨w.runs⟩ e), w₂.note (.emitted (.raised ⟨w.runs⟩ e))⟩ →
      Within inner ⟨depth + 1, s.verify, w⟩

end Host

/-- An access that comes to a production can be cut short inside it. -/
theorem Course.halted_inside {k : Kind} {h : Handle k} {c : Cell π k} {f : Flavour}
    {s : Source π k} {reason : Halt} {w w' : World π σ} (hc : w.heap.cell? h = some c)
    (ha : c.Awaits f s) (hinside : Course (w.enter h f) (.halted reason) w') :
    Course w (.halted reason) w' := by
  have hexit : w'.exit h f (.halted reason) = w' := by cases f <;> rfl
  have hcourse := Course.produces (r := .halted reason) hc ha hinside fun _ => nofun
  rwa [hexit] at hcourse

theorem Environment.Follows.checks_passed {env : Environment π σ} (henv : env.Follows)
    {s : Scenario} {reported : List String} {w w' : World π σ}
    (hchecks : env.checkAll (Watch.begin s w).1 [] s.checks (w.verifying s) =
      (.value (.ok reported), w')) :
    Course w (.value ()) w' := by
  have hcourse := henv.obeys.checkAll Course.lawful (t := (Watch.begin s w).1) rfl [] s.checks
    (w.verifying s) (.verifying s w)
  rwa [hchecks] at hcourse

namespace Host.Within

variable {host : Host π σ} {inner outer : Block π σ}

theorem course (h : host.Within inner outer) :
    Course outer.entry (.halted .tooDeep) inner.entry := by
  induction h with
  | here => exact .halted _ _
  | first _ ih | attempt _ ih => exact ih
  | @next _ _ depth x _ _ w _ hrun _ ih =>
    have hfirst := host.run_follows depth x w
    rw [hrun] at hfirst
    exact .andThen hfirst ih
  | forcing hc ha _ ih => exact .halted_inside hc ha (.interrupted ih (by simp))
  | @producing _ h _ f _ _ depth w _ hc ha _ hheard _ ih =>
    have henv := host.environment_follows (depth + 1)
    obtain ⟨g, hentered⟩ := w.cell?_enter hc ha
    have hforced := henv.notify (.forcing f h.id) ((w.enter h f).announce h f)
    rw [hheard] at hforced
    exact .halted_inside hc ha (.produced (r := .halted .tooDeep) hentered rfl rfl hforced ih)
  | @failing _ h _ f s e depth w w₁ _ hc ha hheard hproduce _ ih =>
    have henv := host.environment_follows (depth + 1)
    obtain ⟨g, hentered⟩ := w.cell?_enter hc ha
    have hforced := henv.notify (.forcing f h.id) ((w.enter h f).announce h f)
    have hcalled := henv.obeys.produce Course.lawful s.producer (w₁.call h s)
    rw [hheard] at hforced
    rw [hproduce] at hcalled
    have hfailed := Course.produced (r := .value (.error e)) hentered rfl rfl hforced hcalled
    exact .halted_inside hc ha (.andThen hfailed ih)
  | @checking s c depth w _ hvisit _ _ ih =>
    have henv := host.environment_follows (depth + 1)
    have hchecked := (henv.visits_course (t := (Watch.begin s w).1) rfl s.checks
      (.verifying s w) _ hvisit).2
    exact .andThen (.own hchecked (c.run?_event _)) ih
  | @accessing _ _ depth _ _ hchecks _ ih =>
    have hchecked := (host.environment_follows depth).checks_passed hchecks
    exact .andThen (.own hchecked rfl) ih
  | @raising s _ _ depth w w₁ _ hchecks hforce _ ih =>
    have henv := host.environment_follows (depth + 1)
    have hforced := henv.force s.lazyField (w₁.note (.accessing ⟨w.runs⟩))
    rw [hforce] at hforced
    have haccessed := Course.own (henv.checks_passed hchecks) (m := .accessing ⟨w.runs⟩) rfl
    exact .andThen (.own (.andThen haccessed hforced) rfl) ih

theorem reached (h : host.Within inner outer) {state : σ} (houter : outer.entry = .start state) :
    inner.entry.Reached := by
  have hcourse := h.course
  rw [houter] at hcourse
  exact ⟨state, _, hcourse⟩

end Host.Within

end LazyFields
