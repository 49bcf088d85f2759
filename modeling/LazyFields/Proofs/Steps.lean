import LazyFields.Proofs.Course
import LazyFields.Threads.Machine

/-!
The atomic steps of a thread, each with what has to hold for it. An invariant of the machine
is checked against them one after another.
-/

namespace LazyFields

variable {π : Kind → Type} {σ ρ τ α : Type} {k : Kind}

def World.publish (w : World π σ) (crew : Crew π σ) (e : Event) : World π σ :=
  { w.note (.emitted e) with host := crew.hear e w.host }

def World.leave (w : World π σ) (h : Handle k) (r : Reply k) : World π σ :=
  (w.modify h (·.withGuard (.after r))).note (.answered h.id r.finish)

namespace Thread

inductive Step (crew : Crew π σ) :
    Thread π σ ρ → World π σ → Thread π σ ρ → World π σ → Prop
  | back {k : Kind} {τ : Type} {h : Handle k} {r : Reply k} {next : Reply k → Code π σ τ}
      {calls : Calls π σ ρ τ} {w : World π σ} :
      Step crew (.running (.done r) (.call h next calls)) w (.inside h (.after r) next calls)
        (w.note (.ended h.id r.finish))
  | quiet {α τ : Type} {q : Quiet π σ α} {next : α → Code π σ τ} {calls : Calls π σ ρ τ}
      {w : World π σ} :
      Step crew (.running (.quiet q next) calls) w (.running (next (q.apply w).1) calls)
        (q.apply w).2
  | ask {k : Kind} {τ : Type} {h : Handle k} {next : Reply k → Code π σ τ}
      {calls : Calls π σ ρ τ} {w : World π σ} :
      Step crew (.running (.get h next) calls) w (.inside h .look next calls)
        (w.note (.asked h.id))
  | found {k : Kind} {τ : Type} {h : Handle k} {c : Cell π k} {v : k.Val}
      {next : Reply k → Code π σ τ} {calls : Calls π σ ρ τ} {w : World π σ} :
      w.heap.cell? h = some c → c.flavour = .shared → c.value? = some v →
      Step crew (.inside h .look next calls) w (.running (next (.ok (.ok v))) calls)
        (w.note (.answered h.id (.value (.of v))))
  | wait {k : Kind} {τ : Type} {h : Handle k} {c : Cell π k} {next : Reply k → Code π σ τ}
      {calls : Calls π σ ρ τ} {w : World π σ} :
      w.heap.cell? h = some c → c.flavour = .shared → c.value? = none →
      Step crew (.inside h .look next calls) w (.inside h .lock next calls) w
  | take {k : Kind} {τ : Type} {h : Handle k} {c : Cell π k} {next : Reply k → Code π σ τ}
      {calls : Calls π σ ρ τ} {w : World π σ} :
      w.heap.cell? h = some c → c.flavour = .shared → c.guard = .free →
      Step crew (.inside h .lock next calls) w (.inside h .lookAgain next calls)
        (w.modify h (·.withGuard .held))
  | refused {k : Kind} {τ : Type} {h : Handle k} {c : Cell π k} {next : Reply k → Code π σ τ}
      {calls : Calls π σ ρ τ} {w : World π σ} :
      w.heap.cell? h = some c → c.flavour = .shared → c.guard = .poisoned →
      Step crew (.inside h .lock next calls) w (.running (next (.ok (.error .poisoned))) calls)
        (w.note (.answered h.id (.error .poisoned)))
  | foundAgain {k : Kind} {τ : Type} {h : Handle k} {c : Cell π k} {v : k.Val}
      {next : Reply k → Code π σ τ} {calls : Calls π σ ρ τ} {w : World π σ} :
      w.heap.cell? h = some c → c.flavour = .shared → c.value? = some v →
      Step crew (.inside h .lookAgain next calls) w
        (.inside h (.release (.ok (.ok v))) next calls) w
  | enter {k : Kind} {τ : Type} {h : Handle k} {c : Cell π k} {next : Reply k → Code π σ τ}
      {calls : Calls π σ ρ τ} {w : World π σ} :
      w.heap.cell? h = some c → c.flavour = .shared → c.value? = none →
      Step crew (.inside h .lookAgain next calls) w (.inside h .announce next calls) w
  | announce {k : Kind} {τ : Type} {h : Handle k} {c : Cell π k} {next : Reply k → Code π σ τ}
      {calls : Calls π σ ρ τ} {w : World π σ} :
      w.heap.cell? h = some c → c.flavour = .shared →
      Step crew (.inside h .announce next calls) w (.inside h .call next calls)
        (w.publish crew (.forcing .shared h.id))
  | call {k : Kind} {τ : Type} {h : Handle k} {c : Cell π k} {s : Source π k}
      {next : Reply k → Code π σ τ} {calls : Calls π σ ρ τ} {w : World π σ} :
      w.heap.cell? h = some c → c.flavour = .shared → c.source? = some s →
      Step crew (.inside h .call next calls) w
        (.running (s.producer.code crew) (.call h next calls)) (w.call h s)
  | fill {k : Kind} {τ : Type} {h : Handle k} {c : Cell π k} {v : k.Val}
      {next : Reply k → Code π σ τ} {calls : Calls π σ ρ τ} {w : World π σ} :
      w.heap.cell? h = some c → c.flavour = .shared →
      Step crew (.inside h (.fill v) next calls) w
        (.inside h (.release (.ok (.ok (w.store h v).1))) next calls) (w.store h v).2
  | report {k : Kind} {τ : Type} {h : Handle k} {c : Cell π k} {e : EvalError}
      {next : Reply k → Code π σ τ} {calls : Calls π σ ρ τ} {w : World π σ} :
      w.heap.cell? h = some c → c.flavour = .shared →
      Step crew (.inside h (.report e) next calls) w
        (.inside h (.release (.ok (.error e))) next calls)
        (w.publish crew (.evaluationFailed .shared h.id e))
  | release {k : Kind} {τ : Type} {h : Handle k} {c : Cell π k} {r : Reply k}
      {next : Reply k → Code π σ τ} {calls : Calls π σ ρ τ} {w : World π σ} :
      w.heap.cell? h = some c → c.flavour = .shared →
      Step crew (.inside h (.release r) next calls) w (.running (next r) calls) (w.leave h r)

variable {crew : Crew π σ} {t t' : Thread π σ ρ} {w w' : World π σ}

theorem Step.of_access {h : Handle k} {c : Cell π k} {p : Phase k} {next : Reply k → Code π σ τ}
    {calls : Calls π σ ρ τ} (hc : w.heap.cell? h = some c) (hf : c.flavour = .shared)
    (hstep : access crew w h c next calls p = some (t', w')) :
    Step crew (.inside h p next calls) w t' w' := by
  cases p with
  | look =>
    cases hv : c.value? with
    | some v =>
      simp only [access, hv, Option.some.injEq, Prod.mk.injEq] at hstep
      obtain ⟨rfl, rfl⟩ := hstep
      exact .found hc hf hv
    | none =>
      simp only [access, hv, Option.some.injEq, Prod.mk.injEq] at hstep
      obtain ⟨rfl, rfl⟩ := hstep
      exact .wait hc hf hv
  | lock =>
    cases hg : c.guard with
    | free =>
      simp only [access, hg, Option.some.injEq, Prod.mk.injEq] at hstep
      obtain ⟨rfl, rfl⟩ := hstep
      exact .take hc hf hg
    | held => simp [access, hg] at hstep
    | poisoned =>
      simp only [access, hg, Option.some.injEq, Prod.mk.injEq] at hstep
      obtain ⟨rfl, rfl⟩ := hstep
      exact .refused hc hf hg
  | lookAgain =>
    cases hv : c.value? with
    | some v =>
      simp only [access, hv, Option.some.injEq, Prod.mk.injEq] at hstep
      obtain ⟨rfl, rfl⟩ := hstep
      exact .foundAgain hc hf hv
    | none =>
      simp only [access, hv, Option.some.injEq, Prod.mk.injEq] at hstep
      obtain ⟨rfl, rfl⟩ := hstep
      exact .enter hc hf hv
  | announce =>
    cases hstep
    exact .announce hc hf
  | call =>
    cases hs : c.source? with
    | none => simp [access, hs] at hstep
    | some s =>
      simp only [access, hs, Option.some.injEq, Prod.mk.injEq] at hstep
      obtain ⟨rfl, rfl⟩ := hstep
      exact .call hc hf hs
  | fill v =>
    cases hstep
    exact .fill hc hf
  | report e =>
    cases hstep
    exact .report hc hf
  | release r =>
    cases hstep
    exact .release hc hf

theorem access_of_step {h : Handle k} {p : Phase k} {next : Reply k → Code π σ τ}
    {calls : Calls π σ ρ τ} (hstep : (inside h p next calls).step crew w = some (t', w')) :
    ∃ c, w.heap.cell? h = some c ∧ c.flavour = .shared ∧
      access crew w h c next calls p = some (t', w') := by
  cases hc : w.heap.cell? h with
  | none => simp [step, hc] at hstep
  | some c =>
    by_cases hf : c.flavour = .shared
    · rw [step, hc] at hstep
      simp only [hf, if_true] at hstep
      exact ⟨c, rfl, hf, hstep⟩
    · simp [step, hc, hf] at hstep

theorem Step.of_step (hstep : t.step crew w = some (t', w')) : Step crew t w t' w' := by
  cases t with
  | running code calls =>
    cases code with
    | done r =>
      cases calls with
      | none => cases hstep
      | call h next calls =>
        cases hstep
        exact .back
    | quiet q next =>
      cases hstep
      exact .quiet
    | get h next =>
      cases hstep
      exact .ask
    | stuck => cases hstep
  | inside h p next calls =>
    obtain ⟨c, hc, hf, haccess⟩ := access_of_step hstep
    exact .of_access hc hf haccess

theorem Step.step (h : Step crew t w t' w') : t.step crew w = some (t', w') := by
  cases h with
  | back | quiet | ask => rfl
  | found hc hf hx | wait hc hf hx | take hc hf hx | refused hc hf hx | foundAgain hc hf hx
  | enter hc hf hx =>
    simp only [Thread.step, hc, hf, if_true, access, hx]
  | call hc hf hs =>
    simp only [Thread.step, hc, hf, if_true, access, hs]
    rfl
  | announce hc hf | fill hc hf | report hc hf | release hc hf =>
    simp only [Thread.step, hc, hf, if_true]
    rfl

end Thread

end LazyFields
