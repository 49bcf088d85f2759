import LazyFields.Proofs.Alike
import LazyFields.Proofs.Following

/-!
A thread that nobody disturbs. What it does step by step until it ends is what its program
does in one go, in any alike world and at any depth that its steps do not exceed.
-/

namespace LazyFields

variable {π : Kind → Type} {σ ρ τ α β : Type} {k : Kind} {w w' w'' v : World π σ}

def Crew.host (crew : Crew π σ) : Host π σ where
  produce := crew.produce
  listen e := Proc.tell (crew.hear e)

def Ending.of : Except String α → Ending α
  | .ok a => .value a
  | .error message => .panicked message

namespace Thread

variable {crew : Crew π σ} {t t' : Thread π σ ρ} {n : Nat} {r : Except String ρ}

inductive Finishes (crew : Crew π σ) :
    Nat → Thread π σ ρ → World π σ → Except String ρ → World π σ → Prop
  | ended {t : Thread π σ ρ} {r : Except String ρ} {w : World π σ} :
      t.result? = some r → Finishes crew 0 t w r w
  | step {n : Nat} {t t' : Thread π σ ρ} {r : Except String ρ} {w w' w'' : World π σ} :
      t.step crew w = some (t', w') → Finishes crew n t' w' r w'' → Finishes crew (n + 1) t w r w''

theorem Finishes.next (h : Finishes crew n t w r w'') (ht : t.result? = none) :
    ∃ n' t' w', n = n' + 1 ∧ t.step crew w = some (t', w') ∧ Finishes crew n' t' w' r w'' := by
  cases h with
  | ended hr => exact absurd (ht.symm.trans hr) (by simp)
  | step hs hf => exact ⟨_, _, _, rfl, hs, hf⟩

theorem Finishes.access {h : Handle k} {p : Phase k} {next : Reply k → Code π σ τ}
    {calls : Calls π σ ρ τ} (hf : Finishes crew n (.inside h p next calls) w r w'') :
    ∃ n' t' w' c, n = n' + 1 ∧ w.heap.cell? h = some c ∧ c.flavour = .shared ∧
      Thread.access crew w h c next calls p = some (t', w') ∧
      Finishes crew n' t' w' r w'' := by
  obtain ⟨n', t', w', hn, hs, hf⟩ := hf.next rfl
  obtain ⟨c, hc, hshared, haccess⟩ := access_of_step hs
  exact ⟨n', t', w', c, hn, hc, hshared, haccess, hf⟩

theorem Finishes.alike {t : Thread π σ ρ} {r : Except String ρ} (hf : Finishes crew n t w r w')
    (hw : w.Alike v) : ∃ v', Finishes crew n t v r v' ∧ w'.Alike v' := by
  induction hf generalizing v with
  | ended ht => exact ⟨v, .ended ht, hw⟩
  | step hs _ ih =>
    obtain ⟨v₁, hs₁, hw₁⟩ := (Step.of_step hs).alike hw
    obtain ⟨v', hf', hw'⟩ := ih hw₁
    exact ⟨v', .step hs₁.step hf', hw'⟩

theorem Finishes.keeps {t : Thread π σ ρ} {r : Except String ρ}
    (hf : Finishes crew n t w r w') : w.heap.Keeps w'.heap := by
  induction hf with
  | ended => exact .refl _
  | step hs _ ih => exact (Step.of_step hs).keeps.trans ih

/-- The thread comes to go on with what the computation ends with. The computation may depend on
the depth to which programs may call one another. -/
def Does (crew : Crew π σ) (n : Nat) (x : Nat → Exec π σ α) (next : Except String α → Code π σ τ)
    (calls : Calls π σ ρ τ) (w : World π σ) (r : Except String ρ) (w'' : World π σ) : Prop :=
  ∃ a w' n', n' ≤ n ∧ Finishes crew n' (.running (next a) calls) w' r w'' ∧
    ∀ d v, n ≤ d → w.Alike v → ∃ v', x d v = (.of a, v') ∧ w'.Alike v'

def Simulated (crew : Crew π σ) (n : Nat) : Prop :=
  ∀ {α τ ρ : Type} (x : Proc π σ α) (next : Except String α → Code π σ τ) (calls : Calls π σ ρ τ)
    {w w'' : World π σ} {r : Except String ρ},
    Finishes crew n (.running (x.code next) calls) w r w'' →
      Does crew n (fun d => x.exec (crew.host.environment d)) next calls w r w''

theorem produce_does (hn : Simulated crew n) (p : Producer π k)
    {calls : Calls π σ ρ (Except EvalError k.Val)}
    (hf : Finishes crew n (.running (p.code crew) calls) w r w'') :
    Does crew n (fun d => (crew.host.environment (d + 1)).produce p) .done calls w r w'' := by
  cases p with
  | constant x => exact ⟨.ok (.ok x), w, n, Nat.le_refl n, hf, fun d v _ hv => ⟨v, rfl, hv⟩⟩
  | division a b =>
    exact ⟨.ok (checkedDiv a b), w, n, Nat.le_refl n, hf, fun d v _ hv => ⟨v, rfl, hv⟩⟩
  | custom code => exact hn (crew.produce k code) .done calls hf

theorem notify_eq (crew : Crew π σ) (d : Nat) (e : Event) (w : World π σ) :
    (crew.host.environment (d + 1)).notify e (w.note (.emitted e)) =
      (.value (), w.publish crew e) := rfl

theorem evaluate_does (ih : ∀ m < n, Simulated crew m) {h : Handle k} {c : Cell π k}
    {s : Source π k} (hc : w.heap.cell? h = some c) (hs : c.source? = some s)
    {next : Reply k → Code π σ τ} {calls : Calls π σ ρ τ}
    (hf : Finishes crew n (.inside h .announce next calls) w r w'') :
    ∃ a w' n', n' ≤ n ∧ Finishes crew n' (.inside h (.release a) next calls) w' r w'' ∧
      ∀ d v, n ≤ d → w.Alike v →
        ∃ v', (crew.host.environment d).evaluate h .shared s v = (.of a, v') ∧ w'.Alike v' := by
  obtain ⟨n₁, t₁, w₁, c₁, rfl, -, -, hs₁, hf₁⟩ := hf.access
  cases hs₁
  obtain ⟨n₂, t₂, w₂, c₂, rfl, hc₂, -, hs₂, hf₂⟩ := hf₁.access
  obtain rfl : c = c₂ := Option.some.inj (hc.symm.trans hc₂)
  simp only [Thread.access, hs] at hs₂
  cases hs₂
  obtain ⟨a, w₃, n₃, hle₃, hf₃, hproduce⟩ := produce_does (ih n₂ (by omega)) s.producer hf₂
  obtain ⟨n₄, t₄, w₄, rfl, hs₄, hf₄⟩ := hf₃.next rfl
  cases hs₄
  -- The first part is common to all the ends that a call can come to.
  have hcalled : ∀ d v, n₂ ≤ d → w.Alike v →
      ∃ v', (crew.host.environment (d + 1)).produce s.producer
        ((v.publish crew (.forcing .shared h.id)).call h s) = (.of a, v') ∧ w₃.Alike v' :=
    fun d v hd hv => hproduce d _ hd ((hv.publish crew _).call h s)
  rcases a with message | e | x
  · refine ⟨.error message, _, n₄, by omega, hf₄, fun d v hd hv => ?_⟩
    obtain ⟨d, rfl⟩ : ∃ d', d = d' + 1 := ⟨d - 1, by omega⟩
    obtain ⟨v', hv', halike⟩ := hcalled d v (by omega) hv
    refine ⟨v'.note (.ended h.id (.panic message)), ?_, halike.note _⟩
    simp only [Environment.evaluate_eq, World.announce, notify_eq, Environment.settle_eq, hv',
      Ending.of]
    rfl
  · obtain ⟨n₅, t₅, w₅, c₅, rfl, -, -, hs₅, hf₅⟩ := hf₄.access
    cases hs₅
    refine ⟨.ok (.error e), _, n₅, by omega, hf₅, fun d v hd hv => ?_⟩
    obtain ⟨d, rfl⟩ : ∃ d', d = d' + 1 := ⟨d - 1, by omega⟩
    obtain ⟨v', hv', halike⟩ := hcalled d v (by omega) hv
    refine ⟨(v'.note (.ended h.id (.error e))).publish crew (.evaluationFailed .shared h.id e), ?_,
      (halike.note _).publish crew _⟩
    simp only [Environment.evaluate_eq, World.announce, notify_eq, Environment.settle_eq, hv',
      Ending.of, World.conclude]
  · obtain ⟨n₅, t₅, w₅, c₅, rfl, -, -, hs₅, hf₅⟩ := hf₄.access
    cases hs₅
    refine ⟨_, _, n₅, by omega, hf₅, fun d v hd hv => ?_⟩
    obtain ⟨d, rfl⟩ : ∃ d', d = d' + 1 := ⟨d - 1, by omega⟩
    obtain ⟨v', hv', halike⟩ := hcalled d v (by omega) hv
    obtain ⟨hheld, hstored⟩ := (halike.note (.ended h.id (.value (.of x)))).store h x
    refine ⟨((v'.note (.ended h.id (.value (.of x)))).store h x).2, ?_, hstored⟩
    simp only [Environment.evaluate_eq, World.announce, notify_eq, Environment.settle_eq, hv',
      Ending.of, World.conclude]
    exact congrArg (fun held => (Ending.value (Except.ok held), _)) hheld.symm

theorem answer_release (w : World π σ) (h : Handle k) (a : Reply k) :
    (w.release h (Ending.of a).forget).answer h (Ending.of a) = w.leave h a := by
  cases a <;> rfl

theorem get_does (ih : ∀ m < n, Simulated crew m) {h : Handle k} {next : Reply k → Code π σ τ}
    {calls : Calls π σ ρ τ} (hf : Finishes crew n (.running (.get h next) calls) w r w'') :
    Does crew n (fun d => (crew.host.environment d).force h) next calls w r w'' := by
  obtain ⟨n₁, t₁, w₁, rfl, hs₁, hf₁⟩ := hf.next rfl
  cases hs₁
  obtain ⟨n₂, t₂, w₂, c, rfl, hc, hshared, hs₂, hf₂⟩ := hf₁.access
  have hforce : ∀ d v, w.Alike v → (crew.host.environment d).force h v =
      (((crew.host.environment d).resolve h c.access (v.note (.asked h.id))).1,
        ((crew.host.environment d).resolve h c.access (v.note (.asked h.id))).2.answer h
          ((crew.host.environment d).resolve h c.access (v.note (.asked h.id))).1) :=
    fun d v hv => Environment.force_eq _ h (hv.heap ▸ hc)
  cases hvalue : c.value? with
  | some x =>
    simp only [Thread.access, hvalue] at hs₂
    cases hs₂
    refine ⟨.ok (.ok x), _, n₂, by omega, hf₂, fun d v hd hv => ?_⟩
    refine ⟨(v.note (.asked h.id)).note (.answered h.id (.value (.of x))), ?_,
      (hv.note _).note _⟩
    refine (hforce d v hv).trans ?_
    rw [Cell.access_known_iff.mpr hvalue]
    rfl
  | none =>
    simp only [Thread.access, hvalue] at hs₂
    cases hs₂
    obtain ⟨f, s, g, rfl⟩ := Cell.eq_deferred_of_value? hvalue
    obtain rfl : f = .shared := hshared
    obtain ⟨n₃, t₃, w₃, c₃, rfl, hc₃, -, hs₃, hf₃⟩ := hf₂.access
    obtain rfl := Option.some.inj (hc.symm.trans hc₃)
    cases g with
    | held => cases hs₃
    | poisoned =>
      cases hs₃
      refine ⟨.ok (.error .poisoned), _, n₃, by omega, hf₃, fun d v hd hv => ?_⟩
      refine ⟨(v.note (.asked h.id)).note (.answered h.id (.error .poisoned)), ?_,
        (hv.note _).note _⟩
      exact hforce d v hv
    | free =>
      cases hs₃
      have hheld : ((w.note (.asked h.id)).modify h (·.withGuard .held)).heap.cell? h =
          some (.deferred .shared s none .held) := by
        rw [World.modify, Heap.cell?_modify, hc, Option.map_some]
        rfl
      obtain ⟨n₄, t₄, w₄, c₄, rfl, hc₄, -, hs₄, hf₄⟩ := hf₃.access
      obtain rfl := Option.some.inj (hheld.symm.trans hc₄)
      cases hs₄
      obtain ⟨a, w₅, n₅, hle₅, hf₅, hevaluate⟩ :=
        evaluate_does (fun m hm => ih m (by omega)) hheld rfl hf₄
      obtain ⟨n₆, t₆, w₆, c₆, rfl, -, -, hs₆, hf₆⟩ := hf₅.access
      cases hs₆
      refine ⟨a, _, n₆, by omega, hf₆, fun d v hd hv => ?_⟩
      obtain ⟨v', hv', halike⟩ := hevaluate d _ (by omega) ((hv.note (.asked h.id)).modify h _)
      refine ⟨v'.leave h a, (hforce d v hv).trans ?_, halike.leave h a⟩
      simp only [Cell.access, Environment.resolve, Environment.evaluateGuarded_eq, hv']
      rw [answer_release]

theorem simulated_of_lt (ih : ∀ m < n, Simulated crew m) : Simulated crew n := by
  intro α τ ρ x next calls w w'' r hf
  induction x generalizing n τ w with
  | pure a => exact ⟨.ok a, w, n, Nat.le_refl n, hf, fun d v _ hv => ⟨v, rfl, hv⟩⟩
  | bind x f ihx ihf =>
    rw [Proc.code] at hf
    obtain ⟨a, w', n', hle, hf', hx⟩ := ihx ih _ calls hf
    cases a with
    | error message =>
      refine ⟨.error message, w', n', hle, hf', fun d v hd hv => ?_⟩
      obtain ⟨v', hx', hv'⟩ := hx d v hd hv
      exact ⟨v', Exec.bind_of_panicked hx', hv'⟩
    | ok a =>
      obtain ⟨b, w₂, n₂, hle₂, hf₂, hfa⟩ :=
        ihf a (fun m hm => ih m (Nat.lt_of_lt_of_le hm hle)) next calls hf'
      refine ⟨b, w₂, n₂, Nat.le_trans hle₂ hle, hf₂, fun d v hd hv => ?_⟩
      obtain ⟨v', hx', hv'⟩ := hx d v hd hv
      obtain ⟨v₂, hfa', hv₂⟩ := hfa d v' (Nat.le_trans hle hd) hv'
      exact ⟨v₂, (Exec.bind_of_value hx').trans hfa', hv₂⟩
  | act a =>
    cases a with
    | quiet q =>
      obtain ⟨n', t', w', rfl, hs, hf'⟩ := hf.next rfl
      cases hs
      refine ⟨.ok (q.apply w).1, (q.apply w).2, n', Nat.le_succ n', hf', fun d v _ hv => ?_⟩
      obtain ⟨hresult, halike⟩ := hv.quiet q
      exact ⟨(q.apply v).2, by rw [hresult]; rfl, halike⟩
    | get h => exact get_does ih hf
    | verify s =>
      obtain ⟨_, _, _, _, hs, _⟩ := hf.next rfl
      cases hs
  | panic message =>
    exact ⟨.error message, w, n, Nat.le_refl n, hf,
      fun d v _ hv => ⟨_, rfl, hv.note_right rfl⟩⟩
  | attempt x ihx =>
    rw [Proc.code] at hf
    obtain ⟨a, w', n', hle, hf', hx⟩ := ihx ih _ calls hf
    refine ⟨.ok a, w', n', hle, hf', fun d v hd hv => ?_⟩
    obtain ⟨v', hx', hv'⟩ := hx d v hd hv
    cases a with
    | ok a => exact ⟨v', by simp [Proc.exec, Exec.attempt, hx', Ending.of], hv'⟩
    | error message =>
      refine ⟨v'.note (.caught message), by simp [Proc.exec, Exec.attempt, hx', Ending.of], ?_⟩
      exact hv'.note_right rfl

theorem simulated (crew : Crew π σ) (n : Nat) : Simulated crew n := by
  induction n using Nat.strongRecOn with
  | ind n ih => exact simulated_of_lt ih

end Thread

end LazyFields
