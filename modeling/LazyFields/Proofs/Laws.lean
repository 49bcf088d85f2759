import LazyFields.Proofs.Course

/-!
Laws of all runs. A law relates the world before a computation, the way it ends and the world
after it. What can happen in a run is said once, with every access taken apart into what it
announces, the call of its producer and what becomes of the call; a law that each happening
obeys, if what happens inside it does, is obeyed by every run.
-/

namespace LazyFields

variable {π : Kind → Type} {σ α β : Type} {k l : Kind}

inductive Cell.Awaits : Cell π k → Flavour → Source π k → Prop
  | single {s : Source π k} {g : Guard} : Awaits (.deferred .single s none g) .single s
  | shared {s : Source π k} : Awaits (.deferred .shared s none .free) .shared s

namespace Cell

variable {c : Cell π k} {f : Flavour} {s : Source π k}

theorem Awaits.value? (h : c.Awaits f s) : c.value? = none := by
  cases h <;> rfl

theorem access_cases (c : Cell π k) :
    (∃ v, c.value? = some v) ∨ (∃ f s, c.Awaits f s) ∨ c.access = .blocked ∨
      c.access = .refused := by
  rcases c with ⟨f, v⟩ | ⟨f, s, _ | v, g⟩
  · exact .inl ⟨v, rfl⟩
  · cases f with
    | single => exact .inr (.inl ⟨_, _, .single⟩)
    | shared =>
      cases g with
      | free => exact .inr (.inl ⟨_, _, .shared⟩)
      | held => exact .inr (.inr (.inl rfl))
      | poisoned => exact .inr (.inr (.inr rfl))
  · exact .inl ⟨v, rfl⟩

theorem value?_of_access (h : ∀ v, c.access ≠ .known v) : c.value? = none := by
  cases hv : c.value? with
  | none => rfl
  | some v => exact absurd (access_known_iff.mpr hv) (h v)

end Cell

namespace World

def enter (w : World π σ) (h : Handle k) : Flavour → World π σ
  | .single => w.note (.asked h.id)
  | .shared => (w.note (.asked h.id)).modify h (·.withGuard .held)

def announce (w : World π σ) (h : Handle k) (f : Flavour) : World π σ :=
  w.note (.emitted (.forcing f h.id))

def exit (w : World π σ) (h : Handle k) : Flavour → Ending (Except EvalError k.Val) → World π σ
  | .single, r => w.answer h r
  | .shared, r => (w.release h r.forget).answer h r

theorem history_enter (w : World π σ) (h : Handle k) (f : Flavour) :
    (w.enter h f).history = (w.note (.asked h.id)).history := by
  cases f <;> rfl

theorem history_prefix_exit (w : World π σ) (h : Handle k) (f : Flavour)
    (r : Ending (Except EvalError k.Val)) : w.history <+: (w.exit h f r).history := by
  cases f with
  | single => exact w.history_prefix_answer h r
  | shared =>
    have hanswer := (w.release h r.forget).history_prefix_answer h r
    rwa [history_release] at hanswer

theorem cell?_enter_of_ne (w : World π σ) {h : Handle k} {h' : Handle l} (hne : h'.id ≠ h.id)
    (f : Flavour) : (w.enter h f).heap.cell? h' = w.heap.cell? h' := by
  cases f with
  | single => rfl
  | shared => exact Heap.cell?_modify_of_ne _ _ hne

theorem cell?_enter (w : World π σ) {h : Handle k} {c : Cell π k} {f : Flavour} {s : Source π k}
    (hc : w.heap.cell? h = some c) (ha : c.Awaits f s) :
    ∃ g, (w.enter h f).heap.cell? h = some (.deferred f s none g) := by
  cases ha with
  | single => exact ⟨_, hc⟩
  | shared => exact ⟨.held, by simp [enter, modify, Heap.cell?_modify, hc, Cell.withGuard]⟩

theorem enter_keeps (w : World π σ) (h : Handle k) (f : Flavour) :
    w.heap.Keeps (w.enter h f).heap := by
  cases f with
  | single => exact .refl _
  | shared => exact .modify _ h (.withGuard _)

theorem exit_keeps (w : World π σ) (h : Handle k) (f : Flavour)
    (r : Ending (Except EvalError k.Val)) : w.heap.Keeps (w.exit h f r).heap := by
  cases f with
  | single => rw [exit, heap_answer]; exact .refl _
  | shared => rw [exit, heap_answer]; exact w.release_keeps h _

theorem cell?_exit_of_ne (w : World π σ) {h : Handle k} {h' : Handle l} (hne : h'.id ≠ h.id)
    (f : Flavour) (r : Ending (Except EvalError k.Val)) :
    (w.exit h f r).heap.cell? h' = w.heap.cell? h' := by
  cases f with
  | single => rw [exit, heap_answer]
  | shared =>
    rw [exit, heap_answer]
    cases r with
    | value | panicked => exact Heap.cell?_modify_of_ne _ _ hne
    | halted => rfl

theorem cell?_conclude_of_ne (w : World π σ) {h : Handle k} {h' : Handle l} (hne : h'.id ≠ h.id)
    (f : Flavour) (r : Ending (Except EvalError k.Val)) :
    (w.conclude h f r).heap.cell? h' = w.heap.cell? h' := by
  rcases r with (e | v) | message | reason
  · rfl
  · exact cell?_store_of_ne _ _ hne
  · rfl
  · rfl

end World

/-- What can happen in a run, when whatever happens inside it is allowed by `R` and listeners come
to ends of which `Heard` holds. -/
inductive Happens (Heard : Ending Unit → Prop) (R : World π σ → Ending Unit → World π σ → Prop) :
    World π σ → Ending Unit → World π σ → Prop
  | rest (w : World π σ) : Happens Heard R w (.value ()) w
  | andThen {w w₁ w₂ : World π σ} {e : Ending Unit} :
      R w (.value ()) w₁ → R w₁ e w₂ → Happens Heard R w e w₂
  | quiet {α : Type} (q : Quiet π σ α) (w : World π σ) :
      Happens Heard R w (.value ()) (q.apply w).2
  | halted (reason : Halt) (w : World π σ) : Happens Heard R w (.halted reason) w
  | panicked (message : String) (w : World π σ) :
      Happens Heard R w (.panicked message) (w.note (.panicked message))
  | caught {w w₁ : World π σ} {message : String} :
      R w (.panicked message) w₁ → Happens Heard R w (.value ()) (w₁.note (.caught message))
  | known {k : Kind} {h : Handle k} {w : World π σ} {v : k.Val} : w.peek h = some v →
      Happens Heard R w (.value ()) ((w.note (.asked h.id)).answer h (.value (.ok v)))
  | refused {k : Kind} {h : Handle k} {c : Cell π k} {w : World π σ} :
      w.heap.cell? h = some c → c.access = .refused →
      Happens Heard R w (.value ())
        ((w.note (.asked h.id)).answer h (.value (.error .poisoned)))
  | blocked {k : Kind} {h : Handle k} {c : Cell π k} {w : World π σ} :
      w.heap.cell? h = some c → c.access = .blocked →
      Happens Heard R w (.halted .deadlock) (w.note (.asked h.id))
  | unheard {k : Kind} {h : Handle k} {c : Cell π k} {f : Flavour} {s : Source π k}
      {w w₁ : World π σ} {r : Ending (Except EvalError k.Val)} :
      w.heap.cell? h = some c → c.Awaits f s → R ((w.enter h f).announce h f) r.forget w₁ →
      Heard r.forget → r.forget ≠ .value () → Happens Heard R w r.forget (w₁.exit h f r)
  | stopped {k : Kind} {h : Handle k} {c : Cell π k} {f : Flavour} {s : Source π k}
      {w w₁ w₂ : World π σ} {r : Ending (Except EvalError k.Val)} :
      w.heap.cell? h = some c → c.Awaits f s → R ((w.enter h f).announce h f) (.value ()) w₁ →
      R (w₁.call h s) r.forget w₂ → r.forget ≠ .value () →
      Happens Heard R w r.forget ((w₂.conclude h f r).exit h f r)
  | stored {k : Kind} {h : Handle k} {c : Cell π k} {f : Flavour} {s : Source π k}
      {w w₁ w₂ : World π σ} {v held : k.Val} :
      w.heap.cell? h = some c → c.Awaits f s → R ((w.enter h f).announce h f) (.value ()) w₁ →
      R (w₁.call h s) (.value ()) w₂ →
      ((w₂.note (.ended h.id (.value (.of v)))).store h v).1 = held →
      Happens Heard R w (.value ())
        ((w₂.conclude h f (.value (.ok v))).exit h f (.value (.ok held)))
  | failed {k : Kind} {h : Handle k} {c : Cell π k} {f : Flavour} {s : Source π k} {x : EvalError}
      {w w₁ w₂ w₃ : World π σ} {r : Ending (Except EvalError k.Val)} :
      w.heap.cell? h = some c → c.Awaits f s → R ((w.enter h f).announce h f) (.value ()) w₁ →
      R (w₁.call h s) (.value ()) w₂ → R (w₂.conclude h f (.value (.error x))) r.forget w₃ →
      Heard r.forget → (∀ y, r = .value y → y = .error x) →
      Happens Heard R w r.forget (w₃.exit h f r)
  | verifying (s : Scenario) (w : World π σ) :
      Happens Heard R w (.value ())
        ((Watch.begin s w).2.note (.verifying (Watch.begin s w).1.run))
  | own {w w₁ : World π σ} {m : Mark} :
      R w (.value ()) w₁ → m.run? = some ⟨w.runs⟩ → Happens Heard R w (.value ()) (w₁.note m)
  | overthrown {w w₁ : World π σ} {message : String} :
      R w (.panicked message) w₁ →
      Happens Heard R w (.panicked message) (w₁.note (.verified ⟨w.runs⟩ (.panic message)))

def Lawful (Heard : Ending Unit → Prop) (R : World π σ → Ending Unit → World π σ → Prop) : Prop :=
  ∀ ⦃w e w'⦄, Happens Heard R w e w' → R w e w'

section

variable {Heard : Ending Unit → Prop} {R S : World π σ → Ending Unit → World π σ → Prop}

theorem Happens.mono {w w' : World π σ} {e : Ending Unit} (h : Happens Heard R w e w')
    (hRS : ∀ ⦃w e w'⦄, R w e w' → S w e w') : Happens Heard S w e w' := by
  cases h with
  | rest w => exact .rest w
  | andThen h₁ h₂ => exact .andThen (hRS h₁) (hRS h₂)
  | quiet q w => exact .quiet q w
  | halted reason w => exact .halted reason w
  | panicked message w => exact .panicked message w
  | caught h => exact .caught (hRS h)
  | known hv => exact .known hv
  | refused hc ha => exact .refused hc ha
  | blocked hc ha => exact .blocked hc ha
  | unheard hc ha h₁ hh hne => exact .unheard hc ha (hRS h₁) hh hne
  | stopped hc ha h₁ h₂ hne => exact .stopped hc ha (hRS h₁) (hRS h₂) hne
  | stored hc ha h₁ h₂ hheld => exact .stored hc ha (hRS h₁) (hRS h₂) hheld
  | failed hc ha h₁ h₂ h₃ hh hr => exact .failed hc ha (hRS h₁) (hRS h₂) (hRS h₃) hh hr
  | verifying s w => exact .verifying s w
  | own h hm => exact .own (hRS h) hm
  | overthrown h => exact .overthrown (hRS h)

theorem Course.produces {h : Handle k} {c : Cell π k} {f : Flavour} {s : Source π k}
    {w w' : World π σ} {r : Ending (Except EvalError k.Val)} (hc : w.heap.cell? h = some c)
    (ha : c.Awaits f s) (hinside : Course (w.enter h f) r.forget w')
    (hvalue : ∀ v, r = .value (.ok v) → w'.peek h = some v) :
    Course w r.forget (w'.exit h f r) := by
  cases ha with
  | single => exact .accessed hc rfl hinside hvalue
  | shared =>
    refine .accessed hc rfl (.guarded (w := w.note (.asked h.id)) hc hinside) fun v hr => ?_
    exact (World.release_keeps _ h _).peek (hvalue v hr)

theorem Course.lawful : Lawful Heard (Course (π := π) (σ := σ)) := by
  intro w e w' h
  cases h with
  | rest => exact .rest _
  | andThen h₁ h₂ => exact .andThen h₁ h₂
  | quiet q => exact .quiet q _
  | halted reason => exact .halted reason _
  | panicked message => exact .panicked message _
  | caught h => exact .caught h
  | known hv => exact .known hv
  | refused hc ha =>
    exact .accessed (r := .value (.error .poisoned)) hc
      (Cell.value?_of_access fun v hv => nomatch ha.symm.trans hv) (.rest _) (by simp)
  | blocked hc ha =>
    exact .accessed (r := .halted .deadlock) hc
      (Cell.value?_of_access fun v hv => nomatch ha.symm.trans hv) (.halted _ _) (by simp)
  | unheard hc ha h₁ _ hne =>
    refine .produces hc ha (.interrupted h₁ hne) fun v hr => ?_
    rw [hr] at hne
    exact absurd rfl hne
  | stopped hc ha h₁ h₂ hne =>
    obtain ⟨g, hentered⟩ := w.cell?_enter hc ha
    refine .produces hc ha (.produced hentered rfl rfl h₁ h₂) fun v hr => ?_
    rw [hr] at hne
    exact absurd rfl hne
  | @stored _ h c f s _ w₁ w₂ v held hc ha h₁ h₂ hheld =>
    obtain ⟨g, hentered⟩ := w.cell?_enter hc ha
    have hproduced := Course.produced (r := .value (.ok v)) hentered rfl rfl h₁ h₂
    refine .produces (r := .value (.ok held)) hc ha hproduced fun u hu => ?_
    obtain ⟨d, hd, -⟩ := h₁.keeps _ _ hentered
    obtain ⟨d', hd', -⟩ := h₂.keeps _ _ (by rw [World.heap_call]; exact hd)
    have hstored := World.peek_store (w := w₂.note (.ended h.id (.value (.of v)))) hd' v
    rw [hheld] at hstored
    rw [← Except.ok.inj (Ending.value.inj hu)]
    exact hstored
  | @failed _ h c f s x _ w₁ w₂ w₃ r hc ha h₁ h₂ h₃ _ hr =>
    obtain ⟨g, hentered⟩ := w.cell?_enter hc ha
    have hproduced := Course.produced (r := .value (.error x)) hentered rfl rfl h₁ h₂
    refine .produces hc ha (.andThen hproduced h₃) fun v hv => ?_
    exact absurd (hr _ hv) (by simp)
  | verifying s => exact .verifying s _
  | own h hm => exact .own h hm
  | overthrown h => exact .own h rfl

theorem Lawful.and (hR : Lawful Heard R)
    (hS : ∀ ⦃w e w'⦄, Happens Heard (fun w e w' => R w e w' ∧ S w e w') w e w' → S w e w') :
    Lawful Heard fun w e w' => R w e w' ∧ S w e w' :=
  fun _ _ _ h => ⟨hR (h.mono fun _ _ _ => And.left), hS h⟩

end

namespace Exec

variable {Heard : Ending Unit → Prop} {R : World π σ → Ending Unit → World π σ → Prop}

def Obeys (R : World π σ → Ending Unit → World π σ → Prop) (x : Exec π σ α) : Prop :=
  ∀ w, R w (x w).1.forget (x w).2

/-- The computation obeys the law together with whatever went on since `w`. -/
def ObeysSince (R : World π σ → Ending Unit → World π σ → Prop) (x : Exec π σ α)
    (w : World π σ) : Prop :=
  ∀ w₁, R w (.value ()) w₁ → R w (x w₁).1.forget (x w₁).2

theorem Obeys.since {x : Exec π σ α} (hR : Lawful Heard R) (hx : x.Obeys R) (w : World π σ) :
    x.ObeysSince R w :=
  fun w₁ h => hR (.andThen h (hx w₁))

theorem ObeysSince.pure (a : α) (w : World π σ) : (Pure.pure a : Exec π σ α).ObeysSince R w :=
  fun _ h => h

theorem ObeysSince.bind {x : Exec π σ α} {f : α → Exec π σ β} {w : World π σ}
    (hx : x.ObeysSince R w) (hf : ∀ a, (f a).ObeysSince R w) : (x >>= f).ObeysSince R w := by
  intro w₁ h
  have hw := hx w₁ h
  rw [bind_def]
  rcases hr : x w₁ with ⟨a | message | reason, w₂⟩ <;> rw [hr] at hw
  · exact hf a w₂ hw
  · exact hw
  · exact hw

theorem Obeys.bind {x : Exec π σ α} {f : α → Exec π σ β} (hR : Lawful Heard R) (hx : x.Obeys R)
    (hf : ∀ a, (f a).Obeys R) : (x >>= f).Obeys R :=
  fun w => ObeysSince.bind (hx.since hR w) (fun a => (hf a).since hR w) w (hR (.rest w))

theorem Obeys.attempt {x : Exec π σ α} (hR : Lawful Heard R) (hx : x.Obeys R) :
    x.attempt.Obeys R := by
  intro w
  have hw := hx w
  unfold Exec.attempt
  rcases hr : x w with ⟨a | message | reason, w₁⟩ <;> rw [hr] at hw
  · exact hw
  · exact hR (.caught hw)
  · exact hw

end Exec

namespace Environment

def settle (env : Environment π σ) (h : Handle k) (f : Flavour) (s : Source π k) :
    Exec π σ (Except EvalError k.Val) := do
  match ← env.production h s with
  | .ok v => return .ok (← Exec.change (·.store h v))
  | .error e =>
    env.emit (.evaluationFailed f h.id e)
    return .error e

theorem evaluate_eq (env : Environment π σ) (h : Handle k) (f : Flavour) (s : Source π k)
    (w : World π σ) :
    env.evaluate h f s w =
      match env.notify (.forcing f h.id) (w.announce h f) with
      | (.value (), w₁) => env.settle h f s w₁
      | (.panicked message, w₁) => (.panicked message, w₁)
      | (.halted reason, w₁) => (.halted reason, w₁) := by
  have hevaluate : env.evaluate h f s =
      env.emit (.forcing f h.id) >>= fun _ => env.settle h f s := rfl
  simp only [hevaluate, emit, Exec.bind_def, Exec.note, Exec.update, World.announce]
  rcases env.notify (.forcing f h.id) (w.note (.emitted (.forcing f h.id))) with
    ⟨_ | message | reason, w₁⟩ <;> rfl

theorem evaluate_bind (env : Environment π σ) (h : Handle k) (f : Flavour) (s : Source π k)
    (w : World π σ) :
    env.evaluate h f s w =
      (env.notify (.forcing f h.id) >>= fun _ => env.settle h f s) (w.announce h f) := by
  rw [evaluate_eq, Exec.bind_def]
  rcases env.notify (.forcing f h.id) (w.announce h f) with ⟨_ | _ | _, _⟩ <;> rfl

theorem settle_eq (env : Environment π σ) (h : Handle k) (f : Flavour) (s : Source π k)
    (w : World π σ) :
    env.settle h f s w =
      match env.produce s.producer (w.call h s) with
      | (.value (.ok v), w₂) =>
        (.value (.ok ((w₂.note (.ended h.id (.value (.of v)))).store h v).1),
          w₂.conclude h f (.value (.ok v)))
      | (.value (.error e), w₂) =>
        match env.notify (.evaluationFailed f h.id e) (w₂.conclude h f (.value (.error e))) with
        | (.value (), w₃) => (.value (.error e), w₃)
        | (.panicked message, w₃) => (.panicked message, w₃)
        | (.halted reason, w₃) => (.halted reason, w₃)
      | (.panicked message, w₂) => (.panicked message, w₂.conclude h f (.panicked message))
      | (.halted reason, w₂) => (.halted reason, w₂) := by
  simp only [settle, emit, production, Exec.bind_def, Exec.note, Exec.update, Exec.recorded,
    Exec.closing, World.call]
  rcases env.produce s.producer ((w.bump s.counter).note (.begun h.id)) with
    ⟨(e | v) | message | reason, w₂⟩
  · simp only [World.conclude, Finish.of, Finish.map, Exec.bind_def, Exec.update]
    rcases env.notify (.evaluationFailed f h.id e)
      ((w₂.note (.ended h.id (.error e))).note (.emitted (.evaluationFailed f h.id e))) with
      ⟨_ | message | reason, w₃⟩ <;> rfl
  · rfl
  · rfl
  · rfl

theorem evaluateGuarded_eq (env : Environment π σ) (h : Handle k) (s : Source π k)
    (w : World π σ) :
    env.evaluateGuarded h s w =
      ((env.evaluate h .shared s (w.modify h (·.withGuard .held))).1,
        (env.evaluate h .shared s (w.modify h (·.withGuard .held))).2.release h
          (env.evaluate h .shared s (w.modify h (·.withGuard .held))).1.forget) := by
  simp only [evaluateGuarded, Exec.bind_def, Exec.update, Exec.closing]
  rcases env.evaluate h .shared s (w.modify h (·.withGuard .held)) with ⟨_ | _ | _, _⟩ <;> rfl

theorem force_eq (env : Environment π σ) (h : Handle k) {w : World π σ} {c : Cell π k}
    (hc : w.heap.cell? h = some c) :
    env.force h w =
      ((env.resolve h c.access (w.note (.asked h.id))).1,
        (env.resolve h c.access (w.note (.asked h.id))).2.answer h
          (env.resolve h c.access (w.note (.asked h.id))).1) := by
  simp only [force, Exec.bind_def, Exec.view, hc, Exec.note, Exec.update, Exec.recorded,
    Exec.closing]
  rcases env.resolve h c.access (w.note (.asked h.id)) with ⟨_ | _ | _, _⟩ <;> rfl

theorem force_dangling (env : Environment π σ) (h : Handle k) {w : World π σ}
    (hc : w.heap.cell? h = none) : env.force h w = (.halted .dangling, w) := by
  simp only [force, Exec.bind_def, Exec.view, hc, Exec.halt]

theorem force_known (env : Environment π σ) {h : Handle k} {w : World π σ} {v : k.Val}
    (hv : w.peek h = some v) :
    env.force h w = (.value (.ok v), (w.note (.asked h.id)).answer h (.value (.ok v))) := by
  obtain ⟨c, hc, hcv⟩ := Option.bind_eq_some_iff.mp hv
  rw [force_eq env h hc, Cell.access_known_iff.mpr hcv]
  rfl

theorem force_awaiting (env : Environment π σ) {h : Handle k} {w : World π σ} {c : Cell π k}
    {f : Flavour} {s : Source π k} (hc : w.heap.cell? h = some c) (ha : c.Awaits f s) :
    env.force h w =
      ((env.evaluate h f s (w.enter h f)).1,
        (env.evaluate h f s (w.enter h f)).2.exit h f (env.evaluate h f s (w.enter h f)).1) := by
  rw [force_eq env h hc]
  cases ha with
  | single => rfl
  | shared =>
    simp only [Cell.access, resolve, evaluateGuarded_eq]
    rfl

structure Obeys (Heard : Ending Unit → Prop) (R : World π σ → Ending Unit → World π σ → Prop)
    (env : Environment π σ) : Prop where
  call : ∀ k code, (env.call k code).Obeys R
  notify : ∀ e, (env.notify e).Obeys R
  heard : ∀ e w, Heard (env.notify e w).1.forget

variable {env : Environment π σ} {Heard : Ending Unit → Prop}
  {R : World π σ → Ending Unit → World π σ → Prop}

theorem Obeys.produce (hR : Lawful Heard R) (henv : env.Obeys Heard R) (p : Producer π k) :
    (env.produce p).Obeys R := by
  cases p with
  | constant v => exact fun w => hR (.rest w)
  | division a b => exact fun w => hR (.rest w)
  | custom code => exact henv.call k code

theorem Obeys.awaiting (hR : Lawful Heard R) (henv : env.Obeys Heard R) {h : Handle k}
    {c : Cell π k} {f : Flavour} {s : Source π k} {w : World π σ} (hc : w.heap.cell? h = some c)
    (ha : c.Awaits f s) : R w (env.force h w).1.forget (env.force h w).2 := by
  have hforced := henv.notify (.forcing f h.id) ((w.enter h f).announce h f)
  have hheard := henv.heard (.forcing f h.id) ((w.enter h f).announce h f)
  rw [force_awaiting env hc ha, evaluate_eq]
  rcases hn : env.notify (.forcing f h.id) ((w.enter h f).announce h f) with
    ⟨_ | message | reason, w₁⟩ <;> rw [hn] at hforced hheard
  · have hcall := henv.produce hR s.producer (w₁.call h s)
    simp only [settle_eq]
    rcases hp : env.produce s.producer (w₁.call h s) with ⟨(e | v) | message | reason, w₂⟩ <;>
      simp only [hp] at hcall ⊢
    · have hfailed := henv.notify (.evaluationFailed f h.id e)
        (w₂.conclude h f (.value (.error e)))
      have hheard' := henv.heard (.evaluationFailed f h.id e)
        (w₂.conclude h f (.value (.error e)))
      rcases hn' : env.notify (.evaluationFailed f h.id e)
        (w₂.conclude h f (.value (.error e))) with ⟨_ | message | reason, w₃⟩ <;>
        simp only [hn'] at hfailed hheard' ⊢
      · exact hR (.failed (r := .value (.error e)) hc ha hforced hcall hfailed hheard' (by simp))
      · exact hR (.failed (r := .panicked message) hc ha hforced hcall hfailed hheard' (by simp))
      · exact hR (.failed (r := .halted reason) hc ha hforced hcall hfailed hheard' (by simp))
    · exact hR (.stored hc ha hforced hcall rfl)
    · exact hR (.stopped (r := .panicked message) hc ha hforced hcall (by simp))
    · exact hR (.stopped (r := .halted reason) hc ha hforced hcall (by simp))
  · exact hR (.unheard (r := .panicked message) hc ha hforced hheard (by simp))
  · exact hR (.unheard (r := .halted reason) hc ha hforced hheard (by simp))

theorem Obeys.force (hR : Lawful Heard R) (henv : env.Obeys Heard R) (h : Handle k) :
    (env.force h).Obeys R := by
  intro w
  cases hc : w.heap.cell? h with
  | none =>
    rw [force_dangling env h hc]
    exact hR (.halted _ w)
  | some c =>
    rcases c.access_cases with ⟨v, hv⟩ | ⟨f, s, ha⟩ | ha | ha
    · have hpeek : w.peek h = some v := (World.peek_of_cell? hc).trans hv
      rw [force_known env hpeek]
      exact hR (.known hpeek)
    · exact henv.awaiting hR hc ha
    · rw [force_eq env h hc, ha]
      exact hR (.blocked hc ha)
    · rw [force_eq env h hc, ha]
      exact hR (.refused hc ha)

/-! A verification adds marks of its own to what went on since it began. -/

theorem Obeys.emit_own (hR : Lawful Heard R) (henv : env.Obeys Heard R) {e : Event}
    {w : World π σ} (he : (Mark.emitted e).run? = some ⟨w.runs⟩) : (env.emit e).ObeysSince R w :=
  fun w₁ h => hR (.andThen (hR (.own h he)) (henv.notify e (w₁.note (.emitted e))))

theorem Obeys.check (hR : Lawful Heard R) (henv : env.Obeys Heard R) {t : Watch} {w : World π σ}
    (ht : t.run = ⟨w.runs⟩) (reported : List String) (c : Check) :
    (env.check t reported c).ObeysSince R w := by
  cases c with
  | field name expected actual =>
    simp only [Environment.check]
    split
    · exact .bind (henv.emit_own hR (by simp [Mark.run?, ht])) fun _ => .pure _ w
    · exact .pure _ w
  | untouched name =>
    refine .bind (fun _ h => h) fun disturbed => ?_
    split
    · exact .bind (fun _ h => h) fun _ => .pure _ w
    · exact .bind (henv.emit_own hR (by simp [Mark.run?, ht])) fun _ => .pure _ w

theorem Obeys.checkAll (hR : Lawful Heard R) (henv : env.Obeys Heard R) {t : Watch}
    {w : World π σ} (ht : t.run = ⟨w.runs⟩) (reported : List String) (checks : List Check) :
    (env.checkAll t reported checks).ObeysSince R w := by
  induction checks generalizing reported with
  | nil => exact .pure _ w
  | cons c rest ih =>
    refine .bind (henv.check hR ht reported c) fun r => ?_
    cases r with
    | ok reported => exact ih reported
    | error e => exact .pure _ w

theorem Obeys.access (hR : Lawful Heard R) (henv : env.Obeys Heard R) {t : Watch} {w : World π σ}
    (ht : t.run = ⟨w.runs⟩) (reported : List String) (b : B) :
    (env.access t reported b).ObeysSince R w := by
  refine .bind (fun _ h => hR (.own h (by simp [Mark.run?, ht]))) fun _ => ?_
  refine .bind ((henv.force hR _).since hR w) fun r => ?_
  cases r with
  | ok v => exact .pure _ w
  | error e => exact .bind (henv.emit_own hR (by simp [Mark.run?, ht])) fun _ => .pure _ w

theorem Obeys.verifyWatched (hR : Lawful Heard R) (henv : env.Obeys Heard R) {t : Watch}
    {w : World π σ} (ht : t.run = ⟨w.runs⟩) (b : B) : (env.verifyWatched t b).ObeysSince R w := by
  refine .bind (henv.checkAll hR ht _ _) fun r => ?_
  cases r with
  | ok reported => exact henv.access hR ht reported b
  | error e => exact .pure _ w

theorem Obeys.verify (hR : Lawful Heard R) (henv : env.Obeys Heard R) (s : Scenario) :
    (env.verify s).Obeys R := by
  intro w
  have hrun := henv.verifyWatched hR (t := (Watch.begin s w).1) rfl
    { normalField := 0, lazyField := s.lazyField, dummyField := 1 } _ (hR (.verifying s w))
  simp only [Environment.verify, Exec.bind_def, Exec.change, Exec.note, Exec.update,
    Exec.recorded, Exec.closing]
  rcases hr : env.verifyWatched (Watch.begin s w).1
    { normalField := 0, lazyField := s.lazyField, dummyField := 1 }
    ((Watch.begin s w).2.note (.verifying (Watch.begin s w).1.run)) with ⟨_ | _ | _, w₁⟩ <;>
    rw [hr] at hrun
  · exact hR (.own hrun rfl)
  · exact hR (.overthrown hrun)
  · exact hrun

theorem Obeys.exec (hR : Lawful Heard R) (henv : env.Obeys Heard R) (x : Proc π σ α) :
    (x.exec env).Obeys R := by
  induction x with
  | pure a => exact fun w => hR (.rest w)
  | bind x f ihx ihf => exact .bind hR ihx ihf
  | act a =>
    cases a with
    | quiet q => exact fun w => hR (.quiet q w)
    | get h => exact henv.force hR h
    | verify s => exact henv.verify hR s
  | panic message => exact fun w => hR (.panicked message w)
  | attempt x ih => exact .attempt hR ih

end Environment

namespace Host

variable {Heard : Ending Unit → Prop} {R : World π σ → Ending Unit → World π σ → Prop}

theorem environment_obeys (hR : Lawful Heard R) (host : Host π σ)
    (hheard : ∀ depth e w, Heard ((host.environment depth).notify e w).1.forget) (depth : Nat) :
    (host.environment depth).Obeys Heard R := by
  induction depth with
  | zero =>
    exact ⟨fun _ _ w => hR (.halted _ w), fun _ w => hR (.halted _ w), fun e w => hheard 0 e w⟩
  | succ depth ih =>
    exact ⟨fun k code => ih.exec hR (host.produce k code), fun e => ih.exec hR (host.listen e),
      fun e w => hheard (depth + 1) e w⟩

theorem run_obeys (hR : Lawful Heard R) (host : Host π σ)
    (hheard : ∀ depth e w, Heard ((host.environment depth).notify e w).1.forget) (depth : Nat)
    (x : Proc π σ α) : (host.run depth x).Obeys R :=
  (host.environment_obeys hR hheard depth).exec hR x

/-! A law that does not look at the ends of listeners needs nothing of them. -/

theorem environment_obeys_law (hR : Lawful (fun _ => True) R) (host : Host π σ) (depth : Nat) :
    (host.environment depth).Obeys (fun _ => True) R :=
  host.environment_obeys hR (fun _ _ _ => trivial) depth

theorem run_obeys_law (hR : Lawful (fun _ => True) R) (host : Host π σ) (depth : Nat)
    (x : Proc π σ α) : (host.run depth x).Obeys R :=
  host.run_obeys hR (fun _ _ _ => trivial) depth x

end Host

end LazyFields
