import LazyFields.Proofs.Forest
import LazyFields.Proofs.Laziness

/-!
The log of a run whose listeners only record. Every computation adds a forest of productions to
the marks, or the beginning of one if it halts, so events account for calls at all points of the
run. An error that is passed up a chain of fields is reported by each of them, the innermost first.
-/

namespace LazyFields

variable {π : Kind → Type} {σ α β ε : Type} {k : Kind} {w w₁ w' : World π σ} {e e' : Ending Unit}

def Ending.noted? : Ending (Except EvalError k.Val) → Option (Finish EvalError Value)
  | .value r => some ((Finish.of r).map Value.of)
  | .panicked message => some (.panic message)
  | .halted _ => none

namespace World

variable (w : World π σ) (h : Handle k) (f : Flavour)

@[simp] theorem marks_enter : (w.enter h f).marks = w.marks ++ [.asked h.id] := by
  cases f <;> simp [enter]

@[simp] theorem marks_announce :
    (w.announce h f).marks = w.marks ++ [.emitted (.forcing f h.id)] := by
  simp [announce]

theorem marks_conclude {r : Ending (Except EvalError k.Val)} {x : Finish EvalError Value}
    (hx : r.noted? = some x) :
    (w.conclude h f r).marks = w.marks ++ .ended h.id x :: x.report f h.id := by
  rcases r with (y | v) | message | reason <;> cases hx <;>
    simp [conclude, Finish.of, Finish.map, Finish.report]

theorem marks_exit {r : Ending (Except EvalError k.Val)} {x : Finish EvalError Value}
    (hx : r.noted? = some x) : (w.exit h f r).marks = w.marks ++ [.answered h.id x] := by
  rcases r with (y | v) | message | reason <;> cases hx <;> cases f <;>
    simp [exit, answer, release]

@[simp] theorem host_enter : (w.enter h f).host = w.host := by
  cases f <;> rfl

@[simp] theorem host_call (s : Source π k) : (w.call h s).host = w.host := by
  rcases s with ⟨p, _ | c⟩ <;> rfl

theorem marks_exit_halted (reason : Halt) : (w.exit h f (.halted reason)).marks = w.marks := by
  cases f <;> rfl

theorem Untouched.marks {ω : Type} {view : σ → ω} {w w' : World π σ} (h : w.Untouched view w') :
    w'.marks = w.marks := by
  rw [World.marks, history_congr h.journal, ← World.marks]

/-- The log grows by a forest, or by the beginning of one before a halt. -/
def Grows (w : World π σ) (e : Ending Unit) (w' : World π σ) : Prop :=
  ∃ since rest, w'.marks = w.marks ++ since ∧ Forest (since ++ rest) ∧
    ((∀ reason, e ≠ .halted reason) → rest = [])

end World

namespace World.Grows

theorem of_marks (h : w'.marks = w.marks) : w.Grows e w' :=
  ⟨[], [], by simp [h], .nil, fun _ => rfl⟩

theorem trans (h₁ : w.Grows (.value ()) w₁) (h₂ : w₁.Grows e w') : w.Grows e w' := by
  obtain ⟨since₁, rest₁, hmarks₁, hforest₁, hrest₁⟩ := h₁
  obtain ⟨since₂, rest₂, hmarks₂, hforest₂, hrest₂⟩ := h₂
  obtain rfl := hrest₁ (by simp)
  rw [List.append_nil] at hforest₁
  exact ⟨since₁ ++ since₂, rest₂, by rw [hmarks₂, hmarks₁, List.append_assoc],
    by rw [List.append_assoc]; exact hforest₁.append hforest₂, hrest₂⟩

theorem note (h : w.Grows e w₁) (he : ∀ reason, e ≠ .halted reason) {m : Mark}
    (hm : m.isAside) : w.Grows e' (w₁.note m) := by
  obtain ⟨since, rest, hmarks, hforest, hrest⟩ := h
  obtain rfl := hrest he
  rw [List.append_nil] at hforest
  exact ⟨since ++ [m], [], by rw [World.marks_note, hmarks, List.append_assoc],
    by simpa using hforest.append (.aside hm), fun _ => rfl⟩

theorem aside (w : World π σ) {m : Mark} (hm : m.isAside) : w.Grows e (w.note m) :=
  note (of_marks (e := .value ()) rfl) (by simp) hm

theorem production {w₂ w₃ : World π σ} {h : Handle k} {f : Flavour} {inside : List Mark}
    {r answer : Ending (Except EvalError k.Val)} {x y : Finish EvalError Value}
    (hmarks : w₂.marks =
      w.marks ++ ([.asked h.id, .emitted (.forcing f h.id), .begun h.id] ++ inside))
    (hinside : Forest inside) (hx : r.noted? = some x)
    (hconclude : w₃.marks = (w₂.conclude h f r).marks) (hy : answer.noted? = some y)
    (hsettles : x.Settles y) : w.Grows e (w₃.exit h f answer) := by
  have htree := Forest.production f h.id hinside hsettles
  refine ⟨_, [], ?_, by rw [List.append_nil]; exact htree, fun _ => rfl⟩
  rw [World.marks_exit _ _ _ hy, hconclude, World.marks_conclude _ _ _ hx, hmarks]
  simp

end World.Grows

namespace Exec

def Grows (x : Exec π σ α) : Prop := ∀ w : World π σ, w.Grows (x w).1.forget (x w).2

namespace Grows

theorem of_marks {x : Exec π σ α} (hx : ∀ w, (x w).2.marks = w.marks) : x.Grows :=
  fun w => .of_marks (hx w)

theorem pure (a : α) : (Pure.pure a : Exec π σ α).Grows := of_marks fun _ => rfl

theorem note {m : Mark} (hm : m.isAside) : (Exec.note m : Exec π σ Unit).Grows :=
  fun w => .aside w hm

theorem bind {x : Exec π σ α} {f : α → Exec π σ β} (hx : x.Grows) (hf : ∀ a, (f a).Grows) :
    (x >>= f).Grows := by
  intro w
  have hw := hx w
  rw [bind_def]
  rcases hr : x w with ⟨a | message | reason, w₁⟩ <;> rw [hr] at hw
  · exact hw.trans (hf a w₁)
  · exact hw
  · exact hw

theorem attempt {x : Exec π σ α} (hx : x.Grows) : x.attempt.Grows := by
  intro w
  have hw := hx w
  unfold Exec.attempt
  rcases hr : x w with ⟨a | message | reason, w₁⟩ <;> rw [hr] at hw
  · exact hw
  · exact hw.note (by simp) rfl
  · exact hw

theorem recorded {x : Exec π σ (Except ε α)} {mark : Finish ε α → Mark} (hx : x.Grows)
    (hmark : ∀ r, (mark r).isAside) : (x.recorded mark).Grows := by
  intro w
  have hw := hx w
  unfold Exec.recorded Exec.closing
  rcases hr : x w with ⟨a | message | reason, w₁⟩ <;> rw [hr] at hw
  · exact hw.note (by simp) (hmark _)
  · exact hw.note (by simp) (hmark _)
  · exact hw

end Grows

end Exec

namespace Environment

def Records (env : Environment π σ) : Prop :=
  ∀ event w, (∀ message, (env.notify event w).1 ≠ .panicked message) ∧
    (env.notify event w).2.marks = w.marks

structure Grows (env : Environment π σ) : Prop where
  call : ∀ k code, (env.call k code).Grows
  records : env.Records

namespace Grows

variable {env : Environment π σ}

theorem produce (henv : env.Grows) (p : Producer π k) : (env.produce p).Grows := by
  cases p with
  | constant v => exact .pure _
  | division a b => exact .pure _
  | custom code => exact henv.call k code

theorem settle (henv : env.Grows) (h : Handle k) (f : Flavour) (s : Source π k)
    (hopened : (w₁.call h s).marks =
      w.marks ++ [.asked h.id, .emitted (.forcing f h.id), .begun h.id]) :
    w.Grows (env.settle h f s w₁).1.forget
      ((env.settle h f s w₁).2.exit h f (env.settle h f s w₁).1) := by
  have hcall := henv.produce s.producer (w₁.call h s)
  rw [settle_eq]
  rcases hp : env.produce s.producer (w₁.call h s) with ⟨(x | v) | message | reason, w₂⟩ <;>
    rw [hp] at hcall <;> obtain ⟨inside, rest, hmarks, hforest, hrest⟩ := hcall <;>
    rw [hopened, List.append_assoc] at hmarks <;> simp only
  · obtain rfl := hrest (by simp)
    rw [List.append_nil] at hforest
    obtain ⟨hcalm, hquiet⟩ := henv.records (.evaluationFailed f h.id x)
      (w₂.conclude h f (.value (.error x)))
    rcases hn : env.notify (.evaluationFailed f h.id x) (w₂.conclude h f (.value (.error x))) with
      ⟨_ | message | reason, w₃⟩ <;> rw [hn] at hcalm hquiet
    · exact .production hmarks hforest (r := .value (.error x)) rfl hquiet rfl (.error x)
    · exact absurd rfl (hcalm message)
    · rw [World.marks_conclude _ _ _ rfl, hmarks, List.append_assoc] at hquiet
      refine ⟨_, [.answered h.id (.error x)], (w₃.marks_exit_halted h f reason).trans hquiet, ?_,
        fun hne => absurd rfl (hne reason)⟩
      simpa [Finish.of, Finish.map] using Forest.production f h.id hforest (.error x)
  · obtain rfl := hrest (by simp)
    rw [List.append_nil] at hforest
    exact .production hmarks hforest (r := .value (.ok v)) rfl rfl rfl (.value _ _)
  · obtain rfl := hrest (by simp)
    rw [List.append_nil] at hforest
    exact .production hmarks hforest (r := .panicked message) rfl rfl rfl (.panic message)
  · -- The halt leaves the tree open; a panic would have closed it.
    refine ⟨_, rest ++ [.ended h.id (.panic ""), .answered h.id (.panic "")],
      (w₂.marks_exit_halted h f reason).trans hmarks, ?_, fun hne => absurd rfl (hne reason)⟩
    simpa [Finish.report] using Forest.production f h.id hforest (.panic "")

theorem awaiting (henv : env.Grows) {h : Handle k} {c : Cell π k} {f : Flavour} {s : Source π k}
    (hc : w.heap.cell? h = some c) (ha : c.Awaits f s) :
    w.Grows (env.force h w).1.forget (env.force h w).2 := by
  obtain ⟨hcalm, hquiet⟩ := henv.records (.forcing f h.id) ((w.enter h f).announce h f)
  rw [World.marks_announce, World.marks_enter, List.append_assoc] at hquiet
  rw [force_awaiting env hc ha, evaluate_eq]
  rcases hn : env.notify (.forcing f h.id) ((w.enter h f).announce h f) with
    ⟨_ | message | reason, w₁⟩ <;> rw [hn] at hcalm hquiet
  · exact henv.settle h f s (by rw [World.marks_call, hquiet, List.append_assoc]; rfl)
  · exact absurd rfl (hcalm message)
  · refine ⟨_, [.begun h.id, .ended h.id (.panic ""), .answered h.id (.panic "")],
      (w₁.marks_exit_halted h f reason).trans hquiet, ?_, fun hne => absurd rfl (hne reason)⟩
    simpa [Finish.report] using Forest.production f h.id .nil (.panic "")

theorem force (henv : env.Grows) (h : Handle k) : (env.force h).Grows := by
  intro w
  cases hc : w.heap.cell? h with
  | none =>
    rw [force_dangling env h hc]
    exact .of_marks rfl
  | some c =>
    rcases c.access_cases with ⟨v, hv⟩ | ⟨f, s, ha⟩ | ha | ha
    · rw [force_known env ((World.peek_of_cell? hc).trans hv)]
      exact ⟨[.asked h.id, .answered h.id (.value (.of v))], [], by
        simp [World.answer, Finish.of, Finish.map], .atOnce h.id (.value _), fun _ => rfl⟩
    · exact henv.awaiting hc ha
    · rw [force_eq env h hc, ha]
      exact ⟨[.asked h.id], [.answered h.id (.error .poisoned)], by
        simp [resolve, Exec.halt, World.answer], .atOnce h.id .poisoned,
        fun hne => absurd rfl (hne .deadlock)⟩
    · rw [force_eq env h hc, ha]
      exact ⟨[.asked h.id, .answered h.id (.error .poisoned)], [], by
        simp [resolve, World.answer, Finish.of, Finish.map], .atOnce h.id .poisoned, fun _ => rfl⟩

theorem emit (henv : env.Grows) {event : Event} (hevent : (Mark.emitted event).isAside) :
    (env.emit event).Grows :=
  .bind (.note hevent) fun _ w => .of_marks (henv.records event w).2

theorem check (henv : env.Grows) (t : Watch) (reported : List String) (c : Check) :
    (env.check t reported c).Grows := by
  cases c with
  | field name expected actual =>
    simp only [Environment.check]
    split
    · exact .bind (henv.emit rfl) fun _ => .pure _
    · exact .pure _
  | untouched name =>
    refine .bind (.of_marks fun _ => rfl) fun disturbed => ?_
    split
    · exact .bind (.of_marks fun _ => rfl) fun _ => .pure _
    · exact .bind (henv.emit rfl) fun _ => .pure _

theorem checkAll (henv : env.Grows) (t : Watch) (reported : List String)
    (checks : List Check) : (env.checkAll t reported checks).Grows := by
  induction checks generalizing reported with
  | nil => exact .pure _
  | cons c rest ih =>
    refine .bind (henv.check t reported c) fun r => ?_
    cases r with
    | ok reported => exact ih reported
    | error x => exact .pure _

theorem access (henv : env.Grows) (t : Watch) (reported : List String) (b : B) :
    (env.access t reported b).Grows := by
  refine .bind (.note rfl) fun _ => .bind (henv.force _) fun r => ?_
  cases r with
  | ok v => exact .pure _
  | error x => exact .bind (henv.emit rfl) fun _ => .pure _

theorem verify (henv : env.Grows) (s : Scenario) : (env.verify s).Grows := by
  refine .bind (.of_marks fun _ => rfl) fun t => .bind (.note rfl) fun _ => ?_
  refine .recorded (.bind (henv.checkAll t _ _) fun r => ?_) fun _ => rfl
  cases r with
  | ok reported => exact henv.access t reported _
  | error x => exact .pure _

theorem exec (henv : env.Grows) (x : Proc π σ α) : (x.exec env).Grows := by
  induction x with
  | pure a => exact .pure a
  | bind x f ihx ihf => exact .bind ihx ihf
  | act a =>
    cases a with
    | quiet q => exact .of_marks fun w => w.marks_quiet q
    | get h => exact henv.force h
    | verify s => exact henv.verify s
  | panic message => exact fun w => .aside w rfl
  | attempt x ih => exact ih.attempt

end Grows

end Environment

namespace Host

variable {host : Host π σ}

def Records (host : Host π σ) : Prop := ∀ event, (host.listen event).Unforcing fun _ => ()

theorem Records.hears (h : host.Records) (depth : Nat) (event : Event) (w : World π σ) :
    ∃ w', (host.environment (depth + 1)).notify event w = (.value (), w') ∧
      w.Untouched (fun _ => ()) w' := by
  obtain ⟨_, w', hrun, huntouched⟩ := (h event).exec (host.environment depth) w
  exact ⟨w', hrun, huntouched⟩

theorem Records.environment (h : host.Records) (depth : Nat) :
    (host.environment depth).Records := by
  intro event w
  cases depth with
  | zero => exact ⟨nofun, rfl⟩
  | succ depth =>
    obtain ⟨w', hheard, huntouched⟩ := h.hears depth event w
    rw [hheard]
    exact ⟨nofun, huntouched.marks⟩

theorem Records.grows (h : host.Records) (depth : Nat) : (host.environment depth).Grows := by
  induction depth with
  | zero => exact ⟨fun _ _ _ => .of_marks rfl, h.environment 0⟩
  | succ depth ih => exact ⟨fun k code => ih.exec (host.produce k code), h.environment (depth + 1)⟩

theorem Records.account (h : host.Records) (depth : Nat) (x : Proc π σ α) (w : World π σ) :
    ∃ since rest, (host.run depth x w).2.marks = w.marks ++ since ∧ Forest (since ++ rest) ∧
      ((∀ reason, (host.run depth x w).1 ≠ .halted reason) → rest = []) ∧
      EventAccount (∃ reason, (host.run depth x w).1 = .halted reason) since := by
  obtain ⟨since, rest, hmarks, hforest, hrest⟩ := (h.grows depth).exec x w
  have hcomplete (hne : ∀ reason, (host.run depth x w).1 ≠ .halted reason) : rest = [] := by
    refine hrest fun reason hr => ?_
    rw [← Host.run] at hr
    rcases hx : host.run depth x w with ⟨_ | _ | _, _⟩ <;> simp_all
  obtain ⟨t, hsince, hrest'⟩ := Advances.append_iff.mp (hforest.advances [])
  refine ⟨since, rest, hmarks, hforest, hcomplete, hsince.account fun hnot => ?_⟩
  obtain rfl := hcomplete fun reason hr => hnot ⟨reason, hr⟩
  cases hrest'
  rfl

def Keeps (host : Host π σ) (I : σ → Prop) : Prop :=
  ∀ event depth w, I w.host → I ((host.environment (depth + 1)).notify event w).2.host

end Host

structure Link (π : Kind → Type) where
  kind : Kind
  handle : Handle kind
  flavour : Flavour
  source : Source π kind

namespace Link

def Waits (l : Link π) (w : World π σ) : Prop :=
  ∃ c, w.heap.cell? l.handle = some c ∧ c.Awaits l.flavour l.source

def forcing (l : Link π) : Event := .forcing l.flavour l.handle.id

def failed (e : EvalError) (l : Link π) : Event := .evaluationFailed l.flavour l.handle.id e

theorem Waits.called {ω : Type} {view : σ → ω} {l l' : Link π} (hwaits : l'.Waits w)
    (hne : l'.handle.id ≠ l.handle.id)
    (hheard : ((w.enter l.handle l.flavour).announce l.handle l.flavour).Untouched view w₁) :
    l'.Waits (w₁.call l.handle l.source) := by
  obtain ⟨c, hc, ha⟩ := hwaits
  refine ⟨c, ?_, ha⟩
  rw [World.heap_call]
  exact hheard.cells _ _ ((w.cell?_enter_of_ne hne l.flavour).trans hc)

end Link

/-- An error that the last producer returns, in a state of the host for which `I` holds, is passed
up by all the others. -/
inductive Host.Relays (host : Host π σ) (I : σ → Prop) (e : EvalError) : List (Link π) → Prop
  | last {l : Link π} :
      (∀ depth w, I w.host → ∃ w', (host.environment (depth + 1)).produce l.source.producer w =
        (.value (.error e), w') ∧ w'.events = w.events) → Relays host I e [l]
  | passes {l next : Link π} {links : List (Link π)} {code : π l.kind} :
      l.source.producer = .custom code →
      (∀ depth w w', host.run depth next.handle.get w = (.value (.error e), w') →
        host.run depth (host.produce l.kind code) w = (.value (.error e), w')) →
      (∀ l' ∈ next :: links, l'.handle.id ≠ l.handle.id) →
      Relays host I e (next :: links) → Relays host I e (l :: next :: links)

def Mark.event? : Mark → Option Event
  | .emitted event => some event
  | _ => none

theorem World.events_of_marks {marks : List Mark} (h : w'.marks = w.marks ++ marks) :
    w'.events = w.events ++ marks.filterMap Mark.event? := by
  have hevents (v : World π σ) : v.events = v.marks.filterMap Mark.event? := by
    rw [World.events]
    congr 1
  rw [hevents, hevents, h, List.filterMap_append]

namespace Environment

variable {env : Environment π σ}

theorem force_fails {h : Handle k} {c : Cell π k} {f : Flavour} {s : Source π k} {x : EvalError}
    {w₂ w₃ : World π σ} (hc : w.heap.cell? h = some c) (ha : c.Awaits f s)
    (hheard : env.notify (.forcing f h.id) ((w.enter h f).announce h f) = (.value (), w₁))
    (hp : env.produce s.producer (w₁.call h s) = (.value (.error x), w₂))
    (hheard' : env.notify (.evaluationFailed f h.id x) (w₂.conclude h f (.value (.error x))) =
      (.value (), w₃)) :
    env.force h w = (.value (.error x), w₃.exit h f (.value (.error x))) := by
  have hsettle : env.settle h f s w₁ = (.value (.error x), w₃) := by
    rw [settle_eq, hp]
    simp only [hheard']
  rw [force_awaiting env hc ha, evaluate_eq, hheard]
  simp only [hsettle]

end Environment

namespace Host

variable {host : Host π σ} {I : σ → Prop} {x : EvalError}

theorem Records.link (h : host.Records) (hI : host.Keeps I) {l : Link π} {depth : Nat}
    {events : List Event} (hw : l.Waits w) (hstate : I w.host)
    (hproduce : ∀ w₁ : World π σ, I w₁.host →
      (∀ l' : Link π, l'.handle.id ≠ l.handle.id → l'.Waits w → l'.Waits w₁) →
      ∃ w₂, (host.environment (depth + 1)).produce l.source.producer w₁ = (.value (.error x), w₂) ∧
        w₂.events = w₁.events ++ events) :
    ∃ w', host.run (depth + 1) l.handle.get w = (.value (.error x), w') ∧
      w'.events = w.events ++ l.forcing :: (events ++ [l.failed x]) := by
  obtain ⟨c, hc, ha⟩ := hw
  obtain ⟨w₁, hheard, huntouched⟩ := h.hears depth l.forcing
    ((w.enter l.handle l.flavour).announce l.handle l.flavour)
  have hstate₁ : I w₁.host := by
    have hkept := hI l.forcing depth ((w.enter l.handle l.flavour).announce l.handle l.flavour)
      (by rw [← w.host_enter l.handle l.flavour] at hstate; exact hstate)
    rwa [hheard] at hkept
  obtain ⟨w₂, hp, hevents⟩ := hproduce (w₁.call l.handle l.source)
    (by rwa [World.host_call]) fun l' hne hwaits => hwaits.called hne huntouched
  obtain ⟨w₃, hheard', huntouched'⟩ := h.hears depth (l.failed x)
    (w₂.conclude l.handle l.flavour (.value (.error x)))
  refine ⟨_, Environment.force_fails hc ha hheard hp hheard', ?_⟩
  have hcalled : (w₁.call l.handle l.source).marks =
      w.marks ++ [.asked l.handle.id, .emitted l.forcing, .begun l.handle.id] := by
    rw [World.marks_call, huntouched.marks]
    simp [Link.forcing]
  have hclosed : (w₃.exit l.handle l.flavour (.value (.error x))).marks =
      w₂.marks ++ [.ended l.handle.id (.error x), .emitted (l.failed x),
        .answered l.handle.id (.error x)] := by
    rw [World.marks_exit _ _ _ rfl, huntouched'.marks, World.marks_conclude _ _ _ rfl]
    simp [Finish.of, Finish.map, Finish.report, Link.failed]
  rw [World.events_of_marks hclosed, hevents, World.events_of_marks hcalled]
  simp [Mark.event?, List.filterMap_cons]

theorem Records.relayed (h : host.Records) (hI : host.Keeps I) {links : List (Link π)}
    (hrelays : host.Relays I x links) (depth : Nat) (hdepth : links.length ≤ depth)
    (hwaits : ∀ l ∈ links, l.Waits w) (hstate : I w.host) :
    ∃ l ∈ links.head?, ∃ w', host.run depth l.handle.get w = (.value (.error x), w') ∧
      w'.events = w.events ++ (links.map Link.forcing ++ links.reverse.map (Link.failed x)) := by
  induction hrelays generalizing depth w with
  | @last l hlast =>
    cases depth with
    | zero => simp at hdepth
    | succ depth =>
      refine ⟨l, rfl, h.link hI (hwaits l (by simp)) hstate fun w₁ hstate₁ _ => ?_⟩
      obtain ⟨w₂, hp, hevents⟩ := hlast depth w₁ hstate₁
      exact ⟨w₂, hp, by simp [hevents]⟩
  | @passes l next links code hcode hpass hne _ ih =>
    cases depth with
    | zero => simp at hdepth
    | succ depth =>
      -- The links behind this one are still waiting when its producer is called.
      have hinside (w₁ : World π σ) (hstate₁ : I w₁.host)
          (hwaits₁ : ∀ l' : Link π, l'.handle.id ≠ l.handle.id → l'.Waits w → l'.Waits w₁) :
          ∃ w₂, (host.environment (depth + 1)).produce l.source.producer w₁ =
              (.value (.error x), w₂) ∧
            w₂.events = w₁.events ++ ((next :: links).map Link.forcing ++
              (next :: links).reverse.map (Link.failed x)) := by
        obtain ⟨_, ⟨⟩, w₂, hrun, hevents⟩ := ih depth (by simpa using hdepth)
          (fun l' hl' => hwaits₁ l' (hne l' hl') (hwaits l' (List.mem_cons_of_mem l hl'))) hstate₁
        rw [hcode]
        exact ⟨w₂, hpass depth w₁ w₂ hrun, hevents⟩
      obtain ⟨w', hrun, hevents⟩ := h.link hI (hwaits l (by simp)) hstate hinside
      exact ⟨l, rfl, w', hrun, by simp [hevents]⟩

end Host

/-- What the marks of runs tell about events, and how an error climbs a chain of fields. -/
structure Host.KeepsAccounts (host : Host π σ) : Prop where
  /-- The trees contain all that happens, the announcements and reports in their places. A halt
  may break off the last of them. -/
  runs : ∀ {α : Type} (depth : Nat) (x : Proc π σ α) (w : World π σ),
    ∃ since rest, (host.run depth x w).2.marks = w.marks ++ since ∧ Forest (since ++ rest) ∧
      ((∀ reason, (host.run depth x w).1 ≠ .halted reason) → rest = []) ∧
      EventAccount (∃ reason, (host.run depth x w).1 = .halted reason) since
  known : ∀ {k : Kind} (depth : Nat) (h : Handle k) (v : k.Val) (w : World π σ),
    w.peek h = some v → (host.run depth h.get w).1 = .value (.ok v) ∧
      (host.run depth h.get w).2.marks =
        w.marks ++ [.asked h.id, .answered h.id (.value (.of v))]
  refused : ∀ {k : Kind} (depth : Nat) (h : Handle k) (c : Cell π k) (w : World π σ),
    w.heap.cell? h = some c → c.access = .refused →
      (host.run depth h.get w).1 = .value (.error .poisoned) ∧
      (host.run depth h.get w).2.marks =
        w.marks ++ [.asked h.id, .answered h.id (.error .poisoned)]
  chain : ∀ (I : σ → Prop) (e : EvalError) (links : List (Link π)) (depth : Nat) (w : World π σ),
    host.Keeps I → host.Relays I e links → links.length ≤ depth → (∀ l ∈ links, l.Waits w) →
      I w.host → ∃ l ∈ links.head?, ∃ w', host.run depth l.handle.get w = (.value (.error e), w') ∧
        w'.events = w.events ++ (links.map Link.forcing ++ links.reverse.map (Link.failed e))

theorem Host.keeps_accounts (host : Host π σ) (h : host.Records) : host.KeepsAccounts where
  runs := h.account
  known depth h v w hv := by
    have hforce := Environment.force_known (host.environment depth) hv
    exact ⟨congrArg Prod.fst hforce, (congrArg (·.2.marks) hforce).trans (by
      simp [World.answer, Finish.of, Finish.map])⟩
  refused depth h c w hc ha := by
    have hforce := Environment.force_eq (host.environment depth) h hc
    rw [ha] at hforce
    exact ⟨congrArg Prod.fst hforce, (congrArg (·.2.marks) hforce).trans (by
      simp [Environment.resolve, World.answer, Finish.of, Finish.map])⟩
  chain I e links depth w hI hrelays hdepth hwaits hstate :=
    h.relayed hI hrelays depth hdepth hwaits hstate

def Host.recording : Host (fun _ => Handle .int) (List Event) where
  produce
    | .int, h => h.get
    | .text, _ => return .ok ""
  listen event := Proc.tell (event :: ·)

def Link.dividing : List (Link fun _ => Handle .int) :=
  [⟨.int, ⟨2⟩, .single, .plain (.custom ⟨1⟩)⟩, ⟨.int, ⟨1⟩, .shared, .plain (.custom ⟨0⟩)⟩,
    ⟨.int, ⟨0⟩, .single, .plain (.division 1 0)⟩]

def World.withDividing : World (fun _ => Handle .int) (List Event) :=
  Link.dividing.reverse.foldl (fun w l => (w.alloc (.fresh l.flavour l.source)).2) (.start [])

theorem Host.keeps_accounts_recording :
    Host.recording.Records ∧
      Host.recording.Relays (fun _ => True) (.arithmetic "/ by zero") Link.dividing ∧
      ∃ w', Host.recording.run 3 (⟨2⟩ : Handle .int).get World.withDividing =
          (.value (.error (.arithmetic "/ by zero")), w') ∧
        w'.events = Link.dividing.map Link.forcing ++
          Link.dividing.reverse.map (Link.failed (.arithmetic "/ by zero")) := by
  have hrecords : Host.recording.Records := fun _ => .tell _ fun _ => rfl
  have hrelays : Host.recording.Relays (fun _ => True) (.arithmetic "/ by zero")
      Link.dividing :=
    .passes rfl (fun _ _ _ h => h) (by decide)
      (.passes rfl (fun _ _ _ h => h) (by decide) (.last fun _ w _ => ⟨w, rfl, rfl⟩))
  have hwaits : ∀ l ∈ Link.dividing, l.Waits World.withDividing := by
    intro l hl
    simp only [Link.dividing, List.mem_cons, List.not_mem_nil, or_false] at hl
    rcases hl with rfl | rfl | rfl
    · exact ⟨_, rfl, .single⟩
    · exact ⟨_, rfl, .shared⟩
    · exact ⟨_, rfl, .single⟩
  obtain ⟨_, ⟨⟩, hrun⟩ := (Host.keeps_accounts Host.recording hrecords).chain (fun _ => True) _
    Link.dividing 3 World.withDividing (fun _ _ _ _ => trivial) hrelays (by decide) hwaits trivial
  exact ⟨hrecords, hrelays, hrun⟩

end LazyFields
