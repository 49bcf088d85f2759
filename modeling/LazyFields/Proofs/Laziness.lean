import LazyFields.Proofs.Filling
import LazyFields.Script.Evaluate

/-!
Laziness. A program that only makes handles and looks at them returns, and nothing that was there
changes; a script of steps that do not force is such a program. In all other runs a cell gains a
value only inside an access to it, from a call of its own producer.
-/

namespace LazyFields

variable {π : Kind → Type} {σ ω α β : Type} {k : Kind}

/-- Nothing that was there has changed: not the record, not a cell, not a tally, and not the host
as far as it is viewed. -/
structure World.Untouched (view : σ → ω) (w w' : World π σ) : Prop where
  journal : w'.journal = w.journal
  runs : w'.runs = w.runs
  cells : ∀ ⦃k : Kind⦄ (h : Handle k) (c : Cell π k), w.heap.cell? h = some c →
    w'.heap.cell? h = some c
  tallies : w.tallies <+: w'.tallies
  host : view w'.host = view w.host

namespace World.Untouched

variable {view : σ → ω}

theorem refl (w : World π σ) : w.Untouched view w :=
  ⟨rfl, rfl, fun _ _ _ hc => hc, List.prefix_refl _, rfl⟩

theorem trans {u v w : World π σ} (huv : u.Untouched view v) (hvw : v.Untouched view w) :
    u.Untouched view w :=
  ⟨hvw.journal.trans huv.journal, hvw.runs.trans huv.runs,
    fun _ h c hc => hvw.cells h c (huv.cells h c hc), huv.tallies.trans hvw.tallies,
    hvw.host.trans huv.host⟩

theorem quiet {q : Quiet π σ α} {w : World π σ} (hhost : view (q.apply w).2.host = view w.host) :
    w.Untouched view (q.apply w).2 := by
  refine ⟨w.journal_quiet q, ?_, fun _ h c hc => q.cell?_apply w hc, ?_, hhost⟩
  · cases q <;> rfl
  · cases q with
    | scenario p => exact List.prefix_append _ _
    | _ => exact List.prefix_refl _

end World.Untouched

/-- The program only makes handles, looks at them and uses its host, of which it leaves alone
what is viewed. -/
inductive Proc.Unforcing (view : σ → ω) : {α : Type} → Proc π σ α → Prop
  | pure {α : Type} (a : α) : Unforcing view (.pure a)
  | bind {α β : Type} {x : Proc π σ α} {f : α → Proc π σ β} :
      x.Unforcing view → (∀ a, (f a).Unforcing view) → Unforcing view (.bind x f)
  | quiet {α : Type} {q : Quiet π σ α} :
      (∀ w, view (q.apply w).2.host = view w.host) → Unforcing view (.act (.quiet q))
  | attempt {α : Type} {x : Proc π σ α} : x.Unforcing view → Unforcing view (.attempt x)

namespace Proc.Unforcing

variable {view : σ → ω}

theorem exec {x : Proc π σ α} (hx : x.Unforcing view) (env : Environment π σ) (w : World π σ) :
    ∃ a w', x.exec env w = (.value a, w') ∧ w.Untouched view w' := by
  induction hx generalizing w with
  | pure a => exact ⟨a, w, rfl, .refl w⟩
  | bind _ _ ihx ihf =>
    obtain ⟨a, u, hrun, hu⟩ := ihx w
    obtain ⟨b, v, hrun', hv⟩ := ihf a u
    exact ⟨b, v, (Exec.bind_of_value hrun).trans hrun', hu.trans hv⟩
  | quiet hq => exact ⟨_, _, rfl, .quiet (hq w)⟩
  | @attempt _ x _ ih =>
    obtain ⟨a, u, hrun, hu⟩ := ih w
    refine ⟨.ok a, u, ?_, hu⟩
    show (x.exec env).attempt w = _
    rw [Exec.attempt, hrun]

theorem andThen {x : Proc π σ α} {f : α → Proc π σ β} (hx : x.Unforcing view)
    (hf : ∀ a, (f a).Unforcing view) : (x >>= f).Unforcing view :=
  .bind hx hf

theorem done (a : α) : (Pure.pure a : Proc π σ α).Unforcing view := .pure a

theorem effect (f : σ → α × σ) (hf : ∀ s, view (f s).2 = view s) :
    (Proc.host f : Proc π σ α).Unforcing view :=
  .quiet fun w => hf w.host

theorem ask (f : σ → α) : (Proc.ask f : Proc π σ α).Unforcing view := effect _ fun _ => rfl

theorem tell (f : σ → σ) (hf : ∀ s, view (f s) = view s) :
    (Proc.tell f : Proc π σ Unit).Unforcing view :=
  effect _ hf

theorem look (h : Handle k) : (h.peek : Proc π σ _).Unforcing view := .quiet fun _ => rfl

theorem lookEvaluated (h : Handle k) : (h.isEvaluated : Proc π σ Bool).Unforcing view :=
  (look h).andThen fun _ => done _

theorem lookTally (s : Scenario) : (s.evaluations : Proc π σ Nat).Unforcing view :=
  .quiet fun _ => rfl

theorem mapM {f : β → Proc π σ α} {bs : List β} (hf : ∀ b ∈ bs, (f b).Unforcing view) :
    (bs.mapM f).Unforcing view := by
  have hloop : ∀ acc, (List.mapM.loop f bs acc).Unforcing view := by
    induction bs with
    | nil => exact fun acc => done acc.reverse
    | cons b bs ih =>
      exact fun acc => (hf b List.mem_cons_self).andThen fun a =>
        ih (fun b hb => hf b (List.mem_cons_of_mem _ hb)) (a :: acc)
  exact hloop []

end Proc.Unforcing

namespace Script

def Step.forces : Step → Bool
  | .get _ | .threads _ _ | .lazyField _ | .tryEq _ _ | .verify _ | .run _ _ => true
  | _ => false

def Step.target? : Step → Option String
  | .defer name _ _ _ | .ready name _ _ | .clone _ name | .drop name | .newA name _ _
  | .newB name _ _ _ | .withNormalField _ name _ | .withDummyField _ name _
  | .withLazyField _ name _ | .asA _ name | .scenario name _ => some name
  | _ => none

def Session.besides (names : List String) (s : Session) : {n // n ∉ names} → Option Thing :=
  fun n => s.names[n.1]?

variable {names : List String} {name : String}

theorem Session.besides_define (hname : name ∈ names) (t : Thing) (s : Session) :
    (s.define name t).besides names = s.besides names := by
  funext ⟨n, hn⟩
  have hne : name ≠ n := fun e => hn (e ▸ hname)
  simp [besides, define, Std.TreeMap.getElem?_insert, hne]

theorem Session.besides_undefine (hname : name ∈ names) (s : Session) :
    (s.undefine name).besides names = s.besides names := by
  funext ⟨n, hn⟩
  have hne : name ≠ n := fun e => hn (e ▸ hname)
  simp [besides, undefine, Std.TreeMap.getElem?_erase, hne]

section

open Proc.Unforcing

variable {ω : Type} {view : Session → ω}

theorem shown_unforcing (t : Thing) : (Job.shown t).Unforcing view := by
  cases t with
  | handle _ _ h _ => exact (look h).andThen fun _ => done _
  | a r => exact (look r.lazyField).andThen fun _ => done _
  | b r => exact (look r.lazyField).andThen fun _ => done _
  | scenario s => exact (lookTally s).andThen fun _ => done _

theorem recordField?_unforcing (name : String) : (Job.recordField? name).Unforcing view := by
  refine (ask _).andThen fun t => ?_
  split <;> exact done _

theorem newRecipe_unforcing (hview : ∀ e s, view (Session.newRecipe e s).2 = view s) (e : Expr) :
    (Job.newRecipe e).Unforcing view :=
  effect _ (hview e)

theorem define_unforcing (hname : name ∈ names) (t : Thing) :
    (Job.define name t).Unforcing (Session.besides names) :=
  (tell _ (Session.besides_define hname t)).andThen fun _ =>
    (shown_unforcing t).andThen fun _ => done _

theorem Step.perform_unforcing (s : Step) (hs : s.forces = false)
    (hnames : ∀ name, s.target? = some name → name ∈ names) :
    s.perform.Unforcing (Session.besides names) := by
  have hdefine (name : String) (h : s.target? = some name) (t : Thing) :
      (Job.define name t).Unforcing (Session.besides names) :=
    define_unforcing (hnames name h) t
  cases s with
  | get | threads | lazyField | tryEq | verify | run => cases hs
  | malformed | checkedDiv | constant | evalError | evalErrorEq | verifyError | console =>
    exact done _
  | defer name f k producer =>
    refine (newRecipe_unforcing (fun _ _ => rfl) producer).andThen fun recipe => ?_
    exact (quiet fun _ => rfl).andThen fun h => hdefine name rfl _
  | ready name f v =>
    cases v with
    | int n => exact (quiet fun _ => rfl).andThen fun h => hdefine name rfl _
    | text t => exact (quiet fun _ => rfl).andThen fun h => hdefine name rfl _
  | isEvaluated source =>
    refine (ask _).andThen fun t => ?_
    split
    · exact (lookEvaluated _).andThen fun _ => done _
    · exact done _
  | calls source =>
    refine (ask _).andThen fun t => ?_
    split
    · exact (ask _).andThen fun _ => done _
    · exact done _
    · exact done _
  | sameCell l r =>
    refine (ask _).andThen fun t => (ask _).andThen fun u => ?_
    split
    · split <;> exact done _
    · exact done _
  | setCell name v => exact (tell (Session.setCell name v) fun _ => rfl).andThen fun _ => done _
  | clone source name =>
    refine (ask _).andThen fun t => ?_
    split
    · exact done _
    · exact done _
    · exact hdefine name rfl _
  | drop name =>
    refine (ask _).andThen fun t => ?_
    exact (tell _ (Session.besides_undefine (hnames name rfl))).andThen fun _ => done _
  | hook message nth steps =>
    exact (tell (Session.addHook ⟨message, nth, steps⟩) fun _ => rfl).andThen fun _ => done _
  | newA name | newB name =>
    refine (recordField?_unforcing _).andThen fun h => ?_
    split
    · exact hdefine name rfl _
    · exact done _
  | withNormalField source name =>
    refine (ask _).andThen fun t => ?_
    split
    · exact hdefine name rfl _
    · exact hdefine name rfl _
    · exact done _
  | withDummyField source name | asA source name =>
    refine (ask _).andThen fun t => ?_
    split
    · exact hdefine name rfl _
    · exact done _
  | withLazyField source name lazyName =>
    refine (ask _).andThen fun t => (recordField?_unforcing _).andThen fun h => ?_
    split
    · exact hdefine name rfl _
    · exact hdefine name rfl _
    · exact done _
  | normalField source | dummyField source =>
    refine (ask _).andThen fun t => ?_
    split <;> exact done _
  | display source =>
    refine (ask _).andThen fun t => ?_
    split
    · exact (shown_unforcing _).andThen fun _ => done _
    · exact (shown_unforcing _).andThen fun _ => done _
    · exact done _
  | debug source layout =>
    refine (ask _).andThen fun t => ?_
    split
    · exact (look _).andThen fun _ => done _
    · exact (look _).andThen fun _ => done _
    · exact (look _).andThen fun _ => done _
    · exact done _
  | scenario name producer =>
    cases producer with
    | some e =>
      refine (newRecipe_unforcing (fun _ _ => rfl) e).andThen fun recipe => ?_
      exact (quiet fun _ => rfl).andThen fun s => hdefine name rfl _
    | none => exact (quiet fun _ => rfl).andThen fun s => hdefine name rfl _
  | evaluations source =>
    refine (ask _).andThen fun t => ?_
    split
    · exact (lookTally _).andThen fun _ => done _
    · exact done _

theorem Session.closeFrame_names (v : Verdict) (s : Session) :
    (s.closeFrame v).2.names = s.names := by
  unfold closeFrame
  split <;> rfl

theorem Step.answer_unforcing (s : Step) (hs : s.forces = false)
    (hnames : ∀ name, s.target? = some name → name ∈ names) :
    s.answer.Unforcing (Session.besides names) := by
  have hclose (v : Verdict) (s : Session) :
      (s.closeFrame v).2.besides names = s.besides names := by
    funext n
    rw [Session.besides, Session.closeFrame_names, ← Session.besides]
  refine (tell Session.openFrame fun _ => rfl).andThen fun _ => ?_
  refine (Proc.Unforcing.attempt (s.perform_unforcing hs hnames)).andThen fun r => ?_
  cases r with
  | ok v => exact effect _ (hclose v)
  | error message => exact effect _ (hclose _)

end

end Script

structure Laziness (host : Host π σ) : Prop where
  unforcing : ∀ {α : Type} (depth : Nat) (x : Proc π σ α) (w : World π σ),
    x.Unforcing (fun _ => ()) →
      ∃ a w', host.run depth x w = (.value a, w') ∧ w.Untouched (fun _ => ()) w'
  forcing : ∀ {α : Type} (depth : Nat) (x : Proc π σ α) (w : World π σ),
    ∃ since, (host.run depth x w).2.marks = w.marks ++ since ∧
      (∀ ⦃k : Kind⦄ (h : Handle k) (c : Cell π k) (v : k.Val), w.heap.cell? h = some c →
        c.value? = none → (host.run depth x w).2.peek h = some v →
          (produced h.id (.of v)).Sublist since) ∧
      (∀ ⦃k : Kind⦄ (h : Handle k) (c : Cell π k), w.heap.cell? h = some c →
        (∀ f, .emitted (.forcing f h.id) ∉ since) →
          (host.run depth x w).2.heap.cell? h = some c)
  attributed : ∀ {α : Type} (depth : Nat) (x : Proc π σ α) (s : σ),
    (host.run depth x (.start s)).2.Attributed

theorem Host.laziness (host : Host π σ) : Laziness host where
  unforcing depth x w hx := hx.exec (host.environment depth) w
  forcing depth x w := by
    obtain ⟨since, hsince⟩ := host.run_obeys_law Accounted.lawful depth x w
    exact ⟨since, hsince.marks, fun _ h c v hc hv => hsince.filled h c v nofun hc hv,
      fun _ h c hc => hsince.unforced h c nofun hc⟩
  attributed depth x s := (host.run_obeys_law World.Attributed.lawful depth x _).2 (.start s)

/-- Making fields, records and scenarios, copying, updating, comparing handles, showing and
counting force nothing and change nothing; whatever forces, fills a cell by its own producer. -/
theorem forced_only_by_access :
    (∀ {π : Kind → Type} {σ : Type} (host : Host π σ), Laziness host) ∧
      ∀ (depth : Nat) (steps : List {s : Script.Step // s.forces = false})
        (w : World (fun _ => Script.Recipe) Script.Session),
        ∃ answers w',
          Script.host.run depth (steps.mapM fun s => s.1.answer) w = (.value answers, w') ∧
            w.Untouched (Script.Session.besides (steps.filterMap fun s => s.1.target?)) w' := by
  refine ⟨Host.laziness, fun depth steps w => ?_⟩
  refine Proc.Unforcing.exec (.mapM fun s hs => ?_) (Script.host.environment depth) w
  exact s.1.answer_unforcing s.2 fun name hname => List.mem_filterMap.mpr ⟨s, hs, hname⟩

end LazyFields
