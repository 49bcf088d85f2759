import Mathlib.Logic.ExistsUnique
import LazyFields.Proofs.Guard
import LazyFields.Proofs.Journal
import LazyFields.Proofs.Productions

/-!
A shared field under all interleavings. It is empty until a call of its producer returns a
value or panics, and from then on evaluated or poisoned for good; at most one call is under
way at any moment, and every call that began is accounted for.
-/

namespace LazyFields

variable {π : Kind → Type} {σ ρ τ α : Type} {k l : Kind} {w w' : World π σ}

def Mark.failed (c : CellId) : Mark → Bool
  | .ended d (.error _) => d = c
  | _ => false

def Guard.isPoisoned : Guard → Bool
  | .poisoned => true
  | .free | .held => false

@[simp] theorem Guard.isPoisoned_iff {g : Guard} : g.isPoisoned = true ↔ g = .poisoned := by
  cases g <;> simp [isPoisoned]

namespace World

def failures (w : World π σ) (c : CellId) : Nat := w.marks.countP (Mark.failed c)

def isPoisoned (w : World π σ) (c : CellId) : Bool := (w.guard c).isPoisoned

theorem failures_note (w : World π σ) (m : Mark) (c : CellId) :
    (w.note m).failures c = w.failures c + if Mark.failed c m then 1 else 0 := by
  simp [failures, List.countP_append, List.countP_singleton]

@[simp] theorem failures_publish (w : World π σ) (crew : Crew π σ) (e : Event) (c : CellId) :
    (w.publish crew e).failures c = w.failures c :=
  w.failures_note (.emitted e) c

@[simp] theorem productions_publish (w : World π σ) (crew : Crew π σ) (e : Event) (c : CellId) :
    (w.publish crew e).productions c = w.productions c :=
  w.productions_note_of_ne nofun

@[simp] theorem failures_quiet (w : World π σ) (q : Quiet π σ α) (c : CellId) :
    (q.apply w).2.failures c = w.failures c := by
  cases q <;> rfl

@[simp] theorem failures_call (w : World π σ) (h : Handle k) (s : Source π k) (c : CellId) :
    (w.call h s).failures c = w.failures c := by
  simp [failures, List.countP_append, Mark.failed]

@[simp] theorem failures_modify (w : World π σ) (h : Handle k) (f : Cell π k → Cell π k)
    (c : CellId) : (w.modify h f).failures c = w.failures c := rfl

@[simp] theorem failures_store (w : World π σ) (h : Handle k) (v : k.Val) (c : CellId) :
    (w.store h v).2.failures c = w.failures c := by
  simp [failures]

@[simp] theorem productions_store (w : World π σ) (h : Handle k) (v : k.Val) (c : CellId) :
    (w.store h v).2.productions c = w.productions c := by
  simp [productions]

@[simp] theorem failures_leave (w : World π σ) (h : Handle k) (r : Reply k) (c : CellId) :
    (w.leave h r).failures c = w.failures c := by
  simp [leave, failures_note, Mark.failed]

@[simp] theorem productions_leave (w : World π σ) (h : Handle k) (r : Reply k) (c : CellId) :
    (w.leave h r).productions c = w.productions c := by
  simp [leave, productions_note]

end World

/-- Whether the call of the producer is over but not done with: its value is not stored yet, or
its panic has not reached the guard. -/
def Phase.pending : Phase k → Bool
  | .fill _ | .release (.error _) => true
  | _ => false

def Thread.pending (c : CellId) : Thread π σ ρ → Nat
  | .running _ calls => calls.cells.count c
  | .inside h p _ calls =>
    if p.pending then (h.id :: calls.cells).count c else calls.cells.count c

namespace Thread

variable {crew : Crew π σ} {t t' : Thread π σ ρ} {h : Handle k} {c : Cell π k}

theorem pending_le_holding (t : Thread π σ ρ) (i : CellId) : t.pending i ≤ t.holding.count i := by
  cases t with
  | running => exact Nat.le_refl _
  | inside h p next calls =>
    have hle : calls.cells.count i ≤ (h.id :: calls.cells).count i := List.count_le_count_cons
    cases p with
    | look | lock | fill => exact Nat.le_refl _
    | lookAgain | announce | call | report => exact hle
    | release r =>
      cases r with
      | ok => exact hle
      | error => exact Nat.le_refl _

theorem Step.account (hstep : Step crew t w t' w') (hc : w.heap.cell? h = some c)
    (hmissed : h.id ∈ t.missed → c.source? ≠ none)
    (hheld : h.id ∈ t.holding → w.guard h.id = .held) (hsees : t.Sees h.id (w.value? h.id)) :
    w'.productions h.id + (w.failures h.id + (w.isPoisoned h.id).toNat +
        (w.value? h.id).isSome.toNat + t.pending h.id) =
      w.productions h.id + (w'.failures h.id + (w'.isPoisoned h.id).toNat +
        (w'.value? h.id).isSome.toNat + t'.pending h.id) := by
  cases hstep with
  | @back _ _ h' r =>
    rcases r with message | e | v <;>
      simp [World.productions_note, World.failures_note, World.isPoisoned, Mark.failed, pending,
        Phase.pending, Phase.after, Reply.finish, Finish.of, Finish.map, Calls.cells,
        List.count_cons]
    split <;> omega
  | quiet => simp [World.isPoisoned, World.guard_quiet hc, World.value?_quiet hc, pending]
  | ask | found | wait | refused | foundAgain | enter | announce | report =>
    simp [World.productions_note, World.failures_note, World.isPoisoned, Mark.failed, pending,
      Phase.pending]
  | call =>
    simp [World.productions_call, World.isPoisoned, pending, Phase.pending, List.count_cons,
      Calls.cells]
    omega
  | @take _ _ h' d _ _ _ hd _ hg =>
    have hpoisoned : (w.modify h' (·.withGuard .held)).isPoisoned h.id = w.isPoisoned h.id := by
      by_cases e : h.id = h'.id
      · obtain ⟨rfl, rfl⟩ := Handle.eq_of_id e
        rw [World.isPoisoned, World.guard_modify hc (hmissed List.mem_cons_self), World.isPoisoned,
          World.guard_eq hd, hg]
        rfl
      · rw [World.isPoisoned, World.guard_modify_of_ne e, World.isPoisoned]
    simp [hpoisoned, pending, Phase.pending]
  | @fill _ _ h' d v _ _ _ hd =>
    by_cases e : h.id = h'.id
    · obtain ⟨rfl, rfl⟩ := Handle.eq_of_id e
      have hnone : w.value? h.id = none := hsees.2 rfl none rfl
      simp [World.isPoisoned, hnone, World.value?_store hd, pending, Phase.pending]
      omega
    · simp [World.isPoisoned, World.value?_store_of_ne e, pending, Phase.pending, Ne.symm e]
  | @release _ _ h' d r =>
    by_cases e : h.id = h'.id
    · obtain ⟨rfl, rfl⟩ := Handle.eq_of_id e
      have hafter := World.guard_leave hc (hmissed List.mem_cons_self) r
      have hbefore := hheld List.mem_cons_self
      cases r <;>
        simp [World.isPoisoned, hafter, hbefore, Guard.isPoisoned, Guard.after, pending,
          Phase.pending]
      omega
    · have hafter : (w.leave h' r).guard h.id = w.guard h.id := World.guard_leave_of_ne e r
      cases r <;> simp [World.isPoisoned, hafter, pending, Phase.pending, Ne.symm e]

theorem Step.answered (hstep : Step crew t w t' w') (hsees : t.Sees h.id (w.value? h.id))
    {x : Value} (hx : .answered h.id (.value x) ∈ w'.marks) :
    .answered h.id (.value x) ∈ w.marks ∨ w.value? h.id = some x := by
  cases hstep with
  | back | ask | refused | announce | call | report => exact .inl (by simpa using hx)
  | wait | take | foundAgain | enter => exact .inl hx
  | quiet => exact .inl (by simpa using hx)
  | fill => exact .inl (by simpa using hx)
  | found hd _ hv =>
    rw [World.marks_note, List.mem_append, List.mem_singleton] at hx
    refine hx.imp_right fun hx => ?_
    obtain ⟨hid, hx⟩ := Mark.answered.inj hx
    rw [hid, World.value?_eq hd, hv, Option.map_some, Finish.value.inj hx]
  | @release _ _ h' d r =>
    rw [World.marks_leave, List.mem_append, List.mem_singleton] at hx
    refine hx.imp_right fun hx => ?_
    obtain ⟨hid, hx⟩ := Mark.answered.inj hx
    rcases r with message | e | v
    · cases hx
    · cases hx
    · obtain rfl : x = Value.of v := Finish.value.inj hx
      exact hsees.2 hid.symm _ rfl

/-- Where an access to `h` goes from one of its phases: to another phase, to its producer, or
back, with a reply that goes on record as its answer. -/
inductive Onward (crew : Crew π σ) (h : Handle k) (next : Reply k → Code π σ τ)
    (calls : Calls π σ ρ τ) (w : World π σ) : Thread π σ ρ → World π σ → Prop
  | phase (p : Phase k) (w' : World π σ) : Onward crew h next calls w (.inside h p next calls) w'
  | producer (s : Source π k) (w' : World π σ) :
      Onward crew h next calls w (.running (s.producer.code crew) (.call h next calls)) w'
  | back {w' : World π σ} (r : Reply k) :
      w'.marks = w.marks ++ [.answered h.id r.finish] →
      (∀ v, r = .ok (.ok v) → w.peek h = some v) →
      Onward crew h next calls w (.running (next r) calls) w'

theorem Step.onward {p : Phase k} {next : Reply k → Code π σ τ} {calls : Calls π σ ρ τ}
    (hstep : Step crew (.inside h p next calls) w t' w')
    (hsees : (Thread.inside h p next calls).Sees h.id (w.value? h.id)) :
    Onward crew h next calls w t' w' := by
  cases hstep with
  | wait | take | foundAgain | enter | announce | fill | report => exact .phase _ _
  | call => exact .producer _ _
  | found hc _ hv =>
    refine .back _ (w.marks_note _) ?_
    rintro _ ⟨⟩
    exact (World.peek_of_cell? hc).trans hv
  | refused => exact .back _ (w.marks_note _) nofun
  | @release _ _ _ _ r =>
    refine .back r (w.marks_leave h r) ?_
    rintro v rfl
    obtain ⟨u, hu, huv⟩ := Option.map_eq_some_iff.mp (hsees.2 rfl (some (.of v)) rfl)
    rwa [Value.of_injective huv] at hu

theorem Step.begun (hstep : Step crew t w t' w') (hsees : t.Sees h.id (w.value? h.id))
    (hbegun : w'.productions h.id ≠ w.productions h.id) :
    h.id ∈ t.holding ∧ w.value? h.id = none := by
  cases hstep with
  | back | ask | found | wait | take | refused | foundAgain | enter | announce | fill | report
  | release => exact absurd (by simp [World.productions]) hbegun
  | quiet => exact absurd (by simp) hbegun
  | @call _ _ h' =>
    by_cases e : h'.id = h.id
    · exact ⟨e ▸ List.mem_cons_self, hsees.2 e none rfl⟩
    · exact absurd (by simp [World.productions_call, e]) hbegun

theorem Step.poisoned (hstep : Step crew t w t' w') (hc : w.heap.cell? h = some c)
    (hheld : h.id ∈ t.holding → w.guard h.id = .held) (hg : w.guard h.id = .poisoned) :
    w'.guard h.id = .poisoned := by
  cases hstep with
  | back | ask | found | wait | refused | foundAgain | enter | announce | call | report | fill =>
    simpa using hg
  | quiet => rw [World.guard_quiet hc, hg]
  | @take _ _ h' d _ _ _ hd _ hfree =>
    have hne : h.id ≠ h'.id := by
      intro e
      rw [e, World.guard_eq hd, hfree] at hg
      cases hg
    rw [World.guard_modify_of_ne hne, hg]
  | @release _ _ h' =>
    have hne : h.id ≠ h'.id := by
      intro e
      rw [hheld (e ▸ List.mem_cons_self)] at hg
      cases hg
    rw [World.guard_leave_of_ne hne, hg]

end Thread

inductive Standing (k : Kind)
  | empty
  | evaluated (v : k.Val)
  | poisoned

def World.Stands (w : World π σ) (h : Handle k) : Standing k → Prop
  | .empty => w.peek h = none ∧ w.guard h.id ≠ .poisoned
  | .evaluated v => w.peek h = some v ∧ w.guard h.id ≠ .poisoned
  | .poisoned => w.peek h = none ∧ w.guard h.id = .poisoned

def Phase.early : Phase k → Bool
  | .look | .lock | .lookAgain | .announce | .call => true
  | _ => false

def Thread.calling (c : CellId) : Thread π σ ρ → Nat
  | .running _ calls => calls.cells.count c
  | .inside _ _ _ calls => calls.cells.count c

theorem Thread.calling_le_pending (t : Thread π σ ρ) (c : CellId) : t.calling c ≤ t.pending c := by
  cases t with
  | running => exact Nat.le_refl _
  | inside h p next calls =>
    simp only [calling, pending]
    split
    · exact List.count_le_count_cons
    · exact Nat.le_refl _

namespace Machine

variable {crew : Crew π σ} {m m' : Machine π σ ρ} {h : Handle k}

structure Orderly (crew : Crew π σ) (m : Machine π σ ρ) (h : Handle k) : Prop where
  alone : m.total (Thread.calling h.id) ≤ 1
  standing : ∃! st, m.world.Stands h st
  absorbed : ∀ m' st, m.Reaches crew m' → st ≠ .empty → m.world.Stands h st →
    m'.world.Stands h st
  begins : ∀ i m', m.step crew i = some m' →
    m'.world.productions h.id ≠ m.world.productions h.id → m.world.Stands h .empty
  /-- Each call that began has failed, has poisoned the field or given it its value, or it is the
  one that is not done with yet. -/
  account : m.world.productions h.id = m.world.failures h.id + (m.world.isPoisoned h.id).toNat +
    (m.world.isEvaluated h).toNat + m.total (Thread.pending h.id)
  pending : m.total (Thread.pending h.id) ≤ 1
  agree : ∀ x, .answered h.id (.value x) ∈ m.world.marks →
    ∃ v, x = .of v ∧ m.world.Stands h (.evaluated v)
  handed : ∀ (τ : Type) (p : Phase k) (next : Reply k → Code π σ τ) (calls : Calls π σ ρ τ)
    (t' : Thread π σ ρ) (w' : World π σ), .inside h p next calls ∈ m.threads →
    Thread.step crew (.inside h p next calls) m.world = some (t', w') →
      Thread.Onward crew h next calls m.world t' w'
  /-- An access that has not called the producer ends with an error only where it waited for a
  guard that has been poisoned. -/
  refused : ∀ (τ : Type) (p : Phase k) (next : Reply k → Code π σ τ) (calls : Calls π σ ρ τ)
    (e : EvalError), .inside h p next calls ∈ m.threads → p.early = true →
    (Thread.step crew (.inside h p next calls) m.world =
        some (.running (next (.ok (.error e))) calls, m.world.note (.answered h.id (.error e))) ↔
      p = .lock ∧ m.world.Stands h .poisoned ∧ e = .poisoned)

theorem keeps (hr : m.Reaches crew m') : m.world.heap.Keeps m'.world.heap := by
  induction hr with
  | refl => exact .refl _
  | step i _ hstep ih =>
    obtain ⟨t, t', -, hstep, -⟩ := step_cases hstep
    exact ih.trans hstep.keeps

theorem total_le {f g : Thread π σ ρ → Nat} (hfg : ∀ t, f t ≤ g t) (m : Machine π σ ρ) :
    m.total f ≤ m.total g :=
  sumOf_le_sumOf hfg m.threads

structure Counted (m : Machine π σ ρ) (h : Handle k) : Prop extends m.Guarded h where
  account : m.world.productions h.id = m.world.failures h.id + (m.world.isPoisoned h.id).toNat +
    (m.world.value? h.id).isSome.toNat + m.total (Thread.pending h.id)
  answers : ∀ x, .answered h.id (.value x) ∈ m.world.marks → m.world.value? h.id = some x
  shared : ∃ c s, m.world.heap.cell? h = some c ∧ c.flavour = .shared ∧ c.source? = some s

namespace Counted

theorem fresh_guarded {w : World π σ} {s : Source π k}
    (hc : w.heap.cell? h = some (.fresh .shared s)) (programs : List (Proc π σ ρ)) :
    (Machine.start w programs).Guarded h := by
  refine .start hc rfl ?_ ?_ programs
  · rw [World.guard_eq hc]
    simp [Cell.fresh, Cell.guard]
  · rw [World.guard_eq hc]
    simp [Cell.fresh, Cell.guard]

theorem start {w : World π σ} {s : Source π k} (hc : w.heap.cell? h = some (.fresh .shared s))
    (hunused : ∀ m ∈ w.marks, m.cell? ≠ some h.id) (programs : List (Proc π σ ρ)) :
    (Machine.start w programs).Counted h where
  toGuarded := fresh_guarded hc programs
  account := by
    have hproductions : w.productions h.id = 0 := by
      refine List.count_eq_zero_of_not_mem fun hmem => ?_
      exact hunused _ hmem rfl
    have hfailures : w.failures h.id = 0 := by
      refine List.countP_eq_zero.mpr fun m hmem hfailed => hunused m hmem ?_
      unfold Mark.failed at hfailed
      split at hfailed
      · simpa [Mark.cell?] using hfailed
      · cases hfailed
    have hpending : (Machine.start w programs).total (Thread.pending h.id) = 0 := by
      have hle := total_le (fun t => t.pending_le_holding h.id) (Machine.start w programs)
      rw [(fresh_guarded hc programs).held] at hle
      simp only [Machine.start, World.guard_eq hc, Cell.fresh, Cell.guard, Guard.holders] at hle
      exact Nat.le_zero.mp hle
    rw [hpending]
    simp [Machine.start, hproductions, hfailures, World.isPoisoned, World.guard_eq hc,
      World.value?_eq hc, Cell.fresh, Cell.guard, Cell.value?, Guard.isPoisoned]
  answers := fun x hx => absurd rfl (hunused _ hx)
  shared := ⟨_, s, hc, rfl, rfl⟩

theorem step {i : Nat} (hm : m.Counted h) (hstep : m.step crew i = some m') : m'.Counted h := by
  have hguarded := hm.toGuarded.step hstep
  obtain ⟨t, t', ht, hstep, hthreads⟩ := step_cases hstep
  obtain ⟨c, hc, -⟩ := hm.cell
  have hmem := List.mem_of_getElem? ht
  have hsees := hm.sees t hmem
  refine ⟨hguarded, ?_, ?_, ?_⟩
  · have haccount := hstep.account hc (fun hx => hm.deferred t hmem hx c hc)
      (hm.guard_eq_held hmem) hsees
    have htotal := total_step (Thread.pending h.id) ht hthreads
    have hbefore := hm.account
    omega
  · intro x hx
    have hvalue := (hstep.answered hsees hx).elim (hm.answers x) id
    obtain ⟨v, hv, rfl⟩ := Option.map_eq_some_iff.mp hvalue
    exact congrArg (Option.map Value.of) (hstep.keeps.peek hv)
  · obtain ⟨c, s, hc, hf, hs⟩ := hm.shared
    obtain ⟨d, hd, hcd⟩ := hstep.keeps h c hc
    exact ⟨d, s, hd, hcd.flavour.trans hf, hcd.source?.trans hs⟩

theorem reaches (hm : m.Counted h) (hr : m.Reaches crew m') : m'.Counted h := by
  induction hr with
  | refl => exact hm
  | step i _ hstep ih => exact ih.step hstep

theorem pending_le_one (hm : m.Counted h) : m.total (Thread.pending h.id) ≤ 1 := by
  have hle := total_le (fun t : Thread π σ ρ => t.pending_le_holding h.id) m
  rw [hm.held] at hle
  cases hg : m.world.guard h.id <;> simp only [hg, Guard.holders] at hle <;> omega

theorem poisoned (hm : m.Counted h) (hr : m.Reaches crew m')
    (hg : m.world.guard h.id = .poisoned) : m'.world.guard h.id = .poisoned := by
  induction hr with
  | refl => exact hg
  | step i hr hstep ih =>
    have hm' := hm.reaches hr
    obtain ⟨t, t', ht, hstep, -⟩ := step_cases hstep
    obtain ⟨c, hc, -⟩ := hm'.cell
    exact hstep.poisoned hc (hm'.guard_eq_held (List.mem_of_getElem? ht)) ih

theorem stands_evaluated (hm : m.Counted h) {v : k.Val} (hv : m.world.peek h = some v) :
    m.world.Stands h (.evaluated v) := by
  refine ⟨hv, fun hg => ?_⟩
  have hnone := hm.clean hg
  rw [show m.world.value? h.id = (m.world.peek h).map Value.of from rfl, hv] at hnone
  cases hnone

theorem stands_unique (hm : m.Counted h) : ∃! st, m.world.Stands h st := by
  cases hv : m.world.peek h with
  | some v =>
    refine ⟨.evaluated v, hm.stands_evaluated hv, fun st hst => ?_⟩
    cases st with
    | empty | poisoned => exact absurd (hst.1.symm.trans hv) (by simp)
    | evaluated u => rw [Option.some.inj (hst.1.symm.trans hv)]
  | none =>
    by_cases hg : m.world.guard h.id = .poisoned
    · refine ⟨.poisoned, ⟨hv, hg⟩, fun st hst => ?_⟩
      cases st with
      | empty => exact absurd hg hst.2
      | evaluated u => exact absurd (hst.1.symm.trans hv) (by simp)
      | poisoned => rfl
    · refine ⟨.empty, ⟨hv, hg⟩, fun st hst => ?_⟩
      cases st with
      | empty => rfl
      | evaluated u => exact absurd (hst.1.symm.trans hv) (by simp)
      | poisoned => exact absurd hst.2 hg

theorem absorbed (hm : m.Counted h) (hr : m.Reaches crew m') {st : Standing k}
    (hst : st ≠ .empty) (hstands : m.world.Stands h st) : m'.world.Stands h st := by
  have hm' := hm.reaches hr
  cases st with
  | empty => exact absurd rfl hst
  | evaluated v => exact hm'.stands_evaluated ((keeps hr).peek hstands.1)
  | poisoned =>
    have hg := hm.poisoned hr hstands.2
    exact ⟨Option.map_eq_none_iff.mp (hm'.clean hg), hg⟩

theorem refused_iff (hm : m.Counted h) {p : Phase k} {next : Reply k → Code π σ τ}
    {calls : Calls π σ ρ τ} {e : EvalError} (hp : p.early = true) :
    Thread.step crew (.inside h p next calls) m.world =
        some (.running (next (.ok (.error e))) calls, m.world.note (.answered h.id (.error e))) ↔
      p = .lock ∧ m.world.Stands h .poisoned ∧ e = .poisoned := by
  obtain ⟨c, s, hc, hf, hs⟩ := hm.shared
  constructor
  · intro hstep
    simp only [Thread.step, hc, hf, if_true] at hstep
    have hmarks := congrArg (Option.map fun x => x.2.marks) hstep
    cases p with
    | look =>
      cases hv : c.value? <;> simp [Thread.access, hv] at hmarks
    | lock =>
      cases hg : c.guard with
      | poisoned =>
        have hpoisoned : m.world.guard h.id = .poisoned := (World.guard_eq hc).trans hg
        refine ⟨rfl, ⟨Option.map_eq_none_iff.mp (hm.clean hpoisoned), hpoisoned⟩, ?_⟩
        simpa [Thread.access, hg, eq_comm] using hmarks
      | free | held => simp [Thread.access, hg] at hmarks
    | lookAgain => cases hv : c.value? <;> simp [Thread.access, hv] at hmarks
    | announce =>
      have hmarks : (m.world.publish crew (.forcing .shared h.id)).marks = _ :=
        Option.some.inj hmarks
      simp at hmarks
    | call => simp [Thread.access, hs] at hmarks
    | fill | report | release => cases hp
  · rintro ⟨rfl, ⟨-, hg⟩, rfl⟩
    exact (Thread.Step.refused hc hf ((World.guard_eq hc).symm.trans hg)).step

theorem orderly (hm : m.Counted h) (crew : Crew π σ) : m.Orderly crew h where
  alone := Nat.le_trans (total_le (fun t => t.calling_le_pending h.id) m) hm.pending_le_one
  standing := hm.stands_unique
  absorbed := fun m' st hr hst hstands => hm.absorbed hr hst hstands
  begins := by
    intro i m' hstep hbegun
    obtain ⟨t, t', ht, hstep, -⟩ := step_cases hstep
    have hmem := List.mem_of_getElem? ht
    obtain ⟨hheld, hnone⟩ := hstep.begun (hm.sees t hmem) hbegun
    refine ⟨Option.map_eq_none_iff.mp hnone, ?_⟩
    rw [hm.guard_eq_held hmem hheld]
    simp
  account := by
    rw [hm.account]
    simp only [World.isEvaluated, World.value?, Option.isSome_map]
    rfl
  pending := hm.pending_le_one
  agree := by
    intro x hx
    obtain ⟨v, hv, rfl⟩ := Option.map_eq_some_iff.mp (hm.answers x hx)
    exact ⟨v, rfl, hm.stands_evaluated hv⟩
  handed := fun τ p next calls t' w' hmem hstep =>
    (Thread.Step.of_step hstep).onward (hm.sees _ hmem)
  refused := fun τ p next calls e _ hp => hm.refused_iff hp

end Counted

/-- The laws hold in all states of any threads that share a new field. -/
theorem reaches_orderly (crew : Crew π σ) {w : World π σ} {s : Source π k}
    (hc : w.heap.cell? h = some (.fresh .shared s)) (hunused : ∀ m ∈ w.marks, m.cell? ≠ some h.id)
    (programs : List (Proc π σ ρ)) (hr : (Machine.start w programs).Reaches crew m) :
    m.Orderly crew h :=
  ((Counted.start hc hunused programs).reaches hr).orderly crew

end Machine

def World.withQuotient : World (fun _ => Empty) Unit :=
  ((World.start ()).alloc (.fresh .shared (.plain Scenario.divisionByZero))).2

def Crew.deaf : Crew (fun _ => Empty) Unit where
  produce := fun _ code => nomatch code
  hear := fun _ _ => ()

/-- The second thread waits for the guard while the producer of the first runs. -/
theorem Machine.reaches_orderly_two_threads :
    World.withQuotient.heap.cell? (⟨0⟩ : Handle .int) =
        some (.fresh .shared (.plain Scenario.divisionByZero)) ∧
      (∀ m ∈ World.withQuotient.marks, m.cell? ≠ some (⟨0⟩ : Handle .int).id) ∧
      ∃ m, (Machine.start World.withQuotient
          [(⟨0⟩ : Handle .int).get, (⟨0⟩ : Handle .int).get]).run Crew.deaf
            [0, 0, 1, 1, 0, 0, 0, 0] = some m ∧ m.Orderly Crew.deaf (⟨0⟩ : Handle .int) := by
  have hunused : ∀ m ∈ World.withQuotient.marks, m.cell? ≠ some (⟨0⟩ : Handle .int).id := by
    simp [World.withQuotient, World.start, World.alloc, World.marks, World.history]
  obtain ⟨m, hm⟩ : ∃ m, (Machine.start World.withQuotient
      [(⟨0⟩ : Handle .int).get, (⟨0⟩ : Handle .int).get]).run Crew.deaf
        [0, 0, 1, 1, 0, 0, 0, 0] = some m := ⟨_, rfl⟩
  exact ⟨rfl, hunused, m, hm, reaches_orderly Crew.deaf rfl hunused _ (reaches_of_run hm)⟩

end LazyFields
