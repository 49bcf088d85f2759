import LazyFields.Proofs.Serial
import LazyFields.Proofs.Unasked

/-!
Accesses to a field one after another, against the outcomes that its producer comes to when it
is called as often. An outcome that does not last is the answer of one access only, and the next
one tries again; the first that lasts decides all later answers, and the producer is not called
again.
-/

namespace LazyFields

variable {π : Kind → Type} {σ α β γ : Type} {k l : Kind}

/-- Whether an outcome of the producer is the last that a field of this flavour asks for. A
panic poisons a shared field. -/
def Flavour.lasts : Flavour → Reply k → Bool
  | _, .ok (.ok _) => true
  | .shared, .error _ => true
  | _, _ => false

def Reply.afterwards : Reply k → Reply k
  | .ok r => .ok r
  | .error _ => .ok (.error .poisoned)

def Reply.value? : Reply k → Option k.Val
  | .ok (.ok x) => some x
  | _ => none

theorem Reply.value?_afterwards (r : Reply k) : r.afterwards.value? = r.value? := by
  rcases r with _ | _ | _ <;> rfl

namespace Flavour

variable (f : Flavour)

/-- What accesses answer when the producer comes to these outcomes one after another: the first
outcome that lasts decides all later answers. -/
def replies (os : List (Reply k)) : List (Reply k) :=
  os.mapIdx fun i o => (((os.take i).find? f.lasts).map Reply.afterwards).getD o

def trials (os : List (Reply k)) : Nat := min os.length (os.findIdx f.lasts + 1)

def answers (tell : Reply k → Nat → γ) (p : Nat) (os : List (Reply k)) : List γ :=
  (f.replies os).mapIdx fun i r => tell r (p + min (i + 1) (os.findIdx f.lasts + 1))

theorem replies_cons (o : Reply k) (os : List (Reply k)) :
    f.replies (o :: os) =
      o :: if f.lasts o then os.map fun _ => o.afterwards else f.replies os := by
  cases ho : f.lasts o with
  | false => simp [replies, List.mapIdx_cons, ho]
  | true =>
    refine List.ext_getElem (by simp [replies]) fun i _ _ => ?_
    cases i <;> simp [replies, ho]

theorem trials_cons (o : Reply k) (os : List (Reply k)) :
    f.trials (o :: os) = 1 + if f.lasts o then 0 else f.trials os := by
  cases ho : f.lasts o <;> simp [trials, List.findIdx_cons, ho]
  omega

theorem answers_reply (p : Nat) (os : List (Reply k)) :
    f.answers (fun r _ => r) p os = f.replies os :=
  List.ext_getElem (by simp [answers]) (by simp [answers])

theorem answers_cons (tell : Reply k → Nat → γ) (p : Nat) (o : Reply k) (os : List (Reply k)) :
    f.answers tell p (o :: os) = tell o (p + 1) ::
      if f.lasts o then os.map fun _ => tell o.afterwards (p + 1)
      else f.answers tell (p + 1) os := by
  cases ho : f.lasts o with
  | false =>
    refine List.ext_getElem (by simp [answers, replies_cons, ho]) fun i _ _ => ?_
    cases i with
    | zero => simp [answers, replies_cons]
    | succ i =>
      have hsum : ∀ m, p + (m + 1 + 1) = p + 1 + (m + 1) := by omega
      simp [answers, replies_cons, ho, List.findIdx_cons, hsum]
  | true =>
    refine List.ext_getElem (by simp [answers, replies]) fun i _ _ => ?_
    cases i with
    | zero => simp [answers, replies_cons]
    | succ i => simp [answers, replies_cons, ho, List.findIdx_cons]

end Flavour

def World.caught (w : World π σ) : Except String α → World π σ
  | .ok _ => w
  | .error message => w.note (.caught message)

theorem Exec.attempt_eq_value_iff {x : Exec π σ α} {w w' : World π σ} {o : Except String α} :
    x.attempt w = (.value o, w') ↔ ∃ u, x w = (.of o, u) ∧ u.caught o = w' := by
  constructor
  · intro hattempt
    unfold Exec.attempt at hattempt
    rcases hr : x w with ⟨a | message | reason, u⟩ <;> rw [hr] at hattempt <;> cases hattempt
    · exact ⟨_, rfl, rfl⟩
    · exact ⟨_, rfl, rfl⟩
  · rintro ⟨u, hr, rfl⟩
    unfold Exec.attempt
    rw [hr]
    cases o <;> rfl

theorem World.asks_caught (w : World π σ) (o : Except String α) (c : CellId) :
    (w.caught o).asks c = w.asks c := by
  cases o with
  | ok a => rfl
  | error message => exact w.asks_note_of_ne (by simp)

namespace Environment

variable (env : Environment π σ)

def announceFailure (event : EvalError → Event) : Reply k → Exec π σ Unit
  | .ok (.error e) => env.emit (event e)
  | _ => pure ()

variable (h : Handle k) (f : Flavour)

/-- One call of the producer of a field, outside of the field: it is tallied, but nothing is
stored and no guard is taken. -/
def trial (s : Source π k) : Exec π σ (Reply k) := do
  Exec.update (·.bump s.counter)
  let o ← (env.produce s.producer).attempt
  env.announceFailure (.evaluationFailed f h.id) o
  return o

def outcome (s : Source π k) : Exec π σ (Reply k) := do
  env.emit (.forcing f h.id)
  env.trial h f s

end Environment

namespace World

variable {h : Handle k} {f : Flavour} {s : Source π k} {p : Nat} {w v : World π σ}

structure Pending (h : Handle k) (f : Flavour) (s : Source π k) (p : Nat)
    (w v : World π σ) : Prop where
  resembles : w.Resembles h (.fresh f s) p v
  awaits : ∃ c, v.heap.cell? h = some c ∧ c.Awaits f s

inductive Final (h : Handle k) (v : World π σ) : Flavour → Reply k → Prop
  | known {f : Flavour} {x : k.Val} : v.peek h = some x → Final h v f (.ok (.ok x))
  | poisoned {s : Source π k} : v.heap.cell? h = some (.deferred .shared s none .poisoned) →
      Final h v .shared (.ok (.error .poisoned))

structure Tried (h : Handle k) (f : Flavour) (s : Source π k) (p : Nat) (o : Reply k)
    (w v : World π σ) : Prop where
  productions : v.productions h.id = p
  final : f.lasts o = true → v.Final h f o.afterwards
  pending : f.lasts o = false → w.Pending h f s p v

namespace Resembles

theorem withGuard {c : Cell π k} (hw : w.Resembles h c p v) (g : Guard) :
    w.Resembles h c p (v.modify h (·.withGuard g)) := by
  obtain ⟨g', hg'⟩ := hw.heap
  refine ⟨hw.cell, ⟨g, ?_⟩, hw.tallies, hw.host, hw.runs, hw.productions⟩
  have hcompose : Cell.withGuard (π := π) (k := k) g ∘ Cell.withGuard g' = Cell.withGuard g := by
    funext d
    cases d <;> rfl
  show v.heap.modify h _ = _
  rw [hg', Heap.modify_modify, hcompose]

theorem enter {c : Cell π k} (hw : w.Resembles h c p v) :
    w.Resembles h c p (v.enter h f) := by
  cases f with
  | single => exact hw.note_right (by simp)
  | shared => exact (hw.note_right (by simp)).withGuard .held

theorem answer {c : Cell π k} (hw : w.Resembles h c p v)
    (r : Ending (Except EvalError k.Val)) : w.Resembles h c p (v.answer h r) := by
  cases r with
  | value | panicked => exact hw.note_right (by simp)
  | halted => exact hw

theorem exit {c : Cell π k} (hw : w.Resembles h c p v)
    (r : Ending (Except EvalError k.Val)) : w.Resembles h c p (v.exit h f r) := by
  cases f with
  | single => exact hw.answer r
  | shared =>
    cases r with
    | value r => exact (hw.withGuard .free).answer (.value r)
    | panicked message => exact (hw.withGuard .poisoned).answer (.panicked message)
    | halted reason => exact hw.answer (.halted reason)

theorem call_own {c : Cell π k} (hw : w.Resembles h c p v) (s : Source π k) :
    (w.bump s.counter).Resembles h c (p + 1) (v.call h s) := by
  obtain ⟨hcell, hheap, htallies, hhost, hruns, -⟩ := hw.bump s.counter
  refine ⟨hcell, hheap, htallies, hhost, hruns, ?_⟩
  rw [productions_call, if_pos rfl, hw.productions]

theorem cell?_right (hw : w.Resembles h (.fresh f s) p v) :
    ∃ g, v.heap.cell? h = some (.deferred f s none g) := by
  obtain ⟨g, hg⟩ := hw.heap
  exact ⟨g, by rw [hg, Heap.cell?_modify, hw.cell]; rfl⟩

theorem pending (hw : w.Resembles h (.fresh .single s) p v) : w.Pending h .single s p v := by
  obtain ⟨g, hg⟩ := hw.cell?_right
  exact ⟨hw, _, hg, .single⟩

theorem pending_exit (hw : w.Resembles h (.fresh f s) p v) (r : Except EvalError k.Val) :
    w.Pending h f s p (v.exit h f (.value r)) := by
  cases f with
  | single => exact (hw.exit _).pending
  | shared =>
    obtain ⟨g, hg⟩ := hw.cell?_right
    refine ⟨hw.exit _, .deferred .shared s none .free, ?_, .shared⟩
    show (v.heap.modify h _).cell? h = _
    rw [Heap.cell?_modify, hg]
    rfl

end Resembles

theorem productions_caught (w : World π σ) (o : Except String α) (c : CellId) :
    (w.caught o).productions c = w.productions c := by
  cases o with
  | ok a => rfl
  | error message => exact w.productions_note_of_ne (by simp)

theorem Final.congr {r : Reply k} {v' : World π σ} (hv : v.Final h f r)
    (hcell : v'.heap.cell? h = v.heap.cell? h) : v'.Final h f r := by
  cases hv with
  | known hx =>
    refine .known ?_
    rw [← hx, peek, peek, Heap.peek, Heap.peek, hcell]
  | poisoned hc => exact .poisoned (hcell.trans hc)

theorem Final.note {r : Reply k} (hv : v.Final h f r) (m : Mark) : (v.note m).Final h f r :=
  hv.congr rfl

theorem Final.caught {r : Reply k} (hv : v.Final h f r) (o : Except String α) :
    (v.caught o).Final h f r := by
  cases o with
  | ok a => exact hv
  | error message => exact hv.note _

theorem Pending.note (hv : w.Pending h f s p v) {m : Mark} (hm : m ≠ .begun h.id) :
    w.Pending h f s p (v.note m) :=
  ⟨hv.resembles.note_right hm, hv.awaits⟩

theorem Tried.note {o : Reply k} (hv : w.Tried h f s p o v) {m : Mark} (hm : m ≠ .begun h.id) :
    w.Tried h f s p o (v.note m) :=
  ⟨(v.productions_note_of_ne hm).trans hv.productions, fun hlasts => (hv.final hlasts).note m,
    fun hpasses => (hv.pending hpasses).note hm⟩

theorem Tried.caught {o : Reply k} (hv : w.Tried h f s p o v) (r : Except String α) :
    w.Tried h f s p o (v.caught r) := by
  cases r with
  | ok a => exact hv
  | error message => exact hv.note (by simp)

theorem Final.force {r : Reply k} (hv : v.Final h f r) (env : Environment π σ) :
    ∃ v', env.force h v = (.of r, v') ∧ v'.heap = v.heap ∧
      v'.productions h.id = v.productions h.id := by
  cases hv with
  | @known _ x hx =>
    refine ⟨(v.note (.asked h.id)).answer h (.value (.ok x)), env.force_known hx, rfl, ?_⟩
    exact (productions_note_of_ne _ (by simp)).trans (v.productions_note_of_ne (by simp))
  | poisoned hc =>
    refine ⟨(v.note (.asked h.id)).answer h (.value (.error .poisoned)), ?_, rfl, ?_⟩
    · rw [Environment.force_eq env h hc]
      rfl
    · exact (productions_note_of_ne _ (by simp)).trans (v.productions_note_of_ne (by simp))

end World

namespace Environment

variable {env : Environment π σ} {h : Handle k} {f : Flavour} {s : Source π k}
  {p : Nat} {w v w' : World π σ}

theorem trial_cases {o : Reply k} (ho : env.trial h f s w = (.value o, w')) :
    ∃ u, env.produce s.producer (w.bump s.counter) = (.of o, u) ∧
      env.announceFailure (.evaluationFailed f h.id) o (u.caught o) = (.value (), w') := by
  obtain ⟨_, _, hbump, ho⟩ := Exec.bind_eq_value_iff.mp ho
  cases hbump
  obtain ⟨o', w₁, hcall, ho⟩ := Exec.bind_eq_value_iff.mp ho
  obtain ⟨_, w₂, hannounced, ho⟩ := Exec.bind_eq_value_iff.mp ho
  cases ho
  obtain ⟨u, hu, rfl⟩ := Exec.attempt_eq_value_iff.mp hcall
  exact ⟨u, hu, hannounced⟩

theorem Parallels.announceFailure {c : Cell π k} (henv : env.Parallels h c p)
    (event : EvalError → Event) (o : Reply l) :
    Exec.Parallels h c p (env.announceFailure event o) (env.announceFailure event o) := by
  rcases o with message | e | x
  · exact .pure _
  · exact henv.emit _
  · exact .pure _

theorem Parallels.trial {c : Cell π k} (henv : env.Parallels h c p) (s : Source π k) :
    Exec.Parallels h c p (env.trial h f s) (env.trial h f s) := by
  refine .bind (.update (fun w => ?_) fun _ _ hw => hw.bump s.counter) fun _ => ?_
  · exact Nat.le_of_eq (w.asks_bump _ _).symm
  · exact .bind (henv.produce s.producer).attempt fun o =>
      .bind (henv.announceFailure _ o) fun _ => .pure o

theorem Parallels.outcome {c : Cell π k} (henv : env.Parallels h c p) (s : Source π k) :
    Exec.Parallels h c p (env.outcome h f s) (env.outcome h f s) :=
  .bind (henv.emit _) fun _ => henv.trial s

theorem Parallels.settles (henv : ∀ p, env.Parallels h (.fresh f s) p)
    (hw : w.Resembles h (.fresh f s) p v) {o : Reply k}
    (ho : env.trial h f s w = (.value o, w')) (hasks : w'.asks h.id = w.asks h.id) :
    ∃ v', env.settle h f s v = (.of o, v') ∧ v'.productions h.id = p + 1 ∧
      (∀ x, o = .ok (.ok x) → v'.peek h = some x) ∧
      ((∀ x, o ≠ .ok (.ok x)) → w'.Resembles h (.fresh f s) (p + 1) v') := by
  have hproduce := (henv (p + 1)).produce s.producer
  have hannounces := (henv (p + 1)).announceFailure (.evaluationFailed f h.id) o
  obtain ⟨u, hu, hannounced⟩ := trial_cases ho
  have hearlier : w.asks h.id ≤ u.asks h.id := by simpa using hproduce.asks_le hu
  have hlater : u.asks h.id ≤ w'.asks h.id := by
    simpa [World.asks_caught] using hannounces.asks_le hannounced
  obtain ⟨v₂, hv₂, hw₂⟩ := hproduce.obtains (hw.call_own s) hu (by rw [World.asks_bump]; omega)
  rw [settle_eq, hv₂]
  -- Only a value is stored, so only after a value the worlds cease to resemble each other.
  rcases o with message | e | x
  · cases hannounced
    have hended : (u.caught (.error message : Reply k)).Resembles h (.fresh f s) (p + 1)
        (v₂.conclude h f (.panicked message)) := hw₂.note _ (by simp)
    exact ⟨_, rfl, hended.productions, by simp, fun _ => hended⟩
  · have hended : u.Resembles h (.fresh f s) (p + 1) (v₂.note (.ended h.id (.error e))) :=
      hw₂.note_right (by simp)
    obtain ⟨v₃, hv₃, hw₃⟩ := hannounces.obtains hended hannounced (by omega)
    have htold : env.notify (.evaluationFailed f h.id e)
      (v₂.conclude h f (.value (.error e))) = (.value (), v₃) := hv₃
    simp only [Ending.of, htold]
    exact ⟨_, rfl, hw₃.productions, by simp, fun _ => hw₃⟩
  · have hended : u.Resembles h (.fresh f s) (p + 1)
        (v₂.note (.ended h.id (.value (.of x)))) := hw₂.note_right (by simp)
    obtain ⟨g, hg⟩ := hended.cell?_right
    have hnone : (v₂.note (.ended h.id (.value (.of x)))).peek h = none := by
      rw [World.peek_of_cell? hg]
      rfl
    have hstore : ((v₂.note (.ended h.id (.value (.of x)))).store h x).1 = x := by
      rw [World.store, hnone]
    have hpeek := World.peek_store hg x
    rw [hstore] at hpeek
    simp only [Ending.of, hstore]
    refine ⟨_, rfl, ?_, fun y hy => ?_, fun hne => absurd rfl (hne x)⟩
    · rw [World.conclude, World.productions, World.marks_store]
      exact hended.productions
    · cases hy
      exact hpeek

/-- An access to a field that is still to be evaluated answers with the outcome of its producer.
Unless the outcome lasts, the field is to be evaluated still. -/
theorem Parallels.round (henv : ∀ p, env.Parallels h (.fresh f s) p)
    (hv : w.Pending h f s p v) {o : Reply k} (ho : env.outcome h f s w = (.value o, w'))
    (hasks : w'.asks h.id = w.asks h.id) :
    ∃ v', env.force h v = (.of o, v') ∧ w'.Tried h f s (p + 1) o v' := by
  obtain ⟨hw, c, hc, ha⟩ := hv
  obtain ⟨_, w₁, hheard, htrial⟩ := Exec.bind_eq_value_iff.mp ho
  have hemit := (henv p).emit (.forcing f h.id)
  have hearlier : w.asks h.id ≤ w₁.asks h.id := hemit.asks_le hheard
  have hlater : w₁.asks h.id ≤ w'.asks h.id := ((henv p).trial s).asks_le htrial
  obtain ⟨v₁, hv₁, hw₁⟩ := hemit.obtains (hw.enter (f := f)) hheard (by omega)
  obtain ⟨v₂, hv₂, hproductions, hvalue, hresembles⟩ :=
    Parallels.settles henv hw₁ htrial (by omega)
  have hevaluate : env.evaluate h f s (v.enter h f) = (.of o, v₂) :=
    (Exec.bind_of_value hv₁).trans hv₂
  have hforce : env.force h v = (.of o, v₂.exit h f (.of o)) := by
    rw [force_awaiting env hc ha, hevaluate]
  refine ⟨_, hforce, (v₂.productions_exit h f _ _).trans hproductions, fun hlasts => ?_,
    fun hpasses => ?_⟩
  · rcases o with message | e | x
    · obtain ⟨g, hg⟩ := (hresembles (by simp)).cell?_right
      cases f with
      | single => cases hlasts
      | shared =>
        refine .poisoned (s := s) ?_
        show (v₂.heap.modify h _).cell? h = _
        rw [Heap.cell?_modify, hg]
        rfl
    · cases f <;> cases hlasts
    · exact .known ((v₂.exit_keeps h f _).peek (hvalue x rfl))
  · rcases o with message | e | x
    · cases f with
      | single => exact ((hresembles (by simp)).exit _).pending
      | shared => cases hpasses
    · exact (hresembles (by simp)).pending_exit _
    · cases f <;> cases hpasses

end Environment

section

universe u

def times {m : Type → Type u} [Monad m] (x : m γ) : Nat → m (List γ)
  | 0 => return []
  | n + 1 => do
    let a ← x
    return a :: (← times x n)

end

theorem Proc.exec_times (env : Environment π σ) (x : Proc π σ γ) (n : Nat) :
    (times x n).exec env = times (x.exec env) n := by
  induction n with
  | zero => rfl
  | succ n ih =>
    simp only [times, Proc.exec_bind, ih]
    rfl

theorem Exec.times_succ_eq_value_iff {x : Exec π σ γ} {n : Nat} {as : List γ} {w w' : World π σ} :
    times x (n + 1) w = (.value as, w') ↔
      ∃ a v bs, x w = (.value a, v) ∧ times x n v = (.value bs, w') ∧ a :: bs = as := by
  constructor
  · intro htimes
    obtain ⟨a, v, hx, htimes⟩ := Exec.bind_eq_value_iff.mp htimes
    obtain ⟨bs, _, hrest, hcons⟩ := Exec.bind_eq_value_iff.mp htimes
    cases hcons
    exact ⟨a, v, bs, hx, hrest, rfl⟩
  · rintro ⟨a, v, bs, hx, hrest, rfl⟩
    exact Exec.bind_eq_value_iff.mpr ⟨a, v, hx, Exec.bind_eq_value_iff.mpr ⟨bs, w', hrest, rfl⟩⟩

theorem Exec.length_times {x : Exec π σ γ} {n : Nat} {as : List γ} {w w' : World π σ}
    (htimes : times x n w = (.value as, w')) : as.length = n := by
  induction n generalizing w as with
  | zero =>
    cases htimes
    rfl
  | succ n ih =>
    obtain ⟨a, v, bs, -, hrest, rfl⟩ := Exec.times_succ_eq_value_iff.mp htimes
    rw [List.length_cons, ih hrest]

section

variable (h : Handle k) (f : Flavour) (s : Source π k) (Inv : World π σ → Prop)
  (tell : Reply k → Nat → γ)

/-- The first computation accesses the field once, where the second calls its producer once: as
long as the field is to be evaluated, the first tells what the second comes to, and when that
lasts, it keeps telling it. It also tells how often the producer of the field has been called. -/
structure Exec.Retries (x : Exec π σ γ) (y : Exec π σ (Reply k)) : Prop where
  grows : ∀ w, w.asks h.id ≤ (y w).2.asks h.id
  pending : ∀ {p : Nat} {w v w' : World π σ} {o : Reply k}, w.Pending h f s p v → Inv v →
    y w = (.value o, w') → w'.asks h.id = w.asks h.id →
    ∃ v', x v = (.value (tell o (p + 1)), v') ∧ Inv v' ∧ w'.Tried h f s (p + 1) o v'
  final : ∀ {v : World π σ} {r : Reply k}, v.Final h f r → Inv v →
    ∃ v', x v = (.value (tell r (v.productions h.id)), v') ∧ Inv v' ∧ v'.Final h f r ∧
      v'.productions h.id = v.productions h.id

end

namespace World

variable {h : Handle k} {f : Flavour} {s : Source π k} {p : Nat} {w v : World π σ}

theorem Pending.peek (hv : w.Pending h f s p v) : v.peek h = none := by
  obtain ⟨c, hc, ha⟩ := hv.awaits
  exact (peek_of_cell? hc).trans ha.value?

theorem Final.peek {r : Reply k} (hv : v.Final h f r) : v.peek h = r.value? := by
  cases hv with
  | known hx => exact hx
  | poisoned hc =>
    exact peek_of_cell? hc

theorem Pending.refl (hc : w.heap.cell? h = some (.fresh f s)) :
    w.Pending h f s (w.productions h.id) w := by
  refine ⟨.refl hc, _, hc, ?_⟩
  cases f
  · exact .single
  · exact .shared

end World

namespace Exec.Retries

variable {h : Handle k} {f : Flavour} {s : Source π k} {Inv : World π σ → Prop}
  {tell : Reply k → Nat → γ} {x : Exec π σ γ} {y : Exec π σ (Reply k)} {w v u : World π σ}

theorem grows_times (hxy : Retries h f s Inv tell x y) {n : Nat} {os : List (Reply k)}
    (hos : LazyFields.times y n w = (.value os, u)) : w.asks h.id ≤ u.asks h.id := by
  induction n generalizing w os with
  | zero =>
    cases hos
    exact Nat.le_refl _
  | succ n ih =>
    obtain ⟨_, w₁, _, ho, hos, -⟩ := times_succ_eq_value_iff.mp hos
    have hle := hxy.grows w
    rw [ho] at hle
    exact Nat.le_trans hle (ih hos)

theorem times_final (hxy : Retries h f s Inv tell x y) {r : Reply k} (n : Nat)
    (hv : v.Final h f r) (hinv : Inv v) :
    ∃ v', times x n v = (.value (List.replicate n (tell r (v.productions h.id))), v') ∧
      v'.Final h f r ∧ v'.productions h.id = v.productions h.id := by
  induction n generalizing v with
  | zero => exact ⟨v, rfl, hv, rfl⟩
  | succ n ih =>
    obtain ⟨v₁, hx, hinv₁, hv₁, hcount⟩ := hxy.final hv hinv
    obtain ⟨v', htimes, hv', hcount'⟩ := ih hv₁ hinv₁
    rw [hcount] at htimes hcount'
    exact ⟨v', times_succ_eq_value_iff.mpr ⟨_, v₁, _, hx, htimes, rfl⟩, hv', hcount'⟩

theorem times (hxy : Retries h f s Inv tell x y) {p : Nat} {os : List (Reply k)}
    (hv : w.Pending h f s p v) (hinv : Inv v)
    (hos : LazyFields.times y os.length w = (.value os, u)) (hasks : u.asks h.id = w.asks h.id) :
    ∃ v', LazyFields.times x os.length v = (.value (f.answers tell p os), v') ∧
      v'.productions h.id = p + f.trials os ∧
      v'.peek h = (os.find? f.lasts).bind Reply.value? := by
  -- The two worlds keep in step up to the first outcome that lasts; from there on the second
  -- computation is not followed any further.
  induction os generalizing w v p with
  | nil => exact ⟨v, rfl, hv.resembles.productions, hv.peek⟩
  | cons o os ih =>
    obtain ⟨_, w₁, _, ho, hos, hcons⟩ := times_succ_eq_value_iff.mp hos
    cases hcons
    have hearlier : w.asks h.id ≤ w₁.asks h.id := by
      have hle := hxy.grows w
      rwa [ho] at hle
    have hlater : w₁.asks h.id ≤ u.asks h.id := hxy.grows_times hos
    obtain ⟨v₁, hx, hinv₁, htried⟩ := hxy.pending hv hinv ho (by omega)
    rw [f.answers_cons, f.trials_cons, List.find?_cons]
    cases hlasts : f.lasts o with
    | false =>
      obtain ⟨v', htimes, hproductions, hpeek⟩ :=
        ih (htried.pending hlasts) hinv₁ hos (by omega)
      refine ⟨v', times_succ_eq_value_iff.mpr ⟨_, v₁, _, hx, htimes, rfl⟩, ?_, hpeek⟩
      rw [hproductions, Nat.add_assoc]
      rfl
    | true =>
      obtain ⟨v', htimes, hfinal, hproductions⟩ :=
        hxy.times_final os.length (htried.final hlasts) hinv₁
      rw [htried.productions, ← List.map_const'] at htimes
      refine ⟨v', times_succ_eq_value_iff.mpr ⟨_, v₁, _, hx, htimes, rfl⟩,
        hproductions.trans htried.productions, ?_⟩
      rw [hfinal.peek, o.value?_afterwards]
      rfl

end Exec.Retries

theorem Handle.gets_eq_times (h : Handle k) (n : Nat) :
    (h.gets n : Proc π σ _) = times (.attempt h.get) n := by
  induction n with
  | zero => rfl
  | succ n ih => rw [gets, times, ih]

theorem Environment.Parallels.retries {env : Environment π σ} {h : Handle k} {f : Flavour}
    {s : Source π k} (henv : ∀ p, env.Parallels h (.fresh f s) p) :
    Exec.Retries h f s (fun _ => True) (fun r _ => r) (env.force h).attempt
      (env.outcome h f s) where
  grows := ((henv 0).outcome s).grows
  pending hv _ ho hasks := by
    obtain ⟨v', hforce, htried⟩ := Parallels.round henv hv ho hasks
    exact ⟨_, Exec.attempt_eq_value_iff.mpr ⟨v', hforce, rfl⟩, trivial, htried.caught _⟩
  final {v r} hv _ := by
    obtain ⟨v', hforce, hheap, hproductions⟩ := hv.force env
    refine ⟨_, Exec.attempt_eq_value_iff.mpr ⟨v', hforce, rfl⟩, trivial, ?_, ?_⟩
    · exact (hv.congr (by rw [hheap])).caught r
    · rw [World.productions_caught, hproductions]

/-- Accesses to a new field, each with its panic caught, come to the outcomes that its producer
comes to when it is called as often on its own, up to the first that lasts, which decides all that
follow. Neither the producer nor a listener may access the field. -/
theorem Host.gets_retry (host : Host π σ) (depth : Nat) {h : Handle k} {f : Flavour}
    {s : Source π k} {w u : World π σ} (hc : w.heap.cell? h = some (.fresh f s)) {n : Nat}
    {os : List (Reply k)}
    (hos : times ((host.environment depth).outcome h f s) n w = (.value os, u))
    (hasks : u.asks h.id = w.asks h.id) :
    ∃ w', host.run depth (h.gets n) w = (.value (f.replies os), w') ∧
      w'.productions h.id = w.productions h.id + f.trials os ∧
      w'.peek h = (os.find? f.lasts).bind Reply.value? := by
  obtain rfl := Exec.length_times hos
  have hretries := Environment.Parallels.retries
    fun p => host.environment_parallels h (.fresh f s) p depth
  obtain ⟨w', hrun, hproductions, hpeek⟩ :=
    hretries.times (World.Pending.refl hc) trivial hos hasks
  refine ⟨w', ?_, hproductions, hpeek⟩
  rw [f.answers_reply] at hrun
  rw [Host.run, h.gets_eq_times, Proc.exec_times]
  exact hrun

def Host.wavering : Host (fun _ => Unit) Nat where
  produce
    | .int, () => do
      match ← Proc.host fun calls => (calls, calls + 1) with
      | 0 => return .error (.failed "first")
      | 1 => .panic "second"
      | _ => return .ok 7
    | .text, () => return .error (.failed "no text")
  listen := fun _ => return ()

def World.withWavering (f : Flavour) : World (fun _ => Unit) Nat :=
  ((World.start 0).alloc (.fresh f (.plain (.custom (k := .int) ())))).2

def Host.wavers : List (Reply .int) :=
  [.ok (.error (.failed "first")), .error "second", .ok (.ok 7), .ok (.ok 7)]

/-- The panic is the last outcome that a shared field asks for; a single field gets its value. -/
theorem Host.gets_retry_wavering :
    let h : Handle .int := ⟨0⟩
    let retries (f : Flavour) : Prop :=
      (World.withWavering f).heap.cell? h = some (.fresh f (.plain (.custom ()))) ∧
      ∃ u, times ((Host.wavering.environment 1).outcome h f (.plain (.custom ()))) 4
          (World.withWavering f) = (.value Host.wavers, u) ∧
        u.asks h.id = (World.withWavering f).asks h.id ∧
        ∃ w', Host.wavering.run 1 (h.gets 4) (World.withWavering f) =
            (.value (f.replies Host.wavers), w') ∧
          w'.productions h.id = (World.withWavering f).productions h.id + f.trials Host.wavers ∧
          w'.peek h = (Host.wavers.find? f.lasts).bind Reply.value?
    retries .single ∧ retries .shared := by
  intro h retries
  have hretries : ∀ f, retries f := by
    intro f
    obtain ⟨u, hos, hasks⟩ : ∃ u, times ((Host.wavering.environment 1).outcome h f
        (.plain (.custom ()))) 4 (World.withWavering f) = (.value Host.wavers, u) ∧
          u.asks h.id = (World.withWavering f).asks h.id := ⟨_, rfl, rfl⟩
    exact ⟨rfl, u, hos, hasks, Host.gets_retry Host.wavering 1 rfl hos hasks⟩
  exact ⟨hretries .single, hretries .shared⟩

end LazyFields
