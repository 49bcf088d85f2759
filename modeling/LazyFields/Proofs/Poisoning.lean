import LazyFields.Proofs.Journal
import LazyFields.Proofs.Productions
import LazyFields.Proofs.Unwinding

/-!
Poisoned guards. The guard of a shared cell is poisoned exactly if a panic has left an access to
the cell, at every moment of a run; nothing but an unwinding panic poisons it. A single cell is
never the worse for a panic: if it has no value, the next access calls its producer again.
-/

namespace LazyFields

variable {π : Kind → Type} {σ α : Type} {k l : Kind} {w w' v : World π σ} {heap : Heap π}
  {marks : List Mark}

theorem Heap.cell?_modify_eq_none {h : Handle k} {h' : Handle l} {c : Cell π k}
    {f : Cell π k → Cell π k} (hc : heap.cell? h = some c)
    (hnone : (heap.modify h f).cell? h' = none) : h'.id ≠ h.id ∧ heap.cell? h' = none := by
  have hne : h'.id ≠ h.id := by
    intro e
    obtain ⟨rfl, rfl⟩ := Handle.eq_of_id e
    rw [Heap.cell?_modify, hc] at hnone
    cases hnone
  exact ⟨hne, by rwa [Heap.cell?_modify_of_ne _ _ hne] at hnone⟩

structure Blamed (heap : Heap π) (marks : List Mark) : Prop where
  unmade : ∀ ⦃k : Kind⦄ (h : Handle k) (message : String), heap.cell? h = none →
    .answered h.id (.panic message) ∉ marks
  poisoned_iff : ∀ ⦃k : Kind⦄ (h : Handle k) (c : Cell π k), heap.cell? h = some c →
    c.flavour = .shared → (c.guard = .poisoned ↔ ∃ message, .answered h.id (.panic message) ∈ marks)

namespace Blamed

variable {h : Handle k} {c : Cell π k}

theorem note (hb : Blamed heap marks) {m : Mark}
    (hm : ∀ c message, m ≠ .answered c (.panic message)) : Blamed heap (marks ++ [m]) := by
  have hmem (c : CellId) (message : String) :
      .answered c (.panic message) ∈ marks ++ [m] ↔ .answered c (.panic message) ∈ marks := by
    simp [Ne.symm (hm c message)]
  refine ⟨fun l h message hnone => ?_, fun l h c hc hf => ?_⟩
  · rw [hmem]
    exact hb.unmade h message hnone
  · simp only [hmem]
    exact hb.poisoned_iff h c hc hf

theorem modify (hb : Blamed heap marks) (hc : heap.cell? h = some c) {f : Cell π k → Cell π k}
    (hflavour : (f c).flavour = c.flavour)
    (hguard : (f c).guard = .poisoned ↔ c.guard = .poisoned) : Blamed (heap.modify h f) marks := by
  have hmodified : (heap.modify h f).cell? h = some (f c) := by
    rw [Heap.cell?_modify, hc, Option.map_some]
  refine ⟨fun l h' message hnone => ?_, fun l h' d hd hf => ?_⟩
  · exact hb.unmade h' message (Heap.cell?_modify_eq_none hc hnone).2
  · by_cases e : h'.id = h.id
    · obtain ⟨rfl, rfl⟩ := Handle.eq_of_id e
      obtain rfl := Option.some.inj (hmodified.symm.trans hd)
      rw [hguard]
      exact hb.poisoned_iff h' c hc (hflavour.symm.trans hf)
    · exact hb.poisoned_iff h' d (by rwa [Heap.cell?_modify_of_ne _ _ e] at hd) hf

theorem leave (hb : Blamed heap marks) (hc : heap.cell? h = some c) {f : Cell π k → Cell π k}
    (hflavour : (f c).flavour = c.flavour) (hguard : c.flavour = .shared → (f c).guard = .poisoned)
    (message : String) :
    Blamed (heap.modify h f) (marks ++ [.answered h.id (.panic message)]) := by
  have hmodified : (heap.modify h f).cell? h = some (f c) := by
    rw [Heap.cell?_modify, hc, Option.map_some]
  have hother {l : Kind} {h' : Handle l} (hne : h'.id ≠ h.id) (message' : String) :
      .answered h'.id (.panic message') ∈ marks ++ [.answered h.id (.panic message)] ↔
        .answered h'.id (.panic message') ∈ marks := by
    simp [hne]
  refine ⟨fun l h' message' hnone => ?_, fun l h' d hd hf => ?_⟩
  · obtain ⟨hne, hnone⟩ := Heap.cell?_modify_eq_none hc hnone
    rw [hother hne]
    exact hb.unmade h' message' hnone
  · by_cases e : h'.id = h.id
    · obtain ⟨rfl, rfl⟩ := Handle.eq_of_id e
      obtain rfl := Option.some.inj (hmodified.symm.trans hd)
      exact iff_of_true (hguard (hflavour.symm.trans hf)) ⟨message, by simp⟩
    · simp only [hother e]
      exact hb.poisoned_iff h' d (by rwa [Heap.cell?_modify_of_ne _ _ e] at hd) hf

theorem alloc (hb : Blamed heap marks) {c : Cell π k} (hc : c.guard = .free) :
    Blamed (heap.alloc c).2 marks := by
  have hold {l : Kind} (h : Handle l) (hnone : (heap.alloc c).2.cell? h = none) :
      heap.cell? h = none := by
    cases hd : heap.cell? h with
    | none => rfl
    | some d => cases hnone.symm.trans (Heap.cell?_alloc_of_some _ c hd)
  refine ⟨fun l h message hnone => hb.unmade h message (hold h hnone), fun l h d hd hf => ?_⟩
  rcases Heap.cell?_alloc_cases _ c hd with hd | ⟨hnone, -, hnew⟩
  · exact hb.poisoned_iff h d hd hf
  · cases hnew
    rw [hc]
    exact iff_of_false nofun fun ⟨message, hmem⟩ => hb.unmade h message hnone hmem

end Blamed

structure World.Blamed (w : World π σ) : Prop where
  always : Always (fun m before => LazyFields.Blamed m.heap ((m :: before).reverse.map Moment.mark))
    w.journal
  now : LazyFields.Blamed w.heap w.marks

def World.Entered (w : World π σ) (h : Handle k) (f : Flavour) : Prop :=
  ∃ c, w.heap.cell? h = some c ∧ c.flavour = f ∧ (f = .shared → c.guard = .held)

section

variable {h : Handle k} {f : Flavour} {called : Bool}

theorem World.Inside.entered (hi : w.Inside h f called v) : v.Entered h f := by
  obtain ⟨c, hc, hf⟩ := hi.flavour
  refine ⟨c, hc, hf, fun hshared => ?_⟩
  obtain ⟨s, hlocked⟩ := hi.guarded hshared
  rw [Option.some.inj (hc.symm.trans hlocked)]
  rfl

theorem World.Entered.conclude (hw : w.Entered h f) (r : Ending (Except EvalError k.Val)) :
    (w.conclude h f r).Entered h f := by
  rcases r with (e | v) | message | reason
  · exact hw
  · obtain ⟨c, hc, hf, hguard⟩ := hw
    refine ⟨c.fill v, ?_, by rw [Cell.flavour_fill, hf], by rwa [Cell.guard_fill]⟩
    exact (World.cell?_store _ h v).trans (congrArg (Option.map (Cell.fill v)) hc)
  · exact hw
  · exact hw

end

theorem Cell.guard_withGuard_of_held {c : Cell π k} (h : c.guard = .held) (g : Guard) :
    (c.withGuard g).guard = g := by
  cases c with
  | ready => cases h
  | deferred => rfl

namespace World.Blamed

variable {h : Handle k} {f : Flavour}

theorem start (host : σ) : (World.start host : World π σ).Blamed := by
  refine ⟨trivial, ⟨fun k h message _ hmem => (List.not_mem_nil hmem).elim, fun k h c hc => ?_⟩⟩
  simp at hc

theorem noted (hw : w.Blamed) (w' : World π σ) (hj : w'.journal = w.journal) {m : Mark}
    (hm : LazyFields.Blamed w'.heap (w.marks ++ [m])) : (w'.note m).Blamed := by
  have hmarks : (w'.note m).marks = w.marks ++ [m] := by
    rw [marks_note, marks, history_congr hj, ← marks]
  rw [← hmarks] at hm
  exact ⟨⟨hm, hj ▸ hw.always⟩, hm⟩

theorem note (hw : w.Blamed) {m : Mark} (hm : ∀ c message, m ≠ .answered c (.panic message)) :
    (w.note m).Blamed :=
  hw.noted w rfl (hw.now.note hm)

theorem of_now (hw : w.Blamed) (hj : w'.journal = w.journal)
    (hnow : LazyFields.Blamed w'.heap w.marks) : w'.Blamed := by
  have hmarks : w'.marks = w.marks := by rw [marks, history_congr hj, ← marks]
  exact ⟨hj ▸ hw.always, hmarks ▸ hnow⟩

theorem quiet (hw : w.Blamed) (q : Quiet π σ α) : (q.apply w).2.Blamed := by
  refine hw.of_now (w.journal_quiet q) ?_
  cases q with
  | defer f p => exact hw.now.alloc (c := .fresh f (.plain p)) rfl
  | ready f v => exact hw.now.alloc (c := .ready f v) rfl
  | scenario p => exact hw.now.alloc (c := .fresh .single (.counted w.newCounter.1 p)) rfl
  | peek | evaluations | host => exact hw.now

theorem call (hw : w.Blamed) (h : Handle k) (s : Source π k) : (w.call h s).Blamed := by
  have hbump : (w.bump s.counter).Blamed :=
    hw.of_now (by cases s.counter <;> rfl) (by rw [heap_bump]; exact hw.now)
  exact hbump.note (by simp)

theorem store (hw : w.Blamed) {c : Cell π k} (hc : w.heap.cell? h = some c) (v : k.Val) :
    (w.store h v).2.Blamed := by
  unfold World.store
  split
  · exact hw
  · exact hw.of_now rfl (hw.now.modify hc (c.flavour_fill v) (by rw [c.guard_fill v]))

theorem conclude (hw : w.Blamed) (he : w.Entered h f) (r : Ending (Except EvalError k.Val)) :
    (w.conclude h f r).Blamed := by
  rcases r with (e | v) | message | reason
  · exact (hw.note (by simp)).note (by simp)
  · obtain ⟨c, hc, -⟩ := he
    have hended : (w.note (.ended h.id (.value (.of v)))).Blamed := hw.note (by simp)
    exact hended.store hc v
  · exact hw.note (by simp)
  · exact hw

theorem enter (hw : w.Blamed) {c : Cell π k} {s : Source π k} (hc : w.heap.cell? h = some c)
    (ha : c.Awaits f s) : (w.enter h f).Blamed := by
  have hasked : (w.note (.asked h.id)).Blamed := hw.note (by simp)
  cases ha with
  | single => exact hasked
  | shared =>
    exact hasked.of_now rfl (hasked.now.modify hc rfl (by simp [Cell.guard, Cell.withGuard]))

theorem answer (hw : w.Blamed) (h : Handle k) (r : Except EvalError k.Val) :
    (w.answer h (.value r)).Blamed := by
  refine hw.note fun c message => ?_
  cases r <;> simp [Finish.of, Finish.map]

theorem exit (hw : w.Blamed) (he : w.Entered h f) (r : Ending (Except EvalError k.Val)) :
    (w.exit h f r).Blamed := by
  obtain ⟨c, hc, hf, hguard⟩ := he
  cases f with
  | single =>
    cases r with
    | value r => exact hw.answer h r
    | panicked message =>
      have hleft := hw.now.leave hc (f := fun d => d) rfl (by simp [hf]) message
      rw [Heap.modify_eq_self hc rfl] at hleft
      exact hw.noted w rfl hleft
    | halted reason => exact hw
  | shared =>
    have hset := Cell.guard_withGuard_of_held (hguard rfl)
    cases r with
    | value r =>
      have hfree := hw.now.modify hc (f := (·.withGuard .free)) (by simp)
        (by rw [hset, hguard rfl]; simp)
      have hreleased : (w.modify h (·.withGuard .free)).Blamed := hw.of_now rfl hfree
      exact hreleased.answer h r
    | panicked message =>
      have hleft := hw.now.leave hc (f := (·.withGuard .poisoned)) (by simp) (fun _ => hset _)
        message
      exact hw.noted (w.modify h (·.withGuard .poisoned)) rfl hleft
    | halted reason => exact hw

theorem lawful {Heard : Ending Unit → Prop} :
    Lawful (π := π) (σ := σ) Heard fun w e w' => Steady w e w' ∧ (w.Blamed → w'.Blamed) := by
  refine Lawful.and Steady.lawful fun w e w' h hw => ?_
  cases h with
  | rest | halted => exact hw
  | andThen h₁ h₂ => exact h₂.2 (h₁.2 hw)
  | quiet q => exact hw.quiet q
  | panicked | blocked => exact hw.note (by simp)
  | caught h | overthrown h => exact (h.2 hw).note (by simp)
  | own h hm =>
    refine (h.2 hw).note fun c message e => ?_
    rw [e] at hm
    cases hm
  | known | refused => exact (hw.note (by simp)).answer _ _
  | @unheard _ h _ f _ _ w₁ r hc ha h₁ _ _ =>
    have hheard := h₁.2 ((hw.enter hc ha).note (by simp))
    rcases r with r | message | reason
    · exact hheard.exit ((Inside.announced hc ha).goesOn h₁.1 (by simp)).entered _
    · exact hheard.exit ((Inside.announced hc ha).goesOn h₁.1 (by simp)).entered _
    · cases f <;> exact hheard
  | @stopped _ h _ f s _ w₁ w₂ r hc ha h₁ h₂ hne =>
    have hcalled := h₂.2 ((h₁.2 ((hw.enter hc ha).note (by simp))).call h s)
    have hi := ((Inside.announced hc ha).goesOn h₁.1 (by simp)).call s
    rcases r with r | message | reason
    · exact absurd rfl hne
    · have hentered := (hi.goesOn h₂.1 (by simp)).entered
      exact (hcalled.conclude hentered _).exit (hentered.conclude _) _
    · cases f <;> exact hcalled
  | @stored _ h _ f s _ w₁ w₂ v held hc ha h₁ h₂ _ =>
    have hcalled := h₂.2 ((h₁.2 ((hw.enter hc ha).note (by simp))).call h s)
    have hi := ((Inside.announced hc ha).goesOn h₁.1 (by simp)).call s
    have hentered := (hi.goesOn h₂.1 (by simp)).entered
    exact (hcalled.conclude hentered _).exit (hentered.conclude _) _
  | @failed _ h _ f s x _ w₁ w₂ w₃ r hc ha h₁ h₂ h₃ _ _ =>
    have hcalled := h₂.2 ((h₁.2 ((hw.enter hc ha).note (by simp))).call h s)
    have hi := ((Inside.announced hc ha).goesOn h₁.1 (by simp)).call s
    have hfailing := (hi.goesOn h₂.1 (by simp)).failed x
    have hheard := h₃.2 (hcalled.conclude (hi.goesOn h₂.1 (by simp)).entered _)
    rcases r with r | message | reason
    · exact hheard.exit (hfailing.goesOn h₃.1 (by simp)).entered _
    · exact hheard.exit (hfailing.goesOn h₃.1 (by simp)).entered _
    · cases f <;> exact hheard
  | verifying s =>
    have hbegun : (Watch.begin s w).2.Blamed := hw.of_now rfl hw.now
    exact hbegun.note (by simp)

end World.Blamed

namespace Environment.Follows

variable {env : Environment π σ} {h : Handle k} {w₁ : World π σ}

theorem calls_again (henv : env.Follows) {s : Source π k} {g : Guard}
    (hc : w.heap.cell? h = some (.deferred .single s none g))
    (hheard : (env.notify (.forcing .single h.id) ((w.enter h .single).announce h .single)).1 =
      .value ()) :
    w.productions h.id < (env.force h w).2.productions h.id := by
  have hforced := henv.notify (.forcing .single h.id) ((w.enter h .single).announce h .single)
  rw [force_awaiting env hc .single, World.productions_exit, evaluate_eq]
  rcases hn : env.notify (.forcing .single h.id) ((w.enter h .single).announce h .single) with
    ⟨r, w₁⟩
  rw [hn] at hforced hheard
  obtain rfl : r = .value () := hheard
  have hcall := henv.obeys.produce Course.lawful s.producer (w₁.call h s)
  have hle₁ := hforced.productions_le h.id
  have hle₂ := hcall.productions_le h.id
  have hle₃ := World.productions_le_of_history (henv.called_stays h .single s w₁) h.id
  simp only [World.announce, World.productions_note, World.productions_enter,
    World.productions_call, reduceCtorEq, if_false, if_true, Nat.add_zero] at hle₁ hle₂ ⊢
  omega

end Environment.Follows

theorem Exec.attempt_eq_error {x : Exec π σ α} {message : String}
    (h : x.attempt w = (.value (.error message), v)) :
    ∃ w', x w = (.panicked message, w') ∧ v = w'.note (.caught message) := by
  unfold attempt at h
  rcases hx : x w with ⟨a | m | reason, w'⟩ <;> rw [hx] at h <;> cases h
  exact ⟨w', rfl, rfl⟩

def Host.Hears (host : Host π σ) (e : Ending Unit) : Prop :=
  ∃ depth event w, ((host.environment depth).notify event w).1.forget = e

theorem Host.run_unwinds (host : Host π σ) (depth : Nat) (x : Proc π σ α) :
    (host.run depth x).Obeys fun w e w' => Steady w e w' ∧ Unwinds host.Hears w e w' :=
  host.run_obeys Unwinds.lawful (fun depth event w => ⟨depth, event, w, rfl⟩) depth x

theorem Host.attempt_unwinds (host : Host π σ) {depth : Nat} {x : Proc π σ α} {message : String}
    (hrun : host.run depth (.attempt x) w = (.value (.error message), v)) :
    ∃ u crossed w', v = w'.note (.caught message) ∧ w.Unwound u message crossed w' ∧
      ∀ y ∈ crossed, y.called = false → host.Hears (.panicked message) := by
  obtain ⟨w', hx, rfl⟩ := Exec.attempt_eq_error hrun
  obtain ⟨-, hunwinds⟩ := host.run_unwinds depth x w
  rw [Host.run, hx] at hunwinds
  obtain ⟨u, crossed, hu, hcrossed⟩ := hunwinds message rfl
  exact ⟨u, crossed, w', rfl, hu, hcrossed⟩

/-- If listeners never panic, a panic leaves exactly the accesses whose producers are being called
where it is raised. -/
theorem Host.attempt_unwinds_calls (host : Host π σ)
    (hlisten : ∀ message, ¬ host.Hears (.panicked message)) {depth : Nat} {x : Proc π σ α}
    {message : String} (hrun : host.run depth (.attempt x) w = (.value (.error message), v)) :
    ∃ u crossed w', v = w'.note (.caught message) ∧ w.Unwound u message crossed w' ∧
      u.calls = Crossing.cells crossed ++ w.calls := by
  obtain ⟨u, crossed, w', hv, hu, hcrossed⟩ := host.attempt_unwinds hrun
  have hcalled : crossed.filter Crossing.called = crossed := by
    refine List.filter_eq_self.mpr fun y hy => ?_
    cases hy' : y.called with
    | true => rfl
    | false => exact absurd (hcrossed y hy hy') (hlisten message)
  exact ⟨u, crossed, w', hv, hu, by rw [hu.calls, Crossing.calls, hcalled]⟩

structure PanicsUnwind (host : Host π σ) : Prop where
  /-- A production that a caught panic left was in a call of its producer, unless the panic came
  from a listener. -/
  unwound : ∀ {α : Type} (depth : Nat) (x : Proc π σ α) (w v : World π σ) (message : String),
    host.run depth (.attempt x) w = (.value (.error message), v) →
      ∃ u crossed w', v = w'.note (.caught message) ∧ w.Unwound u message crossed w' ∧
        ∀ y ∈ crossed, y.called = false → host.Hears (.panicked message)
  blamed : ∀ {α : Type} (depth : Nat) (x : Proc π σ α) (s : σ),
    (host.run depth x (.start s)).2.Blamed
  again : ∀ {k : Kind} (depth : Nat) (h : Handle k) (s : Source π k) (g : Guard) (w : World π σ),
    w.heap.cell? h = some (.deferred .single s none g) →
      ((host.environment depth).notify (.forcing .single h.id)
        ((w.enter h .single).announce h .single)).1 = .value () →
      w.productions h.id < (host.run depth h.get w).2.productions h.id

/-- A panic poisons exactly the guards of the shared cells whose productions it leaves. -/
theorem Host.panics_unwind (host : Host π σ) : PanicsUnwind host where
  unwound _ _ _ _ _ hrun := host.attempt_unwinds hrun
  blamed depth x s := (host.run_obeys_law World.Blamed.lawful depth x _).2 (.start s)
  again depth _ _ _ _ hc hheard := (host.environment_follows depth).calls_again hc hheard

def Host.tumbling : Host (fun _ => Option (Handle .int)) Unit where
  produce
    | .int, none => .panic "tumbled"
    | .int, some h => h.get
    | .text, _ => return .ok ""
  listen _ := return ()

-- The panic passes through a shared field, which refuses afterwards, and leaves a single one empty.
example : (Host.tumbling.run 3 (do
    let inner ← Proc.defer (k := .int) .single (.custom none)
    let shared ← Proc.defer (k := .int) .shared (.custom (some inner))
    let outer ← Proc.defer (k := .int) .single (.custom (some shared))
    let caught ← .attempt outer.get
    return (caught, ← shared.get, ← outer.get, ← inner.isEvaluated)) (.start ())).1 =
      .value (.error "tumbled", .error .poisoned, .error .poisoned, false) := rfl

end LazyFields
