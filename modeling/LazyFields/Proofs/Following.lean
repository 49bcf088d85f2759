import LazyFields.Proofs.Laws

/-!
Every run follows a course. Being a course is a law of all runs, so computations that only use
producers and listeners that follow courses follow one.
-/

namespace LazyFields

variable {π : Kind → Type} {σ α : Type} {k : Kind}

namespace Exec

def Follows (x : Exec π σ α) : Prop := ∀ w, Course w (x w).1.forget (x w).2

def Prolongs (x : Exec π σ α) (w : World π σ) : Prop :=
  ∀ w₁, Course w (.value ()) w₁ → Course w (x w₁).1.forget (x w₁).2

end Exec

namespace Environment

structure Follows (env : Environment π σ) : Prop where
  call : ∀ k code, (env.call k code).Follows
  notify : ∀ e, (env.notify e).Follows

variable {env : Environment π σ}

theorem Follows.obeys (henv : env.Follows) : env.Obeys (fun _ => True) Course :=
  ⟨henv.call, henv.notify, fun _ _ => trivial⟩

theorem Obeys.follows {Heard : Ending Unit → Prop} (henv : env.Obeys Heard Course) :
    env.Follows :=
  ⟨henv.call, henv.notify⟩

theorem Follows.force (henv : env.Follows) (h : Handle k) : (env.force h).Follows :=
  henv.obeys.force Course.lawful h

theorem check_prolongs (henv : env.Follows) {t : Watch} {w : World π σ} (ht : t.run = ⟨w.runs⟩)
    (reported : List String) (c : Check) : (env.check t reported c).Prolongs w :=
  henv.obeys.check Course.lawful ht reported c

/-! Every part of an evaluation stays on record. -/

theorem Follows.called_stays (henv : env.Follows) (h : Handle k) (f : Flavour) (s : Source π k)
    (w : World π σ) :
    (env.produce s.producer (w.call h s)).2.history <+: (env.settle h f s w).2.history := by
  rw [settle_eq]
  rcases env.produce s.producer (w.call h s) with ⟨(e | v) | message | reason, w₁⟩ <;> simp only
  · have hfailed := henv.notify (.evaluationFailed f h.id e) (w₁.conclude h f (.value (.error e)))
    have hgrows := (w₁.history_prefix_conclude h f (.value (.error e))).trans
      hfailed.history_grows
    rcases hn : env.notify (.evaluationFailed f h.id e)
      (w₁.conclude h f (.value (.error e))) with ⟨_ | message | reason, w₂⟩ <;>
      rw [hn] at hgrows <;> exact hgrows
  · exact w₁.history_prefix_conclude h f _
  · exact w₁.history_prefix_conclude h f _
  · exact List.prefix_refl _

theorem Follows.settle_grows (henv : env.Follows) (h : Handle k) (f : Flavour) (s : Source π k)
    (w : World π σ) : w.history <+: (env.settle h f s w).2.history := by
  have hcall := henv.obeys.produce Course.lawful s.producer (w.call h s)
  exact ((w.history_prefix_call h s).trans hcall.history_grows).trans
    (henv.called_stays h f s w)

theorem Follows.heard_stays (henv : env.Follows) (h : Handle k) (f : Flavour) (s : Source π k)
    (w : World π σ) :
    (env.notify (.forcing f h.id) (w.announce h f)).2.history <+:
      (env.evaluate h f s w).2.history := by
  rw [evaluate_eq]
  rcases env.notify (.forcing f h.id) (w.announce h f) with ⟨_ | message | reason, w₁⟩
  · exact henv.settle_grows h f s w₁
  · exact List.prefix_refl _
  · exact List.prefix_refl _

theorem Follows.asked_stays (henv : env.Follows) {h : Handle k} {c : Cell π k} {f : Flavour}
    {s : Source π k} {w : World π σ} (hc : w.heap.cell? h = some c) (ha : c.Awaits f s) :
    (w.note (.asked h.id)).history <+: (env.force h w).2.history := by
  have hforced := henv.notify (.forcing f h.id) ((w.enter h f).announce h f)
  rw [force_awaiting env hc ha, ← World.history_enter w h f]
  exact (((World.history_prefix_note _ _).trans hforced.history_grows).trans
    (henv.heard_stays h f s _)).trans (World.history_prefix_exit _ _ _ _)

theorem Follows.peek_of_settle (henv : env.Follows) {h : Handle k} {c : Cell π k} {f : Flavour}
    {s : Source π k} {v : k.Val} {w : World π σ} (hc : w.heap.cell? h = some c)
    (hr : (env.settle h f s w).1 = .value (.ok v)) : (env.settle h f s w).2.peek h = some v := by
  have hcall := henv.obeys.produce Course.lawful s.producer (w.call h s)
  rw [settle_eq] at hr ⊢
  rcases hp : env.produce s.producer (w.call h s) with ⟨(e | u) | message | reason, w₁⟩ <;>
    rw [hp] at hcall hr <;> simp only at hr ⊢
  · rcases hn : env.notify (.evaluationFailed f h.id e)
      (w₁.conclude h f (.value (.error e))) with ⟨_ | message | reason, w₂⟩ <;>
      rw [hn] at hr <;> cases hr
  · obtain ⟨d, hd, -⟩ := hcall.keeps h c (by rw [World.heap_call]; exact hc)
    cases hr
    exact World.peek_store (w := w₁.note (.ended h.id (.value (.of u)))) hd u
  · cases hr
  · cases hr

theorem Follows.peek_of_evaluate (henv : env.Follows) {h : Handle k} {c : Cell π k} {f : Flavour}
    {s : Source π k} {v : k.Val} {w : World π σ} (hc : w.heap.cell? h = some c) (ha : c.Awaits f s)
    (hr : (env.evaluate h f s (w.enter h f)).1 = .value (.ok v)) :
    (env.evaluate h f s (w.enter h f)).2.peek h = some v := by
  obtain ⟨g, hentered⟩ := w.cell?_enter hc ha
  have hforced := henv.notify (.forcing f h.id) ((w.enter h f).announce h f)
  rw [evaluate_eq] at hr ⊢
  rcases hn : env.notify (.forcing f h.id) ((w.enter h f).announce h f) with
    ⟨_ | message | reason, w₁⟩ <;> rw [hn] at hforced hr <;> simp only at hr ⊢
  · obtain ⟨d, hd, -⟩ := hforced.keeps h _ hentered
    exact henv.peek_of_settle hd hr
  · cases hr
  · cases hr

theorem Follows.peek_of_force (henv : env.Follows) {h : Handle k} {v : k.Val} {w w' : World π σ}
    (hforce : env.force h w = (.value (.ok v), w')) : w'.peek h = some v := by
  cases hc : w.heap.cell? h with
  | none =>
    rw [force_dangling env h hc] at hforce
    cases hforce
  | some c =>
    rcases c.access_cases with ⟨u, hu⟩ | ⟨f, s, ha⟩ | ha | ha
    · have hpeek : w.peek h = some u := (World.peek_of_cell? hc).trans hu
      rw [force_known env hpeek] at hforce
      cases hforce
      exact hpeek
    · rw [force_awaiting env hc ha] at hforce
      obtain ⟨hr, rfl⟩ := Prod.mk.inj hforce
      rw [hr]
      exact (World.exit_keeps _ h f _).peek (henv.peek_of_evaluate hc ha hr)
    · rw [force_eq env h hc, ha] at hforce
      cases hforce
    · rw [force_eq env h hc, ha] at hforce
      cases hforce

end Environment

theorem Host.environment_follows (host : Host π σ) (depth : Nat) :
    (host.environment depth).Follows :=
  (host.environment_obeys_law Course.lawful depth).follows

theorem Host.run_follows (host : Host π σ) (depth : Nat) (x : Proc π σ α) :
    (host.run depth x).Follows :=
  host.run_obeys_law Course.lawful depth x

end LazyFields
