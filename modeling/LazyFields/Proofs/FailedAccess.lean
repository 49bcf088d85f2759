import LazyFields.Proofs.Later
import LazyFields.Proofs.Poisoning
import LazyFields.Proofs.Verification

/-!
Accesses that fail. A failed access stores nothing itself, but a call of the producer that it
contains may have returned a value by then, and the cell keeps the first. Only a field that no
such call has filled is still to be evaluated, and its next access calls the producer again.
-/

namespace LazyFields

variable {π : Kind → Type} {σ : Type} {k : Kind} {w w' : World π σ} {h : Handle k} {c : Cell π k}
  {since : List Mark}

theorem firstProduct_isSome_iff {marks : List Mark} {c : CellId} :
    (firstProduct marks c).isSome ↔ ∃ x, .ended c (.value x) ∈ marks := by
  simp only [firstProduct, List.findSome?_isSome_iff]
  constructor
  · rintro ⟨m, hm, hsome⟩
    split at hsome
    · split at hsome
      next heq => exact ⟨_, heq ▸ hm⟩
      next => cases hsome
    · cases hsome
  · rintro ⟨x, hx⟩
    exact ⟨_, hx, by simp⟩

namespace Course

variable {e : Ending Unit}

/-- An empty cell with a producer holds in the end the first value returned since. -/
theorem peek_eq_firstProduct (hcourse : Course w e w') (hw : w.Coherent)
    (hc : w.heap.cell? h = some c) (hs : c.source? ≠ none) (hv : c.value? = none)
    (hsince : w'.marks = w.marks ++ since) :
    (w'.peek h).map Value.of = firstProduct since h.id := by
  obtain ⟨d, hd, hcd⟩ := hcourse.keeps h c hc
  have hbefore : firstProduct w.marks h.id = none := by rw [hw.product h c hc hs, hv]; rfl
  have hafter := (hcourse.coherent hw).product h d hd (by rwa [hcd.source?])
  rw [hsince, firstProduct, List.findSome?_append, ← firstProduct, ← firstProduct, hbefore,
    Option.none_or] at hafter
  rw [World.peek_of_cell? hd, hafter]

end Course

namespace Environment.Follows

variable {env : Environment π σ} {v : World π σ}

theorem begun_stays (henv : env.Follows) {s : Source π k} {g : Guard}
    (hc : w.heap.cell? h = some (.deferred .single s none g))
    (hheard : env.emit (.forcing .single h.id) (w.note (.asked h.id)) = (.value (), v)) :
    v.marks ++ [.begun h.id] <+: (env.force h w).2.marks := by
  have hnotify : env.notify (.forcing .single h.id) ((w.enter h .single).announce h .single) =
      (.value (), v) := hheard
  have hcall := (henv.obeys.produce Course.lawful s.producer (v.call h s)).history_grows.trans
    (henv.called_stays h .single s v)
  rw [force_awaiting env hc .single, evaluate_eq, hnotify, ← World.marks_call v h s]
  exact (hcall.trans (World.history_prefix_exit _ _ _ _)).map Moment.mark

end Environment.Follows

/-- The next access to a single field calls its producer, once everybody has heard that it does. -/
def Host.CallsNext (host : Host π σ) (h : Handle k) (w : World π σ) : Prop :=
  ∀ depth v, (host.environment depth).emit (.forcing .single h.id) (w.note (.asked h.id)) =
    (.value (), v) → v.marks ++ [.begun h.id] <+: (host.run depth h.get w).2.marks

theorem Host.callsNext (host : Host π σ) (hc : w.heap.cell? h = some c)
    (hf : c.flavour = .single) (hv : w.peek h = none) : host.CallsNext h w := by
  intro depth v hheard
  have hcv : c.value? = none := (World.peek_of_cell? hc).symm.trans hv
  obtain ⟨f, s, g, rfl⟩ := Cell.eq_deferred_of_value? hcv
  obtain rfl : f = .single := hf
  exact (host.environment_follows depth).begun_stays hc hheard

/-- What an access has left of its field that failed with these marks on record since it began. -/
structure Host.Failed (host : Host π σ) (h : Handle k) (since : List Mark) (w : World π σ) :
    Prop where
  evaluated_iff : w.isEvaluated h ↔ ∃ x, .ended h.id (.value x) ∈ since
  first : (w.peek h).map Value.of = firstProduct since h.id
  empty : ∀ u, w.Later u → u.isEvaluated h = false → host.CallsNext h u
  filled : ∀ v, w.peek h = some v → host.AnswersForGood h v w

/-- A failed access to a single field leaves it unevaluated, and the next access calls the producer
again, unless a call of the producer within the failed access has returned a value: the first such
value is in the cell then, and all accesses return it. -/
theorem Host.get_failed (host : Host π σ) (depth : Nat) {e : EvalError} (hw : w.Reached)
    (hc : w.heap.cell? h = some c) (hf : c.flavour = .single)
    (hget : host.run depth h.get w = (.value (.error e), w')) :
    ∃ since, w'.marks = w.marks ++ since ∧ host.Failed h since w' := by
  have hcourse := host.run_follows depth h.get w
  rw [hget] at hcourse
  obtain ⟨since, hsince⟩ := hcourse.marks_grow
  obtain ⟨d, hd, hcd⟩ := hcourse.keeps h c hc
  have hv : c.value? = none := by
    cases hv : c.value? with
    | none => rfl
    | some v =>
      have hpeek : w.peek h = some v := (World.peek_of_cell? hc).trans hv
      have hknown := Environment.force_known (host.environment depth) hpeek
      cases hknown.symm.trans hget
  obtain ⟨f, s, g, rfl⟩ := Cell.eq_deferred_of_value? hv
  have hfirst := hcourse.peek_eq_firstProduct hw.coherent hc (by simp [Cell.source?]) hv
    hsince.symm
  refine ⟨since, hsince.symm, ?_, hfirst, fun u hu hempty => ?_,
    fun v => host.answersForGood_of_peek⟩
  · rw [← firstProduct_isSome_iff, ← hfirst, Option.isSome_map]
    rfl
  · obtain ⟨d', hd', hdd'⟩ := hu.keeps h d hd
    exact host.callsNext hd' ((hdd'.flavour.trans hcd.flavour).trans hf)
      (by simpa [World.isEvaluated] using hempty)

def Host.relenting : Host (fun _ => Unit) Nat where
  produce
    | .int, _ => do
      let calls ← Proc.host fun n => (n, n + 1)
      if calls = 0 then
        let _ ← (⟨0⟩ : Handle .int).get
        return .error (.failed "late")
      else
        return .ok 7
    | .text, _ => return .ok ""
  listen _ := return ()

def World.withRelenting : World (fun _ => Unit) Nat :=
  ((World.start 0).alloc (.fresh .single (.plain (.custom (k := .int) ())))).2

theorem World.withRelenting_reached : World.withRelenting.Reached :=
  Host.run_reached Host.relenting 0 (Proc.defer (k := .int) .single (.custom ())) 0

theorem Host.get_failed_relenting :
    ∃ w', Host.relenting.run 3 (⟨0⟩ : Handle .int).get World.withRelenting =
        (.value (.error (.failed "late")), w') ∧
      ∃ since, w'.marks = World.withRelenting.marks ++ since ∧
        Host.relenting.Failed (⟨0⟩ : Handle .int) since w' :=
  ⟨_, rfl, Host.get_failed (h := (⟨0⟩ : Handle .int)) Host.relenting 3
    World.withRelenting_reached rfl rfl rfl⟩

/-- The access fails, and yet the field is evaluated after it and its producer is not called
again. -/
theorem Host.relenting_evaluated :
    ∃ w', Host.relenting.run 3 (⟨0⟩ : Handle .int).get World.withRelenting =
        (.value (.error (.failed "late")), w') ∧
      w'.isEvaluated (⟨0⟩ : Handle .int) = true ∧
      (Host.relenting.run 3 (⟨0⟩ : Handle .int).get w').1 = .value (.ok 7) ∧
      (Host.relenting.run 3 (⟨0⟩ : Handle .int).get w').2.productions ⟨.int, 0⟩ =
        w'.productions ⟨.int, 0⟩ :=
  ⟨_, rfl, rfl, rfl, rfl⟩

end LazyFields
