import LazyFields.Proofs.Following
import LazyFields.Proofs.Productions

/-!
Runs that never ask for a field. Such a run cannot tell whether the guard of the field is held
or what is on record, and it leaves the field as it is; so it does the same in two worlds that
differ in nothing else.
-/

namespace LazyFields

variable {π : Kind → Type} {σ α β ε : Type} {k l : Kind}

theorem modify_append {xs : List α} {i : Nat} (hi : i < xs.length) (f : α → α) (ys : List α) :
    (xs ++ ys).modify i f = xs.modify i f ++ ys := by
  induction xs generalizing i with
  | nil => simp at hi
  | cons x xs ih =>
    cases i with
    | zero => rfl
    | succ i => simpa using ih (by simpa using hi)

namespace Heap

theorem modify_comm (heap : Heap π) {h : Handle k} {h' : Handle l} (hne : h'.id ≠ h.id)
    (f : Cell π k → Cell π k) (g : Cell π l → Cell π l) :
    (heap.modify h f).modify h' g = (heap.modify h' g).modify h f := by
  by_cases e : l = k
  · subst e
    have hi : h.index ≠ h'.index := fun hi => hne (by simp [Handle.id, hi])
    cases l <;> simp [modify, cells, withCells, List.modify_modify_ne _ _ _ hi]
  · cases k <;> cases l <;> first | exact absurd rfl e | rfl

theorem alloc_modify {heap : Heap π} {h : Handle k} {c : Cell π k} (hc : heap.cell? h = some c)
    (f : Cell π k → Cell π k) (d : Cell π l) :
    (heap.modify h f).alloc d = ((heap.alloc d).1, (heap.alloc d).2.modify h f) := by
  by_cases e : l = k
  · subst e
    have hlt : h.index < (heap.cells l).length := (List.getElem?_eq_some_iff.mp hc).1
    simp only [modify, alloc, cells_withCells, List.length_modify, modify_append hlt]
    cases l <;> rfl
  · cases k <;> cases l <;> first | exact absurd rfl e | rfl

end Heap

namespace World

def asks (w : World π σ) (c : CellId) : Nat := w.marks.count (.asked c)

theorem asks_note (w : World π σ) (m : Mark) (c : CellId) :
    (w.note m).asks c = w.asks c + if m = .asked c then 1 else 0 := by
  simp [asks, List.count_append, List.count_singleton]

theorem asks_note_of_ne (w : World π σ) {m : Mark} {c : CellId} (hm : m ≠ .asked c) :
    (w.note m).asks c = w.asks c := by
  rw [asks_note, if_neg hm, Nat.add_zero]

@[simp] theorem asks_store (w : World π σ) (h : Handle k) (v : k.Val) (c : CellId) :
    (w.store h v).2.asks c = w.asks c := by
  rw [asks, marks_store, ← asks]

@[simp] theorem asks_bump (w : World π σ) (i : Option Counter) (c : CellId) :
    (w.bump i).asks c = w.asks c := by
  rw [asks, marks_bump, ← asks]

@[simp] theorem asks_begin (w : World π σ) (s : Scenario) (c : CellId) :
    (Watch.begin s w).2.asks c = w.asks c := rfl

theorem asks_le_of_history {w w' : World π σ} (h : w.history <+: w'.history) (c : CellId) :
    w.asks c ≤ w'.asks c :=
  (h.map Moment.mark).sublist.count_le _

variable {h : Handle k} {c : Cell π k} {p : Nat} {w v : World π σ}

/-- The field `h` has the cell `c` in the first world. The second differs from it in the guard of
that cell and in its journal, where the producer of the field has been called `p` times. -/
structure Resembles (h : Handle k) (c : Cell π k) (p : Nat) (w v : World π σ) : Prop where
  cell : w.heap.cell? h = some c
  heap : ∃ g, v.heap = w.heap.modify h (·.withGuard g)
  tallies : v.tallies = w.tallies
  host : v.host = w.host
  runs : v.runs = w.runs
  productions : v.productions h.id = p

namespace Resembles

theorem refl (hc : w.heap.cell? h = some c) : w.Resembles h c (w.productions h.id) w := by
  obtain ⟨g, hg⟩ : ∃ g, c.withGuard g = c := by
    cases c with
    | ready => exact ⟨.free, rfl⟩
    | deferred f s v g => exact ⟨g, rfl⟩
  exact ⟨hc, ⟨g, (Heap.modify_eq_self hc hg).symm⟩, rfl, rfl, rfl, rfl⟩

theorem note_left (hw : w.Resembles h c p v) (m : Mark) :
    (w.note m).Resembles h c p v :=
  ⟨hw.cell, hw.heap, hw.tallies, hw.host, hw.runs, hw.productions⟩

theorem note_right (hw : w.Resembles h c p v) {m : Mark} (hm : m ≠ .begun h.id) :
    w.Resembles h c p (v.note m) :=
  ⟨hw.cell, hw.heap, hw.tallies, hw.host, hw.runs,
    (v.productions_note_of_ne hm).trans hw.productions⟩

theorem note (hw : w.Resembles h c p v) (m : Mark) {m' : Mark} (hm : m' ≠ .begun h.id) :
    (w.note m).Resembles h c p (v.note m') :=
  (hw.note_left m).note_right hm

theorem peek (hw : w.Resembles h c p v) (h' : Handle l) : v.peek h' = w.peek h' := by
  obtain ⟨g, hg⟩ := hw.heap
  have hpeek := w.peek_modify_withGuard h g h'
  rwa [World.peek, World.modify, ← hg] at hpeek

theorem cell?_of_ne (hw : w.Resembles h c p v) {h' : Handle l} (hne : h'.id ≠ h.id) :
    v.heap.cell? h' = w.heap.cell? h' := by
  obtain ⟨g, hg⟩ := hw.heap
  rw [hg, Heap.cell?_modify_of_ne _ _ hne]

theorem modify (hw : w.Resembles h c p v) {h' : Handle l} (hne : h'.id ≠ h.id)
    (f : Cell π l → Cell π l) : (w.modify h' f).Resembles h c p (v.modify h' f) := by
  obtain ⟨g, hg⟩ := hw.heap
  refine ⟨?_, ⟨g, ?_⟩, hw.tallies, hw.host, hw.runs, hw.productions⟩
  · exact (Heap.cell?_modify_of_ne _ _ hne.symm).trans hw.cell
  · show v.heap.modify h' f = (w.heap.modify h' f).modify h _
    rw [hg, Heap.modify_comm _ hne]

theorem store (hw : w.Resembles h c p v) {h' : Handle l} (hne : h'.id ≠ h.id) (x : l.Val) :
    (v.store h' x).1 = (w.store h' x).1 ∧
      (w.store h' x).2.Resembles h c p (v.store h' x).2 := by
  have hpeek := hw.peek h'
  cases e : w.peek h' with
  | some held =>
    rw [store_of_peek e, store_of_peek (hpeek.trans e)]
    exact ⟨rfl, hw⟩
  | none => simpa [World.store, e, hpeek] using hw.modify hne (·.fill x)

theorem bump (hw : w.Resembles h c p v) (i : Option Counter) :
    (w.bump i).Resembles h c p (v.bump i) := by
  obtain ⟨hcell, hheap, htallies, hhost, hruns, hproductions⟩ := hw
  cases i with
  | none => exact ⟨hcell, hheap, htallies, hhost, hruns, hproductions⟩
  | some i => exact ⟨hcell, hheap, by simp [World.bump, htallies], hhost, hruns, hproductions⟩

theorem call (hw : w.Resembles h c p v) {h' : Handle l} (hne : h'.id ≠ h.id)
    (s : Source π l) : (w.call h' s).Resembles h c p (v.call h' s) := by
  exact (hw.bump s.counter).note _ (by simpa using hne)

theorem alloc (hw : w.Resembles h c p v) (d : Cell π l) :
    (v.alloc d).1 = (w.alloc d).1 ∧ (w.alloc d).2.Resembles h c p (v.alloc d).2 := by
  obtain ⟨g, hg⟩ := hw.heap
  have halloc : v.heap.alloc d =
      ((w.heap.alloc d).1, (w.heap.alloc d).2.modify h (·.withGuard g)) := by
    rw [hg, Heap.alloc_modify hw.cell]
  obtain ⟨hhandle, hheap⟩ := Prod.mk.inj halloc
  exact ⟨hhandle, Heap.cell?_alloc_of_some _ d hw.cell, ⟨g, hheap⟩, hw.tallies, hw.host, hw.runs,
    hw.productions⟩

theorem newScenario (hw : w.Resembles h c p v) (q : Producer π .int) :
    (v.newScenario q).1 = (w.newScenario q).1 ∧
      (w.newScenario q).2.Resembles h c p (v.newScenario q).2 := by
  have hcounter : v.newCounter.1 = w.newCounter.1 := by simp [newCounter, hw.tallies]
  have hcounted : w.newCounter.2.Resembles h c p v.newCounter.2 :=
    ⟨hw.cell, hw.heap, by simp [newCounter, hw.tallies], hw.host, hw.runs, hw.productions⟩
  obtain ⟨hhandle, hworld⟩ := hcounted.alloc (.fresh .single (.counted w.newCounter.1 q))
  simp only [World.newScenario, hcounter]
  exact ⟨by rw [hhandle], hworld⟩

theorem begin (hw : w.Resembles h c p v) (s : Scenario) :
    (Watch.begin s w).2.Resembles h c p (Watch.begin s v).2 :=
  ⟨hw.cell, hw.heap, hw.tallies, hw.host, congrArg (· + 1) hw.runs, hw.productions⟩

theorem quiet (hw : w.Resembles h c p v) (q : Quiet π σ α) :
    (q.apply v).1 = (q.apply w).1 ∧ (q.apply w).2.Resembles h c p (q.apply v).2 := by
  cases q with
  | defer f q => exact hw.alloc (.fresh f (.plain q))
  | ready f x => exact hw.alloc (.ready f x)
  | peek h' => exact ⟨hw.peek h', hw⟩
  | scenario q => exact hw.newScenario q
  | evaluations s => exact ⟨by simp [Quiet.apply, tally, hw.tallies], hw⟩
  | host f =>
    refine ⟨by simp [Quiet.apply, hw.host], hw.cell, hw.heap, hw.tallies, ?_, hw.runs,
      hw.productions⟩
    simp [Quiet.apply, hw.host]

end Resembles

end World

section

variable (h : Handle k) (c : Cell π k) (p : Nat)

structure Exec.Parallels (x y : Exec π σ α) : Prop where
  grows : ∀ w, w.asks h.id ≤ (x w).2.asks h.id
  same : ∀ ⦃w v : World π σ⦄, w.Resembles h c p v → (x w).2.asks h.id = w.asks h.id →
    (y v).1 = (x w).1 ∧ (x w).2.Resembles h c p (y v).2

end

variable {h : Handle k} {c : Cell π k} {p : Nat}

namespace Exec.Parallels

variable {x y : Exec π σ α}

theorem of_ending (r : Ending α) :
    Parallels h c p (fun w => (r, w) : Exec π σ α) (fun w => (r, w)) :=
  ⟨fun _ => Nat.le_refl _, fun _ _ hw _ => ⟨rfl, hw⟩⟩

theorem pure (a : α) : Parallels h c p (Pure.pure a : Exec π σ α) (Pure.pure a) :=
  .of_ending (.value a)

theorem halt (reason : Halt) : Parallels h c p (Exec.halt reason : Exec π σ α) (.halt reason) :=
  .of_ending (.halted reason)

theorem panic (message : String) :
    Parallels h c p (Exec.panic message : Exec π σ α) (.panic message) where
  grows w := Nat.le_of_eq (w.asks_note_of_ne (by simp)).symm
  same _ _ hw _ := ⟨rfl, hw.note _ (by simp)⟩

theorem asks_le (hx : Parallels h c p x y) {w w' : World π σ} {r : Ending α}
    (hr : x w = (r, w')) : w.asks h.id ≤ w'.asks h.id := by
  have hgrows := hx.grows w
  rwa [hr] at hgrows

theorem obtains (hx : Parallels h c p x y) {w v w' : World π σ} {r : Ending α}
    (hw : w.Resembles h c p v) (hr : x w = (r, w')) (hasks : w'.asks h.id = w.asks h.id) :
    ∃ v', y v = (r, v') ∧ w'.Resembles h c p v' := by
  obtain ⟨hending, hworld⟩ := hx.same hw (by rw [hr]; exact hasks)
  rw [hr] at hending hworld
  exact ⟨(y v).2, Prod.ext hending rfl, hworld⟩

theorem bind {f g : α → Exec π σ β} (hx : Parallels h c p x y)
    (hf : ∀ a, Parallels h c p (f a) (g a)) : Parallels h c p (x >>= f) (y >>= g) where
  grows w := by
    have hgrows := hx.grows w
    rw [bind_def]
    rcases hr : x w with ⟨a | message | reason, w'⟩ <;> rw [hr] at hgrows
    · exact Nat.le_trans hgrows ((hf a).grows w')
    · exact hgrows
    · exact hgrows
  -- Whoever does not ask in all does not ask halfway either.
  same w v hw hasks := by
    have hgrows := hx.grows w
    rw [bind_def] at hasks
    rw [bind_def, bind_def]
    rcases hr : x w with ⟨a | message | reason, w'⟩ <;> rw [hr] at hasks hgrows <;>
      simp only at hasks hgrows
    · have hgrows' := (hf a).grows w'
      obtain ⟨v', hy, hw'⟩ := hx.obtains hw hr (by omega)
      rw [hy]
      exact (hf a).same hw' (by omega)
    · obtain ⟨v', hy, hw'⟩ := hx.obtains hw hr hasks
      rw [hy]
      exact ⟨rfl, hw'⟩
    · obtain ⟨v', hy, hw'⟩ := hx.obtains hw hr hasks
      rw [hy]
      exact ⟨rfl, hw'⟩

theorem closing {returned returned' : α → World π σ → World π σ}
    {unwound unwound' : String → World π σ → World π σ} (hx : Parallels h c p x y)
    (hreturned : ∀ a, Parallels h c p (Exec.update (returned a)) (.update (returned' a)))
    (hunwound : ∀ m, Parallels h c p (Exec.update (unwound m)) (.update (unwound' m))) :
    Parallels h c p (x.closing returned unwound) (y.closing returned' unwound') where
  grows w := by
    have hgrows := hx.grows w
    unfold Exec.closing
    rcases hr : x w with ⟨a | message | reason, w'⟩ <;> rw [hr] at hgrows
    · exact Nat.le_trans hgrows ((hreturned a).grows w')
    · exact Nat.le_trans hgrows ((hunwound message).grows w')
    · exact hgrows
  same w v hw hasks := by
    have hgrows := hx.grows w
    unfold Exec.closing at hasks ⊢
    rcases hr : x w with ⟨a | message | reason, w'⟩ <;> rw [hr] at hasks hgrows <;>
      simp only at hasks hgrows
    · have hgrows' : w'.asks h.id ≤ (returned a w').asks h.id := (hreturned a).grows w'
      obtain ⟨v', hy, hw'⟩ := hx.obtains hw hr (by omega)
      rw [hy]
      have hsame : (returned a w').asks h.id = w'.asks h.id := by omega
      exact ⟨rfl, ((hreturned a).same hw' hsame).2⟩
    · have hgrows' : w'.asks h.id ≤ (unwound message w').asks h.id := (hunwound message).grows w'
      obtain ⟨v', hy, hw'⟩ := hx.obtains hw hr (by omega)
      rw [hy]
      have hsame : (unwound message w').asks h.id = w'.asks h.id := by omega
      exact ⟨rfl, ((hunwound message).same hw' hsame).2⟩
    · obtain ⟨v', hy, hw'⟩ := hx.obtains hw hr hasks
      rw [hy]
      exact ⟨rfl, hw'⟩

theorem change {f g : World π σ → α × World π σ}
    (hgrows : ∀ w, w.asks h.id ≤ (f w).2.asks h.id)
    (hfg : ∀ ⦃w v : World π σ⦄, w.Resembles h c p v →
      (g v).1 = (f w).1 ∧ (f w).2.Resembles h c p (g v).2) :
    Parallels h c p (Exec.change f) (.change g) where
  grows := hgrows
  same _ _ hw _ := by
    obtain ⟨hvalue, hworld⟩ := hfg hw
    exact ⟨congrArg Ending.value hvalue, hworld⟩

theorem update {f g : World π σ → World π σ} (hgrows : ∀ w, w.asks h.id ≤ (f w).asks h.id)
    (hfg : ∀ ⦃w v : World π σ⦄, w.Resembles h c p v →
      (f w).Resembles h c p (g v)) :
    Parallels h c p (Exec.update f) (.update g) :=
  ⟨hgrows, fun _ _ hw _ => ⟨rfl, hfg hw⟩⟩

theorem view {f g : World π σ → α}
    (hf : ∀ ⦃w v : World π σ⦄, w.Resembles h c p v → g v = f w) :
    Parallels h c p (Exec.view f) (.view g) :=
  ⟨fun _ => Nat.le_refl _, fun _ _ hw _ => ⟨congrArg Ending.value (hf hw), hw⟩⟩

theorem note {m m' : Mark} (hm : m' ≠ .begun h.id) :
    Parallels h c p (Exec.note m : Exec π σ Unit) (.note m') :=
  .update (fun w => by rw [w.asks_note]; exact Nat.le_add_right _ _) fun _ _ hw => hw.note _ hm

theorem begin (s : Scenario) :
    Parallels h c p (Exec.change (Watch.begin s) : Exec π σ Watch) (.change (Watch.begin s)) := by
  refine .change (fun _ => Nat.le_refl _) fun w v hw => ⟨?_, hw.begin s⟩
  simp only [Watch.begin, World.newRun, World.tally, World.isEvaluated, hw.runs, hw.tallies,
    hw.peek]

theorem recorded {x y : Exec π σ (Except ε α)} (hx : Parallels h c p x y)
    {mark mark' : Finish ε α → Mark} (hmark : ∀ finish, mark' finish ≠ .begun h.id) :
    Parallels h c p (x.recorded mark) (y.recorded mark') :=
  hx.closing (fun _ => .note (hmark _)) fun _ => .note (hmark _)

theorem attempt (hx : Parallels h c p x y) :
    Parallels h c p x.attempt y.attempt where
  grows w := by
    have hgrows := hx.grows w
    unfold Exec.attempt
    rcases hr : x w with ⟨a | message | reason, w'⟩ <;> rw [hr] at hgrows
    · exact hgrows
    · exact Nat.le_trans hgrows (Nat.le_of_eq (w'.asks_note_of_ne (by simp)).symm)
    · exact hgrows
  same w v hw hasks := by
    unfold Exec.attempt at hasks ⊢
    rcases hr : x w with ⟨a | message | reason, w'⟩ <;> rw [hr] at hasks <;> simp only at hasks
    · obtain ⟨v', hy, hw'⟩ := hx.obtains hw hr hasks
      rw [hy]
      exact ⟨rfl, hw'⟩
    · rw [World.asks_note_of_ne _ (by simp)] at hasks
      obtain ⟨v', hy, hw'⟩ := hx.obtains hw hr hasks
      rw [hy]
      exact ⟨rfl, hw'.note _ (by simp)⟩
    · obtain ⟨v', hy, hw'⟩ := hx.obtains hw hr hasks
      rw [hy]
      exact ⟨rfl, hw'⟩

end Exec.Parallels

namespace Environment

structure Parallels (h : Handle k) (c : Cell π k) (p : Nat) (env : Environment π σ) : Prop where
  follows : env.Follows
  call : ∀ l code, Exec.Parallels h c p (env.call l code) (env.call l code)
  notify : ∀ e, Exec.Parallels h c p (env.notify e) (env.notify e)

theorem asks_lt_force {env : Environment π σ} (henv : env.Follows) {w : World π σ}
    (hc : w.heap.cell? h = some c) : w.asks h.id < (env.force h w).2.asks h.id := by
  have hasked : w.asks h.id < (w.note (.asked h.id)).asks h.id := by
    rw [w.asks_note, if_pos rfl]
    exact Nat.lt_succ_self _
  refine Nat.lt_of_lt_of_le hasked (World.asks_le_of_history ?_ _)
  rcases c.access_cases with ⟨v, hv⟩ | ⟨f, s, ha⟩ | ha | ha
  · have hpeek : w.peek h = some v := (World.peek_of_cell? hc).trans hv
    rw [force_known env hpeek]
    exact World.history_prefix_answer _ _ _
  · exact henv.asked_stays hc ha
  · rw [force_eq env h hc, ha]
    exact List.prefix_refl _
  · rw [force_eq env h hc, ha]
    exact World.history_prefix_note _ _

namespace Parallels

variable {env : Environment π σ} (henv : env.Parallels h c p)

include henv

theorem emit (e : Event) : Exec.Parallels h c p (env.emit e) (env.emit e) :=
  .bind (.note (by simp)) fun _ => henv.notify e

theorem produce (q : Producer π l) :
    Exec.Parallels h c p (env.produce q) (env.produce q) := by
  cases q with
  | constant v => exact .pure _
  | division a b => exact .pure _
  | custom code => exact henv.call l code

section

variable {h' : Handle l} (hne : h'.id ≠ h.id)

include hne

theorem production (s : Source π l) :
    Exec.Parallels h c p (env.production h' s) (env.production h' s) := by
  refine .bind (.update (fun w => ?_) fun _ _ hw => hw.call hne s) fun _ => ?_
  · exact World.asks_le_of_history (w.history_prefix_call h' s) h.id
  · exact .recorded (henv.produce s.producer) fun _ => by simp

theorem evaluate (f : Flavour) (s : Source π l) :
    Exec.Parallels h c p (env.evaluate h' f s) (env.evaluate h' f s) := by
  refine .bind (henv.emit _) fun _ => .bind (henv.production hne s) fun r => ?_
  cases r with
  | ok v =>
    refine .bind (.change (fun w => ?_) fun _ _ hw => hw.store hne v) fun _ => .pure _
    exact Nat.le_of_eq (w.asks_store h' v h.id).symm
  | error e => exact .bind (henv.emit _) fun _ => .pure _

theorem resolve (a : Access π l) :
    Exec.Parallels h c p (env.resolve h' a) (env.resolve h' a) := by
  have hmodify (g : Guard) : Exec.Parallels h c p
      (Exec.update (·.modify h' (·.withGuard g)) : Exec π σ Unit)
      (.update (·.modify h' (·.withGuard g))) :=
    .update (fun _ => Nat.le_refl _) fun _ _ hw => hw.modify hne _
  cases a with
  | known v => exact .pure _
  | refused => exact .pure _
  | blocked => exact .halt _
  | unguarded s => exact henv.evaluate hne .single s
  | guarded s =>
    exact .bind (hmodify .held) fun _ =>
      .closing (henv.evaluate hne .shared s) (fun _ => hmodify .free) fun _ => hmodify .poisoned

end

theorem force (h' : Handle l) : Exec.Parallels h c p (env.force h') (env.force h') := by
  by_cases hne : h'.id = h.id
  -- An access to the field itself asks for it, so there is nothing to compare.
  · obtain ⟨rfl, rfl⟩ := Handle.eq_of_id hne
    refine ⟨fun w => World.asks_le_of_history (henv.follows.force h' w).history_grows _,
      fun w v hw hasks => ?_⟩
    exact absurd hasks (Nat.ne_of_gt (asks_lt_force henv.follows hw.cell))
  · refine .bind (.view fun _ _ hw => hw.cell?_of_ne hne) fun d => ?_
    cases d with
    | none => exact .halt _
    | some d =>
      exact .bind (.note (by simp)) fun _ => .recorded (henv.resolve hne d.access) fun _ => by simp

theorem check (t : Watch) (reported : List String) (i : Check) :
    Exec.Parallels h c p (env.check t reported i) (env.check t reported i) := by
  have hevaluations {w v : World π σ} (hw : w.Resembles h c p v) :
      t.evaluations v = t.evaluations w := by
    simp only [Watch.evaluations, World.tally, hw.tallies]
  have hdisturbed {w v : World π σ} (hw : w.Resembles h c p v) : t.disturbed v = t.disturbed w := by
    simp only [Watch.disturbed, hevaluations hw, Watch.newlyEvaluated, World.isEvaluated, hw.peek]
  cases i with
  | field name expected actual =>
    simp only [Environment.check]
    split
    · exact .bind (henv.emit _) fun _ => .pure _
    · exact .pure _
  | untouched name =>
    simp only [Environment.check]
    refine .bind (.view fun _ _ hw => hdisturbed hw) fun late => ?_
    cases late with
    | true => exact .bind (.view fun _ _ hw => hevaluations hw) fun _ => .pure _
    | false => exact .bind (henv.emit _) fun _ => .pure _

theorem checkAll (t : Watch) (reported : List String) (checks : List Check) :
    Exec.Parallels h c p (env.checkAll t reported checks) (env.checkAll t reported checks) := by
  induction checks generalizing reported with
  | nil => exact .pure _
  | cons i rest ih =>
    refine .bind (henv.check t reported i) fun r => ?_
    cases r with
    | ok reported => exact ih reported
    | error => exact .pure _

theorem access (t : Watch) (reported : List String) (b : B) :
    Exec.Parallels h c p (env.access t reported b) (env.access t reported b) := by
  refine .bind (.note (by simp)) fun _ => .bind (henv.force b.lazyField) fun r => ?_
  cases r with
  | ok v => exact .pure _
  | error e => exact .bind (henv.emit _) fun _ => .pure _

theorem verify (s : Scenario) : Exec.Parallels h c p (env.verify s) (env.verify s) := by
  refine .bind (.begin s) fun t => .bind (.note (by simp)) fun _ =>
    .recorded (.bind (henv.checkAll t _ _) fun r => ?_) fun _ => by simp
  cases r with
  | ok reported => exact henv.access t reported _
  | error => exact .pure _

theorem exec (x : Proc π σ α) : Exec.Parallels h c p (x.exec env) (x.exec env) := by
  induction x with
  | pure a => exact .pure a
  | bind x f ihx ihf => exact .bind ihx ihf
  | act a =>
    cases a with
    | quiet q =>
      refine .change (fun w => ?_) fun _ _ hw => hw.quiet q
      exact Nat.le_of_eq (congrArg (List.count _) (w.marks_quiet q)).symm
    | get h' => exact henv.force h'
    | verify s => exact henv.verify s
  | panic message => exact .panic message
  | attempt x ih => exact ih.attempt

end Parallels

end Environment

theorem Host.environment_parallels (host : Host π σ) (h : Handle k) (c : Cell π k) (p : Nat)
    (depth : Nat) : (host.environment depth).Parallels h c p := by
  induction depth with
  | zero => exact ⟨host.environment_follows 0, fun _ _ => .halt _, fun _ => .halt _⟩
  | succ depth ih =>
    exact ⟨host.environment_follows (depth + 1), fun l code => ih.exec (host.produce l code),
      fun e => ih.exec (host.listen e)⟩

end LazyFields
