import LazyFields.Proofs.Brackets
import LazyFields.Proofs.Productions

/-!
Where the values of cells come from. A cell that gains a value gains it inside an access to this
very cell, right after a call of its producer has returned that value; and a stretch of a run that
announces no production of a cell leaves the cell as it is.
-/

namespace LazyFields

variable {π : Kind → Type} {σ α : Type} {k l : Kind} {w w' w₁ w₂ w₃ : World π σ}

def produced (c : CellId) (x : Value) : List Mark := [.asked c, .begun c, .ended c (.value x)]

namespace World

@[simp] theorem peek_enter (w : World π σ) (h : Handle k) (f : Flavour) (h' : Handle l) :
    (w.enter h f).peek h' = w.peek h' := by
  cases f with
  | single => rfl
  | shared => exact peek_modify_withGuard _ h _ h'

@[simp] theorem peek_exit (w : World π σ) (h : Handle k) (f : Flavour)
    (r : Ending (Except EvalError k.Val)) (h' : Handle l) :
    (w.exit h f r).peek h' = w.peek h' := by
  cases f with
  | single => rw [exit, peek, heap_answer, ← peek]
  | shared => rw [exit, peek, heap_answer, ← peek, peek_release]

theorem peek_conclude_of_none {h : Handle k} (hc : ∃ c, w.heap.cell? h = some c)
    (hnone : w.peek h = none) (f : Flavour) (v : k.Val) :
    (w.conclude h f (.value (.ok v))).peek h = some v := by
  obtain ⟨c, hc⟩ := hc
  have hfirst : ((w.note (.ended h.id (.value (.of v)))).store h v).1 = v := by
    rw [store, show (w.note _).peek h = none from hnone]
  rw [conclude, peek_store (w := w.note _) hc v, hfirst]

/-- What `since` has on record happened from the first world to the second. A cell that gained a
value was produced and a cell that was not forced is the same, but for the cell `x`. -/
structure Stretch (x : Option CellId) (w w' : World π σ) (since : List Mark) : Prop where
  marks : w'.marks = w.marks ++ since
  keeps : w.heap.Keeps w'.heap
  filled : ∀ ⦃k : Kind⦄ (h : Handle k) (c : Cell π k) (v : k.Val), x ≠ some h.id →
    w.heap.cell? h = some c → c.value? = none → w'.peek h = some v →
      (produced h.id (.of v)).Sublist since
  unforced : ∀ ⦃k : Kind⦄ (h : Handle k) (c : Cell π k), x ≠ some h.id →
    w.heap.cell? h = some c → (∀ f, .emitted (.forcing f h.id) ∉ since) →
      w'.heap.cell? h = some c

namespace Stretch

variable {x : Option CellId} {since since' since₁ since₂ since₃ : List Mark} {h : Handle k}
  {f : Flavour} {s : Source π k}

theorem of_cells (hm : w'.marks = w.marks ++ since) (hk : w.heap.Keeps w'.heap)
    (hcell : ∀ ⦃k : Kind⦄ (h : Handle k), x ≠ some h.id → ∀ c, w.heap.cell? h = some c →
      w'.heap.cell? h = some c) : Stretch x w w' since where
  marks := hm
  keeps := hk
  filled k h c v hx hc hv hfilled := by
    rw [peek_of_cell? (hcell h hx c hc), hv] at hfilled
    cases hfilled
  unforced k h c hx hc _ := hcell h hx c hc

theorem refl (w : World π σ) : Stretch x w w [] :=
  of_cells (by simp) (.refl _) fun _ _ _ _ hc => hc

theorem note (w : World π σ) (m : Mark) : Stretch x w (w.note m) [m] :=
  of_cells (w.marks_note m) (.refl _) fun _ _ _ _ hc => hc

theorem weaken (hs : Stretch none w w' since) : Stretch x w w' since :=
  ⟨hs.marks, hs.keeps, fun _ h c v _ => hs.filled h c v nofun,
    fun _ h c _ => hs.unforced h c nofun⟩

theorem trans (h₁ : Stretch x w w₁ since) (h₂ : Stretch x w₁ w₂ since') :
    Stretch x w w₂ (since ++ since') where
  marks := by rw [h₂.marks, h₁.marks, List.append_assoc]
  keeps := h₁.keeps.trans h₂.keeps
  filled k h c v hx hc hv hfilled := by
    obtain ⟨d, hd, -⟩ := h₁.keeps h c hc
    cases hdv : d.value? with
    | none => exact (h₂.filled h d v hx hd hdv hfilled).trans (List.sublist_append_right _ _)
    | some u =>
      have hu : w₁.peek h = some u := by rw [peek_of_cell? hd, hdv]
      obtain rfl : u = v := Option.some.inj ((h₂.keeps.peek hu).symm.trans hfilled)
      exact (h₁.filled h c u hx hc hv hu).trans (List.sublist_append_left _ _)
  unforced k h c hx hc hnone := by
    have hc₁ := h₁.unforced h c hx hc fun f hf => hnone f (List.mem_append_left _ hf)
    exact h₂.unforced h c hx hc₁ fun f hf => hnone f (List.mem_append_right _ hf)

theorem complete (hs : Stretch (some h.id) w w' since)
    (hforced : .emitted (.forcing f h.id) ∈ since)
    (hfilled : ∀ v, w'.peek h = some v → (produced h.id (.of v)).Sublist since) :
    Stretch none w w' since where
  marks := hs.marks
  keeps := hs.keeps
  filled l h' c v _ hc hv hv' := by
    by_cases e : h.id = h'.id
    · obtain ⟨rfl, rfl⟩ := Handle.eq_of_id e
      exact hfilled v hv'
    · exact hs.filled h' c v (by simpa using e) hc hv hv'
  unforced l h' c _ hc hnone := by
    by_cases e : h.id = h'.id
    · exact absurd (e ▸ hforced) (hnone f)
    · exact hs.unforced h' c (by simpa using e) hc hnone

theorem call (w : World π σ) (h : Handle k) (s : Source π k) :
    Stretch x w (w.call h s) [.begun h.id] :=
  of_cells (w.marks_call h s) (by rw [heap_call]; exact .refl _)
    fun _ _ _ _ hc => by rw [heap_call]; exact hc

theorem announced (w : World π σ) (h : Handle k) (f : Flavour) :
    Stretch (some h.id) w ((w.enter h f).announce h f)
      [.asked h.id, .emitted (.forcing f h.id)] := by
  refine of_cells ?_ (w.enter_keeps h f) fun l h' hne c hc => ?_
  · cases f <;> simp [announce, enter]
  · exact (w.cell?_enter_of_ne (fun e => hne (congrArg some e.symm)) f).trans hc

theorem conclude (w : World π σ) (h : Handle k) (f : Flavour)
    (r : Ending (Except EvalError k.Val)) :
    ∃ since, Stretch (some h.id) w (w.conclude h f r) since ∧
      ∀ v, r = .value (.ok v) → .ended h.id (.value (.of v)) ∈ since := by
  have hcell : ∀ ⦃l : Kind⦄ (h' : Handle l), some h.id ≠ some h'.id → ∀ c,
      w.heap.cell? h' = some c → (w.conclude h f r).heap.cell? h' = some c :=
    fun l h' hne c hc => (w.cell?_conclude_of_ne (fun e => hne (congrArg some e.symm)) f r).trans hc
  have hkeeps := w.conclude_keeps h f r
  rcases r with (e | v) | message | reason
  · exact ⟨[.ended h.id (.error e), .emitted (.evaluationFailed f h.id e)],
      of_cells (by simp [World.conclude]) hkeeps hcell, by simp⟩
  · exact ⟨[.ended h.id (.value (.of v))],
      of_cells (by simp [World.conclude]) hkeeps hcell, by simp⟩
  · exact ⟨[.ended h.id (.panic message)], of_cells (by simp [World.conclude]) hkeeps hcell,
      by simp⟩
  · exact ⟨[], of_cells (by simp [World.conclude]) hkeeps hcell, by simp⟩

theorem exit (w : World π σ) (h : Handle k) (f : Flavour)
    (r : Ending (Except EvalError k.Val)) :
    ∃ since, Stretch (some h.id) w (w.exit h f r) since := by
  have hcell : ∀ ⦃l : Kind⦄ (h' : Handle l), some h.id ≠ some h'.id → ∀ c,
      w.heap.cell? h' = some c → (w.exit h f r).heap.cell? h' = some c :=
    fun l h' hne c hc => (w.cell?_exit_of_ne (fun e => hne (congrArg some e.symm)) f r).trans hc
  have hkeeps := w.exit_keeps h f r
  rcases r with r | message | reason
  · refine ⟨[.answered h.id ((Finish.of r).map Value.of)], of_cells ?_ hkeeps hcell⟩
    cases f <;> simp [World.exit, World.answer, World.release]
  · refine ⟨[.answered h.id (.panic message)], of_cells ?_ hkeeps hcell⟩
    cases f <;> simp [World.exit, World.answer, World.release]
  · refine ⟨[], of_cells ?_ hkeeps hcell⟩
    cases f <;> simp [World.exit, World.answer, World.release]

theorem filled_of_none {c : Cell π k} (hs : Stretch none w w' since) (hc : w.heap.cell? h = some c)
    (hnone : w.peek h = none) {v : k.Val} (hv : w'.peek h = some v) :
    (produced h.id (.of v)).Sublist since :=
  hs.filled h c v nofun hc ((peek_of_cell? hc).symm.trans hnone) hv

variable {c : Cell π k} (hc : w.heap.cell? h = some c) (ha : c.Awaits f s)

include hc ha

theorem peek_announced : ((w.enter h f).announce h f).peek h = none :=
  (peek_enter w h f h).trans ((peek_of_cell? hc).trans ha.value?)

theorem announced_produced (h₁ : Stretch none ((w.enter h f).announce h f) w₁ since₁) {v : k.Val}
    (hv : w₁.peek h = some v) : (produced h.id (.of v)).Sublist since₁ := by
  obtain ⟨g, hentered⟩ := w.cell?_enter hc ha
  exact h₁.filled_of_none (c := .deferred f s none g) hentered (peek_announced hc ha) hv

theorem called_cell (h₁ : Stretch none ((w.enter h f).announce h f) w₁ since₁)
    (h₂ : Stretch none (w₁.call h s) w₂ since₂) : ∃ d, w₂.heap.cell? h = some d := by
  obtain ⟨g, hentered⟩ := w.cell?_enter hc ha
  obtain ⟨d, hd, -⟩ := h₁.keeps h _ hentered
  obtain ⟨d', hd', -⟩ := h₂.keeps h d (by rw [heap_call]; exact hd)
  exact ⟨d', hd'⟩

theorem called_produced (h₁ : Stretch none ((w.enter h f).announce h f) w₁ since₁)
    (h₂ : Stretch none (w₁.call h s) w₂ since₂) {v : k.Val} (hv : w₂.peek h = some v) :
    (produced h.id (.of v)).Sublist (since₁ ++ .begun h.id :: since₂) := by
  obtain ⟨g, hentered⟩ := w.cell?_enter hc ha
  obtain ⟨d, hd, -⟩ := h₁.keeps h _ hentered
  have hcalled : (w₁.call h s).peek h = w₁.peek h := by rw [peek, heap_call, ← peek]
  cases hnone : w₁.peek h with
  | none =>
    have hproduced := h₂.filled_of_none (by rw [heap_call]; exact hd) (hcalled.trans hnone) hv
    exact (hproduced.trans (List.sublist_cons_self _ _)).trans (List.sublist_append_right _ _)
  | some u =>
    obtain rfl : u = v := Option.some.inj
      ((h₂.keeps.peek (hcalled.trans hnone)).symm.trans hv)
    exact (announced_produced hc ha h₁ hnone).trans (List.sublist_append_left _ _)

omit hc ha in
theorem called (h₁ : Stretch none ((w.enter h f).announce h f) w₁ since₁)
    (h₂ : Stretch none (w₁.call h s) w₂ since₂) :
    Stretch (some h.id) w w₂
      ([.asked h.id, .emitted (.forcing f h.id)] ++ (since₁ ++ .begun h.id :: since₂)) :=
  (announced w h f).trans (h₁.weaken.trans ((call w₁ h s).trans h₂.weaken))

end Stretch

end World

def Accounted (w : World π σ) (_ : Ending Unit) (w' : World π σ) : Prop :=
  ∃ since, World.Stretch none w w' since

theorem Accounted.lawful {Heard : Ending Unit → Prop} :
    Lawful Heard (Accounted (π := π) (σ := σ)) := by
  intro w e w' hw
  cases hw with
  | rest | halted => exact ⟨_, .refl _⟩
  | andThen h₁ h₂ =>
    obtain ⟨_, h₁⟩ := h₁
    obtain ⟨_, h₂⟩ := h₂
    exact ⟨_, h₁.trans h₂⟩
  | quiet q =>
    exact ⟨[], .of_cells (by simp) (q.apply_keeps w) fun _ _ _ _ hc => q.cell?_apply w hc⟩
  | panicked message => exact ⟨_, .note w _⟩
  | caught h | own h _ | overthrown h =>
    obtain ⟨_, h⟩ := h
    exact ⟨_, h.trans (.note _ _)⟩
  | known | refused => exact ⟨_, (World.Stretch.note w _).trans (.note _ _)⟩
  | blocked => exact ⟨_, .note w _⟩
  | @unheard _ h c f s _ w₁ r hc ha h₁ _ _ =>
    obtain ⟨since₁, h₁⟩ := h₁
    obtain ⟨since', hexit⟩ := World.Stretch.exit w₁ h f r
    refine ⟨_, (((World.Stretch.announced w h f).trans h₁.weaken).trans hexit).complete
      (f := f) (by simp) fun v hv => ?_⟩
    rw [World.peek_exit] at hv
    have hproduced := World.Stretch.announced_produced hc ha h₁ hv
    exact (hproduced.trans (List.sublist_append_right _ _)).trans (List.sublist_append_left _ _)
  | @stopped _ h c f s _ w₁ w₂ r hc ha h₁ h₂ hne =>
    obtain ⟨since₁, h₁⟩ := h₁
    obtain ⟨since₂, h₂⟩ := h₂
    obtain ⟨since₃, hconclude, -⟩ := World.Stretch.conclude w₂ h f r
    obtain ⟨since', hexit⟩ := World.Stretch.exit (w₂.conclude h f r) h f r
    refine ⟨_, ((h₁.called h₂).trans (hconclude.trans hexit)).complete (f := f) (by simp)
      fun v hv => ?_⟩
    have hsame : (w₂.conclude h f r).peek h = w₂.peek h := by
      rcases r with r | message | reason
      · exact absurd rfl hne
      · rfl
      · rfl
    rw [World.peek_exit, hsame] at hv
    have hproduced := World.Stretch.called_produced hc ha h₁ h₂ hv
    exact (hproduced.trans (List.sublist_append_right _ _)).trans (List.sublist_append_left _ _)
  | @stored _ h c f s _ w₁ w₂ v held hc ha h₁ h₂ _ =>
    obtain ⟨since₁, h₁⟩ := h₁
    obtain ⟨since₂, h₂⟩ := h₂
    obtain ⟨since₃, hconclude, hended⟩ := World.Stretch.conclude w₂ h f (.value (.ok v))
    obtain ⟨since', hexit⟩ := World.Stretch.exit (w₂.conclude h f (.value (.ok v))) h f
      (.value (.ok held))
    refine ⟨_, ((h₁.called h₂).trans (hconclude.trans hexit)).complete (f := f) (by simp)
      fun u hu => ?_⟩
    rw [World.peek_exit] at hu
    cases hnone : w₂.peek h with
    | some held =>
      have hheld : u = held := Option.some.inj (hu.symm.trans (hconclude.keeps.peek hnone))
      rw [hheld]
      have hproduced := World.Stretch.called_produced hc ha h₁ h₂ hnone
      exact (hproduced.trans (List.sublist_append_right _ _)).trans (List.sublist_append_left _ _)
    | none =>
      -- The value that the call returned is the one that the cell holds now.
      have hcell := World.Stretch.called_cell hc ha h₁ h₂
      obtain rfl : v = u :=
        Option.some.inj ((World.peek_conclude_of_none hcell hnone f v).symm.trans hu)
      have hasked : [Mark.asked h.id].Sublist [.asked h.id, .emitted (.forcing f h.id)] :=
        List.singleton_sublist.mpr (by simp)
      have hbegun : [Mark.begun h.id].Sublist (since₁ ++ .begun h.id :: since₂) :=
        List.singleton_sublist.mpr (by simp)
      have hreturned := List.singleton_sublist.mpr (List.mem_append_left since' (hended v rfl))
      exact (hasked.append hbegun).append hreturned
  | @failed _ h c f s x _ w₁ w₂ w₃ r hc ha h₁ h₂ h₃ _ _ =>
    obtain ⟨since₁, h₁⟩ := h₁
    obtain ⟨since₂, h₂⟩ := h₂
    obtain ⟨since₃, h₃⟩ := h₃
    obtain ⟨since₄, hconclude, -⟩ := World.Stretch.conclude w₂ h f (.value (.error x))
    obtain ⟨since', hexit⟩ := World.Stretch.exit w₃ h f r
    refine ⟨_, ((h₁.called h₂).trans (hconclude.trans (h₃.weaken.trans hexit))).complete (f := f)
      (by simp) fun v hv => ?_⟩
    rw [World.peek_exit] at hv
    cases hnone : w₂.peek h with
    | none =>
      obtain ⟨d, hd⟩ := World.Stretch.called_cell hc ha h₁ h₂
      have hproduced := h₃.filled_of_none hd hnone hv
      refine hproduced.trans (.trans ?_ (List.sublist_append_right _ _))
      exact (List.sublist_append_left _ _).trans (List.sublist_append_right _ _)
    | some u =>
      obtain rfl : u = v := Option.some.inj
        ((h₃.keeps.peek hnone).symm.trans hv)
      have hproduced := World.Stretch.called_produced hc ha h₁ h₂ hnone
      exact (hproduced.trans (List.sublist_append_right _ _)).trans (List.sublist_append_left _ _)
  | verifying s =>
    exact ⟨[.verifying _], .of_cells (World.marks_note _ _) (.refl _) fun _ _ _ _ hc => hc⟩

def Cell.product? : Cell π k → Option k.Val
  | .ready _ _ => none
  | .deferred _ _ value _ => value

theorem Cell.product?_withGuard (g : Guard) (c : Cell π k) :
    (c.withGuard g).product? = c.product? := by
  cases c <;> rfl

theorem Cell.product?_fill {c : Cell π k} {u v : k.Val} (h : (c.fill v).product? = some u) :
    c.product? = some u ∨ v = u := by
  rcases c with _ | ⟨_, _, _ | _, _⟩
  · exact .inl h
  · exact .inr (Option.some.inj h)
  · exact .inl h

def Heap.product? (heap : Heap π) (h : Handle k) : Option k.Val :=
  (heap.cell? h).bind Cell.product?

namespace World

theorem product?_modify_withGuard (w : World π σ) (h : Handle k) (g : Guard) (h' : Handle l) :
    (w.modify h (·.withGuard g)).heap.product? h' = w.heap.product? h' := by
  by_cases e : h'.id = h.id
  · obtain ⟨rfl, rfl⟩ := Handle.eq_of_id e
    simp only [Heap.product?, modify, Heap.cell?_modify]
    cases w.heap.cell? h' with
    | none => rfl
    | some c => exact c.product?_withGuard g
  · rw [Heap.product?, modify, Heap.cell?_modify_of_ne _ _ e, Heap.product?]

theorem product?_alloc (w : World π σ) {c : Cell π k} (hc : c.product? = none) (h : Handle l) :
    (w.alloc c).2.heap.product? h = w.heap.product? h := by
  unfold Heap.product?
  cases hd : w.heap.cell? h with
  | some d => rw [show (w.alloc c).2.heap.cell? h = some d from Heap.cell?_alloc_of_some _ c hd]
  | none =>
    cases hnew : (w.alloc c).2.heap.cell? h with
    | none => rfl
    | some d =>
      rcases Heap.cell?_alloc_cases _ c hnew with hold | ⟨-, -, hsame⟩
      · cases hd.symm.trans hold
      · cases hsame
        exact hc

theorem product?_quiet (w : World π σ) (q : Quiet π σ α) (h : Handle l) :
    (q.apply w).2.heap.product? h = w.heap.product? h := by
  cases q with
  | defer f p => exact w.product?_alloc rfl h
  | ready f v => exact w.product?_alloc rfl h
  | scenario p => exact w.newCounter.2.product?_alloc rfl h
  | peek | evaluations | host => rfl

end World

/-- From this moment to the next the products of cells stay, but for one that appears when the
innermost access under way has called the producer of its cell and the call has returned it. -/
def Moment.Explains (m : Moment π) (before : List (Moment π)) (next : Heap π) : Prop :=
  ∀ ⦃k : Kind⦄ (h : Handle k) (v : k.Val), next.product? h = some v →
    m.heap.product? h = some v ∨
      m.mark = .ended h.id (.value (.of v)) ∧
        (underway (before.reverse.map Moment.mark)).head? = some ⟨h.id, true⟩

def Attributed (next : Heap π) : List (Moment π) → Prop
  | [] => ∀ ⦃k : Kind⦄ (h : Handle k), next.product? h = none
  | m :: before => m.Explains before next ∧ Attributed m.heap before

def World.Attributed (w : World π σ) : Prop := LazyFields.Attributed w.heap w.journal

namespace World.Attributed

theorem start (host : σ) : (World.start host : World π σ).Attributed := by
  intro k h
  cases k <;> rfl

theorem of_products (hw : w.Attributed) (hj : w'.journal = w.journal)
    (hp : ∀ ⦃k : Kind⦄ (h : Handle k), w'.heap.product? h = w.heap.product? h) :
    w'.Attributed := by
  unfold World.Attributed at hw ⊢
  rw [hj]
  generalize w.journal = journal at hw
  cases journal with
  | nil => exact fun k h => (hp h).trans (hw h)
  | cons m before => exact ⟨fun k h v hv => hw.1 h v ((hp h).symm.trans hv), hw.2⟩

theorem note (hw : w.Attributed) (m : Mark) : (w.note m).Attributed :=
  ⟨fun _ _ _ => .inl, hw⟩

theorem modify_withGuard (hw : w.Attributed) (h : Handle k) (g : Guard) :
    (w.modify h (·.withGuard g)).Attributed :=
  hw.of_products rfl fun _ => w.product?_modify_withGuard h g

theorem enter (hw : w.Attributed) (h : Handle k) (f : Flavour) : (w.enter h f).Attributed := by
  cases f with
  | single => exact hw.note _
  | shared => exact (hw.note _).modify_withGuard h .held

theorem call (hw : w.Attributed) (h : Handle k) (s : Source π k) : (w.call h s).Attributed := by
  have hbump : (w.bump s.counter).Attributed :=
    hw.of_products (by cases s.counter <;> rfl) fun _ _ => by rw [heap_bump]
  exact hbump.note _

theorem answer (hw : w.Attributed) (h : Handle k) (r : Ending (Except EvalError k.Val)) :
    (w.answer h r).Attributed := by
  cases r with
  | value | panicked => exact hw.note _
  | halted => exact hw

theorem exit (hw : w.Attributed) (h : Handle k) (f : Flavour)
    (r : Ending (Except EvalError k.Val)) : (w.exit h f r).Attributed := by
  cases f with
  | single => exact hw.answer h r
  | shared =>
    cases r with
    | value | panicked => exact (hw.modify_withGuard h _).answer h _
    | halted => exact hw

theorem stored (hw : w.Attributed) {h : Handle k} {rest : List Underway}
    (hunderway : w.underway = ⟨h.id, true⟩ :: rest) (f : Flavour) (v : k.Val) :
    (w.conclude h f (.value (.ok v))).Attributed := by
  unfold World.Attributed
  rw [show (w.conclude h f (.value (.ok v))).journal = _ from journal_store _ h v]
  refine ⟨fun l h' u hu => ?_, hw⟩
  by_cases e : h'.id = h.id
  · obtain ⟨rfl, rfl⟩ := Handle.eq_of_id e
    obtain ⟨d, hd, hdu⟩ := Option.bind_eq_some_iff.mp hu
    obtain ⟨c, hc, rfl⟩ := Option.map_eq_some_iff.mp ((cell?_store (w.note _) h' v).symm.trans hd)
    refine (Cell.product?_fill hdu).imp (fun hold => ?_) fun hnew => ?_
    · exact Option.bind_eq_some_iff.mpr ⟨c, hc, hold⟩
    · refine ⟨by rw [hnew], ?_⟩
      show w.underway.head? = _
      rw [hunderway, List.head?_cons]
  · have hsame := w.cell?_conclude_of_ne e f (.value (.ok v))
    exact .inl (by rwa [Heap.product?, hsame] at hu)

theorem lawful {Heard : Ending Unit → Prop} :
    Lawful (π := π) (σ := σ) Heard fun w e w' =>
      ClosesUnlessHalted w e w' ∧ (w.Attributed → w'.Attributed) := by
  refine Lawful.and Closes.lawful fun w e w' h hw => ?_
  cases h with
  | rest | halted => exact hw
  | andThen h₁ h₂ => exact h₂.2 (h₁.2 hw)
  | quiet q => exact hw.of_products (by simp) fun _ => w.product?_quiet q
  | panicked | blocked => exact hw.note _
  | caught h | own h _ | overthrown h => exact (h.2 hw).note _
  | known | refused => exact (hw.note _).answer _ _
  | unheard _ _ h₁ _ _ => exact (h₁.2 ((hw.enter _ _).note _)).exit _ _ _
  | @stopped _ _ _ _ _ _ _ _ r _ _ h₁ h₂ hne =>
    have hcalled := h₂.2 ((h₁.2 ((hw.enter _ _).note _)).call _ _)
    rcases r with r | message | reason
    · exact absurd rfl hne
    · exact (hcalled.note _).exit _ _ _
    · exact hcalled.exit _ _ _
  | stored _ _ h₁ h₂ _ =>
    have hcalled := h₂.2 ((h₁.2 ((hw.enter _ _).note _)).call _ _)
    have hunderway := (h₁.1 (by simp)).underway_called (h₂.1 (by simp))
    exact (hcalled.stored hunderway _ _).exit _ _ _
  | failed _ _ h₁ h₂ h₃ _ _ =>
    have hcalled := h₂.2 ((h₁.2 ((hw.enter _ _).note _)).call _ _)
    exact (h₃.2 ((hcalled.note _).note _)).exit _ _ _
  | verifying s =>
    have hbegun : (Watch.begin s w).2.Attributed := hw.of_products rfl fun _ _ => rfl
    exact hbegun.note _

end World.Attributed

end LazyFields
