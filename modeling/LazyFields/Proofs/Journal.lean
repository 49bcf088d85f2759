import LazyFields.Proofs.Following

/-!
What the journal of a run tells about its heap. Heaps on record only grow; a cell holds the
first value that its producer returned; whoever asks for a value that is there is answered at
once, and every answer is the value in the cell.
-/

namespace LazyFields

variable {π : Kind → Type} {σ α : Type} {k : Kind}

def firstProduct (marks : List Mark) (c : CellId) : Option Value :=
  marks.findSome? fun
    | .ended d (.value v) => if d = c then some v else none
    | _ => none

theorem firstProduct_append (marks : List Mark) (m : Mark) (c : CellId) :
    firstProduct (marks ++ [m]) c = (firstProduct marks c).or (firstProduct [m] c) := by
  simp only [firstProduct, List.findSome?_append]

theorem firstProduct_append_of_ne {marks : List Mark} {m : Mark} {c : CellId}
    (hm : ∀ x, m ≠ .ended c (.value x)) :
    firstProduct (marks ++ [m]) c = firstProduct marks c := by
  have hnone : firstProduct [m] c = none := by
    simp only [firstProduct, List.findSome?_cons, List.findSome?_nil]
    split
    · split at * <;> simp_all
    · rfl
  rw [firstProduct_append, hnone, Option.or_none]

def Mark.cell? : Mark → Option CellId
  | .asked c | .answered c _ | .begun c | .ended c _ => some c
  | _ => none

/-- The answer to an access that finds a value, which is due at once. -/
def Moment.due? (m : Moment π) : Option (Moment π) :=
  match m.mark with
  | .asked c =>
    (m.heap.peek c.handle).map fun v => ⟨.answered c (.value (.of v)), m.heap, m.tallies⟩
  | _ => none

def Moment.Explained (m : Moment π) (before : List (Moment π)) : Prop :=
  ∀ ⦃k : Kind⦄ (h : Handle k) (x : Value), m.mark = .answered h.id (.value x) →
    ∃ v c, x = .of v ∧ m.heap.cell? h = some c ∧ c.value? = some v ∧
      (c.source? ≠ none → firstProduct (before.reverse.map Moment.mark) h.id = some x)

/-- The property holds of every moment and those before it, in a list with the newest first. -/
def Always (P : Moment π → List (Moment π) → Prop) : List (Moment π) → Prop
  | [] => True
  | m :: before => P m before ∧ Always P before

theorem Always.split {P : Moment π → List (Moment π) → Prop} {after before : List (Moment π)}
    {m : Moment π} (h : Always P (after ++ m :: before)) : P m before := by
  induction after with
  | nil => exact h.1
  | cons _ _ ih => exact ih h.2

structure World.Recorded (w : World π σ) : Prop where
  grows : w.journal.Pairwise fun newer older => older.heap.Keeps newer.heap
  recent : ∀ m ∈ w.journal, m.heap.Keeps w.heap
  named : ∀ ⦃k : Kind⦄ (h : Handle k), w.heap.cell? h = none → ∀ m ∈ w.marks, m.cell? ≠ some h.id
  prompt : Always (fun m before => ∀ due ∈ before.head?.bind Moment.due?, m = due) w.journal
  explained : Always Moment.Explained w.journal

def World.HoldsFirst (w : World π σ) : Prop :=
  ∀ ⦃k : Kind⦄ (h : Handle k) (c : Cell π k), w.heap.cell? h = some c → c.source? ≠ none →
    firstProduct w.marks h.id = c.value?.map Value.of

/-- The state of the record between any two things that a program does. -/
structure World.Coherent (w : World π σ) : Prop extends w.Recorded where
  settled : w.journal.head?.bind Moment.due? = none
  product : w.HoldsFirst

variable {w w' : World π σ}

theorem Heap.exists_cell {heap : Heap π} {h : Handle k} {c : Cell π k}
    (hc : heap.cell? h = some c) :
    ∀ i, some h.id = some i → ∃ d, heap.cell? i.handle = some d := by
  rintro _ ⟨⟩
  exact ⟨c, hc⟩

namespace World.HoldsFirst

theorem note (hw : w.HoldsFirst) {m : Mark} (hm : ∀ c x, m ≠ .ended c (.value x)) :
    (w.note m).HoldsFirst := by
  intro k h c hc hs
  rw [marks_note, firstProduct_append_of_ne (hm h.id)]
  exact hw h c hc hs

theorem explains (hw : w.HoldsFirst) {h : Handle k} {v : k.Val} (hv : w.peek h = some v) :
    Moment.Explained ⟨.answered h.id (.value (.of v)), w.heap, w.tallies⟩ w.journal := by
  intro l h' x hx
  obtain ⟨hid, hfinish⟩ := Mark.answered.inj hx
  obtain ⟨rfl, rfl⟩ := Handle.eq_of_id hid
  obtain rfl : Value.of v = x := Finish.value.inj hfinish
  obtain ⟨c, hc, hcv⟩ := Option.bind_eq_some_iff.mp hv
  exact ⟨v, c, rfl, hc, hcv, fun hs => (hw h c hc hs).trans (by rw [hcv]; rfl)⟩

end World.HoldsFirst

namespace World.Recorded

theorem note (hw : w.Recorded) {m : Mark}
    (hcell : ∀ c, m.cell? = some c → ∃ d, w.heap.cell? c.handle = some d)
    (hdue : ∀ due ∈ w.journal.head?.bind Moment.due?, ⟨m, w.heap, w.tallies⟩ = due)
    (hexplained : Moment.Explained ⟨m, w.heap, w.tallies⟩ w.journal) : (w.note m).Recorded where
  grows := .cons hw.recent hw.grows
  recent := by
    intro m' hm'
    rcases List.mem_cons.mp hm' with rfl | hm'
    · exact .refl _
    · exact hw.recent m' hm'
  named := by
    intro k h hh m' hm'
    rw [marks_note, List.mem_append, List.mem_singleton] at hm'
    rcases hm' with hm' | rfl
    · exact hw.named h hh m' hm'
    · intro he
      obtain ⟨d, hd⟩ := hcell _ he
      exact absurd (hh.symm.trans hd) (by simp)
  prompt := ⟨hdue, hw.prompt⟩
  explained := ⟨hexplained, hw.explained⟩

theorem of_keeps (hw : w.Recorded) (hj : w'.journal = w.journal) (hk : w.heap.Keeps w'.heap) :
    w'.Recorded := by
  have hm : w'.marks = w.marks := by simp [marks, history, hj]
  refine ⟨by rw [hj]; exact hw.grows, ?_, ?_, by rw [hj]; exact hw.prompt,
    by rw [hj]; exact hw.explained⟩
  · rw [hj]
    exact fun m hmem => (hw.recent m hmem).trans hk
  · intro k h hh
    rw [hm]
    refine hw.named h ?_
    cases hc : w.heap.cell? h with
    | none => rfl
    | some c =>
      obtain ⟨d, hd, -⟩ := hk h c hc
      rw [hd] at hh
      cases hh

end World.Recorded

namespace World.Coherent

theorem start (host : σ) : (World.start host : World π σ).Coherent where
  grows := .nil
  recent := by simp [World.start]
  named := by simp [World.start, World.marks, World.history]
  prompt := trivial
  explained := trivial
  settled := rfl
  product := by
    intro k h c hc
    simp at hc

theorem nothing_due (hw : w.Coherent) (m : Moment π) :
    ∀ due ∈ w.journal.head?.bind Moment.due?, m = due := by
  rw [hw.settled]
  exact fun due hdue => nomatch hdue

theorem note (hw : w.Coherent) {m : Mark}
    (hcell : ∀ c, m.cell? = some c → ∃ d, w.heap.cell? c.handle = some d)
    (hanswered : ∀ c x, m ≠ .answered c (.value x)) (hended : ∀ c x, m ≠ .ended c (.value x))
    (hasked : ∀ c, m = .asked c → w.heap.peek c.handle = none) : (w.note m).Coherent where
  toRecorded :=
    hw.toRecorded.note hcell (hw.nothing_due _) fun k h x hx => absurd hx (hanswered h.id x)
  settled := by
    cases m with
    | asked c => simp [World.note, Moment.due?, hasked c rfl]
    | _ => rfl
  product := hw.product.note hended

theorem note_other (hw : w.Coherent) {m : Mark} (hm : m.cell? = none) : (w.note m).Coherent := by
  refine hw.note ?_ ?_ ?_ ?_
  · simp [hm]
  · rintro c x rfl
    cases hm
  · rintro c x rfl
    cases hm
  · rintro c rfl
    cases hm

theorem of_keeps (hw : w.Coherent) (hj : w'.journal = w.journal) (hk : w.heap.Keeps w'.heap)
    (hp : ∀ ⦃k : Kind⦄ (h : Handle k) (c : Cell π k), w'.heap.cell? h = some c →
      c.source? ≠ none → firstProduct w.marks h.id = c.value?.map Value.of) : w'.Coherent := by
  have hm : w'.marks = w.marks := by simp [marks, history, hj]
  exact ⟨hw.toRecorded.of_keeps hj hk, by rw [hj]; exact hw.settled,
    by unfold HoldsFirst; rw [hm]; exact hp⟩

theorem congr (hw : w.Coherent) (hj : w'.journal = w.journal) (hh : w'.heap = w.heap) :
    w'.Coherent :=
  hw.of_keeps hj (by rw [hh]; exact .refl _) (by rw [hh]; exact hw.product)

theorem modify_withGuard (hw : w.Coherent) (h : Handle k) (g : Guard) :
    (w.modify h (·.withGuard g)).Coherent := by
  refine hw.of_keeps rfl (.modify _ h (.withGuard g)) fun l h' c hc hs => ?_
  by_cases e : h'.id = h.id
  · obtain ⟨rfl, rfl⟩ := Handle.eq_of_id e
    simp only [modify, Heap.cell?_modify, Option.map_eq_some_iff] at hc
    obtain ⟨d, hd, rfl⟩ := hc
    rw [Cell.value?_withGuard]
    exact hw.product h' d hd (by simpa using hs)
  · simp only [modify, Heap.cell?_modify_of_ne _ _ e] at hc
    exact hw.product h' c hc hs

theorem alloc (hw : w.Coherent) {c : Cell π k} (hc : c.source? ≠ none → c.value? = none) :
    (w.alloc c).2.Coherent := by
  refine hw.of_keeps rfl (.alloc _ c) fun l h d hd hs => ?_
  rcases Heap.cell?_alloc_cases _ c hd with hd | ⟨hnone, -, hnew⟩
  · exact hw.product h d hd hs
  · cases hnew
    rw [hc hs]
    refine List.findSome?_eq_none_iff.mpr fun m hm => ?_
    have hname := hw.named h hnone m hm
    split
    · simp_all [Mark.cell?]
    · rfl

theorem quiet (hw : w.Coherent) (q : Quiet π σ α) : (q.apply w).2.Coherent := by
  cases q with
  | defer f p => exact hw.alloc fun _ => rfl
  | ready f v => exact hw.alloc fun h => absurd rfl h
  | scenario p =>
    have hcounter : w.newCounter.2.Coherent := hw.congr rfl rfl
    exact hcounter.alloc fun _ => rfl
  | peek h | evaluations s => exact hw
  | host f => exact hw.congr rfl rfl

theorem stored (hw : w.Coherent) {h : Handle k} {c : Cell π k} (hc : w.heap.cell? h = some c)
    (hs : c.source? ≠ none) (v : k.Val) :
    ((w.note (.ended h.id (.value (.of v)))).store h v).2.Coherent where
  toRecorded := by
    have hended := hw.toRecorded.note (Heap.exists_cell hc) (hw.nothing_due _)
      (m := .ended h.id (.value (.of v))) fun k h x hx => nomatch hx
    exact hended.of_keeps (by simp) (store_keeps _ h v)
  settled := by simp [World.note, Moment.due?]
  product := by
    intro l h' d hd hsd
    rw [marks_store, marks_note]
    by_cases e : h'.id = h.id
    · obtain ⟨rfl, rfl⟩ := Handle.eq_of_id e
      rw [cell?_store, heap_note, hc, Option.map_some] at hd
      obtain rfl : c.fill v = d := Option.some.inj hd
      rw [firstProduct_append, hw.product h' c hc hs, Cell.value?_fill]
      cases c.value? <;> simp [firstProduct]
    · rw [cell?_store_of_ne _ _ e, heap_note] at hd
      rw [firstProduct_append_of_ne]
      · exact hw.product h' d hd hsd
      · intro x hx
        exact e (Mark.ended.inj hx).1.symm

theorem known (hw : w.Coherent) {h : Handle k} {v : k.Val} (hv : w.peek h = some v) :
    ((w.note (.asked h.id)).answer h (.value (.ok v))).Coherent := by
  obtain ⟨c, hc, hcv⟩ := Option.bind_eq_some_iff.mp hv
  have hcell := Heap.exists_cell hc
  have hasked : (w.note (.asked h.id)).Recorded :=
    hw.toRecorded.note hcell (hw.nothing_due _) fun k h x hx => nomatch hx
  have hproduct : (w.note (.asked h.id)).HoldsFirst := hw.product.note fun c x hx => nomatch hx
  refine ⟨hasked.note hcell ?_ (hproduct.explains hv), rfl, hproduct.note fun c x hx => nomatch hx⟩
  have hdue : (w.note (.asked h.id)).journal.head?.bind Moment.due? =
      some ⟨.answered h.id (.value (.of v)), w.heap, w.tallies⟩ := by
    show (w.heap.peek h).map _ = _
    rw [show w.heap.peek h = some v from hv]
    rfl
  rw [hdue]
  exact fun due h => Option.some.inj h

theorem asked (hw : w.Coherent) {h : Handle k} {c : Cell π k} (hc : w.heap.cell? h = some c)
    (hv : c.value? = none) : (w.note (.asked h.id)).Coherent := by
  refine hw.note (Heap.exists_cell hc) (fun _ _ => nofun) (fun _ _ => nofun) ?_
  rintro _ ⟨⟩
  show w.heap.peek h = none
  simp [Heap.peek, hc, hv]

theorem call (hw : w.Coherent) {h : Handle k} {c : Cell π k} (hc : w.heap.cell? h = some c)
    (s : Source π k) : (w.call h s).Coherent := by
  have hbump : (w.bump s.counter).Coherent := hw.congr (by cases s.counter <;> rfl) (by simp)
  rw [← heap_bump w s.counter] at hc
  exact hbump.note (Heap.exists_cell hc) (fun _ _ => nofun) (fun _ _ => nofun) (fun _ => nofun)

theorem conclude (hw : w.Coherent) {h : Handle k} {c : Cell π k} (hc : w.heap.cell? h = some c)
    (hs : c.source? ≠ none) (f : Flavour) (r : Ending (Except EvalError k.Val)) :
    (w.conclude h f r).Coherent := by
  have hcell := Heap.exists_cell hc
  rcases r with (e | v) | message | reason
  · have hended : (w.note (.ended h.id (.error e))).Coherent :=
      hw.note hcell (fun _ _ => nofun) (fun _ _ => nofun) (fun _ => nofun)
    exact hended.note_other rfl
  · exact hw.stored hc hs v
  · exact hw.note hcell (fun _ _ => nofun) (fun _ _ => nofun) (fun _ => nofun)
  · exact hw

theorem answer (hw : w.Coherent) {h : Handle k} {c : Cell π k} (hc : w.heap.cell? h = some c)
    {r : Ending (Except EvalError k.Val)} (hr : ∀ v, r = .value (.ok v) → w.peek h = some v) :
    (w.answer h r).Coherent := by
  have hcell := Heap.exists_cell hc
  rcases r with (e | v) | message | reason
  · exact hw.note hcell (fun _ _ => nofun) (fun _ _ => nofun) (fun _ => nofun)
  · exact ⟨hw.toRecorded.note hcell (hw.nothing_due _) (hw.product.explains (hr v rfl)), rfl,
      hw.product.note fun _ _ => nofun⟩
  · exact hw.note hcell (fun _ _ => nofun) (fun _ _ => nofun) (fun _ => nofun)
  · exact hw

theorem release (hw : w.Coherent) (h : Handle k) (e : Ending Unit) : (w.release h e).Coherent := by
  cases e with
  | value | panicked => exact hw.modify_withGuard h _
  | halted => exact hw

end World.Coherent

theorem Mark.cell?_of_run? {m : Mark} {r : RunId} (h : m.run? = some r) : m.cell? = none := by
  cases m <;> simp_all [run?, cell?]

theorem Course.coherent {e : Ending Unit} (h : Course w e w') (hw : w.Coherent) : w'.Coherent := by
  induction h with
  | rest | halted => exact hw
  | andThen _ _ ih₁ ih₂ => exact ih₂ (ih₁ hw)
  | quiet q w => exact hw.quiet q
  | panicked message w => exact hw.note_other rfl
  | caught _ ih => exact (ih hw).note_other rfl
  | known hv => exact hw.known hv
  | accessed hc hv hcourse hstored ih =>
    obtain ⟨d, hd, -⟩ := hcourse.keeps _ _ hc
    exact (ih (hw.asked hc hv)).answer hd hstored
  | guarded hc _ ih => exact (ih (hw.modify_withGuard _ _)).release _ _
  | interrupted _ _ ih => exact ih (hw.note_other rfl)
  | produced hc hs hv hforced hcalled ih₁ ih₂ =>
    have hheard := ih₁ (hw.note_other rfl)
    obtain ⟨d, hd, hcd⟩ := hforced.keeps _ _ hc
    obtain ⟨d', hd', hdd'⟩ := hcalled.keeps _ _ (by rw [World.heap_call]; exact hd)
    refine (ih₂ (hheard.call hd _)).conclude hd' ?_ _ _
    rw [hdd'.source?, hcd.source?, hs]
    simp
  | verifying s w =>
    have hbegun : (Watch.begin s w).2.Coherent := hw.congr rfl rfl
    exact hbegun.note_other rfl
  | own _ hm ih => exact (ih hw).note_other (Mark.cell?_of_run? hm)

theorem Host.run_coherent (host : Host π σ) (depth : Nat) (x : Proc π σ α) (s : σ) :
    (host.run depth x (.start s)).2.Coherent :=
  (host.run_follows depth x (.start s)).coherent (.start s)

end LazyFields
