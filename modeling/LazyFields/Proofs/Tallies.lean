import LazyFields.Proofs.Productions

/-!
The tally of a scenario counts the calls of the producer of its field. A counter belongs to
one cell only, and every call of the producer of that cell is counted when it begins.
-/

namespace LazyFields

variable {π : Kind → Type} {σ α : Type} {k l : Kind} {w w' : World π σ}

def Heap.counter? (heap : Heap π) (h : Handle k) : Option Counter :=
  ((heap.cell? h).bind Cell.source?).bind Source.counter

def World.Made (w : World π σ) (s : Scenario) : Prop :=
  w.heap.counter? s.lazyField = some s.counter

structure World.Tallied (w : World π σ) : Prop where
  inRange : ∀ ⦃k : Kind⦄ (h : Handle k) (i : Counter), w.heap.counter? h = some i →
    i.index < w.tallies.length
  counted : ∀ ⦃k : Kind⦄ (h : Handle k) (i : Counter), w.heap.counter? h = some i →
    w.tally i = w.productions h.id
  unshared : ∀ ⦃k l : Kind⦄ (h : Handle k) (h' : Handle l) (i : Counter),
    w.heap.counter? h = some i → w.heap.counter? h' = some i → h.id = h'.id
  unmade : ∀ ⦃k : Kind⦄ (h : Handle k), w.heap.cell? h = none → w.productions h.id = 0

theorem Heap.counter?_eq {heap : Heap π} {h : Handle k} {c : Cell π k} {s : Source π k}
    (hc : heap.cell? h = some c) (hs : c.source? = some s) : heap.counter? h = s.counter := by
  simp [counter?, hc, hs]

theorem Heap.counter?_alloc_cases {heap : Heap π} {c : Cell π k} {h : Handle l} {i : Counter}
    (hi : (heap.alloc c).2.counter? h = some i) :
    heap.counter? h = some i ∨
      h.id = (heap.alloc c).1.id ∧ c.source?.bind Source.counter = some i := by
  obtain ⟨s, hs, hcounter⟩ := Option.bind_eq_some_iff.mp hi
  obtain ⟨d, hd, hds⟩ := Option.bind_eq_some_iff.mp hs
  rcases heap.cell?_alloc_cases c hd with hd | ⟨-, hid, hnew⟩
  · exact .inl ((counter?_eq hd hds).trans hcounter)
  · cases hnew
    exact .inr ⟨hid, by rw [hds]; exact hcounter⟩

theorem Heap.Keeps.counter? {a b : Heap π} (hab : a.Keeps b) {h : Handle k} {c : Cell π k}
    (hc : a.cell? h = some c) : b.counter? h = a.counter? h := by
  obtain ⟨d, hd, hcd⟩ := hab h c hc
  simp [Heap.counter?, hc, hd, hcd.source?]

theorem Heap.exists_cell_of_counter? {heap : Heap π} {h : Handle k} {i : Counter}
    (hi : heap.counter? h = some i) : ∃ c, heap.cell? h = some c := by
  obtain ⟨_, hsource, -⟩ := Option.bind_eq_some_iff.mp hi
  obtain ⟨c, hc, -⟩ := Option.bind_eq_some_iff.mp hsource
  exact ⟨c, hc⟩

theorem Heap.Keeps.counter?_eq_some {a b : Heap π} (hab : a.Keeps b) {h : Handle k} {i : Counter}
    (hi : a.counter? h = some i) : b.counter? h = some i := by
  obtain ⟨c, hc⟩ := Heap.exists_cell_of_counter? hi
  exact (hab.counter? hc).trans hi

theorem World.Made.keeps {s : Scenario} (hs : w.Made s) (hk : w.heap.Keeps w'.heap) :
    w'.Made s :=
  hk.counter?_eq_some hs

theorem Course.productions_lt_of_evaluated {e : Ending Unit} (h : Course w e w') {s : Scenario}
    (hs : w.Made s) (hempty : w.isEvaluated s.lazyField = false)
    (hfilled : w'.isEvaluated s.lazyField = true) :
    w.productions s.lazyField.id < w'.productions s.lazyField.id := by
  obtain ⟨c, hc⟩ := Heap.exists_cell_of_counter? hs
  have hv : c.value? = none := by
    rw [← World.peek_of_cell? hc]
    simpa [World.isEvaluated] using hempty
  exact h.productions_lt_of_filled hc hv (Option.isSome_iff_ne_none.mp hfilled)

namespace World.Tallied

theorem start (host : σ) : (World.start host : World π σ).Tallied where
  inRange := by
    intro k h i hi
    simp [Heap.counter?] at hi
  counted := by
    intro k h i hi
    simp [Heap.counter?] at hi
  unshared := by
    intro k l h h' i hi
    simp [Heap.counter?] at hi
  unmade := by
    intro k h _
    simp [World.start, World.productions, World.marks, World.history]

theorem congr (hw : w.Tallied)
    (hcounter : ∀ ⦃k : Kind⦄ (h : Handle k), w'.heap.counter? h = w.heap.counter? h)
    (hcell : ∀ ⦃k : Kind⦄ (h : Handle k), w'.heap.cell? h = none → w.heap.cell? h = none)
    (htallies : w'.tallies = w.tallies) (hcalls : ∀ c, w'.productions c = w.productions c) :
    w'.Tallied where
  inRange := by
    intro k h i hi
    rw [htallies]
    exact hw.inRange h i (by rw [← hcounter, hi])
  counted := by
    intro k h i hi
    rw [tally, htallies, hcalls]
    exact hw.counted h i (by rw [← hcounter, hi])
  unshared := by
    intro k l h h' i hi hi'
    exact hw.unshared h h' i (by rw [← hcounter, hi]) (by rw [← hcounter, hi'])
  unmade := by
    intro k h hh
    rw [hcalls]
    exact hw.unmade h (hcell h hh)

theorem note (hw : w.Tallied) {m : Mark} (hm : ∀ c, m ≠ .begun c) : (w.note m).Tallied :=
  hw.congr (fun _ _ => rfl) (fun _ _ => id) rfl fun c => w.productions_note_of_ne (hm c)

theorem modify (hw : w.Tallied) (h : Handle k) {f : Cell π k → Cell π k}
    (hf : ∀ c, (f c).source? = c.source?) : (w.modify h f).Tallied := by
  have hcell : ∀ ⦃l : Kind⦄ (h' : Handle l),
      ((w.modify h f).heap.cell? h').map Cell.source? = (w.heap.cell? h').map Cell.source? := by
    intro l h'
    by_cases e : h'.id = h.id
    · obtain ⟨rfl, rfl⟩ := Handle.eq_of_id e
      rw [World.modify, Heap.cell?_modify, Option.map_map]
      exact Option.map_congr fun c _ => hf c
    · rw [World.modify, Heap.cell?_modify_of_ne _ _ e]
  refine hw.congr (fun l h' => ?_) (fun l h' hh => ?_) rfl fun _ => rfl
  · have hmap := hcell h'
    simp only [Heap.counter?]
    cases hc : w.heap.cell? h' <;> cases hd : (w.modify h f).heap.cell? h' <;>
      simp_all
  · have hmap := hcell h'
    rw [hh] at hmap
    simpa using hmap.symm

theorem alloc (hw : w.Tallied) {c : Cell π k}
    (hc : ∀ i, c.source?.bind Source.counter = some i →
      i.index < w.tallies.length ∧ w.tally i = 0 ∧
        ∀ ⦃l : Kind⦄ (h : Handle l), w.heap.counter? h ≠ some i) :
    (w.alloc c).2.Tallied where
  inRange := by
    intro l h i hi
    rcases Heap.counter?_alloc_cases hi with hi | ⟨-, hi⟩
    · exact hw.inRange h i hi
    · exact (hc i hi).1
  counted := by
    intro l h i hi
    rcases Heap.counter?_alloc_cases hi with hold | ⟨hid, hnew⟩
    · exact hw.counted h i hold
    · have hunmade : w.heap.cell? h = none := by
        obtain ⟨rfl, rfl⟩ := Handle.eq_of_id hid
        simp [Heap.cell?, Heap.alloc]
      exact (hc i hnew).2.1.trans (hw.unmade h hunmade).symm
  unshared := by
    intro l l' h h' i hi hi'
    rcases Heap.counter?_alloc_cases hi with hold | ⟨hid, hnew⟩ <;>
      rcases Heap.counter?_alloc_cases hi' with hold' | ⟨hid', hnew'⟩
    · exact hw.unshared h h' i hold hold'
    · exact absurd hold ((hc i hnew').2.2 h)
    · exact absurd hold' ((hc i hnew).2.2 h')
    · rw [hid, hid']
  unmade := by
    intro l h hh
    refine hw.unmade h ?_
    cases hd : w.heap.cell? h with
    | none => rfl
    | some d => exact absurd ((Heap.cell?_alloc_of_some _ c hd).symm.trans hh) (by simp)

theorem newScenario (hw : w.Tallied) (p : Producer π .int) : (w.newScenario p).2.Tallied := by
  have hcounter : w.newCounter.2.Tallied := by
    refine ⟨?_, ?_, hw.unshared, hw.unmade⟩
    · intro k h i hi
      have hlt := hw.inRange h i hi
      simp only [newCounter, List.length_append, List.length_singleton]
      omega
    · intro k h i hi
      have hlt := hw.inRange h i hi
      have htally : w.newCounter.2.tally i = w.tally i := by
        simp [newCounter, tally, List.getD, List.getElem?_append_left hlt]
      rw [htally]
      exact hw.counted h i hi
  refine hcounter.alloc fun i hi => ?_
  obtain rfl : w.newCounter.1 = i := Option.some.inj hi
  refine ⟨by simp [newCounter], w.tally_newCounter, fun l h hl => ?_⟩
  have hlt := hw.inRange h _ hl
  simp [newCounter] at hlt

theorem quiet (hw : w.Tallied) (q : Quiet π σ α) : (q.apply w).2.Tallied := by
  cases q with
  | defer f p => exact hw.alloc fun i hi => nomatch hi
  | ready f v => exact hw.alloc fun i hi => nomatch hi
  | scenario p => exact hw.newScenario p
  | peek h | evaluations s => exact hw
  | host f => exact hw.congr (fun _ _ => rfl) (fun _ _ => id) rfl fun _ => rfl

theorem call (hw : w.Tallied) {h : Handle k} {c : Cell π k} {s : Source π k}
    (hc : w.heap.cell? h = some c) (hs : c.source? = some s) : (w.call h s).Tallied where
  inRange := by
    intro l h' i hi
    rw [heap_call] at hi
    have hlt := hw.inRange h' i hi
    cases hcounter : s.counter with
    | none => simpa [World.call, hcounter, bump] using hlt
    | some j => simpa [World.call, hcounter, bump] using hlt
  counted := by
    intro l h' i hi
    rw [heap_call] at hi
    have hsource := Heap.counter?_eq hc hs
    rw [productions_call, ← hw.counted h' i hi]
    by_cases e : h.id = h'.id
    · obtain ⟨rfl, rfl⟩ := Handle.eq_of_id e
      rw [if_pos rfl, World.call, hsource.symm.trans hi]
      exact w.tally_bump (hw.inRange h i hi)
    · rw [if_neg e, World.call]
      cases hj : s.counter with
      | none => rfl
      | some j =>
        refine w.tally_bump_of_ne fun hij => e ?_
        exact hw.unshared h h' i (by rw [hsource, hj, hij]) hi
  unshared := by
    rw [heap_call]
    exact hw.unshared
  unmade := by
    intro l h' hh
    rw [heap_call] at hh
    rw [productions_call, hw.unmade h' hh, if_neg]
    intro e
    obtain ⟨rfl, rfl⟩ := Handle.eq_of_id e
    rw [hh] at hc
    cases hc

theorem store (hw : w.Tallied) (h : Handle k) (v : k.Val) : (w.store h v).2.Tallied := by
  unfold World.store
  split
  · exact hw
  · exact hw.modify h fun c => c.source?_fill v

theorem invariant : World.Invariant (Tallied (π := π) (σ := σ)) where
  quiet q hw := hw.quiet q
  note hm hw := hw.note hm
  withGuard h _ hw := hw.modify h fun c => c.source?_withGuard _
  call hc hs hw := hw.call hc hs
  store h v hw := hw.store h v
  newRun hw := hw.congr (fun _ _ => rfl) (fun _ _ => id) rfl fun _ => rfl

end World.Tallied

theorem Course.tallied {e : Ending Unit} (h : Course w e w') (hw : w.Tallied) : w'.Tallied :=
  h.invariant World.Tallied.invariant hw

end LazyFields
