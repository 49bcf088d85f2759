import LazyFields.Proofs.Brackets

/-!
What a panic does on its way from where it is raised to where it is caught. It leaves the accesses
in between, and poisons the guards of the shared cells among theirs; it changes no other cell, and
fills none.
-/

namespace LazyFields

variable {π : Kind → Type} {σ α : Type} {k l : Kind} {w w' w₁ w₂ u v v' : World π σ}

def Cell.locked (s : Source π k) : Cell π k := .deferred .shared s none .held

theorem Cell.Awaits.ne_locked {c : Cell π k} {f : Flavour} {s : Source π k} (h : c.Awaits f s)
    (s' : Source π k) : c ≠ .locked s' := by
  rintro rfl
  cases h

/-- What holds of every stretch of a run: nobody gets at a cell whose producer runs. -/
structure Steady (w : World π σ) (e : Ending Unit) (w' : World π σ) : Prop where
  course : Course w e w'
  closes : ClosesUnlessHalted w e w'
  locked : ∀ ⦃k : Kind⦄ (h : Handle k) (s : Source π k), w.heap.cell? h = some (.locked s) →
    w'.heap.cell? h = some (.locked s)

section

variable {h : Handle k} {c : Cell π k} {f : Flavour} {s : Source π k} {h' : Handle l}
  {s' : Source π l}

theorem World.ne_of_locked (hc : w.heap.cell? h = some c) (ha : c.Awaits f s)
    (hlocked : w.heap.cell? h' = some (.locked s')) : h'.id ≠ h.id := by
  intro e
  obtain ⟨rfl, rfl⟩ := Handle.eq_of_id e
  exact ha.ne_locked s' (Option.some.inj (hc.symm.trans hlocked))

theorem World.locked_announced (hc : w.heap.cell? h = some c) (ha : c.Awaits f s)
    (hlocked : w.heap.cell? h' = some (.locked s')) :
    ((w.enter h f).announce h f).heap.cell? h' = some (.locked s') :=
  (w.cell?_enter_of_ne (ne_of_locked hc ha hlocked) f).trans hlocked

theorem World.locked_entered (hc : w.heap.cell? h = some c) (ha : c.Awaits .shared s) :
    (w.enter h .shared).heap.cell? h = some (.locked s) := by
  cases ha
  simp [enter, modify, Heap.cell?_modify, hc, Cell.withGuard, Cell.locked]

end

theorem Steady.lawful {Heard : Ending Unit → Prop} : Lawful Heard (Steady (π := π) (σ := σ)) := by
  intro w e w' hw
  refine ⟨Course.lawful (hw.mono fun _ _ _ => course), Closes.lawful (hw.mono fun _ _ _ => closes),
    fun l h' s' hlocked => ?_⟩
  cases hw with
  | rest | halted | panicked | blocked | verifying => exact hlocked
  | andThen h₁ h₂ => exact h₂.locked h' s' (h₁.locked h' s' hlocked)
  | quiet q => exact q.cell?_apply w hlocked
  | caught h | own h _ | overthrown h => exact h.locked h' s' hlocked
  | known | refused =>
    rw [World.heap_answer]
    exact hlocked
  | unheard hc ha h₁ _ _ =>
    rw [World.cell?_exit_of_ne _ (World.ne_of_locked hc ha hlocked)]
    exact h₁.locked h' s' (World.locked_announced hc ha hlocked)
  | stopped hc ha h₁ h₂ _ =>
    have hforced := h₁.locked h' s' (World.locked_announced hc ha hlocked)
    have hne := World.ne_of_locked hc ha hlocked
    rw [World.cell?_exit_of_ne _ hne, World.cell?_conclude_of_ne _ hne]
    exact h₂.locked h' s' (by rwa [World.heap_call])
  | stored hc ha h₁ h₂ _ =>
    have hforced := h₁.locked h' s' (World.locked_announced hc ha hlocked)
    have hne := World.ne_of_locked hc ha hlocked
    rw [World.cell?_exit_of_ne _ hne, World.cell?_conclude_of_ne _ hne]
    exact h₂.locked h' s' (by rwa [World.heap_call])
  | failed hc ha h₁ h₂ h₃ _ _ =>
    have hforced := h₁.locked h' s' (World.locked_announced hc ha hlocked)
    have hcalled := h₂.locked h' s' (by rwa [World.heap_call])
    rw [World.cell?_exit_of_ne _ (World.ne_of_locked hc ha hlocked)]
    exact h₃.locked h' s' hcalled

/-- The second world lies in an access that began in the first. Its production is announced, and
its producer has been called or not. -/
structure World.Inside (w : World π σ) (h : Handle k) (f : Flavour) (called : Bool)
    (v : World π σ) : Prop where
  history : w.history <+: v.history
  keeps : w.heap.Keeps v.heap
  underway : v.underway = ⟨h.id, true⟩ :: w.underway
  calls : v.calls = (if called then [h.id] else []) ++ w.calls
  locked : ∀ ⦃l : Kind⦄ (h' : Handle l) (s' : Source π l),
    w.heap.cell? h' = some (.locked s') → v.heap.cell? h' = some (.locked s')
  flavour : ∃ c, v.heap.cell? h = some c ∧ c.flavour = f
  guarded : f = .shared → ∃ s, v.heap.cell? h = some (.locked s)

namespace World.Inside

variable {h : Handle k} {c : Cell π k} {f : Flavour} {s : Source π k} {called : Bool}
  {e : Ending Unit}

theorem announced (hc : w.heap.cell? h = some c) (ha : c.Awaits f s) :
    w.Inside h f false ((w.enter h f).announce h f) where
  history := by
    refine .trans ?_ (history_prefix_note _ _)
    cases f <;> exact w.history_prefix_note _
  keeps := w.enter_keeps h f
  underway := w.underway_announce_enter h f
  calls := by simp
  locked := fun _ _ _ => locked_announced hc ha
  flavour := by
    obtain ⟨g, hentered⟩ := w.cell?_enter hc ha
    exact ⟨_, hentered, rfl⟩
  guarded := by
    rintro rfl
    exact ⟨s, locked_entered hc ha⟩

theorem goesOn (hi : w.Inside h f called v) (hs : Steady v e v')
    (he : ∀ reason, e ≠ .halted reason) : w.Inside h f called v' where
  history := hi.history.trans hs.course.history_grows
  keeps := hi.keeps.trans hs.course.keeps
  underway := (hs.closes he).underway.trans hi.underway
  calls := (hs.closes he).calls.trans hi.calls
  locked := fun _ h' s' hlocked => hs.locked h' s' (hi.locked h' s' hlocked)
  flavour := by
    obtain ⟨c, hc, hf⟩ := hi.flavour
    obtain ⟨d, hd, hcd⟩ := hs.course.keeps h c hc
    exact ⟨d, hd, hcd.flavour.trans hf⟩
  guarded := fun hf => by
    obtain ⟨s, hlocked⟩ := hi.guarded hf
    exact ⟨s, hs.locked h s hlocked⟩

theorem call (hi : w.Inside h f false v) (s : Source π k) :
    w.Inside h f true (v.call h s) where
  history := hi.history.trans (v.history_prefix_call h s)
  keeps := by rw [heap_call]; exact hi.keeps
  underway := (v.underway_call h s).trans hi.underway
  calls := (v.calls_call h s).trans (by rw [hi.calls]; rfl)
  locked := by rw [heap_call]; exact hi.locked
  flavour := by rw [heap_call]; exact hi.flavour
  guarded := by rw [heap_call]; exact hi.guarded

theorem failed (hi : w.Inside h f true v) (x : EvalError) :
    w.Inside h f false (v.conclude h f (.value (.error x))) where
  history := hi.history.trans (v.history_prefix_conclude h f _)
  keeps := hi.keeps
  underway := (v.underway_conclude h f _).trans hi.underway
  calls := (v.calls_conclude h f (by simp)).trans (by rw [hi.calls]; rfl)
  locked := hi.locked
  flavour := hi.flavour
  guarded := hi.guarded

end World.Inside

structure Crossing where
  cell : CellId
  called : Bool

namespace Crossing

def access (x : Crossing) : Underway := ⟨x.cell, true⟩

def cells (crossed : List Crossing) : List CellId := crossed.map cell

def calls (crossed : List Crossing) : List CellId := cells (crossed.filter called)

theorem mem_cells_append {crossed : List Crossing} {x : Crossing} {c : CellId} :
    c ∈ cells (crossed ++ [x]) ↔ c ∈ cells crossed ∨ c = x.cell := by
  simp [cells]

theorem calls_append (crossed : List Crossing) (x : Crossing) :
    calls (crossed ++ [x]) = calls crossed ++ if x.called then [x.cell] else [] := by
  cases hx : x.called <;> simp [calls, cells, hx]

end Crossing

def Mark.Unwinds (message : String) : Mark → Prop
  | .ended _ (.panic m) | .answered _ (.panic m) | .verified _ (.panic m) => m = message
  | _ => False

/-- A panic that leaves a stretch from `w` to `w'` was raised at `u`, inside the accesses `crossed`
of that stretch, the innermost first. -/
structure World.Unwound (w u : World π σ) (message : String) (crossed : List Crossing)
    (w' : World π σ) : Prop where
  since : w.history <+: u.history
  raised : u.marks.getLast? = some (.panicked message)
  unwinding : ∃ moments, w'.history = u.history ++ moments ∧
    ∀ m ∈ moments, m.mark.Unwinds message
  underway : u.underway = crossed.map Crossing.access ++ w.underway
  calls : u.calls = Crossing.calls crossed ++ w.calls
  keeps : w.heap.Keeps u.heap
  locked : ∀ ⦃k : Kind⦄ (h : Handle k) (s : Source π k), w.heap.cell? h = some (.locked s) →
    u.heap.cell? h = some (.locked s)
  poisons : ∀ ⦃k : Kind⦄ (h : Handle k) (c : Cell π k), h.id ∈ Crossing.cells crossed →
    u.heap.cell? h = some c → c.flavour = .shared →
      ∃ s, c = .locked s ∧ w'.heap.cell? h = some (.deferred .shared s none .poisoned)
  spares : ∀ ⦃k : Kind⦄ (h : Handle k),
    (h.id ∈ Crossing.cells crossed → ∀ c, u.heap.cell? h = some c → c.flavour = .single) →
      w'.heap.cell? h = u.heap.cell? h
  tallies : w'.tallies = u.tallies
  runs : w'.runs = u.runs
  host : w'.host = u.host

namespace World.Unwound

variable {message : String} {crossed : List Crossing} {h : Handle k} {f : Flavour} {called : Bool}

theorem raise (w : World π σ) (message : String) :
    w.Unwound (w.note (.panicked message)) message [] (w.note (.panicked message)) where
  since := w.history_prefix_note _
  raised := by simp
  unwinding := ⟨[], by simp, by simp⟩
  underway := w.underway_note _
  calls := w.calls_note _
  keeps := .refl _
  locked := fun _ _ _ => id
  poisons := fun _ _ _ hmem => nomatch hmem
  spares := fun _ _ _ => rfl
  tallies := rfl
  runs := rfl
  host := rfl

theorem after (hs : Steady w (.value ()) v) (hu : v.Unwound u message crossed w') :
    w.Unwound u message crossed w' :=
  { hu with
    since := hs.course.history_grows.trans hu.since
    underway := by rw [hu.underway, (hs.closes (by simp)).underway]
    calls := by rw [hu.calls, (hs.closes (by simp)).calls]
    keeps := hs.course.keeps.trans hu.keeps
    locked := fun _ h s hlocked => hu.locked h s (hs.locked h s hlocked) }

theorem note (hu : w.Unwound u message crossed w') {m : Mark} (hm : m.Unwinds message) :
    w.Unwound u message crossed (w'.note m) :=
  { hu with
    unwinding := by
      obtain ⟨moments, hhistory, hmoments⟩ := hu.unwinding
      refine ⟨moments ++ [⟨m, w'.heap, w'.tallies⟩], ?_, fun m' hm' => ?_⟩
      · rw [history_note, hhistory, List.append_assoc]
      · rcases List.mem_append.mp hm' with hm' | hm'
        · exact hmoments m' hm'
        · rwa [List.mem_singleton.mp hm'] }

theorem poison (hi : w.Inside h .shared called v) (hu : v.Unwound u message crossed w₁) :
    w.Unwound u message (crossed ++ [⟨h.id, called⟩])
      (w₁.modify h (·.withGuard .poisoned)) := by
  obtain ⟨s, hlocked⟩ := hi.guarded rfl
  have hraised := hu.locked h s hlocked
  have hpoisoned : (w₁.modify h (·.withGuard .poisoned)).heap.cell? h =
      some (.deferred .shared s none .poisoned) := by
    rw [modify, Heap.cell?_modify]
    by_cases hmem : h.id ∈ Crossing.cells crossed
    · obtain ⟨s', hs', hcell⟩ := hu.poisons h _ hmem hraised rfl
      cases hs'
      rw [hcell]
      rfl
    · rw [hu.spares h fun hmem' => absurd hmem' hmem, hraised]
      rfl
  exact {
    since := hi.history.trans hu.since
    raised := hu.raised
    unwinding := hu.unwinding
    underway := by rw [hu.underway, hi.underway]; simp [Crossing.access]
    calls := by rw [hu.calls, hi.calls, Crossing.calls_append]; simp
    keeps := hi.keeps.trans hu.keeps
    locked := fun _ h' s' h'locked => hu.locked h' s' (hi.locked h' s' h'locked)
    poisons := by
      intro l h' c hmem hc hf
      by_cases e : h'.id = h.id
      · obtain ⟨rfl, rfl⟩ := Handle.eq_of_id e
        exact ⟨s, Option.some.inj (hc.symm.trans hraised), hpoisoned⟩
      · obtain ⟨s', hs', hcell⟩ :=
          hu.poisons h' c ((Crossing.mem_cells_append.mp hmem).resolve_right e) hc hf
        exact ⟨s', hs', (Heap.cell?_modify_of_ne _ _ e).trans hcell⟩
    spares := by
      intro l h' hsingle
      have hne : h'.id ≠ h.id := by
        intro e
        obtain ⟨rfl, rfl⟩ := Handle.eq_of_id e
        cases hsingle (Crossing.mem_cells_append.mpr (.inr rfl)) _ hraised
      rw [modify, Heap.cell?_modify_of_ne _ _ hne]
      exact hu.spares h' fun hmem => hsingle (Crossing.mem_cells_append.mpr (.inl hmem))
    tallies := hu.tallies
    runs := hu.runs
    host := hu.host }

theorem pass (hi : w.Inside h .single called v) (hu : v.Unwound u message crossed w₁) :
    w.Unwound u message (crossed ++ [⟨h.id, called⟩]) w₁ where
  since := hi.history.trans hu.since
  raised := hu.raised
  unwinding := hu.unwinding
  underway := by rw [hu.underway, hi.underway]; simp [Crossing.access]
  calls := by rw [hu.calls, hi.calls, Crossing.calls_append]; simp
  keeps := hi.keeps.trans hu.keeps
  locked := fun _ h' s' h'locked => hu.locked h' s' (hi.locked h' s' h'locked)
  poisons := by
    intro l h' c hmem hc hf
    rcases Crossing.mem_cells_append.mp hmem with hmem | e
    · exact hu.poisons h' c hmem hc hf
    · -- A single cell stays single.
      obtain ⟨rfl, rfl⟩ := Handle.eq_of_id e
      obtain ⟨d, hd, hsingle⟩ := hi.flavour
      obtain ⟨d', hd', hkept⟩ := hu.keeps h' d hd
      obtain rfl := Option.some.inj (hc.symm.trans hd')
      cases hf.symm.trans (hkept.flavour.trans hsingle)
  spares := by
    intro l h' hsingle
    exact hu.spares h' fun hmem => hsingle (Crossing.mem_cells_append.mpr (.inl hmem))
  tallies := hu.tallies
  runs := hu.runs
  host := hu.host

theorem exit (hi : w.Inside h f called v) (hu : v.Unwound u message crossed w₁) :
    w.Unwound u message (crossed ++ [⟨h.id, called⟩]) (w₁.exit h f (.panicked message)) := by
  cases f with
  | single => exact (hu.pass hi).note rfl
  | shared => exact (hu.poison hi).note rfl

end World.Unwound

/-- The law of panics. A production that a panic leaves outside of any call of its producer is left
by a listener. -/
def Unwinds (Heard : Ending Unit → Prop) (w : World π σ) (e : Ending Unit) (w' : World π σ) :
    Prop :=
  ∀ message, e = .panicked message → ∃ u crossed, w.Unwound u message crossed w' ∧
    ∀ x ∈ crossed, x.called = false → Heard (.panicked message)

theorem Unwinds.leave {Heard : Ending Unit → Prop} {message : String} {h : Handle k} {f : Flavour}
    {called : Bool} (hi : w.Inside h f called v) {u : World π σ} {crossed : List Crossing}
    (hu : v.Unwound u message crossed w₁)
    (hcrossed : ∀ x ∈ crossed, x.called = false → Heard (.panicked message))
    (hcalled : called = false → Heard (.panicked message)) :
    Unwinds Heard w (.panicked message) (w₁.exit h f (.panicked message)) := by
  rintro _ ⟨⟩
  refine ⟨u, _, hu.exit hi, fun x hx => ?_⟩
  rcases List.mem_append.mp hx with hx | hx
  · exact hcrossed x hx
  · rw [List.mem_singleton.mp hx]
    exact hcalled

theorem Unwinds.lawful {Heard : Ending Unit → Prop} :
    Lawful (π := π) (σ := σ) Heard fun w e w' => Steady w e w' ∧ Unwinds Heard w e w' := by
  refine Lawful.and Steady.lawful fun w e w' hw => ?_
  cases hw with
  | rest | quiet | halted | caught | known | refused | blocked | stored | verifying | own =>
    exact fun _ h => nomatch h
  | andThen h₁ h₂ =>
    rintro message rfl
    obtain ⟨u, crossed, hu, hcrossed⟩ := h₂.2 message rfl
    exact ⟨u, crossed, hu.after h₁.1, hcrossed⟩
  | panicked message =>
    rintro _ ⟨⟩
    exact ⟨_, [], .raise w message, by simp⟩
  | @unheard _ h c f s _ w₁ r hc ha h₁ hheard hne =>
    rcases r with r | message | reason
    · exact absurd rfl hne
    · obtain ⟨u, crossed, hu, hcrossed⟩ := h₁.2 message rfl
      exact .leave (.announced hc ha) hu hcrossed fun _ => hheard
    · exact fun _ h => nomatch h
  | @stopped _ h c f s _ w₁ w₂ r hc ha h₁ h₂ hne =>
    rcases r with r | message | reason
    · exact absurd rfl hne
    · have hi := ((World.Inside.announced hc ha).goesOn h₁.1 (by simp)).call s
      obtain ⟨u, crossed, hu, hcrossed⟩ := h₂.2 message rfl
      exact .leave hi (hu.note rfl) hcrossed nofun
    · exact fun _ h => nomatch h
  | @failed _ h c f s x _ w₁ w₂ w₃ r hc ha h₁ h₂ h₃ hheard hr =>
    rcases r with r | message | reason
    · exact fun _ h => nomatch h
    · have hi := ((World.Inside.announced hc ha).goesOn h₁.1 (by simp)).call s
      obtain ⟨u, crossed, hu, hcrossed⟩ := h₃.2 message rfl
      exact .leave ((hi.goesOn h₂.1 (by simp)).failed x) hu hcrossed fun _ => hheard
    · exact fun _ h => nomatch h
  | overthrown h =>
    rintro _ ⟨⟩
    obtain ⟨u, crossed, hu, hcrossed⟩ := h.2 _ rfl
    exact ⟨u, crossed, hu.note rfl, hcrossed⟩

end LazyFields
