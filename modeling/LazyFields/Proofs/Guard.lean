import LazyFields.Proofs.Steps

/-!
The guard of a shared cell. At most one thread holds it, the cell has no value while its
producer runs, and only whoever holds the guard stores a value or poisons the guard.
-/

namespace LazyFields

variable {π : Kind → Type} {σ ρ τ α : Type} {k l : Kind} {w w' : World π σ}

def Guard.holders : Guard → Nat
  | .held => 1
  | .free | .poisoned => 0

namespace World

def value? (w : World π σ) (c : CellId) : Option Value := (w.heap.peek c.handle).map Value.of

/-- The guard of a cell; a cell that does not exist has a free one. -/
def guard (w : World π σ) (c : CellId) : Guard :=
  ((w.heap.cell? c.handle).map Cell.guard).getD .free

theorem value?_eq {h : Handle k} {c : Cell π k} (hc : w.heap.cell? h = some c) :
    w.value? h.id = c.value?.map Value.of := by
  show (w.heap.peek h).map Value.of = _
  rw [Heap.peek, hc, Option.bind_some]

theorem guard_eq {h : Handle k} {c : Cell π k} (hc : w.heap.cell? h = some c) :
    w.guard h.id = c.guard := by
  show ((w.heap.cell? h).map Cell.guard).getD .free = _
  rw [hc]
  rfl

theorem value?_congr {h : Handle k} (hc : w'.heap.cell? h = w.heap.cell? h) :
    w'.value? h.id = w.value? h.id := by
  show (w'.heap.peek h).map Value.of = (w.heap.peek h).map Value.of
  rw [Heap.peek, Heap.peek, hc]

theorem guard_congr {h : Handle k} (hc : w'.heap.cell? h = w.heap.cell? h) :
    w'.guard h.id = w.guard h.id := by
  show ((w'.heap.cell? h).map Cell.guard).getD .free =
    ((w.heap.cell? h).map Cell.guard).getD .free
  rw [hc]

@[simp] theorem guard_note (w : World π σ) (m : Mark) (c : CellId) :
    (w.note m).guard c = w.guard c := rfl

@[simp] theorem value?_note (w : World π σ) (m : Mark) (c : CellId) :
    (w.note m).value? c = w.value? c := rfl

@[simp] theorem guard_publish (w : World π σ) (crew : Crew π σ) (e : Event) (c : CellId) :
    (w.publish crew e).guard c = w.guard c := rfl

@[simp] theorem value?_publish (w : World π σ) (crew : Crew π σ) (e : Event) (c : CellId) :
    (w.publish crew e).value? c = w.value? c := rfl

@[simp] theorem guard_call (w : World π σ) (h : Handle k) (s : Source π k) (c : CellId) :
    (w.call h s).guard c = w.guard c := by
  simp [guard]

@[simp] theorem value?_call (w : World π σ) (h : Handle k) (s : Source π k) (c : CellId) :
    (w.call h s).value? c = w.value? c := by
  simp [value?]

theorem guard_quiet {h : Handle k} {c : Cell π k} (hc : w.heap.cell? h = some c)
    (q : Quiet π σ α) : (q.apply w).2.guard h.id = w.guard h.id :=
  guard_congr ((q.cell?_apply w hc).trans hc.symm)

theorem value?_quiet {h : Handle k} {c : Cell π k} (hc : w.heap.cell? h = some c)
    (q : Quiet π σ α) : (q.apply w).2.value? h.id = w.value? h.id :=
  value?_congr ((q.cell?_apply w hc).trans hc.symm)

theorem guard_modify {h : Handle k} {c : Cell π k} (hc : w.heap.cell? h = some c)
    (hs : c.source? ≠ none) (g : Guard) : (w.modify h (·.withGuard g)).guard h.id = g := by
  have hmodified : (w.modify h (·.withGuard g)).heap.cell? h = some (c.withGuard g) := by
    rw [modify, Heap.cell?_modify, hc, Option.map_some]
  rw [guard_eq hmodified, Cell.guard_withGuard hs]

theorem guard_modify_of_ne {h : Handle k} {h' : Handle l} (hne : h'.id ≠ h.id)
    (f : Cell π k → Cell π k) : (w.modify h f).guard h'.id = w.guard h'.id :=
  guard_congr (Heap.cell?_modify_of_ne _ _ hne)

@[simp] theorem value?_modify (w : World π σ) (h : Handle k) (g : Guard) (c : CellId) :
    (w.modify h (·.withGuard g)).value? c = w.value? c :=
  congrArg (Option.map Value.of) (w.peek_modify_withGuard h g c.handle)

@[simp] theorem guard_store (w : World π σ) (h : Handle k) (v : k.Val) (c : CellId) :
    (w.store h v).2.guard c = w.guard c := by
  unfold store
  split
  · rfl
  · show (((w.heap.modify h (Cell.fill v)).cell? c.handle).map Cell.guard).getD .free = _
    by_cases e : c.handle.id = h.id
    · obtain ⟨l, i⟩ := c
      obtain ⟨rfl, rfl⟩ := Handle.eq_of_id e
      simp only [CellId.handle, Heap.cell?_modify, Option.map_map, guard]
      congr 2
      funext d
      exact d.guard_fill v
    · rw [Heap.cell?_modify_of_ne _ _ e]
      rfl

theorem value?_store_of_ne {h : Handle k} {h' : Handle l} (hne : h'.id ≠ h.id) (v : k.Val) :
    (w.store h v).2.value? h'.id = w.value? h'.id :=
  value?_congr (w.cell?_store_of_ne v hne)

theorem value?_store {h : Handle k} {c : Cell π k} (hc : w.heap.cell? h = some c) (v : k.Val) :
    (w.store h v).2.value? h.id = some (.of (w.store h v).1) :=
  congrArg (Option.map Value.of) (peek_store hc v)

theorem guard_leave {h : Handle k} {c : Cell π k} (hc : w.heap.cell? h = some c)
    (hs : c.source? ≠ none) (r : Reply k) : (w.leave h r).guard h.id = .after r :=
  guard_modify hc hs _

theorem guard_leave_of_ne {h : Handle k} {h' : Handle l} (hne : h'.id ≠ h.id) (r : Reply k) :
    (w.leave h r).guard h'.id = w.guard h'.id :=
  guard_modify_of_ne hne _

@[simp] theorem value?_leave (w : World π σ) (h : Handle k) (r : Reply k) (c : CellId) :
    (w.leave h r).value? c = w.value? c := by
  simp [leave]

@[simp] theorem marks_publish (w : World π σ) (crew : Crew π σ) (e : Event) :
    (w.publish crew e).marks = w.marks ++ [.emitted e] :=
  w.marks_note (.emitted e)

@[simp] theorem marks_leave (w : World π σ) (h : Handle k) (r : Reply k) :
    (w.leave h r).marks = w.marks ++ [.answered h.id r.finish] := by
  simp [leave]

end World

namespace Thread

variable {crew : Crew π σ} {t t' : Thread π σ ρ}

theorem Step.keeps (h : Step crew t w t' w') : w.heap.Keeps w'.heap := by
  cases h with
  | back | ask | found | wait | refused | foundAgain | enter | announce | report =>
    exact .refl _
  | quiet => exact Quiet.apply_keeps _ _
  | take | release => exact .modify _ _ (.withGuard _)
  | call =>
    rw [World.heap_call]
    exact .refl _
  | fill => exact World.store_keeps _ _ _

end Thread

def Phase.missed : Phase k → Bool
  | .look => false
  | _ => true

def Phase.knows : Phase k → Option (Option Value)
  | .look | .lock | .lookAgain => none
  | .release (.ok (.ok v)) => some (some (.of v))
  | _ => some none

theorem Phase.knows_eq_none {p : Phase k} (h : p.guarded = false) : p.knows = none := by
  cases p <;> simp_all [guarded, knows]

@[simp] theorem Phase.guarded_after (r : Reply k) : (Phase.after r).guarded = true := by
  rcases r with message | e | v <;> rfl

@[simp] theorem Phase.missed_after (r : Reply k) : (Phase.after r).missed = true := by
  rcases r with message | e | v <;> rfl

@[simp] theorem Phase.knows_after (r : Reply k) : (Phase.after r).knows = some none := by
  rcases r with message | e | v <;> rfl

namespace Thread

def Sees (c : CellId) (x : Option Value) : Thread π σ ρ → Prop
  | .running _ calls => c ∈ calls.cells → x = none
  | .inside h p _ calls => (c ∈ calls.cells → x = none) ∧ (h.id = c → ∀ y ∈ p.knows, x = y)

def missed : Thread π σ ρ → List CellId
  | .running _ calls => calls.cells
  | .inside h p _ calls => if p.missed then h.id :: calls.cells else calls.cells

variable {crew : Crew π σ} {t t' : Thread π σ ρ} {h : Handle k} {c : Cell π k}

theorem sees_of_not_holding (hheld : h.id ∉ t.holding) (x : Option Value) : t.Sees h.id x := by
  cases t with
  | running code calls => exact fun hmem => absurd hmem hheld
  | inside h' p next calls =>
    cases hp : p.guarded with
    | false =>
      simp only [holding, hp] at hheld
      refine ⟨fun hmem => absurd hmem hheld, fun _ y hy => ?_⟩
      rw [Phase.knows_eq_none hp] at hy
      cases hy
    | true =>
      simp only [holding, hp, if_true, List.mem_cons, not_or] at hheld
      exact ⟨fun hmem => absurd hmem hheld.2, fun hid => absurd hid.symm hheld.1⟩

/-- The guard of a cell that has a producer is held for each time that a thread holds it. -/
theorem Step.count_holding (hstep : Step crew t w t' w') (hc : w.heap.cell? h = some c)
    (hmissed : h.id ∈ t.missed → c.source? ≠ none)
    (hheld : h.id ∈ t.holding → w.guard h.id = .held) :
    t'.holding.count h.id + (w.guard h.id).holders =
      t.holding.count h.id + (w'.guard h.id).holders := by
  cases hstep with
  | back => simp [holding, Calls.cells]
  | ask | found | wait | refused | foundAgain | enter | announce | call | report | fill =>
    simp [holding, Phase.guarded, Calls.cells]
  | quiet =>
    rw [World.guard_quiet hc]
    rfl
  | @take _ _ h' d _ _ _ hd _ hg =>
    by_cases e : h.id = h'.id
    · obtain ⟨rfl, rfl⟩ := Handle.eq_of_id e
      obtain rfl : d = c := Option.some.inj (hd.symm.trans hc)
      rw [World.guard_eq hc, hg, World.guard_modify hc (hmissed List.mem_cons_self)]
      simp [holding, Phase.guarded, Guard.holders]
    · rw [World.guard_modify_of_ne e]
      simp [holding, Phase.guarded, Ne.symm e]
  | @release _ _ h' d r _ _ _ hd =>
    by_cases e : h.id = h'.id
    · obtain ⟨rfl, rfl⟩ := Handle.eq_of_id e
      rw [hheld (by simp [holding, Phase.guarded]),
        World.guard_leave hc (hmissed List.mem_cons_self)]
      cases r <;> simp [holding, Phase.guarded, Guard.after, Guard.holders]
    · rw [World.guard_leave_of_ne e]
      simp [holding, Phase.guarded, Ne.symm e]

theorem Step.value?_eq (hstep : Step crew t w t' w') (hc : w.heap.cell? h = some c)
    (hheld : h.id ∉ t.holding) : w'.value? h.id = w.value? h.id := by
  cases hstep with
  | back | ask | found | wait | refused | foundAgain | enter | announce | call | report
  | take => simp
  | quiet => exact World.value?_quiet hc _
  | fill => exact World.value?_store_of_ne (List.ne_of_not_mem_cons hheld) _
  | release => simp

theorem Step.sees (hstep : Step crew t w t' w') (hc : w.heap.cell? h = some c)
    (hone : t.holding.count h.id ≤ 1) (hsees : t.Sees h.id (w.value? h.id)) :
    t'.Sees h.id (w'.value? h.id) := by
  cases hstep with
  | back =>
    refine ⟨fun hmem => hsees (List.mem_cons_of_mem _ hmem), fun hid y hy => ?_⟩
    rw [Phase.knows_after] at hy
    exact (hsees (hid ▸ List.mem_cons_self)).trans (Option.some.inj hy)
  | quiet =>
    rw [World.value?_quiet hc]
    exact hsees
  | ask => exact ⟨hsees, fun _ _ hy => nomatch hy⟩
  | found | refused => exact hsees.1
  | wait | take => exact ⟨by simpa using hsees.1, fun _ _ hy => nomatch hy⟩
  | foundAgain hd _ hv =>
    refine ⟨hsees.1, fun hid y hy => ?_⟩
    rw [← hid, World.value?_eq hd, hv]
    exact Option.some.inj hy
  | enter hd _ hv =>
    refine ⟨hsees.1, fun hid y hy => ?_⟩
    rw [← hid, World.value?_eq hd, hv]
    exact Option.some.inj hy
  | announce | report => exact hsees
  | call =>
    intro hmem
    rw [World.value?_call]
    rcases List.mem_cons.mp hmem with hid | hmem
    · exact hsees.2 hid.symm none rfl
    · exact hsees.1 hmem
  | @fill _ _ h' d v _ _ _ hd =>
    refine ⟨fun hmem => ?_, fun hid y hy => ?_⟩
    · by_cases e : h.id = h'.id
      · -- A thread whose producer waits for the same producer would hold the guard twice.
        simp only [holding, Phase.guarded, if_true, e, List.count_cons_self] at hone
        have hpos := List.count_pos_iff.mpr (e ▸ hmem)
        omega
      · rw [World.value?_store_of_ne e]
        exact hsees.1 hmem
    · rw [← hid, World.value?_store hd]
      exact Option.some.inj hy
  | release =>
    intro hmem
    simpa using hsees.1 hmem

theorem Step.clean (hstep : Step crew t w t' w') (hc : w.heap.cell? h = some c)
    (hmissed : h.id ∈ t.missed → c.source? ≠ none)
    (hheld : h.id ∈ t.holding → w.guard h.id = .held) (hsees : t.Sees h.id (w.value? h.id))
    (hclean : w.guard h.id = .poisoned → w.value? h.id = none)
    (hpoisoned : w'.guard h.id = .poisoned) : w'.value? h.id = none := by
  cases hstep with
  | back | ask | found | wait | refused | foundAgain | enter | announce | call | report =>
    simpa using hclean (by simpa using hpoisoned)
  | quiet =>
    rw [World.guard_quiet hc] at hpoisoned
    rw [World.value?_quiet hc]
    exact hclean hpoisoned
  | @take _ _ h' =>
    rw [World.value?_modify]
    by_cases e : h.id = h'.id
    · obtain ⟨rfl, rfl⟩ := Handle.eq_of_id e
      rw [World.guard_modify hc (hmissed List.mem_cons_self)] at hpoisoned
      cases hpoisoned
    · exact hclean (by rwa [World.guard_modify_of_ne e] at hpoisoned)
  | @fill _ _ h' =>
    rw [World.guard_store] at hpoisoned
    have hne : h.id ≠ h'.id := by
      intro e
      rw [hheld (e ▸ List.mem_cons_self)] at hpoisoned
      cases hpoisoned
    rw [World.value?_store_of_ne hne]
    exact hclean hpoisoned
  | @release _ _ h' d r =>
    rw [World.value?_leave]
    by_cases e : h.id = h'.id
    · obtain ⟨rfl, rfl⟩ := Handle.eq_of_id e
      rw [World.guard_leave hc (hmissed List.mem_cons_self)] at hpoisoned
      cases r with
      | ok => cases hpoisoned
      | error message => exact hsees.2 rfl none rfl
    · exact hclean (by rwa [World.guard_leave_of_ne e] at hpoisoned)

theorem Step.missed (hstep : Step crew t w t' w') (hc : w.heap.cell? h = some c)
    (hmissed : h.id ∈ t.missed → c.source? ≠ none) (hmem : h.id ∈ t'.missed) :
    c.source? ≠ none := by
  cases hstep with
  | back => exact hmissed (by simpa [Thread.missed, Calls.cells] using hmem)
  | quiet | ask | found | take | foundAgain | enter | announce | call | fill | report =>
    exact hmissed hmem
  | refused | release => exact hmissed (List.mem_cons_of_mem _ hmem)
  | wait hd _ hv =>
    rcases List.mem_cons.mp hmem with e | hmem
    · obtain ⟨rfl, rfl⟩ := Handle.eq_of_id e
      obtain rfl := Option.some.inj (hc.symm.trans hd)
      obtain ⟨f, s, g, rfl⟩ := Cell.eq_deferred_of_value? hv
      simp [Cell.source?]
    · exact hmissed hmem

end Thread

def sumOf {β : Type 1} (f : β → Nat) : List β → Nat
  | [] => 0
  | b :: rest => f b + sumOf f rest

section Sums

variable {β : Type 1} {f g : β → Nat} {l : List β} {i j : Nat} {a b : β}

theorem sumOf_set (ha : l[i]? = some a) (b : β) :
    sumOf f (l.set i b) + f a = sumOf f l + f b := by
  induction l generalizing i with
  | nil => cases ha
  | cons c rest ih =>
    cases i with
    | zero =>
      obtain rfl : c = a := Option.some.inj ha
      simp only [List.set_cons_zero, sumOf]
      omega
    | succ i =>
      have hrest := ih (i := i) ha
      simp only [List.set_cons_succ, sumOf]
      omega

theorem le_sumOf (f : β → Nat) (ha : a ∈ l) : f a ≤ sumOf f l := by
  induction ha with
  | head => exact Nat.le_add_right _ _
  | tail _ _ ih => exact Nat.le_trans ih (Nat.le_add_left _ _)

theorem add_le_sumOf (f : β → Nat) (hij : i ≠ j) (ha : l[i]? = some a) (hb : l[j]? = some b) :
    f a + f b ≤ sumOf f l := by
  induction l generalizing i j with
  | nil => cases ha
  | cons c rest ih =>
    cases i with
    | zero =>
      cases j with
      | zero => exact absurd rfl hij
      | succ j =>
        obtain rfl : c = a := Option.some.inj ha
        have hle := le_sumOf f (List.mem_of_getElem? (i := j) hb)
        simp only [sumOf]
        omega
    | succ i =>
      cases j with
      | zero =>
        obtain rfl : c = b := Option.some.inj hb
        have hle := le_sumOf f (List.mem_of_getElem? (i := i) ha)
        simp only [sumOf]
        omega
      | succ j =>
        have hle := ih (i := i) (j := j) (by omega) ha hb
        simp only [sumOf]
        omega

theorem sumOf_le_sumOf (hfg : ∀ a, f a ≤ g a) (l : List β) : sumOf f l ≤ sumOf g l := by
  induction l with
  | nil => exact Nat.le_refl _
  | cons a rest ih => exact Nat.add_le_add (hfg a) ih

theorem sumOf_eq_zero (hf : ∀ a ∈ l, f a = 0) : sumOf f l = 0 := by
  induction l with
  | nil => rfl
  | cons a rest ih =>
    rw [sumOf, hf a List.mem_cons_self, ih fun b hb => hf b (List.mem_cons_of_mem a hb)]

end Sums

/-- The states of a shared cell while nobody is at it: empty, evaluated or poisoned. -/
inductive Cell.Resting : Cell π k → Prop
  | empty (s : Source π k) : Resting (.fresh .shared s)
  | evaluated (s : Source π k) (v : k.Val) : Resting (.deferred .shared s (some v) .free)
  | ready (v : k.Val) : Resting (.ready .shared v)
  | poisoned (s : Source π k) : Resting (.deferred .shared s none .poisoned)

namespace Cell.Resting

variable {c : Cell π k}

theorem flavour (h : c.Resting) : c.flavour = .shared := by
  cases h <;> rfl

theorem guard (h : c.Resting) : c.guard ≠ .held := by
  cases h <;> simp [Cell.fresh, Cell.guard]

theorem clean (h : c.Resting) (hg : c.guard = .poisoned) : c.value? = none := by
  cases h <;> first | rfl | cases hg

end Cell.Resting

namespace Machine

variable {crew : Crew π σ} {m m' : Machine π σ ρ} {h : Handle k}

def total (f : Thread π σ ρ → Nat) (m : Machine π σ ρ) : Nat := sumOf f m.threads

theorem step_cases {i : Nat} (hstep : m.step crew i = some m') :
    ∃ t t', m.threads[i]? = some t ∧ Thread.Step crew t m.world t' m'.world ∧
      m'.threads = m.threads.set i t' := by
  obtain ⟨t, ht, hstep⟩ := Option.bind_eq_some_iff.mp hstep
  obtain ⟨⟨t', w⟩, ht', hm⟩ := Option.bind_eq_some_iff.mp hstep
  obtain rfl := Option.some.inj hm
  exact ⟨t, t', ht, .of_step ht', rfl⟩

theorem total_step (f : Thread π σ ρ → Nat) {i : Nat} {t t' : Thread π σ ρ}
    (ht : m.threads[i]? = some t) (hm : m'.threads = m.threads.set i t') :
    m'.total f + f t = m.total f + f t' := by
  rw [total, hm]
  exact sumOf_set ht t'

theorem thread_cases {i : Nat} {t' u : Thread π σ ρ} (hm : m'.threads = m.threads.set i t')
    (hu : u ∈ m'.threads) : u = t' ∨ ∃ j, i ≠ j ∧ m.threads[j]? = some u := by
  obtain ⟨j, hj⟩ := List.getElem?_of_mem hu
  rw [hm] at hj
  by_cases hij : i = j
  · subst hij
    obtain ⟨hi, hj⟩ := List.getElem?_eq_some_iff.mp hj
    rw [List.getElem_set_self] at hj
    exact .inl hj.symm
  · rw [List.getElem?_set_ne hij] at hj
    exact .inr ⟨j, hij, hj⟩

structure Guarded (m : Machine π σ ρ) (h : Handle k) : Prop where
  cell : ∃ c, m.world.heap.cell? h = some c ∧ c.flavour = .shared
  held : m.total (·.holding.count h.id) = (m.world.guard h.id).holders
  sees : ∀ t ∈ m.threads, t.Sees h.id (m.world.value? h.id)
  clean : m.world.guard h.id = .poisoned → m.world.value? h.id = none
  deferred : ∀ t ∈ m.threads, h.id ∈ t.missed →
    ∀ c, m.world.heap.cell? h = some c → c.source? ≠ none

namespace Guarded

theorem count_le_one (hm : m.Guarded h) {t : Thread π σ ρ} (ht : t ∈ m.threads) :
    t.holding.count h.id ≤ 1 := by
  have hle : _ ≤ m.total _ := le_sumOf (·.holding.count h.id) ht
  rw [hm.held] at hle
  cases hg : m.world.guard h.id <;> simp only [hg, Guard.holders] at hle <;> omega

theorem guard_eq_held (hm : m.Guarded h) {t : Thread π σ ρ} (ht : t ∈ m.threads)
    (hheld : h.id ∈ t.holding) : m.world.guard h.id = .held := by
  have hle : _ ≤ m.total _ := le_sumOf (·.holding.count h.id) ht
  have hpos := List.count_pos_iff.mpr hheld
  rw [hm.held] at hle
  cases hg : m.world.guard h.id <;> simp only [hg, Guard.holders] at hle
  · omega
  · rfl
  · omega

theorem not_holding (hm : m.Guarded h) {i j : Nat} {t u : Thread π σ ρ} (hij : i ≠ j)
    (ht : m.threads[i]? = some t) (hu : m.threads[j]? = some u) (hheld : h.id ∈ t.holding) :
    h.id ∉ u.holding := by
  intro hmem
  have hle : _ ≤ m.total _ := add_le_sumOf (·.holding.count h.id) hij ht hu
  have ht' := List.count_pos_iff.mpr hheld
  have hu' := List.count_pos_iff.mpr hmem
  rw [hm.held] at hle
  cases hg : m.world.guard h.id <;> simp only [hg, Guard.holders] at hle <;> omega

theorem start {w : World π σ} {c : Cell π k} (hc : w.heap.cell? h = some c)
    (hf : c.flavour = .shared) (hguard : w.guard h.id ≠ .held)
    (hclean : w.guard h.id = .poisoned → w.value? h.id = none)
    (programs : List (Proc π σ ρ)) : (Machine.start w programs).Guarded h where
  cell := ⟨c, hc, hf⟩
  held := by
    have hnone : (Machine.start w programs).total (·.holding.count h.id) = 0 := by
      refine sumOf_eq_zero fun t ht => ?_
      obtain ⟨x, -, rfl⟩ := List.mem_map.mp ht
      rfl
    rw [hnone]
    show 0 = (w.guard h.id).holders
    cases hg : w.guard h.id
    · rfl
    · exact absurd hg hguard
    · rfl
  sees := by
    intro t ht
    obtain ⟨x, -, rfl⟩ := List.mem_map.mp ht
    exact fun hmem => nomatch hmem
  clean := hclean
  deferred := by
    intro t ht
    obtain ⟨x, -, rfl⟩ := List.mem_map.mp ht
    exact fun hmem => nomatch hmem

theorem of_resting {w : World π σ} {c : Cell π k} (hc : w.heap.cell? h = some c)
    (hrest : c.Resting) (programs : List (Proc π σ ρ)) :
    (Machine.start w programs).Guarded h := by
  refine .start hc hrest.flavour ?_ ?_ programs
  · rw [World.guard_eq hc]
    exact hrest.guard
  · rw [World.guard_eq hc, World.value?_eq hc]
    exact fun hg => by rw [hrest.clean hg]; rfl

theorem step {i : Nat} (hm : m.Guarded h) (hstep : m.step crew i = some m') : m'.Guarded h := by
  obtain ⟨t, t', ht, hstep, hthreads⟩ := step_cases hstep
  obtain ⟨c, hc, hf⟩ := hm.cell
  obtain ⟨d, hd, hcd⟩ := hstep.keeps h c hc
  have hmem := List.mem_of_getElem? ht
  have hmissed : h.id ∈ t.missed → c.source? ≠ none := fun hx => hm.deferred t hmem hx c hc
  have hheld : h.id ∈ t.holding → m.world.guard h.id = .held := hm.guard_eq_held hmem
  have hsees := hm.sees t hmem
  refine ⟨⟨d, hd, hcd.flavour.trans hf⟩, ?_, ?_, hstep.clean hc hmissed hheld hsees hm.clean, ?_⟩
  · have htotal := total_step (·.holding.count h.id) ht hthreads
    have hcount := hstep.count_holding hc hmissed hheld
    have hbefore := hm.held
    omega
  · intro u hu
    rcases thread_cases hthreads hu with rfl | ⟨j, hij, hj⟩
    · exact hstep.sees hc (hm.count_le_one hmem) hsees
    · by_cases hholds : h.id ∈ t.holding
      · exact Thread.sees_of_not_holding (hm.not_holding hij ht hj hholds) _
      · rw [hstep.value?_eq hc hholds]
        exact hm.sees u (List.mem_of_getElem? hj)
  · intro u hu hx e he
    obtain rfl : d = e := Option.some.inj (hd.symm.trans he)
    rw [hcd.source?]
    rcases thread_cases hthreads hu with rfl | ⟨j, -, hj⟩
    · exact hstep.missed hc hmissed hx
    · exact hm.deferred u (List.mem_of_getElem? hj) hx c hc

theorem reaches (hm : m.Guarded h) (hr : m.Reaches crew m') : m'.Guarded h := by
  induction hr with
  | refl => exact hm
  | step i _ hstep ih => exact ih.step hstep

end Guarded

end Machine

end LazyFields
