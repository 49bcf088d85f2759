import LazyFields.Proofs.Guard
import Mathlib.Order.WellFoundedSet

/-!
Threads that force shared fields in an order. A producer forces only fields below its own, so
the fields that a thread is at get lower and lower, and a thread that waits for a guard waits
below every guard that it holds. Hence threads that wait for one another never form a ring.
-/

namespace LazyFields

variable {π : Kind → Type} {σ ρ τ α β : Type} {k : Kind} {w w' : World π σ} {crew : Crew π σ}
  {fields allowed : Set CellId} {below : CellId → CellId → Prop}

namespace Thread

variable {t t' : Thread π σ ρ}

def accessed : Thread π σ ρ → List CellId
  | .running _ calls => calls.cells
  | .inside h _ _ calls => h.id :: calls.cells

/-- What the thread asks for next is one of the fields, and lies below the field whose producer
asks for it. -/
def Descends (fields : Set CellId) (below : CellId → CellId → Prop) : Thread π σ ρ → Prop
  | .running (.get h _) calls => h.id ∈ fields ∧ ∀ c ∈ calls.cells.head?, below h.id c
  | .running .stuck _ => False
  | _ => True

structure Ordered (fields : Set CellId) (below : CellId → CellId → Prop) (t : Thread π σ ρ) :
    Prop where
  mem : ∀ c ∈ t.accessed, c ∈ fields
  descending : t.accessed.Pairwise below

def awaits? : Thread π σ ρ → Option CellId
  | .inside h .lock _ _ => some h.id
  | _ => none

theorem holding_sublist (t : Thread π σ ρ) : t.holding.Sublist t.accessed := by
  cases t with
  | running => exact .refl _
  | inside h p next calls =>
    simp only [holding, accessed]
    split
    · exact .refl _
    · exact List.sublist_cons_self _ _

theorem holding_of_result? (ht : t.result?.isSome) : t.holding = [] := by
  obtain ⟨r, hr⟩ := Option.isSome_iff_exists.mp ht
  unfold result? at hr
  split at hr
  · rfl
  · cases hr

theorem accessed_eq_of_awaits? {c : CellId} (ht : t.awaits? = some c) :
    t.accessed = c :: t.holding := by
  unfold awaits? at ht
  split at ht
  · obtain rfl := Option.some.inj ht
    rfl
  · cases ht

namespace Ordered

theorem tail {c : CellId} (ht : t.Ordered fields below) (hc : t.accessed = c :: t'.accessed) :
    t'.Ordered fields below where
  mem := fun d hd => ht.mem d (hc ▸ List.mem_cons_of_mem c hd)
  descending := (hc ▸ ht.descending).tail

theorem congr (ht : t.Ordered fields below) (hc : t.accessed = t'.accessed) :
    t'.Ordered fields below :=
  ⟨hc ▸ ht.mem, hc ▸ ht.descending⟩

theorem step [IsTrans CellId below] (ht : t.Ordered fields below) (hd : t.Descends fields below)
    (hstep : Step crew t w t' w') : t'.Ordered fields below := by
  -- Only a request adds to the fields that the thread is at, and it descends from the innermost.
  cases hstep with
  | @ask _ _ h _ calls =>
    obtain ⟨hmem, hbelow⟩ := hd
    refine ⟨List.forall_mem_cons.mpr ⟨hmem, ht.mem⟩, List.pairwise_cons.mpr ⟨?_, ht.descending⟩⟩
    have hdesc : calls.cells.Pairwise below := ht.descending
    cases hcells : calls.cells with
    | nil => exact fun c hc => nomatch hc
    | cons d rest =>
      rw [hcells] at hbelow hdesc
      have hhead : below h.id d := hbelow d rfl
      intro c hc
      rcases List.mem_cons.mp hc with rfl | hc
      · exact hhead
      · exact IsTrans.trans _ _ _ hhead (List.rel_of_pairwise_cons hdesc hc)
  | back | quiet | wait | take | foundAgain | enter | announce | call | fill | report =>
    exact ht.congr rfl
  | found | refused | release => exact ht.tail rfl

theorem mem_of_awaits? {c : CellId} (ht : t.Ordered fields below) (hc : t.awaits? = some c) :
    c ∈ fields :=
  ht.mem c (by simp [accessed_eq_of_awaits? hc])

theorem below_of_awaits? {c d : CellId} (ht : t.Ordered fields below) (hd : t.awaits? = some d)
    (hc : c ∈ t.holding) : below d c :=
  List.rel_of_pairwise_cons (accessed_eq_of_awaits? hd ▸ ht.descending) hc

theorem released [Std.Irrefl below] (ht : t.Ordered fields below) {c : CellId}
    (hc : t.accessed = c :: t'.accessed) : c ∉ t'.holding := by
  intro hmem
  have hdesc := hc ▸ ht.descending
  exact irrefl c (List.rel_of_pairwise_cons hdesc (t'.holding_sublist.subset hmem))

end Ordered

theorem Step.accessed_of_answered (hstep : Step crew t w t' w') {c : CellId}
    {finish : Finish EvalError Value} (hmarks : w'.marks = w.marks ++ [.answered c finish]) :
    t.accessed = c :: t'.accessed := by
  cases hstep with
  | found | refused | release =>
    simp at hmarks
    rw [← hmarks.1]
    rfl
  | back | quiet | ask | wait | take | foundAgain | enter | announce | call | fill | report =>
    simp at hmarks

inductive Prospect (crew : Crew π σ) (w : World π σ) (t : Thread π σ ρ) : Prop
  | ended : t.result?.isSome → Prospect crew w t
  | moves {t' : Thread π σ ρ} {w' : World π σ} : Step crew t w t' w' → Prospect crew w t
  | waits {c : CellId} : t.awaits? = some c → w.guard c = .held → Prospect crew w t

theorem prospect_inside {τ : Type} {h : Handle k} {c : Cell π k} (hc : w.heap.cell? h = some c)
    (hf : c.flavour = .shared) {p : Phase k} (hs : p = .call → c.source? ≠ none)
    (next : Reply k → Code π σ τ) (calls : Calls π σ ρ τ) :
    Prospect crew w (.inside h p next calls) := by
  cases p with
  | look =>
    cases hv : c.value? with
    | some v => exact .moves (.found hc hf hv)
    | none => exact .moves (.wait hc hf hv)
  | lock =>
    cases hg : c.guard with
    | free => exact .moves (.take hc hf hg)
    | held => exact .waits rfl ((World.guard_eq hc).trans hg)
    | poisoned => exact .moves (.refused hc hf hg)
  | lookAgain =>
    cases hv : c.value? with
    | some v => exact .moves (.foundAgain hc hf hv)
    | none => exact .moves (.enter hc hf hv)
  | announce => exact .moves (.announce hc hf)
  | call =>
    obtain ⟨s, hs⟩ := Option.ne_none_iff_exists'.mp (hs rfl)
    exact .moves (.call hc hf hs)
  | fill v => exact .moves (.fill hc hf)
  | report e => exact .moves (.report hc hf)
  | release r => exact .moves (.release hc hf)

end Thread

namespace Machine

variable {m m' : Machine π σ ρ}

theorem exists_step {t t' : Thread π σ ρ} (ht : t ∈ m.threads)
    (hstep : Thread.Step crew t m.world t' w') : ∃ i m', m.step crew i = some m' := by
  obtain ⟨i, hi⟩ := List.getElem?_of_mem ht
  exact ⟨i, ⟨m.threads.set i t', w'⟩, by simp [step, hi, hstep.step]⟩

structure Ordered (fields : Set CellId) (below : CellId → CellId → Prop) (m : Machine π σ ρ) :
    Prop where
  guarded : ∀ c ∈ fields, m.Guarded c.handle
  threads : ∀ t ∈ m.threads, t.Ordered fields below

namespace Ordered

theorem start (hfields : ∀ c ∈ fields, ∃ d, w.heap.cell? c.handle = some d ∧ d.Resting)
    (programs : List (Proc π σ ρ)) : (Machine.start w programs).Ordered fields below where
  guarded := by
    intro c hc
    obtain ⟨d, hd, hrest⟩ := hfields c hc
    exact .of_resting hd hrest programs
  threads := by
    intro t ht
    obtain ⟨x, -, rfl⟩ := List.mem_map.mp ht
    exact ⟨fun c hc => absurd hc List.not_mem_nil, .nil⟩

theorem step [IsTrans CellId below] (hm : m.Ordered fields below)
    (hd : ∀ t ∈ m.threads, t.Descends fields below) {i : Nat}
    (hstep : m.step crew i = some m') : m'.Ordered fields below where
  guarded := fun c hc => (hm.guarded c hc).step hstep
  threads := by
    obtain ⟨t, t', ht, hstep, hthreads⟩ := step_cases hstep
    have hmem := List.mem_of_getElem? ht
    intro u hu
    rcases thread_cases hthreads hu with rfl | ⟨j, -, hj⟩
    · exact (hm.threads t hmem).step (hd t hmem) hstep
    · exact hm.threads u (List.mem_of_getElem? hj)

theorem reaches [IsTrans CellId below] (hm : m.Ordered fields below)
    (hd : ∀ m', m.Reaches crew m' → ∀ t ∈ m'.threads, t.Descends fields below)
    (hr : m.Reaches crew m') : m'.Ordered fields below := by
  induction hr with
  | refl => exact hm
  | step i hr hstep ih => exact ih.step (hd _ hr) hstep

theorem held_iff (hm : m.Ordered fields below) {c : CellId} (hc : c ∈ fields) :
    m.world.guard c = .held ↔ ∃ t ∈ m.threads, c ∈ t.holding := by
  refine ⟨fun hg => ?_, fun ⟨t, ht, hheld⟩ => (hm.guarded c hc).guard_eq_held ht hheld⟩
  by_contra hnone
  have hnobody : m.total (·.holding.count c) = 0 :=
    sumOf_eq_zero fun t ht => List.count_eq_zero.mpr fun hheld => hnone ⟨t, ht, hheld⟩
  have hheld : m.total (·.holding.count c) = (m.world.guard c).holders := (hm.guarded c hc).held
  rw [hnobody, hg] at hheld
  cases hheld

theorem prospect (hm : m.Ordered fields below) (crew : Crew π σ) {t : Thread π σ ρ}
    (ht : t ∈ m.threads) (hd : t.Descends fields below) : t.Prospect crew m.world := by
  cases t with
  | running code calls =>
    cases code with
    | done r =>
      cases calls with
      | none => exact .ended rfl
      | call => exact .moves .back
    | quiet => exact .moves .quiet
    | get => exact .moves .ask
    | stuck => exact hd.elim
  | inside h p next calls =>
    have hguarded : m.Guarded h := hm.guarded h.id ((hm.threads _ ht).mem _ List.mem_cons_self)
    obtain ⟨c, hc, hf⟩ := hguarded.cell
    refine Thread.prospect_inside hc hf (fun hp => ?_) next calls
    exact hguarded.deferred _ ht (by simp [hp, Thread.missed, Phase.missed]) c hc

/-- A guard that a thread waits for leads down to a thread that has a step: whoever holds it
goes on, or waits for the guard of a lower field. -/
theorem exists_step_of_awaits [IsStrictOrder CellId below] (hm : m.Ordered fields below)
    (hd : ∀ t ∈ m.threads, t.Descends fields below) {c : CellId}
    (hc : c ∈ m.threads.filterMap Thread.awaits?) (hg : m.world.guard c = .held) :
    ∃ i m', m.step crew i = some m' := by
  have hwf : {c | c ∈ m.threads.filterMap Thread.awaits?}.WellFoundedOn below :=
    (List.finite_toSet _).wellFoundedOn
  -- The fields that are waited for are finitely many, so the descent comes to an end.
  revert hg
  refine hwf.induction (P := fun c => m.world.guard c = .held → _) hc fun c hc ih hg => ?_
  obtain ⟨t, ht, hawaits⟩ := List.mem_filterMap.mp hc
  have hmem : c ∈ fields := (hm.threads t ht).mem_of_awaits? hawaits
  obtain ⟨u, hu, hheld⟩ := (hm.held_iff hmem).mp hg
  cases hm.prospect crew hu (hd u hu) with
  | ended hended =>
    rw [Thread.holding_of_result? hended] at hheld
    cases hheld
  | moves hstep => exact exists_step hu hstep
  | waits hawaits' hg' =>
    exact ih _ (List.mem_filterMap.mpr ⟨u, hu, hawaits'⟩)
      ((hm.threads u hu).below_of_awaits? hawaits' hheld) hg'

theorem progress [IsStrictOrder CellId below] (hm : m.Ordered fields below)
    (hd : ∀ t ∈ m.threads, t.Descends fields below) :
    m.finished = true ∨ ∃ i m', m.step crew i = some m' := by
  by_cases hall : ∀ t ∈ m.threads, t.result?.isSome
  · exact .inl (List.all_eq_true.mpr hall)
  · right
    obtain ⟨t, ht, hresult⟩ := by simpa using hall
    cases hm.prospect crew ht (hd t ht) with
    | ended hended => simp [hresult] at hended
    | moves hstep => exact exists_step ht hstep
    | waits hc hg => exact hm.exists_step_of_awaits hd (List.mem_filterMap.mpr ⟨t, ht, hc⟩) hg

end Ordered

end Machine

/-! What a program may ever ask for can be read off the program, whatever its accesses answer. -/

def Code.ForcesOnly (allowed : Set CellId) : Code π σ ρ → Prop
  | .done _ => True
  | .quiet _ next => ∀ a, (next a).ForcesOnly allowed
  | .get h next => h.id ∈ allowed ∧ ∀ r, (next r).ForcesOnly allowed
  | .stuck => False

inductive Proc.ForcesOnly (allowed : Set CellId) : {α : Type} → Proc π σ α → Prop
  | pure {α : Type} (a : α) : ForcesOnly allowed (.pure a)
  | bind {α β : Type} {x : Proc π σ α} {f : α → Proc π σ β} :
      x.ForcesOnly allowed → (∀ a, (f a).ForcesOnly allowed) → ForcesOnly allowed (.bind x f)
  | quiet {α : Type} (q : Quiet π σ α) : ForcesOnly allowed (.act (.quiet q))
  | get {k : Kind} {h : Handle k} : h.id ∈ allowed → ForcesOnly allowed (.act (.get h))
  | panic {α : Type} (message : String) : ForcesOnly allowed (.panic message : Proc π σ α)
  | attempt {α : Type} {x : Proc π σ α} : x.ForcesOnly allowed → ForcesOnly allowed (.attempt x)

theorem Proc.ForcesOnly.code {x : Proc π σ α} (hx : x.ForcesOnly allowed)
    {next : Except String α → Code π σ ρ} (hnext : ∀ r, (next r).ForcesOnly allowed) :
    (x.code next).ForcesOnly allowed := by
  induction hx with
  | pure a => exact hnext (.ok a)
  | bind _ _ ihx ihf =>
    rw [Proc.code]
    refine ihx fun r => ?_
    cases r with
    | ok a => exact ihf a hnext
    | error message => exact hnext (.error message)
  | quiet q => exact fun a => hnext (.ok a)
  | get hmem => exact ⟨hmem, hnext⟩
  | panic message => exact hnext (.error message)
  | attempt _ ih => exact ih fun r => hnext (.ok r)

def Calls.lower (fields : Set CellId) (below : CellId → CellId → Prop) (calls : Calls π σ ρ τ) :
    Set CellId :=
  {c | c ∈ fields ∧ ∀ d ∈ calls.cells.head?, below c d}

def Calls.ForcesOnly (fields : Set CellId) (below : CellId → CellId → Prop) :
    {τ : Type} → Calls π σ ρ τ → Prop
  | _, .none => True
  | _, .call h next rest => h.id ∈ fields ∧
      (∀ r, (next r).ForcesOnly (rest.lower fields below)) ∧ rest.ForcesOnly fields below

def World.Layered (crew : Crew π σ) (fields : Set CellId) (below : CellId → CellId → Prop)
    (w : World π σ) : Prop :=
  ∀ c ∈ fields, ∃ d, w.heap.cell? c.handle = some d ∧
    ∀ s ∈ d.source?, (s.producer.code crew).ForcesOnly {e | e ∈ fields ∧ below e c}

theorem World.Layered.keeps (hw : w.Layered crew fields below) (hkeeps : w.heap.Keeps w'.heap) :
    w'.Layered crew fields below := by
  intro c hc
  obtain ⟨d, hd, hsource⟩ := hw c hc
  obtain ⟨e, he, hde⟩ := hkeeps c.handle d hd
  exact ⟨e, he, fun s hs => hsource s (hde.source? ▸ hs)⟩

namespace Thread

variable {t t' : Thread π σ ρ}

def ForcesOnly (fields : Set CellId) (below : CellId → CellId → Prop) : Thread π σ ρ → Prop
  | .running code calls =>
    code.ForcesOnly (calls.lower fields below) ∧ calls.ForcesOnly fields below
  | .inside h _ next calls => h.id ∈ fields ∧
      (∀ r, (next r).ForcesOnly (calls.lower fields below)) ∧ calls.ForcesOnly fields below

theorem ForcesOnly.descends (ht : t.ForcesOnly fields below) : t.Descends fields below := by
  cases t with
  | running code calls =>
    cases code with
    | get => exact ht.1.1
    | stuck => exact ht.1
    | done | quiet => trivial
  | inside => trivial

theorem ForcesOnly.step (ht : t.ForcesOnly fields below) (hw : w.Layered crew fields below)
    (hstep : Step crew t w t' w') : t'.ForcesOnly fields below := by
  cases hstep with
  | back => exact ht.2
  | quiet => exact ⟨ht.1 _, ht.2⟩
  | ask => exact ⟨ht.1.1.1, ht.1.2, ht.2⟩
  | found | refused | release => exact ⟨ht.2.1 _, ht.2.2⟩
  | wait | take | foundAgain | enter | announce | fill | report => exact ht
  | @call _ _ h c s next calls _ hc _ hs =>
    obtain ⟨d, hd, hsource⟩ := hw h.id ht.1
    obtain rfl : c = d := Option.some.inj (hc.symm.trans hd)
    have hlower : (Calls.call h next calls).lower fields below =
        {e | e ∈ fields ∧ below e h.id} := by
      simp [Calls.lower, Calls.cells]
    exact ⟨hlower ▸ hsource s hs, ht⟩

end Thread

theorem Machine.descends_of_layered {m : Machine π σ ρ} (hw : w.Layered crew fields below)
    {programs : List (Proc π σ ρ)} (hprograms : ∀ x ∈ programs, x.ForcesOnly fields)
    (hr : (Machine.start w programs).Reaches crew m) :
    ∀ t ∈ m.threads, t.Descends fields below := by
  suffices h : m.world.Layered crew fields below ∧ ∀ t ∈ m.threads, t.ForcesOnly fields below from
    fun t ht => (h.2 t ht).descends
  induction hr with
  | refl =>
    refine ⟨hw, fun t ht => ?_⟩
    obtain ⟨x, hx, rfl⟩ := List.mem_map.mp ht
    have hlower : (Calls.none : Calls π σ ρ ρ).lower fields below = fields := by
      simp [Calls.lower, Calls.cells]
    refine ⟨?_, trivial⟩
    rw [hlower]
    exact (hprograms x hx).code fun _ => trivial
  | step i _ hstep ih =>
    obtain ⟨hw, hthreads⟩ := ih
    obtain ⟨t, t', ht, hstep, hset⟩ := step_cases hstep
    refine ⟨hw.keeps hstep.keeps, fun u hu => ?_⟩
    rcases thread_cases hset hu with rfl | ⟨j, -, hj⟩
    · exact (hthreads t (List.mem_of_getElem? ht)).step hw hstep
    · exact hthreads u (List.mem_of_getElem? hj)

/-- Somebody can go on as long as not everybody has ended, a guard is held only while a thread
is inside the access that took it, and nobody comes back from an access with its guard. -/
structure Machine.Live (crew : Crew π σ) (fields : Set CellId) (m : Machine π σ ρ) : Prop where
  progress : m.finished = true ∨ ∃ i m', m.step crew i = some m'
  held_iff : ∀ c ∈ fields, m.world.guard c = .held ↔ ∃ t ∈ m.threads, c ∈ t.holding
  released : ∀ {i : Nat} {m' : Machine π σ ρ} {t' : Thread π σ ρ} {c : CellId}
    {finish : Finish EvalError Value}, m.step crew i = some m' → m'.threads[i]? = some t' →
    m'.world.marks = m.world.marks ++ [.answered c finish] → c ∉ t'.holding

/-- Threads that force shared fields never come to a deadlock, as long as no producer forces a
field that is not below its own. -/
theorem Machine.reaches_live [IsStrictOrder CellId below]
    (hfields : ∀ c ∈ fields, ∃ d, w.heap.cell? c.handle = some d ∧ d.Resting)
    (programs : List (Proc π σ ρ))
    (hdescends : ∀ m, (Machine.start w programs).Reaches crew m →
      ∀ t ∈ m.threads, t.Descends fields below)
    {m : Machine π σ ρ} (hr : (Machine.start w programs).Reaches crew m) :
    m.Live crew fields := by
  have hm : m.Ordered fields below := (Ordered.start hfields programs).reaches hdescends hr
  refine ⟨hm.progress (hdescends m hr), fun c hc => hm.held_iff hc, ?_⟩
  intro i m' t' c finish hstep ht' hmarks
  obtain ⟨t, u, ht, hstep, hthreads⟩ := step_cases hstep
  obtain rfl : u = t' := by
    rw [hthreads, List.getElem?_set_self (List.getElem?_eq_some_iff.mp ht).1] at ht'
    exact Option.some.inj ht'
  exact (hm.threads t (List.mem_of_getElem? ht)).released (hstep.accessed_of_answered hmarks)

def Crew.stacked : Crew (fun _ => Bool) Unit where
  produce := fun k upper =>
    match k, upper with
    | .int, true => (⟨0⟩ : Handle .int).get
    | _, _ => .panic "broken"
  hear := fun _ _ => ()

def World.stacked : World (fun _ => Bool) Unit :=
  let w := ((World.start ()).alloc (.fresh .shared (.plain (.custom (k := .int) false)))).2
  (w.alloc (.fresh .shared (.plain (.custom (k := .int) true)))).2

def CellId.Older (c d : CellId) : Prop := c.index < d.index

instance : IsStrictOrder CellId CellId.Older where
  irrefl := fun c => Nat.lt_irrefl c.index
  trans := fun _ _ _ => Nat.lt_trans

def CellId.stacked : Set CellId := {⟨.int, 0⟩, ⟨.int, 1⟩}

def Proc.bottomUp : Proc (fun _ => Bool) Unit (Except EvalError Int32) := do
  let _ ← (⟨0⟩ : Handle .int).get.attempt
  (⟨1⟩ : Handle .int).get

theorem World.layered_stacked : World.stacked.Layered Crew.stacked CellId.stacked CellId.Older := by
  rintro c (rfl | rfl)
  · exact ⟨_, rfl, fun s hs => by cases hs; exact trivial⟩
  · refine ⟨_, rfl, fun s hs => ?_⟩
    cases hs
    exact ⟨⟨.inl rfl, Nat.zero_lt_one⟩, fun _ => trivial⟩

theorem Proc.forcesOnly_stacked :
    ∀ x ∈ [(⟨1⟩ : Handle .int).get, Proc.bottomUp], x.ForcesOnly CellId.stacked := by
  have hlower : ((⟨0⟩ : Handle .int).get : Proc (fun _ => Bool) Unit _).ForcesOnly
      CellId.stacked := .get (.inl rfl)
  have hupper : ((⟨1⟩ : Handle .int).get : Proc (fun _ => Bool) Unit _).ForcesOnly
      CellId.stacked := .get (.inr rfl)
  intro x hx
  rcases List.mem_pair.mp hx with rfl | rfl
  · exact hupper
  · exact .bind (.attempt hlower) fun _ => hupper

/-- The first thread holds the upper guard and waits for the lower one, which the second holds. -/
theorem Machine.reaches_live_stacked :
    (∀ c ∈ CellId.stacked, ∃ d, World.stacked.heap.cell? c.handle = some d ∧ d.Resting) ∧
      (∀ m, (Machine.start World.stacked [(⟨1⟩ : Handle .int).get, Proc.bottomUp]).Reaches
        Crew.stacked m → ∀ t ∈ m.threads, t.Descends CellId.stacked CellId.Older) ∧
      ∃ m, (Machine.start World.stacked [(⟨1⟩ : Handle .int).get, Proc.bottomUp]).run
          Crew.stacked [1, 1, 1, 0, 0, 0, 0, 0, 0, 0, 0] = some m ∧
        (m.step Crew.stacked 0).isNone ∧ m.Live Crew.stacked CellId.stacked := by
  have hfields : ∀ c ∈ CellId.stacked, ∃ d,
      World.stacked.heap.cell? c.handle = some d ∧ d.Resting := by
    rintro c (rfl | rfl) <;> exact ⟨_, rfl, .empty _⟩
  have hdescends : ∀ m, (Machine.start World.stacked
      [(⟨1⟩ : Handle .int).get, Proc.bottomUp]).Reaches Crew.stacked m →
        ∀ t ∈ m.threads, t.Descends CellId.stacked CellId.Older :=
    fun _ hr => descends_of_layered World.layered_stacked Proc.forcesOnly_stacked hr
  have hrun : ((Machine.start World.stacked [(⟨1⟩ : Handle .int).get, Proc.bottomUp]).run
      Crew.stacked [1, 1, 1, 0, 0, 0, 0, 0, 0, 0, 0]).map
        (fun m => (m.step Crew.stacked 0).isNone) = some true := by
    decide +kernel
  obtain ⟨m, hm, hwaits⟩ := Option.map_eq_some_iff.mp hrun
  exact ⟨hfields, hdescends, m, hm, hwaits,
    reaches_live hfields _ hdescends (reaches_of_run hm)⟩

end LazyFields
