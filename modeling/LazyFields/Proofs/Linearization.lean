import LazyFields.Proofs.Producing
import LazyFields.Proofs.Serial

/-!
Threads that each force the same shared field once. Each access takes effect at one moment: when
it finds the value, when it is refused, or when its production is over. In the order of these
moments the accesses might as well have been made one after another.
-/

namespace LazyFields

variable {π : Kind → Type} {σ ρ τ : Type} {k : Kind} {w w' u u' v : World π σ}

namespace Thread

variable {crew : Crew π σ} {h : Handle k}

/-- Where a thread can be that forces the field once, in the world `w`. The world `u` is what
the accesses leave that have taken effect so far. -/
inductive Stage (crew : Crew π σ) (h : Handle k) (w u : World π σ) :
    Thread π σ (Except EvalError k.Val) → Prop
  | asking : Stage crew h w u (.running (.get h .done) .none)
  | looking : Stage crew h w u (.inside h .look .done .none)
  | waiting : Stage crew h w u (.inside h .lock .done .none)
  | entered : w.Alike (u.modify h (·.withGuard .held)) → u.guard h.id = .free →
      Stage crew h w u (.inside h .lookAgain .done .none)
  | busy {t : Thread π σ (Except EvalError k.Val)} :
      Busy h t → Continues crew h u t w → Stage crew h w u t
  | leaving {r : Reply k} : (w.leave h r).Alike u →
      Stage crew h w u (.inside h (.release r) .done .none)
  | ended {r : Reply k} : Stage crew h w u (.running (.done r) .none)

theorem Stage.congr {t : Thread π σ (Except EvalError k.Val)} (ht : Stage crew h w u t)
    (hw : w.Alike w') (hu : u.Alike u') : Stage crew h w' u' t := by
  cases ht with
  | asking => exact .asking
  | looking => exact .looking
  | waiting => exact .waiting
  | entered hheld hfree =>
    refine .entered (hw.symm.trans (hheld.trans (hu.modify h _))) ?_
    rw [← hfree]
    exact World.guard_congr (by rw [hu.heap])
  | busy hbusy hc => exact .busy hbusy (hc.congr hu hw)
  | leaving hleft => exact .leaving ((hw.symm.leave h _).trans (hleft.trans hu))
  | ended => exact .ended

theorem Stage.of_not_holding {t : Thread π σ (Except EvalError k.Val)} (ht : Stage crew h w u t)
    (hheld : h.id ∉ t.holding) (w' u' : World π σ) : Stage crew h w' u' t := by
  cases ht with
  | asking => exact .asking
  | looking => exact .looking
  | waiting => exact .waiting
  | ended => exact .ended
  | entered | leaving => exact absurd List.mem_cons_self hheld
  | busy hbusy => exact absurd hbusy.mem_holding hheld

end Thread

namespace Machine

variable {crew : Crew π σ} {h : Handle k} {m m' : Machine π σ (Except EvalError k.Val)}
  {rs : List (Reply k)}

/-- The machine is where the accesses that have taken effect would have led one after another,
but for the production under way. -/
structure Linear (crew : Crew π σ) (h : Handle k) (w : World π σ) (rs : List (Reply k))
    (u : World π σ) (m : Machine π σ (Except EvalError k.Val)) : Prop where
  guarded : m.Guarded h
  serial : Serial crew h w rs u
  shared : ∃ c, u.heap.cell? h = some c ∧ c.flavour = .shared
  staged : ∀ t ∈ m.threads, t.Stage crew h m.world u
  replies : (m.threads.filterMap Thread.outcome?).Perm rs
  settled : m.world.guard h.id ≠ .held → m.world.Alike u
  known : ∀ v, m.world.peek h = some v → u.peek h = some v

theorem threads_eq_of_results? {m : Machine π σ ρ} {results : List (Except String ρ)}
    (hresults : m.results? = some results) :
    m.threads = results.map fun r => .running (.done r) .none := by
  obtain ⟨threads, world⟩ := m
  change threads.mapM Thread.result? = some results at hresults
  induction threads generalizing results with
  | nil =>
    obtain rfl : [] = results := Option.some.inj hresults
    rfl
  | cons t rest ih =>
    rw [List.mapM_cons] at hresults
    obtain ⟨r, hr, hresults⟩ := Option.bind_eq_some_iff.mp hresults
    obtain ⟨rs, hrs, hresults⟩ := Option.bind_eq_some_iff.mp hresults
    obtain rfl : r :: rs = results := Option.some.inj hresults
    rw [Thread.eq_of_result? hr, List.map_cons]
    exact congrArg _ (ih hrs)

theorem length_threads {m m' : Machine π σ ρ} (hr : m.Reaches crew m') :
    m'.threads.length = m.threads.length := by
  induction hr with
  | refl => rfl
  | step i _ hstep ih =>
    obtain ⟨t, t', -, -, hthreads⟩ := step_cases hstep
    rw [hthreads, List.length_set, ih]

theorem filterMap_set {threads : List (Thread π σ ρ)} {i : Nat} {t t' : Thread π σ ρ}
    (ht : threads[i]? = some t) (hsame : t'.outcome? = t.outcome?) :
    (threads.set i t').filterMap Thread.outcome? = threads.filterMap Thread.outcome? := by
  induction threads generalizing i with
  | nil => rfl
  | cons a rest ih =>
    cases i with
    | zero =>
      obtain rfl : a = t := by simpa using ht
      simp [List.filterMap_cons, hsame]
    | succ i => simp only [List.set_cons_succ, List.filterMap_cons, ih (i := i) (by simpa using ht)]

theorem perm_filterMap_set {threads : List (Thread π σ ρ)} {i : Nat} {t t' : Thread π σ ρ}
    {r : Except String ρ} (ht : threads[i]? = some t) (hnone : t.outcome? = none)
    (hsome : t'.outcome? = some r) :
    ((threads.set i t').filterMap Thread.outcome?).Perm
      (threads.filterMap Thread.outcome? ++ [r]) := by
  induction threads generalizing i with
  | nil => simp at ht
  | cons a rest ih =>
    cases i with
    | zero =>
      obtain rfl : a = t := by simpa using ht
      simp only [List.set_cons_zero, List.filterMap_cons, hnone, hsome]
      exact (List.perm_append_singleton _ _).symm
    | succ i =>
      have hrest := ih (i := i) (by simpa using ht)
      simp only [List.set_cons_succ, List.filterMap_cons]
      cases a.outcome? with
      | none => exact hrest
      | some x => exact hrest.cons x

namespace Linear

variable {i : Nat} {t t' : Thread π σ (Except EvalError k.Val)}

theorem others (hm : m.Linear crew h w rs u) (ht : m.threads[i]? = some t)
    (hworlds : m.world.Alike w' ∧ u.Alike u' ∨ h.id ∈ t.holding ∨ m.world.guard h.id ≠ .held)
    {j : Nat} (hij : i ≠ j) {x : Thread π σ (Except EvalError k.Val)}
    (hj : m.threads[j]? = some x) : x.Stage crew h w' u' := by
  have hx := hm.staged x (List.mem_of_getElem? hj)
  rcases hworlds with ⟨hw, hu⟩ | hheld | hguard
  · exact hx.congr hw hu
  · exact hx.of_not_holding (hm.guarded.not_holding hij ht hj hheld) w' u'
  · refine hx.of_not_holding (fun hheld => hguard ?_) w' u'
    exact hm.guarded.guard_eq_held (List.mem_of_getElem? hj) hheld

theorem proceed (hm : m.Linear crew h w rs u) (hm' : m'.Guarded h)
    (ht : m.threads[i]? = some t) (hthreads : m'.threads = m.threads.set i t')
    (hworlds : m.world.Alike m'.world ∨ h.id ∈ t.holding ∨ m.world.guard h.id ≠ .held)
    (hsame : t'.outcome? = t.outcome?) (hstage : t'.Stage crew h m'.world u)
    (hsettled : m'.world.guard h.id ≠ .held → m'.world.Alike u)
    (hknown : ∀ v, m'.world.peek h = some v → u.peek h = some v) : m'.Linear crew h w rs u := by
  refine ⟨hm', hm.serial, hm.shared, ?_, ?_, hsettled, hknown⟩
  · intro x hx
    rcases thread_cases hthreads hx with rfl | ⟨j, hij, hj⟩
    · exact hstage
    · exact hm.others ht (hworlds.imp_left fun hw => ⟨hw, .refl u⟩) hij hj
  · rw [hthreads, filterMap_set ht hsame]
    exact hm.replies

theorem settle (hm : m.Linear crew h w rs u) (hm' : m'.Guarded h)
    (ht : m.threads[i]? = some t) (hthreads : m'.threads = m.threads.set i t')
    {n : Nat} {r : Reply k} (hfinishes : Thread.Finishes crew n (Thread.start h.get) u r u')
    (hworlds : m.world.Alike m'.world ∧ u.Alike u' ∨ h.id ∈ t.holding ∨
      m.world.guard h.id ≠ .held)
    (hnone : t.outcome? = none) (hsome : t'.outcome? = some r)
    (hstage : t'.Stage crew h m'.world u')
    (hsettled : m'.world.guard h.id ≠ .held → m'.world.Alike u')
    (hknown : ∀ v, m'.world.peek h = some v → u'.peek h = some v) :
    m'.Linear crew h w (rs ++ [r]) u' := by
  refine ⟨hm', .next hm.serial hfinishes, ?_, ?_, ?_, hsettled, hknown⟩
  · obtain ⟨c, hc, hf⟩ := hm.shared
    obtain ⟨d, hd, hcd⟩ := hfinishes.keeps h c hc
    exact ⟨d, hd, hcd.flavour.trans hf⟩
  · intro x hx
    rcases thread_cases hthreads hx with rfl | ⟨j, hij, hj⟩
    · exact hstage
    · exact hm.others ht hworlds hij hj
  · rw [hthreads]
    exact (perm_filterMap_set ht hnone hsome).trans (hm.replies.append_right [r])

theorem proceed_alike (hm : m.Linear crew h w rs u) (hm' : m'.Guarded h)
    (ht : m.threads[i]? = some t) (hthreads : m'.threads = m.threads.set i t')
    (hworld : m.world.Alike m'.world) (hsame : t'.outcome? = t.outcome?)
    (hstage : t'.Stage crew h m'.world u) : m'.Linear crew h w rs u := by
  refine hm.proceed hm' ht hthreads (.inl hworld) hsame hstage (fun hg => ?_) (fun v hv => ?_)
  · rw [← hworld.guard] at hg
    exact hworld.symm.trans (hm.settled hg)
  · exact hm.known v ((hworld.peek h).trans hv)

theorem settle_alike (hm : m.Linear crew h w rs u) (hm' : m'.Guarded h)
    (ht : m.threads[i]? = some t) (hthreads : m'.threads = m.threads.set i t')
    {n : Nat} {r : Reply k} (hfinishes : Thread.Finishes crew n (Thread.start h.get) u r u')
    (hworld : m.world.Alike m'.world) (hu : u.Alike u') (hnone : t.outcome? = none)
    (hsome : t'.outcome? = some r) (hstage : t'.Stage crew h m'.world u') :
    m'.Linear crew h w (rs ++ [r]) u' := by
  refine hm.settle hm' ht hthreads hfinishes (.inl ⟨hworld, hu⟩) hnone hsome hstage
    (fun hg => ?_) (fun v hv => ?_)
  · rw [← hworld.guard] at hg
    exact hworld.symm.trans ((hm.settled hg).trans hu)
  · rw [← hu.peek]
    exact hm.known v ((hworld.peek h).trans hv)

theorem found (hm : m.Linear crew h w rs u) {c : Cell π k} {v : k.Val}
    (hc : m.world.heap.cell? h = some c) (hv : c.value? = some v) :
    Thread.Finishes crew 2 (Thread.start h.get) u (.ok (.ok v))
      ((u.note (.asked h.id)).note (.answered h.id (.value (.of v)))) := by
  obtain ⟨d, hd, hf⟩ := hm.shared
  have hknown : u.heap.peek h = some v := hm.known v ((World.peek_of_cell? hc).trans hv)
  refine Thread.found_alone hd hf ?_
  simpa [Heap.peek, hd] using hknown

theorem step_busy (hm : m.Linear crew h w rs u) (hm' : m'.Guarded h)
    (ht : m.threads[i]? = some t) (hthreads : m'.threads = m.threads.set i t')
    (hstep : t.step crew m.world = some (t', m'.world)) (hbusy : Thread.Busy h t)
    (hcontinues : Thread.Continues crew h u t m.world) :
    ∃ rs u, m'.Linear crew h w rs u := by
  have hmem : t' ∈ m'.threads := by
    rw [hthreads]
    exact List.mem_set (List.getElem?_eq_some_iff.mp ht).1 t'
  rcases hbusy.step hstep with hbusy' | ⟨r, rfl⟩
  · refine ⟨rs, u, hm.proceed hm' ht hthreads (.inr (.inl hbusy.mem_holding)) ?_
      (.busy hbusy' (hcontinues.step hstep)) (fun hg => ?_) (fun v hv => ?_)⟩
    · rw [hbusy'.outcome?_eq_none, hbusy.outcome?_eq_none]
    · exact absurd (hm'.guard_eq_held hmem hbusy'.mem_holding) hg
    · have hnone : m'.world.value? h.id = none := hbusy'.eq_none_of_sees (hm'.sees t' hmem)
      exact absurd (hv.symm.trans (Option.map_eq_none_iff.mp hnone)) (by simp)
  · obtain ⟨c, hc, hf⟩ := hm.guarded.cell
    obtain ⟨d, hd, hcd⟩ := (Thread.Step.of_step hstep).keeps h c hc
    obtain ⟨n, u', hfinishes, hleft⟩ := Thread.leave_alone hd (hcd.flavour.trans hf)
      (hcontinues.step hstep)
    refine ⟨rs ++ [r], u', hm.settle hm' ht hthreads hfinishes (.inr (.inl hbusy.mem_holding))
      hbusy.outcome?_eq_none rfl (.leaving hleft) (fun hg => ?_) (fun v hv => ?_)⟩
    · exact absurd (hm'.guard_eq_held hmem List.mem_cons_self) hg
    · rw [← hleft.peek]
      exact (World.peek_modify_withGuard _ _ _ _).trans hv

theorem step_waiting (hm : m.Linear crew h w rs u) (hm' : m'.Guarded h)
    (ht : m.threads[i]? = some (.inside h .lock .done .none))
    (hthreads : m'.threads = m.threads.set i t')
    (hstep : (Thread.inside h .lock .done .none).step crew m.world = some (t', m'.world)) :
    ∃ rs u, m'.Linear crew h w rs u := by
  obtain ⟨c, hc, hf, haccess⟩ := Thread.access_of_step hstep
  have hguard := World.guard_eq hc
  cases hg : c.guard with
  | held => simp [Thread.access, hg] at haccess
  | free =>
    simp only [Thread.access, hg, Option.some.injEq, Prod.mk.injEq] at haccess
    obtain ⟨rfl, hworld⟩ := haccess
    have hne : m.world.guard h.id ≠ .held := by simp [hguard, hg]
    have hu := hm.settled hne
    have hmem : .inside h .lookAgain .done .none ∈ m'.threads := by
      rw [hthreads]
      exact List.mem_set (List.getElem?_eq_some_iff.mp ht).1 _
    refine ⟨rs, u, hm.proceed hm' ht hthreads (.inr (.inr hne)) rfl ?_ (fun hfree => ?_)
      (fun v hv => ?_)⟩
    · refine .entered (hworld ▸ hu.modify h _) ?_
      rw [← hu.guard, hguard, hg]
    · exact absurd (hm'.guard_eq_held hmem List.mem_cons_self) hfree
    · rw [← hworld] at hv
      exact hm.known v ((World.peek_modify_withGuard _ _ _ _).symm.trans hv)
  | poisoned =>
    simp only [Thread.access, hg, Option.some.injEq, Prod.mk.injEq] at haccess
    obtain ⟨rfl, hworld⟩ := haccess
    have hu := hm.settled (by simp [hguard, hg])
    have hnone : c.value? = none := by
      have hclean := hm.guarded.clean (hguard.trans hg)
      rw [World.value?_eq hc] at hclean
      exact Option.map_eq_none_iff.mp hclean
    have hcu : u.heap.cell? h = some c := by rw [← hu.heap, hc]
    refine ⟨_, _, hm.settle_alike hm' ht hthreads (Thread.refused_alone hcu hf hnone hg) ?_
      (((World.Alike.refl u).note_right rfl).note_right rfl) rfl rfl .ended⟩
    rw [← hworld]
    exact (World.Alike.refl _).note_right rfl

theorem step_entered (hm : m.Linear crew h w rs u) (hm' : m'.Guarded h)
    (ht : m.threads[i]? = some (.inside h .lookAgain .done .none))
    (hthreads : m'.threads = m.threads.set i t')
    (hstep : (Thread.inside h .lookAgain .done .none).step crew m.world = some (t', m'.world))
    (hheld : m.world.Alike (u.modify h (·.withGuard .held))) (hfree : u.guard h.id = .free) :
    ∃ rs u, m'.Linear crew h w rs u := by
  obtain ⟨c, hc, hf, haccess⟩ := Thread.access_of_step hstep
  obtain ⟨d, hd, hdf⟩ := hm.shared
  have hdg : d.guard = .free := (World.guard_eq hd).symm.trans hfree
  cases hv : c.value? with
  | some v =>
    simp only [Thread.access, hv, Option.some.injEq, Prod.mk.injEq] at haccess
    obtain ⟨rfl, hworld⟩ := haccess
    have hu : u.Alike ((u.note (.asked h.id)).note (.answered h.id (.value (.of v)))) :=
      ((World.Alike.refl u).note_right rfl).note_right rfl
    refine ⟨_, _, hm.settle_alike hm' ht hthreads (hm.found hc hv) (hworld ▸ .refl _) hu rfl rfl
      (.leaving ?_)⟩
    rw [← hworld]
    exact ((hheld.leave h _).trans (Thread.leave_held hd hdg _ rfl)).trans hu
  | none =>
    simp only [Thread.access, hv, Option.some.injEq, Prod.mk.injEq] at haccess
    obtain ⟨rfl, hworld⟩ := haccess
    have hpeek : u.peek h = none := by
      rw [← World.peek_modify_withGuard u h .held, ← hheld.peek]
      exact (World.peek_of_cell? hc).trans hv
    have hdv : d.value? = none := (World.peek_of_cell? hd).symm.trans hpeek
    refine ⟨rs, u, hm.proceed_alike hm' ht hthreads (hworld ▸ .refl _) rfl
      (.busy (.producing rfl) ?_)⟩
    refine (Thread.enter_alone hd hdf hdv hdg).congr (.refl u) ?_
    rw [← hworld]
    exact ((((World.Alike.refl u).note_left rfl).modify h _).trans hheld.symm)

theorem step {i : Nat} (hm : m.Linear crew h w rs u) (hstep : m.step crew i = some m') :
    ∃ rs u, m'.Linear crew h w rs u := by
  have hm' := hm.guarded.step hstep
  obtain ⟨t, t', ht, hstep, hthreads⟩ := step_cases hstep
  have hstep := hstep.step
  cases hm.staged t (List.mem_of_getElem? ht) with
  | asking =>
    obtain ⟨rfl, hworld⟩ := Prod.mk.inj (Option.some.inj hstep)
    refine ⟨rs, u, hm.proceed_alike hm' ht hthreads ?_ rfl .looking⟩
    rw [← hworld]
    exact (World.Alike.refl _).note_right rfl
  | looking =>
    obtain ⟨c, hc, hf, haccess⟩ := Thread.access_of_step hstep
    cases hv : c.value? with
    | some v =>
      simp only [Thread.access, hv, Option.some.injEq, Prod.mk.injEq] at haccess
      obtain ⟨rfl, hworld⟩ := haccess
      refine ⟨_, _, hm.settle_alike hm' ht hthreads (hm.found hc hv) ?_
        (((World.Alike.refl u).note_right rfl).note_right rfl) rfl rfl .ended⟩
      rw [← hworld]
      exact (World.Alike.refl _).note_right rfl
    | none =>
      simp only [Thread.access, hv, Option.some.injEq, Prod.mk.injEq] at haccess
      obtain ⟨rfl, hworld⟩ := haccess
      exact ⟨rs, u, hm.proceed_alike hm' ht hthreads (hworld ▸ .refl _) rfl .waiting⟩
  | waiting => exact hm.step_waiting hm' ht hthreads hstep
  | entered hheld hfree => exact hm.step_entered hm' ht hthreads hstep hheld hfree
  | busy hbusy hcontinues => exact hm.step_busy hm' ht hthreads hstep hbusy hcontinues
  | leaving hleft =>
    obtain ⟨c, hc, hf, haccess⟩ := Thread.access_of_step hstep
    obtain ⟨rfl, hworld⟩ := Prod.mk.inj (Option.some.inj haccess)
    have halike : m'.world.Alike u := hworld ▸ hleft
    refine ⟨rs, u, hm.proceed hm' ht hthreads (.inr (.inl List.mem_cons_self)) rfl .ended
      (fun _ => halike) (fun v hv => ?_)⟩
    rw [← halike.peek, hv]
  | ended => cases hstep

theorem start {w : World π σ} {c : Cell π k} (hc : w.heap.cell? h = some c)
    (hrest : c.Resting) (n : Nat) :
    (Machine.start w (List.replicate n h.get)).Linear crew h w [] w where
  guarded := .of_resting hc hrest _
  serial := .start
  shared := ⟨c, hc, hrest.flavour⟩
  staged := by
    intro t ht
    obtain ⟨x, hx, rfl⟩ := List.mem_map.mp ht
    rw [List.eq_of_mem_replicate hx]
    exact .asking
  replies := by
    rw [List.filterMap_eq_nil_iff.mpr]
    intro t ht
    obtain ⟨x, hx, rfl⟩ := List.mem_map.mp ht
    rw [List.eq_of_mem_replicate hx]
    rfl
  settled := fun _ => .refl w
  known := fun _ hv => hv

theorem reaches (hm : m.Linear crew h w rs u) (hr : m.Reaches crew m') :
    ∃ rs u, m'.Linear crew h w rs u := by
  induction hr with
  | refl => exact ⟨rs, u, hm⟩
  | step i _ hstep ih =>
    obtain ⟨rs, u, hm⟩ := ih
    exact hm.step hstep

theorem finished (hm : m.Linear crew h w rs u) {results : List (Reply k)}
    (hresults : m.results? = some results) : results.Perm rs ∧ m.world.Alike u := by
  have hthreads := threads_eq_of_results? hresults
  have hreplies := hm.replies
  have hheld := hm.guarded.held
  refine ⟨?_, hm.settled fun hg => ?_⟩
  · rw [hthreads, List.filterMap_map] at hreplies
    exact (List.filterMap_some : results.filterMap some = _).symm ▸ hreplies
  · have hnobody : m.total (·.holding.count h.id) = 0 := by
      refine sumOf_eq_zero fun t ht => ?_
      rw [hthreads] at ht
      obtain ⟨r, -, rfl⟩ := List.mem_map.mp ht
      rfl
    rw [hnobody, hg] at hheld
    cases hheld

end Linear

end Machine

/-- Any complete interleaving of threads that force a shared field once is as good as forcing it
as often in one thread: the replies are the same but for their order, and so is everything that
the producers did. -/
theorem Machine.gets_linearize (crew : Crew π σ) {h : Handle k} {c : Cell π k}
    (hc : w.heap.cell? h = some c) (hrest : c.Resting) {n : Nat} {schedule : List Nat}
    {m : Machine π σ (Except EvalError k.Val)} {results : List (Reply k)}
    (hrun : (Machine.start w (List.replicate n h.get)).run crew schedule = some m)
    (hresults : m.results? = some results) :
    ∃ rs, results.Perm rs ∧ ∃ depth, ∀ d, depth ≤ d →
      ∃ v, crew.host.run d (h.gets n) w = (.value rs, v) ∧
        v.heap = m.world.heap ∧ v.tallies = m.world.tallies ∧ v.host = m.world.host ∧
        (∀ c, v.productions c = m.world.productions c) ∧ v.events = m.world.events := by
  have hreaches := reaches_of_run hrun
  obtain ⟨rs, u, hm⟩ := (Linear.start hc hrest n).reaches hreaches
  obtain ⟨hperm, hworld⟩ := hm.finished hresults
  obtain ⟨depth, hgets⟩ := hm.serial.gets
  have hlength : rs.length = n := by
    have hthreads := length_threads hreaches
    rw [threads_eq_of_results? hresults, List.length_map, hperm.length_eq] at hthreads
    simpa [Machine.start] using hthreads
  refine ⟨rs, hperm, depth, fun d hd => ?_⟩
  obtain ⟨v, hv, halike⟩ := hgets d hd
  have hall := (hworld.trans halike).symm
  exact ⟨v, hlength ▸ hv, hall.heap, hall.tallies, hall.host, hall.productions, hall.events⟩

def Crew.fickle : Crew (fun _ => Unit) Bool where
  produce := fun _ _ => do
    let tried ← Proc.host fun tried => (tried, true)
    if tried then .panic "again" else return .error (.failed "once")
  hear := fun _ tried => tried

def World.withFickle : World (fun _ => Unit) Bool :=
  ((World.start false).alloc (.fresh .shared (.plain (.custom (k := .int) ())))).2

/-- All three threads have looked at the field before the first takes the guard. -/
theorem Machine.gets_linearize_fickle :
    World.withFickle.heap.cell? (⟨0⟩ : Handle .int) =
        some (.fresh .shared (.plain (.custom ()))) ∧
      ∃ m results, (Machine.start World.withFickle
          (List.replicate 3 (⟨0⟩ : Handle .int).get)).run Crew.fickle
            [0, 0, 1, 1, 2, 2, 0, 0, 0, 0, 0, 0, 0, 0, 1, 1, 1, 1, 1, 1, 1, 2] = some m ∧
        m.results? = some results ∧
        results.map Reply.finish = [.error (.failed "once"), .panic "again", .error .poisoned] ∧
        ∃ rs, results.Perm rs ∧ ∃ depth, ∀ d, depth ≤ d → ∃ v,
          Crew.fickle.host.run d ((⟨0⟩ : Handle .int).gets 3) World.withFickle = (.value rs, v) ∧
            v.heap = m.world.heap ∧ v.tallies = m.world.tallies ∧ v.host = m.world.host ∧
            (∀ c, v.productions c = m.world.productions c) ∧ v.events = m.world.events := by
  have hrun : (((Machine.start World.withFickle (List.replicate 3 (⟨0⟩ : Handle .int).get)).run
      Crew.fickle [0, 0, 1, 1, 2, 2, 0, 0, 0, 0, 0, 0, 0, 0, 1, 1, 1, 1, 1, 1, 1, 2]).bind
        results?).map (List.map Reply.finish) =
      some [.error (.failed "once"), .panic "again", .error .poisoned] := by
    decide +kernel
  obtain ⟨results, hrun, hfinish⟩ := Option.map_eq_some_iff.mp hrun
  obtain ⟨m, hm, hresults⟩ := Option.bind_eq_some_iff.mp hrun
  exact ⟨rfl, m, results, hm, hresults, hfinish,
    gets_linearize Crew.fickle rfl (.empty _) hm hresults⟩

end LazyFields
