import LazyFields.Proofs.Flavours
import LazyFields.Proofs.Following

/-!
One computation mirrors another: from a world and from its reading in single cells they come to
the same end, and again to a world and its reading. A shared cell mirrors a single one as long as
its guard is free whenever it is asked; for that no panic may leave an access, and nobody may ask
a cell that is being produced.
-/

namespace LazyFields

variable {π : Kind → Type} {σ α β ε : Type} {k : Kind}

structure Placid (marks : List Mark) : Prop where
  unpanicked : ∀ c message, .answered c (.panic message) ∉ marks
  unentered : ∀ before c after, marks = before ++ .asked c :: after → ⟨c, true⟩ ∉ underway before

namespace Placid

variable {marks marks' : List Mark} {w w' : World π σ}

theorem of_marks (hp : Placid marks') (h : marks <+: marks') : Placid marks := by
  obtain ⟨rest, rfl⟩ := h
  refine ⟨fun c message hmem => hp.unpanicked c message (List.mem_append_left _ hmem), ?_⟩
  rintro before c after rfl
  exact hp.unentered before c (after ++ rest) (by simp)

theorem before (hp : Placid w'.marks) (h : w.history <+: w'.history) : Placid w.marks :=
  hp.of_marks (h.map Moment.mark)

theorem not_underway (hp : Placid w'.marks) {c : CellId}
    (h : (w.note (.asked c)).history <+: w'.history) : ⟨c, true⟩ ∉ w.underway := by
  have hmarks : (w.note (.asked c)).marks <+: w'.marks := h.map Moment.mark
  rw [World.marks_note] at hmarks
  obtain ⟨after, hafter⟩ := hmarks
  exact hp.unentered w.marks c after (by simpa using hafter.symm)

end Placid

def World.Guarded (w : World π σ) : Prop :=
  ∀ ⦃k : Kind⦄ (h : Handle k) (c : Cell π k), w.heap.cell? h = some c → c.flavour = .shared →
    c.guard ≠ .poisoned ∧ (c.guard = .held → ⟨h.id, true⟩ ∈ w.underway)

namespace World.Guarded

variable {w w' : World π σ}

theorem congr (hw : w.Guarded) (hheap : w'.heap = w.heap)
    (hunderway : ∀ c, ⟨c, true⟩ ∈ w.underway → ⟨c, true⟩ ∈ w'.underway) : w'.Guarded := by
  intro k h c hc hf
  rw [hheap] at hc
  exact (hw h c hc hf).imp_right fun hheld => hunderway h.id ∘ hheld

theorem note (hw : w.Guarded) {m : Mark} (hm : ∀ accesses, m.track accesses = accesses) :
    (w.note m).Guarded :=
  hw.congr rfl fun _ hmem => by rwa [underway_note, hm]

theorem start (s : σ) : (World.start s : World π σ).Guarded := by
  intro k h c hc
  simp at hc

theorem alloc (hw : w.Guarded) {c : Cell π k} (hc : c.guard = .free) : (w.alloc c).2.Guarded := by
  intro l h d hd hf
  rcases Heap.cell?_alloc_cases _ c hd with hd | ⟨-, -, hnew⟩
  · exact hw h d hd hf
  · cases hnew
    rw [hc]
    simp

theorem quiet (hw : w.Guarded) (q : Quiet π σ α) : (q.apply w).2.Guarded := by
  cases q with
  | defer f p => exact hw.alloc (c := .fresh f (.plain p)) rfl
  | ready f x => exact hw.alloc (c := .ready f x) rfl
  | scenario p =>
    have hcounted : w.newCounter.2.Guarded := hw.congr rfl fun _ hmem => hmem
    exact hcounted.alloc (c := .fresh .single (.counted w.newCounter.1 p)) rfl
  | peek | evaluations => exact hw
  | host g => exact hw.congr rfl fun _ hmem => hmem

end World.Guarded

/-- The second run came to the same end as the first, and what it left reads like what the first
left. Unless it was halted, guards are as they should be, inside these accesses. -/
structure Reflects (accesses : List Underway) (o o' : Ending α × World π σ) : Prop where
  ending : o'.1 = o.1
  world : o'.2.asSingle = o.2
  guarded : (∀ reason, o.1 ≠ .halted reason) → o'.2.Guarded ∧ o'.2.underway = accesses

namespace Ending

def attempted : Ending α → Ending (Except String α)
  | .value a => .value (.ok a)
  | .panicked message => .value (.error message)
  | .halted reason => .halted reason

def caught? : Ending α → Option Mark
  | .panicked message => some (.caught message)
  | _ => none

def finish? : Ending (Except ε α) → Option (Finish ε α)
  | .value r => some (.of r)
  | .panicked message => some (.panic message)
  | .halted _ => none

end Ending

structure Exec.Mirrors (x y : Exec π σ α) : Prop where
  prolongs : ∀ w, w.history <+: (x w).2.history
  keeps : ∀ v : World π σ, v.heap.Keeps (y v).2.heap
  reflects : ∀ v, v.Guarded → Placid (x v.asSingle).2.marks →
    Reflects v.underway (x v.asSingle) (y v)

namespace Exec.Mirrors

variable {x y : Exec π σ α} {f g : α → Exec π σ β}

theorem pure (a : α) : (Pure.pure a : Exec π σ α).Mirrors (Pure.pure a) :=
  ⟨fun _ => List.prefix_refl _, fun _ => .refl _, fun _ hg _ => ⟨rfl, rfl, fun _ => ⟨hg, rfl⟩⟩⟩

theorem halt (reason : Halt) : (Exec.halt reason : Exec π σ α).Mirrors (Exec.halt reason) :=
  ⟨fun _ => List.prefix_refl _, fun _ => .refl _, fun _ hg _ => ⟨rfl, rfl, fun _ => ⟨hg, rfl⟩⟩⟩

theorem obtains (h : x.Mirrors y) {v : World π σ} (hg : v.Guarded) {r : Ending α} {u : World π σ}
    (hx : x v.asSingle = (r, u)) (hp : Placid u.marks) :
    ∃ v', y v = (r, v') ∧ u = v'.asSingle ∧
      ((∀ reason, r ≠ .halted reason) → v'.Guarded ∧ v'.underway = v.underway) := by
  have hr := h.reflects v hg (by rw [hx]; exact hp)
  rw [hx] at hr
  exact ⟨(y v).2, Prod.ext hr.ending rfl, hr.world.symm, hr.guarded⟩

theorem bind (hx : x.Mirrors y) (hf : ∀ a, (f a).Mirrors (g a)) : (x >>= f).Mirrors (y >>= g) where
  prolongs w := by
    have hgrows := hx.prolongs w
    rw [Exec.bind_def]
    rcases hr : x w with ⟨a | message | reason, w'⟩ <;> rw [hr] at hgrows
    · exact hgrows.trans ((hf a).prolongs w')
    · exact hgrows
    · exact hgrows
  keeps v := by
    have hkeeps := hx.keeps v
    rw [Exec.bind_def]
    rcases hr : y v with ⟨a | message | reason, v'⟩ <;> rw [hr] at hkeeps
    · exact hkeeps.trans ((hf a).keeps v')
    · exact hkeeps
    · exact hkeeps
  reflects v hg hp := by
    rw [Exec.bind_def] at hp ⊢
    rw [Exec.bind_def]
    rcases hr : x v.asSingle with ⟨a | message | reason, u⟩ <;> rw [hr] at hp <;> simp only at hp ⊢
    · obtain ⟨v', hy, rfl, hv'⟩ := hx.obtains hg hr (hp.before ((hf a).prolongs u))
      obtain ⟨hg', hunderway⟩ := hv' (by simp)
      rw [hy, ← hunderway]
      exact (hf a).reflects v' hg' hp
    · obtain ⟨v', hy, rfl, hv'⟩ := hx.obtains hg hr hp
      rw [hy]
      exact ⟨rfl, rfl, fun _ => hv' (by simp)⟩
    · obtain ⟨v', hy, rfl, hv'⟩ := hx.obtains hg hr hp
      rw [hy]
      exact ⟨rfl, rfl, fun hne => absurd rfl (hne reason)⟩

theorem marked {x' y' : Exec π σ β} (hx : x.Mirrors y) (t : Ending α → Ending β)
    (mark : Ending α → Option Mark)
    (hx' : ∀ w, x' w = (t (x w).1, (mark (x w).1).elim (x w).2 (x w).2.note))
    (hy' : ∀ w, y' w = (t (y w).1, (mark (y w).1).elim (y w).2 (y w).2.note))
    (ht : ∀ reason, t (.halted reason) = .halted reason)
    (hmark : ∀ r, ∀ m ∈ mark r, m.asSingle = m ∧ ∀ accesses, m.track accesses = accesses) :
    x'.Mirrors y' := by
  have hgrows (r : Ending α) (w : World π σ) :
      w.history <+: ((mark r).elim w w.note).history := by
    cases mark r with
    | none => exact List.prefix_refl _
    | some m => exact w.history_prefix_note m
  refine ⟨fun w => ?_, fun v => ?_, fun v hg hp => ?_⟩
  · rw [hx']
    exact (hx.prolongs w).trans (hgrows _ _)
  · rw [hy']
    have hkeeps := hx.keeps v
    cases mark (y v).1 with
    | none => exact hkeeps
    | some m => exact hkeeps
  · rw [hx'] at hp ⊢
    rw [hy']
    rcases hr : x v.asSingle with ⟨r, u⟩
    rw [hr] at hp
    obtain ⟨v', hy, rfl, hv'⟩ := hx.obtains hg hr (hp.before (hgrows _ _))
    have hv (hne : ∀ reason, t r ≠ .halted reason) :=
      hv' fun reason hhalted => hne reason (by rw [hhalted, ht])
    have hm := hmark r
    rw [hy]
    cases hmr : mark r with
    | none =>
      exact ⟨rfl, rfl, hv⟩
    | some m =>
      obtain ⟨hsame, htrack⟩ := hm m hmr
      refine ⟨rfl, (v'.asSingle_note m).trans (by rw [hsame]; rfl), fun hne => ?_⟩
      obtain ⟨hg', hunderway⟩ := hv hne
      exact ⟨hg'.note htrack, ((v'.underway_note m).trans (htrack _)).trans hunderway⟩

theorem attempt (hx : x.Mirrors y) : x.attempt.Mirrors y.attempt := by
  refine hx.marked .attempted Ending.caught? (fun w => ?_) (fun w => ?_) (fun _ => rfl)
    fun r m hm => ?_
  · unfold Exec.attempt
    rcases x w with ⟨_ | _ | _, _⟩ <;> rfl
  · unfold Exec.attempt
    rcases y w with ⟨_ | _ | _, _⟩ <;> rfl
  · cases r <;> cases hm
    exact ⟨rfl, fun _ => rfl⟩

theorem recorded {x y : Exec π σ (Except ε α)} (hx : x.Mirrors y) {mark : Finish ε α → Mark}
    (hmark : ∀ finish, (mark finish).asSingle = mark finish ∧
      ∀ accesses, (mark finish).track accesses = accesses) :
    (x.recorded mark).Mirrors (y.recorded mark) := by
  refine hx.marked id (fun r => r.finish?.map mark) (fun w => ?_) (fun w => ?_) (fun _ => rfl)
    fun r m hm => ?_
  · unfold Exec.recorded Exec.closing
    rcases x w with ⟨_ | _ | _, _⟩ <;> rfl
  · unfold Exec.recorded Exec.closing
    rcases y w with ⟨_ | _ | _, _⟩ <;> rfl
  · obtain ⟨finish, -, rfl⟩ := Option.map_eq_some_iff.mp hm
    exact hmark finish

theorem change {f g : World π σ → α × World π σ} (hgrows : ∀ w, w.history <+: (f w).2.history)
    (hkeeps : ∀ v : World π σ, v.heap.Keeps (g v).2.heap)
    (hfg : ∀ v : World π σ, f v.asSingle = ((g v).1, (g v).2.asSingle))
    (hg : ∀ v : World π σ, v.Guarded → (g v).2.Guarded)
    (hunderway : ∀ v, (g v).2.underway = v.underway) :
    (Exec.change f).Mirrors (Exec.change g) where
  prolongs := hgrows
  keeps := hkeeps
  reflects v hv _ := by
    simp only [Exec.change, hfg]
    exact ⟨rfl, rfl, fun _ => ⟨hg v hv, hunderway v⟩⟩

theorem view {f : World π σ → α} (hf : ∀ v : World π σ, f v.asSingle = f v) :
    (Exec.view f).Mirrors (Exec.view f) :=
  .change (f := fun w => (f w, w)) (g := fun w => (f w, w)) (fun _ => List.prefix_refl _)
    (fun _ => .refl _) (fun v => by rw [hf]) (fun _ hg => hg) fun _ => rfl

theorem note {m m' : Mark} (hm : m'.asSingle = m) (ht : ∀ accesses, m'.track accesses = accesses) :
    (Exec.note m : Exec π σ Unit).Mirrors (Exec.note m') :=
  .change (f := fun w => ((), w.note m)) (g := fun w => ((), w.note m'))
    (fun w => w.history_prefix_note m) (fun _ => .refl _)
    (fun v => by rw [v.asSingle_note, hm]) (fun _ hg => hg.note ht)
    fun v => (v.underway_note m').trans (ht _)

theorem panic (message : String) :
    (Exec.panic message : Exec π σ α).Mirrors (Exec.panic message) where
  prolongs w := w.history_prefix_note _
  keeps _ := .refl _
  reflects v hg _ := ⟨rfl, rfl, fun _ => ⟨hg.note fun _ => rfl, v.underway_note _⟩⟩

end Exec.Mirrors

namespace World

variable {v : World π σ} {h : Handle k} {c : Cell π k} {f : Flavour} {s : Source π k}
  {accesses : List Underway}

theorem Guarded.announced (hg : v.Guarded) (hc : v.heap.cell? h = some c) (ha : c.Awaits f s) :
    ((v.enter h f).announce h f).Guarded := by
  have hunderway := v.underway_announce_enter h f
  intro l h' d hd hf
  rw [hunderway]
  by_cases e : h'.id = h.id
  · obtain ⟨rfl, rfl⟩ := Handle.eq_of_id e
    refine ⟨fun hpoisoned => ?_, fun _ => List.mem_cons_self⟩
    cases ha with
    | single =>
      obtain rfl := Option.some.inj (hc.symm.trans hd)
      cases hf
    | shared =>
      obtain ⟨c, hc', rfl⟩ := Option.map_eq_some_iff.mp ((Heap.cell?_modify _ h' _).symm.trans hd)
      obtain rfl := Option.some.inj (hc.symm.trans hc')
      cases hpoisoned
  · have hcell := v.cell?_enter_of_ne e f
    exact (hg h' d (hcell.symm.trans hd) hf).imp_right fun hheld hdheld =>
      List.mem_cons_of_mem _ (hheld hdheld)

theorem Guarded.call (hg : v.Guarded) (h : Handle k) (s : Source π k) : (v.call h s).Guarded :=
  hg.congr (v.heap_call h s) fun _ hmem => by rwa [underway_call]

theorem underway_store (v : World π σ) (h : Handle k) (x : k.Val) :
    (v.store h x).2.underway = v.underway :=
  underway_congr (v.marks_store h x)

theorem Guarded.store (hg : v.Guarded) (h : Handle k) (x : k.Val) : (v.store h x).2.Guarded := by
  intro l h' d hd hf
  rw [underway_store]
  by_cases e : h'.id = h.id
  · obtain ⟨rfl, rfl⟩ := Handle.eq_of_id e
    obtain ⟨c, hc, rfl⟩ := Option.map_eq_some_iff.mp ((cell?_store v h' x).symm.trans hd)
    rw [Cell.guard_fill]
    exact hg h' c hc (by rwa [Cell.flavour_fill] at hf)
  · exact hg h' d ((v.cell?_store_of_ne x e).symm.trans hd) hf

theorem Guarded.exit (hg : v.Guarded) (hunderway : v.underway = ⟨h.id, true⟩ :: accesses)
    (hc : v.heap.cell? h = some c) (hf : c.flavour = f) (r : Except EvalError k.Val) :
    (v.exit h f (.value r)).Guarded ∧ (v.exit h f (.value r)).underway = accesses := by
  have hexit : (v.exit h f (.value r)).underway = accesses := by
    rw [underway_exit _ h f (by simp), hunderway, List.tail_cons]
  refine ⟨fun l h' d hd hshared => ?_, hexit⟩
  rw [hexit]
  by_cases e : h'.id = h.id
  · obtain ⟨rfl, rfl⟩ := Handle.eq_of_id e
    cases f with
    | single =>
      obtain rfl := Option.some.inj (hc.symm.trans hd)
      cases hf.symm.trans hshared
    | shared =>
      rw [exit, heap_answer] at hd
      obtain ⟨c, -, rfl⟩ := Option.map_eq_some_iff.mp ((Heap.cell?_modify _ h' _).symm.trans hd)
      cases c <;> simp [Cell.guard, Cell.withGuard]
  · rw [v.cell?_exit_of_ne e] at hd
    refine (hg h' d hd hshared).imp_right fun hheld hdheld => ?_
    have hmem := hheld hdheld
    rw [hunderway] at hmem
    exact (List.mem_cons.mp hmem).resolve_left fun heq => e (congrArg Underway.cell heq)

theorem answered_mem_exit (w : World π σ) (h : Handle k) (f : Flavour) (message : String) :
    .answered h.id (.panic message) ∈ (w.exit h f (.panicked message)).marks := by
  cases f <;> simp [exit, answer]

end World

def Exec.inside (x : Exec π σ (Except EvalError k.Val)) (h : Handle k) (f : Flavour) :
    Exec π σ (Except EvalError k.Val) :=
  fun w => ((x w).1, (x w).2.exit h f (x w).1)

theorem Exec.Mirrors.inside {x y : Exec π σ (Except EvalError k.Val)} (hxy : x.Mirrors y)
    {v : World π σ} {h : Handle k} {c : Cell π k} {f : Flavour} {accesses : List Underway}
    (hg : v.Guarded) (hunderway : v.underway = ⟨h.id, true⟩ :: accesses)
    (hc : v.heap.cell? h = some c) (hf : c.flavour = f)
    (hp : Placid (x.inside h .single v.asSingle).2.marks) :
    Reflects accesses (x.inside h .single v.asSingle) (y.inside h f v) := by
  obtain ⟨d, hd, hcd⟩ := hxy.keeps v h c hc
  unfold Exec.inside at hp ⊢
  rcases hx : x v.asSingle with ⟨r, u⟩
  rw [hx] at hp
  obtain ⟨v', hy, rfl, hv'⟩ := hxy.obtains hg hx (hp.before (World.history_prefix_exit _ _ _ _))
  rw [hy] at hd ⊢
  refine ⟨rfl, v'.asSingle_exit h f r, fun hr => ?_⟩
  obtain ⟨hg', hunderway'⟩ := hv' hr
  rcases r with r | message | reason
  · exact hg'.exit (hunderway'.trans hunderway) hd (hcd.flavour.trans hf) r
  · -- A panic that leaves the access would be on record.
    exact absurd (World.answered_mem_exit _ h .single message) (hp.unpanicked _ _)
  · exact absurd rfl (hr reason)

namespace Environment

structure Mirrors (env env' : Environment π σ) : Prop where
  follows : env.Follows
  follows' : env'.Follows
  call : ∀ k code, (env.call k code).Mirrors (env'.call k code)
  notify : ∀ e : Event, (env.notify (e.flavoured .single)).Mirrors (env'.notify e)

namespace Mirrors

variable {env env' : Environment π σ} (hm : env.Mirrors env')

include hm

theorem emit {e e' : Event} (he : e'.flavoured .single = e)
    (ht : ∀ accesses, (Mark.emitted e').track accesses = accesses) :
    (env.emit e).Mirrors (env'.emit e') := by
  have hnotify := hm.notify e'
  rw [he] at hnotify
  exact .bind (.note (congrArg Mark.emitted he) ht) fun _ => hnotify

theorem produce (p : Producer π k) : (env.produce p).Mirrors (env'.produce p) := by
  cases p with
  | constant v => exact .pure _
  | division a b => exact .pure _
  | custom code => exact hm.call k code

theorem production (h : Handle k) (s : Source π k) :
    (env.production h s).Mirrors (env'.production h s) := by
  have hcall : (Exec.update (·.call h s) : Exec π σ Unit).Mirrors (.update (·.call h s)) :=
    .change (f := fun w => ((), w.call h s)) (g := fun w => ((), w.call h s))
      (fun w => w.history_prefix_call h s) (fun v => by rw [v.heap_call]; exact .refl _)
      (fun v => by rw [v.asSingle_call]) (fun _ hg => hg.call h s) fun v => v.underway_call h s
  exact .bind hcall fun _ => .recorded (hm.produce s.producer) fun _ => ⟨rfl, fun _ => rfl⟩

theorem settle (h : Handle k) (f : Flavour) (s : Source π k) :
    (env.settle h .single s).Mirrors (env'.settle h f s) := by
  refine .bind (hm.production h s) fun r => ?_
  cases r with
  | error e => exact .bind (hm.emit rfl fun _ => rfl) fun _ => .pure _
  | ok x =>
    have hstore : (Exec.change (·.store h x) : Exec π σ k.Val).Mirrors (.change (·.store h x)) :=
      .change (fun w => by simp [World.history_congr (w.journal_store h x)])
        (fun v => v.store_keeps h x) (fun v => v.asSingle_store h x) (fun _ hg => hg.store h x)
        fun v => v.underway_store h x
    exact .bind hstore fun _ => .pure _

variable {v : World π σ} {h : Handle k} {c : Cell π k} {f : Flavour} {s : Source π k}

theorem awaiting (hg : v.Guarded) (hc : v.heap.cell? h = some c) (ha : c.Awaits f s)
    (hp : Placid (env.force h v.asSingle).2.marks) :
    Reflects v.underway (env.force h v.asSingle) (env'.force h v) := by
  have hc' : v.asSingle.heap.cell? h = some c.asSingle := by
    rw [World.cell?_asSingle, hc, Option.map_some]
  have hproduces : (env.notify (.forcing .single h.id) >>= fun _ => env.settle h .single s).Mirrors
      (env'.notify (.forcing f h.id) >>= fun _ => env'.settle h f s) :=
    .bind (hm.notify (.forcing f h.id)) fun _ => hm.settle h f s
  -- Only the announcement puts the held guard in order, so the mirroring begins after it.
  obtain ⟨g, hentered⟩ := v.cell?_enter hc ha
  rw [force_awaiting env hc' ha.asSingle, evaluate_bind, ← World.asSingle_enter v h f,
    ← World.asSingle_announce] at hp ⊢
  rw [force_awaiting env' hc ha, evaluate_bind]
  exact hproduces.inside (hg.announced hc ha) (v.underway_announce_enter h f) hentered rfl hp

/-- A guard that is not free would have to be that of a cell in production. -/
theorem finds (hg : v.Guarded) (hc : v.heap.cell? h = some c)
    (hp : Placid (env.force h v.asSingle).2.marks) :
    (∃ x, c.value? = some x) ∨ ∃ f s, c.Awaits f s := by
  rcases c with ⟨f, x⟩ | ⟨_ | _, s, _ | x, g⟩
  · exact .inl ⟨x, rfl⟩
  · exact .inr ⟨_, _, .single⟩
  · exact .inl ⟨x, rfl⟩
  · have hc' : v.asSingle.heap.cell? h = some (.deferred .single s none .free) := by
      rw [World.cell?_asSingle, hc]
      rfl
    -- The access stays on record, so its cell is in no production when it begins.
    have hnot := hp.not_underway (hm.follows.asked_stays hc' .single)
    rw [World.underway_asSingle] at hnot
    obtain ⟨hpoisoned, hheld⟩ := hg h _ hc rfl
    cases g with
    | free => exact .inr ⟨_, _, .shared⟩
    | held => exact absurd (hheld rfl) hnot
    | poisoned => exact absurd rfl hpoisoned
  · exact .inl ⟨x, rfl⟩

theorem force (h : Handle k) : (env.force h).Mirrors (env'.force h) where
  prolongs w := (hm.follows.force h w).history_grows
  keeps v := (hm.follows'.force h v).keeps
  reflects v hg hp := by
    have hcell := v.cell?_asSingle h
    cases hc : v.heap.cell? h with
    | none =>
      rw [hc] at hcell
      rw [force_dangling env h hcell, force_dangling env' h hc]
      exact ⟨rfl, rfl, fun hr => absurd rfl (hr _)⟩
    | some c =>
      rw [hc, Option.map_some] at hcell
      rcases hm.finds hg hc hp with ⟨x, hx⟩ | ⟨f, s, ha⟩
      · have hpeek : v.peek h = some x := (World.peek_of_cell? hc).trans hx
        rw [force_known env ((v.peek_asSingle h).trans hpeek), force_known env' hpeek]
        refine ⟨rfl, rfl, fun _ => ⟨?_, ?_⟩⟩
        · exact hg.congr rfl fun _ hmem => by simpa [World.answer, Mark.track] using hmem
        · simp [World.answer, Mark.track]
      · exact hm.awaiting hg hc ha hp

end Mirrors

end Environment

end LazyFields
