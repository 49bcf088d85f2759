import LazyFields.Proofs.Mirroring
import LazyFields.Proofs.Poisoning

/-!
The two flavours agree. A program whose handles are all shared mirrors the same program with
single ones, whatever its producers and listeners force in turn, so both runs come to the same
end and leave the same record.
-/

namespace LazyFields

variable {π : Kind → Type} {σ α : Type} {k : Kind}

theorem Event.flavoured_of_run? {e : Event} {r : RunId} (h : (Mark.emitted e).run? = some r)
    (f : Flavour) : e.flavoured f = e := by
  cases e <;> first | rfl | cases h

theorem Watch.begin_asSingle (s : Scenario) (v : World π σ) :
    Watch.begin s v.asSingle = ((Watch.begin s v).1, (Watch.begin s v).2.asSingle) := by
  simp only [Watch.begin, World.isEvaluated, World.peek_asSingle]
  rfl

theorem Watch.disturbed_asSingle (t : Watch) (v : World π σ) :
    t.disturbed v.asSingle = t.disturbed v := by
  simp only [disturbed, newlyEvaluated, World.isEvaluated, World.peek_asSingle]
  rfl

namespace Environment.Mirrors

variable {env env' : Environment π σ} (hm : env.Mirrors env')

include hm

/-! Verifications. -/

theorem emit_own {e : Event} {r : RunId} (he : (Mark.emitted e).run? = some r) :
    (env.emit e).Mirrors (env'.emit e) :=
  hm.emit (Event.flavoured_of_run? he .single) (Mark.track_of_run? he)

theorem check (t : Watch) (reported : List String) (c : Check) :
    (env.check t reported c).Mirrors (env'.check t reported c) := by
  cases c with
  | field name expected actual =>
    simp only [Environment.check]
    split
    · exact .bind (hm.emit_own rfl) fun _ => .pure _
    · exact .pure _
  | untouched name =>
    refine .bind (.view t.disturbed_asSingle) fun disturbed => ?_
    split
    · exact .bind (.view fun _ => rfl) fun _ => .pure _
    · exact .bind (hm.emit_own rfl) fun _ => .pure _

theorem checkAll (t : Watch) (reported : List String) (checks : List Check) :
    (env.checkAll t reported checks).Mirrors (env'.checkAll t reported checks) := by
  induction checks generalizing reported with
  | nil => exact .pure _
  | cons c rest ih =>
    refine .bind (hm.check t reported c) fun r => ?_
    cases r with
    | ok reported => exact ih reported
    | error e => exact .pure _

theorem access (t : Watch) (reported : List String) (b : B) :
    (env.access t reported b).Mirrors (env'.access t reported b) := by
  refine .bind (.note rfl fun _ => rfl) fun _ => .bind (hm.force b.lazyField) fun r => ?_
  cases r with
  | ok v => exact .pure _
  | error e => exact .bind (hm.emit_own rfl) fun _ => .pure _

theorem verify (s : Scenario) : (env.verify s).Mirrors (env'.verify s) := by
  have hbegin : (Exec.change (Watch.begin s) : Exec π σ Watch).Mirrors (.change (Watch.begin s)) :=
    .change (fun _ => List.prefix_refl _) (fun _ => .refl _) (Watch.begin_asSingle s)
      (fun _ hv => hv.congr rfl fun _ hmem => hmem) fun _ => rfl
  refine .bind hbegin fun t => .bind (.note rfl fun _ => rfl) fun _ =>
    .recorded (.bind (hm.checkAll t _ _) fun r => ?_) fun _ => ⟨rfl, fun _ => rfl⟩
  cases r with
  | ok reported => exact hm.access t reported _
  | error e => exact .pure _

theorem exec (f : Flavour) (x : Proc π σ α) :
    ((x.flavoured .single).exec env).Mirrors ((x.flavoured f).exec env') := by
  induction x with
  | pure a => exact .pure a
  | bind x g ihx ihg => exact .bind ihx ihg
  | act a =>
    cases a with
    | quiet q =>
      exact .change (fun w => by simp) (fun v => Quiet.apply_keeps _ v)
        (fun v => v.asSingle_quiet f q) (fun _ hv => hv.quiet _) fun v => v.underway_quiet _
    | get h => exact hm.force h
    | verify s => exact hm.verify s
  | panic message => exact .panic message
  | attempt x ih => exact .attempt ih

end Environment.Mirrors

theorem Host.environment_mirrors (host : Host π σ) (f : Flavour) (depth : Nat) :
    ((host.flavoured .single).environment depth).Mirrors
      ((host.flavoured f).environment depth) := by
  induction depth with
  | zero =>
    exact ⟨(host.flavoured .single).environment_follows 0, (host.flavoured f).environment_follows 0,
      fun _ _ => .halt .tooDeep, fun _ => .halt .tooDeep⟩
  | succ depth ih =>
    refine ⟨(host.flavoured .single).environment_follows (depth + 1),
      (host.flavoured f).environment_follows (depth + 1),
      fun k code => ih.exec f (host.produce k code), fun e => ?_⟩
    have hlisten := ih.exec f (host.listen (e.flavoured .single))
    simpa only [environment, flavoured, Event.flavoured_flavoured] using hlisten

/-! Panics that listeners let out. -/

def World.Produced (w : World π σ) : Prop :=
  ∀ c message, .answered c (.panic message) ∈ w.marks →
    ∃ c' message', .ended c' (.panic message') ∈ w.marks

namespace World.Produced

variable {w w' : World π σ}

theorem congr (hw : w.Produced) (h : w'.marks = w.marks) : w'.Produced := by
  rw [Produced, h]
  exact hw

theorem note (hw : w.Produced) {m : Mark} (hm : ∀ c message, m ≠ .answered c (.panic message)) :
    (w.note m).Produced := by
  intro c message hmem
  simp only [marks_note, List.mem_append, List.mem_singleton, (hm c message).symm, or_false]
    at hmem ⊢
  obtain ⟨c', message', hended⟩ := hw c message hmem
  exact ⟨c', message', .inl hended⟩

theorem enter (hw : w.Produced) (h : Handle k) (f : Flavour) : (w.enter h f).Produced := by
  have hasked : (w.note (.asked h.id)).Produced := hw.note (by simp)
  exact hasked.congr (congrArg (List.map Moment.mark) (w.history_enter h f))

theorem call (hw : w.Produced) (h : Handle k) (s : Source π k) : (w.call h s).Produced :=
  (hw.congr (w.marks_bump s.counter)).note (by simp)

theorem conclude (hw : w.Produced) (h : Handle k) (f : Flavour)
    (r : Except EvalError k.Val) : (w.conclude h f (.value r)).Produced := by
  cases r with
  | error e => exact (hw.note (by simp)).note (by simp)
  | ok v =>
    have hended : (w.note (.ended h.id (.value (.of v)))).Produced := hw.note (by simp)
    exact hended.congr (World.marks_store _ h v)

theorem answer (hw : w.Produced) (h : Handle k) (r : Except EvalError k.Val) :
    (w.answer h (.value r)).Produced := by
  refine hw.note fun c message => ?_
  cases r <;> simp [Finish.of, Finish.map]

theorem exit (hw : w.Produced) (h : Handle k) (f : Flavour) (r : Except EvalError k.Val) :
    (w.exit h f (.value r)).Produced := by
  cases f with
  | single => exact hw.answer h r
  | shared =>
    have hreleased : (w.release h (.value ())).Produced := hw.congr rfl
    exact hreleased.answer h r

/-- The panic of a producer is on record before it leaves the access. -/
theorem exit_panicked (w : World π σ) (h : Handle k) (f : Flavour) (message : String) :
    ((w.conclude h f (.panicked message)).exit h f (.panicked message)).Produced := by
  intro c message' _
  refine ⟨h.id, message, ?_⟩
  cases f <;> simp [World.exit, World.conclude, World.answer, World.release]

theorem lawful : Lawful (π := π) (σ := σ) (fun e => ∀ message, e ≠ .panicked message)
    fun w _ w' => w.Produced → w'.Produced := by
  intro w e w' h hw
  cases h with
  | rest | halted => exact hw
  | andThen h₁ h₂ => exact h₂ (h₁ hw)
  | quiet q => exact hw.congr (w.marks_quiet q)
  | panicked | blocked => exact hw.note (by simp)
  | caught h | overthrown h => exact (h hw).note (by simp)
  | own h hm =>
    refine (h hw).note fun c message e => ?_
    rw [e] at hm
    cases hm
  | known | refused => exact (hw.note (by simp)).answer _ _
  | @unheard _ h _ f _ _ w₁ r _ _ h₁ hheard hne =>
    have hw₁ := h₁ ((hw.enter h f).note (by simp))
    rcases r with r | message | reason
    · exact absurd rfl hne
    · exact absurd rfl (hheard message)
    · cases f <;> exact hw₁
  | @stopped _ h _ f s _ w₁ w₂ r _ _ h₁ h₂ hne =>
    have hw₂ := h₂ ((h₁ ((hw.enter h f).note (by simp))).call h s)
    rcases r with r | message | reason
    · exact absurd rfl hne
    · exact exit_panicked w₂ h f message
    · cases f <;> exact hw₂
  | @stored _ h _ f s _ w₁ w₂ _ _ _ _ h₁ h₂ _ =>
    have hw₂ := h₂ ((h₁ ((hw.enter h f).note (by simp))).call h s)
    exact (hw₂.conclude h f _).exit h f _
  | @failed _ h _ f s x _ w₁ w₂ w₃ r _ _ h₁ h₂ h₃ hheard _ =>
    have hw₂ := h₂ ((h₁ ((hw.enter h f).note (by simp))).call h s)
    have hw₃ := h₃ (hw₂.conclude h f _)
    rcases r with r | message | reason
    · exact hw₃.exit h f r
    · exact absurd rfl (hheard message)
    · cases f <;> exact hw₃
  | verifying s =>
    have hbegun : (Watch.begin s w).2.Produced := hw.congr rfl
    exact hbegun.note (by simp)

end World.Produced

theorem Host.run_produced (host : Host π σ) (hlisten : ∀ message, ¬ host.Hears (.panicked message))
    (depth : Nat) (x : Proc π σ α) (s : σ) : (host.run depth x (.start s)).2.Produced := by
  have hheard : ∀ depth e w message,
      ((host.environment depth).notify e w).1.forget ≠ .panicked message :=
    fun depth e w message hpanicked => hlisten message ⟨depth, e, w, hpanicked⟩
  refine host.run_obeys World.Produced.lawful hheard depth x (.start s) ?_
  exact fun c message hmem => (List.not_mem_nil hmem).elim

/-- The record of the second run reads like that of the first, in which all cells are single. -/
structure FlavoursAgree (o o' : Ending α × World π σ) : Prop where
  ending : o'.1 = o.1
  host : o'.2.host = o.2.host
  marks : o'.2.marks.map Mark.asSingle = o.2.marks
  productions : ∀ c, o'.2.productions c = o.2.productions c
  events : o'.2.events.map (Event.entry renamed) = o.2.events.map (Event.entry id)
  peeked : ∀ {k : Kind} (h : Handle k),
    o'.2.history.map (fun m => m.heap.peek h) = o.2.history.map (fun m => m.heap.peek h)
  peek : ∀ {k : Kind} (h : Handle k), o'.2.peek h = o.2.peek h
  shown : ∀ {k : Kind} (h : Handle k) (layout : Text.Layout), ∃ rest,
    (Flavour.single.shape (o.2.peek h)).print layout = renamed Flavour.shared.name ++ rest ∧
      (Flavour.shared.shape (o'.2.peek h)).print layout = Flavour.shared.name ++ rest

theorem Reflects.agree {accesses : List Underway} {o o' : Ending α × World π σ}
    (h : Reflects accesses o o') : FlavoursAgree o o' := by
  obtain ⟨r, w⟩ := o
  obtain ⟨r', w'⟩ := o'
  obtain ⟨rfl, rfl, -⟩ := h
  exact {
    ending := rfl
    host := rfl
    marks := w'.marks_asSingle.symm
    productions := fun c => (w'.productions_asSingle c).symm
    events := by simp [World.events_asSingle, Event.entry_flavoured]
    peeked := fun h => by simp [World.history_asSingle, Moment.asSingle]
    peek := fun h => (w'.peek_asSingle h).symm
    shown := fun h layout => by
      obtain ⟨rest, hrest⟩ := Flavour.print_shape (w'.peek h) layout
      exact ⟨rest, by rw [World.peek_asSingle]; exact hrest .single, hrest .shared⟩ }

def Host.runFlavoured (host : Host π σ) (f : Flavour) (depth : Nat) (x : Proc π σ α) (s : σ) :
    Ending α × World π σ :=
  (host.flavoured f).run depth (x.flavoured f) (.start s)

theorem Placid.of_produced {w : World π σ} (hw : w.Produced)
    (hproduce : ∀ c message, .ended c (.panic message) ∉ w.marks)
    (hask : ∀ before c after, w.marks = before ++ .asked c :: after →
      ⟨c, true⟩ ∉ underway before) : Placid w.marks := by
  refine ⟨fun c message hmem => ?_, hask⟩
  obtain ⟨c', message', hended⟩ := hw c message hmem
  exact hproduce c' message' hended

theorem Host.flavours_agree_of_placid (host : Host π σ) (depth : Nat) (x : Proc π σ α) (s : σ)
    (hplacid : Placid (host.runFlavoured .single depth x s).2.marks) :
    FlavoursAgree (host.runFlavoured .single depth x s) (host.runFlavoured .shared depth x s) := by
  have hmirrors := (host.environment_mirrors .shared depth).exec .shared x
  exact (hmirrors.reflects (.start s) (.start s) hplacid).agree

theorem Host.flavours_agree_of_heard (host : Host π σ)
    (hlisten : ∀ message, ¬ (host.flavoured .single).Hears (.panicked message)) (depth : Nat)
    (x : Proc π σ α) (s : σ)
    (hproduce : ∀ c message,
      .ended c (.panic message) ∉ (host.runFlavoured .single depth x s).2.marks)
    (hask : ∀ before c after,
      (host.runFlavoured .single depth x s).2.marks = before ++ .asked c :: after →
        ⟨c, true⟩ ∉ underway before) :
    FlavoursAgree (host.runFlavoured .single depth x s) (host.runFlavoured .shared depth x s) :=
  host.flavours_agree_of_placid depth x s
    (.of_produced (run_produced _ hlisten depth _ s) hproduce hask)

/-- A program with shared handles does what it does with single ones, if no panic leaves a call of
a producer or is let out by a listener, and nobody asks a cell that is being produced. -/
theorem Host.flavours_agree (host : Host π σ) (depth : Nat) (x : Proc π σ α) (s : σ)
    (hproduce : ∀ c message,
      .ended c (.panic message) ∉ (host.runFlavoured .single depth x s).2.marks)
    (hlisten : (host.runFlavoured .single depth x s).2.Produced)
    (hask : ∀ before c after,
      (host.runFlavoured .single depth x s).2.marks = before ++ .asked c :: after →
        ⟨c, true⟩ ∉ underway before) :
    FlavoursAgree (host.runFlavoured .single depth x s) (host.runFlavoured .shared depth x s) :=
  host.flavours_agree_of_placid depth x s (.of_produced hlisten hproduce hask)

def Host.relay : Host (fun _ => Option (Handle .int)) Nat where
  produce
    | .int, none => do
      if (← Proc.ask id) = 0 then
        return .error (.failed "not yet")
      else
        return .ok 7
    | .int, some h => h.get
    | .text, _ => return .ok ""
  listen
    | .evaluationFailed _ _ _ => Proc.tell (· + 1)
    | _ => return ()

def Proc.relayed : Proc (fun _ => Option (Handle .int)) Nat
    (Except EvalError Int32 × Except EvalError Int32 × Bool) := do
  let inner ← Proc.defer (k := .int) .single (.custom none)
  let outer ← Proc.defer (k := .int) .single (.custom (some inner))
  let first ← outer.get
  let second ← outer.get
  return (first, second, ← inner.isEvaluated)

def relayedMarks : List Mark :=
  let inner : CellId := ⟨.int, 0⟩
  let outer : CellId := ⟨.int, 1⟩
  let failure : Finish EvalError Value := .error (.failed "not yet")
  let success : Finish EvalError Value := .value (.int 7)
  [.asked outer, .emitted (.forcing .single outer), .begun outer,
   .asked inner, .emitted (.forcing .single inner), .begun inner, .ended inner failure,
   .emitted (.evaluationFailed .single inner (.failed "not yet")), .answered inner failure,
   .ended outer failure, .emitted (.evaluationFailed .single outer (.failed "not yet")),
   .answered outer failure,
   .asked outer, .emitted (.forcing .single outer), .begun outer,
   .asked inner, .emitted (.forcing .single inner), .begun inner, .ended inner success,
   .answered inner success, .ended outer success, .answered outer success]

theorem Host.relay_hears_no_panic (message : String) :
    ¬ (relay.flavoured .single).Hears (.panicked message) := by
  rintro ⟨depth, e, w, hpanicked⟩
  cases depth with
  | zero => cases hpanicked
  | succ depth => cases e <;> cases hpanicked

/-- The first access fails inside, and the second one finds both fields in order. -/
theorem Host.flavours_agree_relay :
    (relay.runFlavoured .shared 2 Proc.relayed 0).1 =
        .value (.error (.failed "not yet"), .ok 7, true) ∧
      FlavoursAgree (relay.runFlavoured .single 2 Proc.relayed 0)
        (relay.runFlavoured .shared 2 Proc.relayed 0) := by
  have hmarks : (relay.runFlavoured .single 2 Proc.relayed 0).2.marks = relayedMarks := rfl
  have hasked : ∀ i < relayedMarks.length, ∀ c ∈ [CellId.mk .int 0, CellId.mk .int 1],
      relayedMarks[i]? = some (.asked c) → ⟨c, true⟩ ∉ underway (relayedMarks.take i) := by
    decide
  refine ⟨rfl, Host.flavours_agree relay 2 Proc.relayed 0 ?_ ?_ ?_⟩
  · intro c message
    rw [hmarks]
    simp [relayedMarks]
  · exact Host.run_produced _ relay_hears_no_panic 2 _ 0
  · intro before c after hsplit
    rw [hmarks] at hsplit
    have hmem : .asked c ∈ relayedMarks := by simp [hsplit]
    have hlt : before.length < relayedMarks.length := by simp [hsplit]
    have hc : c ∈ [CellId.mk .int 0, CellId.mk .int 1] := by
      simp only [relayedMarks, List.mem_cons, Mark.asked.injEq, reduceCtorEq, List.not_mem_nil,
        or_false, false_or] at hmem
      rcases hmem with rfl | rfl | rfl | rfl <;> simp
    have hbefore := hasked before.length hlt c hc (by simp [hsplit])
    rwa [hsplit, List.take_left] at hbefore

end LazyFields
