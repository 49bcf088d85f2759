import LazyFields.Display
import LazyFields.Proofs.Brackets

/-!
The flavour of cells, taken out of everything. A program can be told to make all its handles of
one flavour; a world can be read as if all its cells were single ones. What can happen to a world
happens alike to its reading.
-/

namespace LazyFields

variable {π : Kind → Type} {σ α : Type} {k l : Kind}

/-! Programs that make handles of one flavour only. -/

def Quiet.flavoured (f : Flavour) : Quiet π σ α → Quiet π σ α
  | .defer _ p => .defer f p
  | .ready _ v => .ready f v
  | .peek h => .peek h
  | .scenario p => .scenario p
  | .evaluations s => .evaluations s
  | .host g => .host g

def Action.flavoured (f : Flavour) : Action π σ α → Action π σ α
  | .quiet q => .quiet (q.flavoured f)
  | .get h => .get h
  | .verify s => .verify s

def Proc.flavoured (f : Flavour) {α : Type} : Proc π σ α → Proc π σ α
  | .pure a => .pure a
  | .bind x g => .bind (x.flavoured f) fun a => (g a).flavoured f
  | .act a => .act (a.flavoured f)
  | .panic message => .panic message
  | .attempt x => .attempt (x.flavoured f)

def Event.flavoured (f : Flavour) : Event → Event
  | .forcing _ c => .forcing f c
  | .evaluationFailed _ c e => .evaluationFailed f c e
  | .passed run check => .passed run check
  | .untouched run check => .untouched run check
  | .raised run e => .raised run e
  | .allPassed checks => .allPassed checks

def Host.flavoured (f : Flavour) (host : Host π σ) : Host π σ where
  produce k code := (host.produce k code).flavoured f
  listen e := (host.listen (e.flavoured .single)).flavoured f

@[simp] theorem Event.flavoured_flavoured (f g : Flavour) (e : Event) :
    (e.flavoured f).flavoured g = e.flavoured g := by
  cases e <;> rfl

/-! What is told of shared cells, told of single ones. -/

def renamed : String → String
  | "lazy_record::sync" => "lazy_record::lazy"
  | "forcing shared lazy value" => "forcing lazy value"
  | "shared lazy evaluation failed" => "lazy evaluation failed"
  | "LazySync" => "Lazy"
  | text => text

def Event.entry (rename : String → String) (e : Event) :
    Level × String × String × List EventField :=
  (e.level, rename e.target, rename e.message, e.fields)

theorem Event.entry_flavoured (e : Event) : (e.flavoured .single).entry id = e.entry renamed := by
  rcases e with ⟨_ | _, _⟩ | ⟨_ | _, _, _⟩ | _ | _ | _ | _ <;> rfl

theorem Flavour.print_shape (held : Option k.Val) (layout : Text.Layout) :
    ∃ rest, ∀ f : Flavour, (f.shape held).print layout = f.name ++ rest := by
  cases held with
  | none => exact ⟨"(<unevaluated>)", fun f => by cases layout <;> rfl⟩
  | some v =>
    cases layout <;>
      simp only [shape, Text.Shape.print, Text.Shape.inline, Text.Shape.indented,
        Text.Bracket.opening, Text.Bracket.gap, Text.Bracket.closing, String.append_assoc] <;>
      exact ⟨_, fun _ => rfl⟩

/-! The reading in which every cell is a single one. -/

def Cell.asSingle : Cell π k → Cell π k
  | .ready _ v => .ready .single v
  | .deferred _ s value _ => .deferred .single s value .free

def Heap.asSingle (heap : Heap π) : Heap π :=
  ⟨heap.ints.map Cell.asSingle, heap.texts.map Cell.asSingle⟩

def Mark.asSingle : Mark → Mark
  | .emitted e => .emitted (e.flavoured .single)
  | m => m

def Moment.asSingle (m : Moment π) : Moment π := ⟨m.mark.asSingle, m.heap.asSingle, m.tallies⟩

def World.asSingle (w : World π σ) : World π σ :=
  { w with heap := w.heap.asSingle, journal := w.journal.map Moment.asSingle }

namespace Cell

@[simp] theorem value?_asSingle (c : Cell π k) : c.asSingle.value? = c.value? := by
  cases c <;> rfl

theorem asSingle_fill (v : k.Val) (c : Cell π k) : (c.fill v).asSingle = c.asSingle.fill v := by
  rcases c with _ | ⟨_, _, _ | _, _⟩ <;> rfl

theorem asSingle_withGuard (g : Guard) (c : Cell π k) : (c.withGuard g).asSingle = c.asSingle := by
  cases c <;> rfl

theorem Awaits.asSingle {c : Cell π k} {f : Flavour} {s : Source π k} (h : c.Awaits f s) :
    c.asSingle.Awaits .single s := by
  cases h <;> exact .single

end Cell

namespace Heap

variable (heap : Heap π)

@[simp] theorem cells_asSingle (k : Kind) :
    heap.asSingle.cells k = (heap.cells k).map Cell.asSingle := by
  cases k <;> rfl

theorem asSingle_withCells (cs : List (Cell π k)) :
    (heap.withCells cs).asSingle = heap.asSingle.withCells (cs.map Cell.asSingle) := by
  cases k <;> rfl

theorem cell?_asSingle (h : Handle k) :
    heap.asSingle.cell? h = (heap.cell? h).map Cell.asSingle := by
  simp [cell?]

@[simp] theorem peek_asSingle (h : Handle k) : heap.asSingle.peek h = heap.peek h := by
  simp only [peek, cell?_asSingle, Option.bind_map]
  exact congrArg _ (funext fun c => c.value?_asSingle)

theorem asSingle_modify (h : Handle k) {f g : Cell π k → Cell π k}
    (hfg : ∀ c, (f c).asSingle = g c.asSingle) :
    (heap.modify h f).asSingle = heap.asSingle.modify h g := by
  rw [modify, asSingle_withCells, modify, cells_asSingle]
  congr 1
  refine List.ext_getElem? fun i => ?_
  simp only [List.getElem?_map, List.getElem?_modify]
  cases (heap.cells k)[i]? with
  | none => rfl
  | some c =>
    by_cases hi : h.index = i
    · simp [hi, hfg]
    · simp [hi]

theorem asSingle_modify_withGuard (h : Handle k) (g : Guard) :
    (heap.modify h (·.withGuard g)).asSingle = heap.asSingle := by
  rw [asSingle_modify heap h (g := id) (Cell.asSingle_withGuard g)]
  cases k <;> simp [modify, withCells, cells]

theorem asSingle_alloc (c : Cell π k) :
    heap.asSingle.alloc c.asSingle = ((heap.alloc c).1, (heap.alloc c).2.asSingle) := by
  simp [alloc, asSingle_withCells]

end Heap

@[simp] theorem Mark.track_asSingle (m : Mark) (accesses : List Underway) :
    m.asSingle.track accesses = m.track accesses := by
  rcases m with _ | _ | _ | _ | e | _ | _ | _ | _ | _ <;> first | rfl | cases e <;> rfl

namespace World

variable (w : World π σ)

theorem history_asSingle : w.asSingle.history = w.history.map Moment.asSingle := by
  simp [history, asSingle]

theorem marks_asSingle : w.asSingle.marks = w.marks.map Mark.asSingle := by
  simp [marks, history_asSingle, Moment.asSingle, Function.comp_def]

theorem events_asSingle : w.asSingle.events = w.events.map (Event.flavoured .single) := by
  rw [events, events, marks_asSingle, List.filterMap_map, List.map_filterMap]
  congr 1
  funext m
  cases m <;> rfl

theorem productions_asSingle (c : CellId) : w.asSingle.productions c = w.productions c := by
  rw [productions, productions, marks_asSingle, List.count, List.countP_map]
  congr 1
  funext m
  cases m <;> rfl

@[simp] theorem underway_asSingle : w.asSingle.underway = w.underway := by
  simp only [underway, LazyFields.underway, marks_asSingle, List.foldl_map, Mark.track_asSingle]

theorem cell?_asSingle (h : Handle k) :
    w.asSingle.heap.cell? h = (w.heap.cell? h).map Cell.asSingle :=
  w.heap.cell?_asSingle h

@[simp] theorem peek_asSingle (h : Handle k) : w.asSingle.peek h = w.peek h :=
  w.heap.peek_asSingle h

@[simp] theorem asSingle_note (m : Mark) :
    (w.note m).asSingle = w.asSingle.note m.asSingle := rfl

@[simp] theorem asSingle_modify_withGuard (h : Handle k) (g : Guard) :
    (w.modify h (·.withGuard g)).asSingle = w.asSingle := by
  rw [asSingle, modify, Heap.asSingle_modify_withGuard]
  rfl

theorem asSingle_store (h : Handle k) (v : k.Val) :
    w.asSingle.store h v = ((w.store h v).1, (w.store h v).2.asSingle) := by
  unfold store
  rw [peek_asSingle]
  split
  · rfl
  · rw [modify, modify, asSingle, asSingle, Heap.asSingle_modify _ h (Cell.asSingle_fill v)]

theorem asSingle_alloc (c : Cell π k) :
    w.asSingle.alloc c.asSingle = ((w.alloc c).1, (w.alloc c).2.asSingle) := by
  simp only [alloc, asSingle, Heap.asSingle_alloc]

variable (h : Handle k) (f : Flavour) (s : Source π k)

@[simp] theorem asSingle_call : (w.call h s).asSingle = w.asSingle.call h s := by
  rcases s with ⟨p, _ | c⟩ <;> rfl

@[simp] theorem asSingle_enter : (w.enter h f).asSingle = w.asSingle.enter h .single := by
  cases f with
  | single => rfl
  | shared => exact asSingle_modify_withGuard _ h .held

@[simp] theorem asSingle_announce : (w.announce h f).asSingle = w.asSingle.announce h .single := rfl

@[simp] theorem asSingle_answer (r : Ending (Except EvalError k.Val)) :
    (w.answer h r).asSingle = w.asSingle.answer h r := by
  cases r <;> rfl

@[simp] theorem asSingle_exit (r : Ending (Except EvalError k.Val)) :
    (w.exit h f r).asSingle = w.asSingle.exit h .single r := by
  cases f with
  | single => exact w.asSingle_answer h r
  | shared =>
    rw [exit, exit, asSingle_answer]
    cases r with
    | value | panicked => rw [Ending.forget, release, asSingle_modify_withGuard]
    | halted => rfl

theorem asSingle_quiet (q : Quiet π σ α) :
    (q.flavoured .single).apply w.asSingle =
      (((q.flavoured f).apply w).1, ((q.flavoured f).apply w).2.asSingle) := by
  cases q with
  | defer _ p => exact w.asSingle_alloc (.fresh f (.plain p))
  | ready _ v => exact w.asSingle_alloc (.ready f v)
  | scenario p =>
    have halloc := w.newCounter.2.asSingle_alloc (.fresh .single (.counted w.newCounter.1 p))
    have hscenario := congrArg (fun r => Scenario.mk r.1 w.newCounter.1) halloc
    have hworld := congrArg Prod.snd halloc
    exact Prod.ext hscenario hworld
  | peek h => exact congrArg (·, w.asSingle) (w.peek_asSingle h)
  | evaluations s => rfl
  | host g => rfl

end World

end LazyFields
