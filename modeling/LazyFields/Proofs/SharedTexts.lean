import LazyFields.Proofs.FaithfulTexts
import LazyFields.Proofs.SingleAssignment
import LazyFields.Proofs.StableEquality
import LazyFields.Proofs.Laziness

/-!
What records with one lazy field show in the course of a run. All of them show a placeholder
first and a value afterwards, they turn from the one to the other at the same moment, and what they
show is what their field returns from then on. The rest of a text never changes, and a record that
is given another field leaves the others as they are.
-/

namespace LazyFields

namespace Text

/-- A text that stands inside as many groups has all its lines but the first moved to the right. -/
def shifted (depth : Nat) (s : String) : String :=
  String.ofList (s.toList.flatMap fun c => if c = '\n' then c :: (indent depth).toList else [c])

variable {depth : Nat} {s : String}

theorem shifted_append (depth : Nat) (s t : String) :
    shifted depth (s ++ t) = shifted depth s ++ shifted depth t := by
  simp [shifted]

theorem shifted_of_line (h : '\n' ∉ s.toList) : shifted depth s = s := by
  have hkept : ∀ c ∈ s.toList, (if c = '\n' then c :: (indent depth).toList else [c]) = [c] :=
    fun c hc => if_neg (ne_of_mem_of_not_mem hc h)
  rw [shifted, List.flatMap_congr hkept]
  simp

theorem shifted_newline (depth : Nat) : shifted depth "\n" = "\n" ++ indent depth := by
  simp [shifted]

theorem shifted_indent (depth n : Nat) : shifted depth (indent n) = indent n := by
  refine shifted_of_line fun h => ?_
  simp [indent] at h

theorem indent_append (m n : Nat) : indent m ++ indent n = indent (m + n) := by
  rw [indent, indent, indent, ← String.ofList_append, List.replicate_append_replicate,
    Nat.mul_add]

end Text

open Text (Shape Layout indent shifted shifted_append shifted_of_line shifted_newline decimal
  not_mem_decimal)

namespace Text.Shape

theorem shifted_before (layout : Layout) (depth : Nat) :
    shifted depth (before layout 0) = before layout depth := by
  cases layout with
  | inline => exact shifted_of_line (by simp [before])
  | indented =>
    rw [before, shifted_append, shifted_newline, shifted_indent, String.append_assoc,
      indent_append, Nat.zero_add]
    rfl

theorem shifted_after (layout : Layout) (depth : Nat) :
    shifted depth (after layout 0) = after layout depth := by
  cases layout with
  | inline => exact shifted_of_line (by simp [after])
  | indented =>
    have hsplit : ",\n" = "," ++ "\n" := rfl
    rw [after, after, hsplit, shifted_append, shifted_append, shifted_newline, shifted_indent,
      shifted_of_line (by simp), String.append_assoc, String.append_assoc, indent_append]
    rfl

end Text.Shape

theorem Form.lazyPart_eq_shifted (form : Form) (depth : Nat) (held : Option Int32) :
    form.lazyPart depth held = shifted depth (form.lazyPart 0 held) := by
  have hdecimal (n : Int32) : shifted depth (decimal n) = decimal n :=
    shifted_of_line (not_mem_decimal rfl n)
  cases form with
  | display =>
    cases held with
    | none => exact (shifted_of_line (by simp [lazyPart, lazyText])).symm
    | some n => exact (hdecimal n).symm
  | debug layout =>
    cases held with
    | none =>
      simp only [lazyPart, Flavour.shape, Shape.written_atom, Flavour.name]
      exact (shifted_of_line (by simp)).symm
    | some n =>
      simp only [lazyPart, Flavour.shape, Flavour.name, Value.of, Value.shape, Shape.written_tuple,
        shifted_append, Shape.shifted_before, Shape.shifted_after, hdecimal]
      rw [shifted_of_line (s := "Lazy") (by simp), shifted_of_line (s := "(") (by simp),
        shifted_of_line (s := ")") (by simp)]

inductive Record
  | a (r : A)
  | b (r : B)

namespace Record

def lazyField : Record → Handle .int
  | .a r => r.lazyField
  | .b r => r.lazyField

def depth : Record → Nat
  | .a _ => 1
  | .b _ => 2

def text (r : Record) (form : Form) (held : Option Int32) : String :=
  match r with
  | .a r => r.text form held
  | .b r => r.text form held

def textOn {π : Kind → Type} (r : Record) (form : Form) (heap : Heap π) : String :=
  r.text form (heap.peek r.lazyField)

/-- What can be made of a record by copies, by updates of plain fields and by taking out the base
record, one after another. -/
inductive Derives (r : Record) : Record → Prop
  | copy : Derives r r
  | normalField {a : A} (n : Int32) : Derives r (.a a) → Derives r (.a (a.withNormalField n))
  | baseField {b : B} (n : Int32) : Derives r (.b b) → Derives r (.b (b.withNormalField n))
  | dummyField {b : B} (n : Int32) : Derives r (.b b) → Derives r (.b (b.withDummyField n))
  | upcast {b : B} : Derives r (.b b) → Derives r (.a b.asA)

theorem Derives.lazyField_eq {r r' : Record} (h : r.Derives r') : r'.lazyField = r.lazyField := by
  induction h with
  | copy => rfl
  | normalField _ _ ih | baseField _ _ ih | dummyField _ _ ih | upcast _ ih => exact ih

theorem exists_text (r : Record) (form : Form) :
    ∃ front back : String, ∀ held : Option Int32,
      r.text form held = front ++ (shifted r.depth (form.lazyPart 0 held) ++ back) := by
  simp only [← Form.lazyPart_eq_shifted]
  cases r with
  | a r =>
    obtain ⟨front, mid, back, -, htext⟩ := A.exists_text form
    refine ⟨"A" ++ (front ++ (decimal r.normalField ++ mid)), back, fun held => ?_⟩
    simp only [text, depth, htext, String.append_assoc]
  | b r =>
    cases form with
    | display =>
      refine ⟨"B" ++ ("(normalField: " ++ (decimal r.normalField ++ (", dummyField: " ++
        (decimal r.dummyField ++ ", lazyField: ")))), ")", fun held => ?_⟩
      simp only [text, B.text_display, Form.lazyPart, String.append_assoc]
    | debug layout =>
      obtain ⟨front, mid, back, -, hdebug⟩ := B.exists_debug layout
      obtain ⟨front', mid', back', -, hshape⟩ := A.exists_written_shape layout 1
      refine ⟨"B" ++ (front ++ ("A" ++ (front' ++ (decimal r.asA.normalField ++ mid')))),
        back' ++ (mid ++ (decimal r.dummyField ++ back)), fun held => ?_⟩
      simp only [text, depth, hdebug, hshape, String.append_assoc]

end Record

/-- What stays once it is there comes, if at all, after a time without it. -/
theorem eq_replicate_of_stays {β : Type} {v : β} {held : List (Option β)}
    (hstays : held.Pairwise fun before after => ∀ u, before = some u → after = some u)
    (hv : ∀ u, some u ∈ held → u = v) :
    ∃ m n, held = List.replicate m none ++ List.replicate n (some v) := by
  induction held with
  | nil => exact ⟨0, 0, rfl⟩
  | cons first rest ih =>
    obtain ⟨hfirst, hrest⟩ := List.pairwise_cons.mp hstays
    cases first with
    | none =>
      obtain ⟨m, n, hrest⟩ := ih hrest fun u hu => hv u (List.mem_cons_of_mem _ hu)
      exact ⟨m + 1, n, by rw [hrest, List.replicate_succ, List.cons_append]⟩
    | some u =>
      obtain rfl := hv u List.mem_cons_self
      refine ⟨0, rest.length + 1, ?_⟩
      rw [List.replicate_succ, List.replicate_zero, List.nil_append,
        List.eq_replicate_of_mem fun o ho => hfirst o ho u rfl]
      simp

variable {π : Kind → Type} {σ α : Type}

structure World.ShownTogether (host : Host π σ) (w : World π σ) (h : Handle .int) (v : Int32) :
    Prop where
  /-- At any points of the run, such as those after a record was made, all of them show the
  placeholder up to one of the points and the value after it. -/
  texts : ∀ points : List (Heap π), points.Sublist w.heaps →
    ∃ m n, ∀ r : Record, r.lazyField = h → ∀ form, points.map (r.textOn form) =
      List.replicate m (r.text form none) ++ List.replicate n (r.text form (some v))
  returned : ∀ x, .answered h.id (.value x) ∈ w.marks → x = .int v
  atOnce : ∀ (r : Record) form, r.lazyField = h → ∀ before m after,
    w.history = before ++ m :: after → m.mark = .asked h.id →
      r.textOn form m.heap ≠ r.text form none →
        after.head? = some ⟨.answered h.id (.value (.int v)), m.heap, m.tallies⟩
  onward : ∀ (r : Record) form, r.lazyField = h → r.textOn form w.heap ≠ r.text form none →
    ∀ later, w.Later later → r.textOn form later.heap = r.text form (some v) ∧
      ∀ depth, host.Answers depth h.get (.ok v) later

theorem Record.exists_peek_of_textOn {r : Record} {form : Form} {h : Handle .int} {heap : Heap π}
    (hr : r.lazyField = h) (hshown : r.textOn form heap ≠ r.text form none) :
    ∃ v, heap.peek h = some v := by
  subst hr
  cases hpeek : heap.peek r.lazyField with
  | none => exact absurd (by rw [Record.textOn, hpeek]) hshown
  | some v => exact ⟨v, rfl⟩

namespace World.Coherent

variable {w : World π σ} {heap : Heap π} {h : Handle .int}

theorem keeps_of_mem_heaps (hw : w.Coherent) (hheap : heap ∈ w.heaps) : heap.Keeps w.heap := by
  rcases List.mem_append.mp hheap with hrecord | hnow
  · obtain ⟨m, hm, rfl⟩ := List.mem_map.mp hrecord
    exact hw.recent m (List.mem_reverse.mp hm)
  · obtain rfl := List.mem_singleton.mp hnow
    exact .refl _

theorem eq_getD_of_peek (hw : w.Coherent) (hheap : heap ∈ w.heaps) {v : Int32}
    (hv : heap.peek h = some v) : v = (w.peek h).getD 0 := by
  have hnow : w.peek h = some v := (hw.keeps_of_mem_heaps hheap).peek hv
  rw [hnow, Option.getD_some]

theorem change_once (hw : w.Coherent) {points : List (Heap π)} (hpoints : points.Sublist w.heaps) :
    ∃ m n, ∀ r : Record, r.lazyField = h → ∀ form, points.map (r.textOn form) =
      List.replicate m (r.text form none) ++
        List.replicate n (r.text form (some ((w.peek h).getD 0))) := by
  have hstays : (points.map (·.peek h)).Pairwise fun before after =>
      ∀ v, before = some v → after = some v :=
    List.pairwise_map.mpr ((hw.heaps_keep.sublist hpoints).imp fun hkeeps _ => hkeeps.peek)
  have hone : ∀ v, some v ∈ points.map (·.peek h) → v = (w.peek h).getD 0 := by
    intro v hv
    obtain ⟨heap, hheap, hpeek⟩ := List.mem_map.mp hv
    exact hw.eq_getD_of_peek (hpoints.subset hheap) hpeek
  obtain ⟨m, n, hheld⟩ := eq_replicate_of_stays hstays hone
  refine ⟨m, n, fun r hr form => ?_⟩
  subst hr
  have htexts := congrArg (List.map (r.text form)) hheld
  rwa [List.map_map, List.map_append, List.map_replicate, List.map_replicate] at htexts

theorem shownTogether (host : Host π σ) (hw : w.Coherent) :
    w.ShownTogether host h ((w.peek h).getD 0) where
  texts _ hpoints := hw.change_once hpoints
  returned x hx := by
    obtain ⟨v, rfl, hv⟩ := hw.peek_of_answered hx
    rw [hv, Option.getD_some]
    rfl
  atOnce r form hr before m after hsplit hm hshown := by
    obtain ⟨v, hv⟩ := Record.exists_peek_of_textOn hr hshown
    have hmem : m.heap ∈ w.heaps :=
      List.mem_append_left _ (List.mem_map_of_mem (by rw [hsplit]; simp))
    rw [← hw.eq_getD_of_peek hmem hv]
    exact hw.answered_at_once hsplit hm hv
  onward r form hr hshown later hlater := by
    obtain ⟨v, hv⟩ := Record.exists_peek_of_textOn hr hshown
    have hlater : later.peek h = some v := hlater.keeps.peek hv
    rw [show w.peek h = some v from hv, Option.getD_some]
    refine ⟨?_, fun depth => host.answers_of_peek depth hlater⟩
    subst hr
    rw [Record.textOn, show later.heap.peek r.lazyField = some v from hlater]

end World.Coherent

section Scripts

open Script

variable {w : World (fun _ => Recipe) Session} {r : Record}

def Record.thing : Record → Thing
  | .a r => .a r
  | .b r => .b r

def Form.step (form : Form) (source : String) : Step :=
  match form with
  | .display => .display source
  | .debug layout => .debug source layout

def Form.Shows (form : Form) (depth : Nat) (w : World (fun _ => Recipe) Session) (source : String)
    (text : String) : Prop :=
  Script.host.run depth (form.step source).perform w = (.value (.ok (.value (.text text))), w)

theorem Record.shows {source : String} (hsource : w.host.names[source]? = some r.thing)
    (form : Form) (depth : Nat) : form.Shows depth w source (r.textOn form w.heap) := by
  have hask : ∀ f : Option Thing → Job Verdict,
      Script.host.run depth (Job.thing? source >>= f) w =
        Script.host.run depth (f w.host.names[source]?) w := fun _ => rfl
  cases form with
  | display =>
    rw [Form.Shows, Form.step, Step.perform, hask, hsource]
    cases r <;> rfl
  | debug layout =>
    rw [Form.Shows, Form.step, Step.perform, hask, hsource]
    cases r <;> rfl

/-- A record that is made with another field is a new one, and all that were there before go on
showing what they showed. -/
theorem withLazyField_keeps (depth : Nat) (w : World (fun _ => Recipe) Session)
    (source name lazyName : String) :
    ∃ o w', Script.host.run depth (Step.withLazyField source name lazyName).answer w =
        (.value o, w') ∧
      ∀ (r : Record) other, other ≠ name → w.host.names[other]? = some r.thing →
        (w.heap.cell? r.lazyField).isSome → ∀ (form : Form) depth',
          form.Shows depth' w other (r.textOn form w.heap) ∧
            form.Shows depth' w' other (r.textOn form w.heap) := by
  have hunforcing : (Step.withLazyField source name lazyName).answer.Unforcing
      (Session.besides [name]) := by
    refine Step.answer_unforcing _ rfl ?_
    rintro _ ⟨⟩
    exact List.mem_singleton_self _
  obtain ⟨o, w', hrun, huntouched⟩ := hunforcing.exec (Script.host.environment depth) w
  refine ⟨o, w', hrun, fun r other hother hnamed hcell form depth' => ?_⟩
  have hname : w'.host.names[other]? = w.host.names[other]? :=
    congrFun huntouched.host ⟨other, by simpa using hother⟩
  obtain ⟨c, hc⟩ := Option.isSome_iff_exists.mp hcell
  have hpeek : w'.heap.peek r.lazyField = w.heap.peek r.lazyField := by
    rw [Heap.peek, Heap.peek, huntouched.cells _ _ hc, hc]
  have hshows := r.shows (hname.trans hnamed) form depth'
  rw [Record.textOn, hpeek] at hshows
  exact ⟨r.shows hnamed form depth', hshows⟩

end Scripts

/-- Records with one lazy field turn from the placeholder to the value together, once and for good;
nothing else in their texts changes, and giving another field to one of them changes no other. -/
theorem shown_together :
    (∀ {π : Kind → Type} {σ α : Type} (host : Host π σ) (depth : Nat) (x : Proc π σ α) (s : σ)
        (h : Handle .int), ∃ v, (host.run depth x (.start s)).2.ShownTogether host h v) ∧
      (∀ (r : Record) (form : Form), ∃ front back : String, ∀ held : Option Int32,
        r.text form held = front ++ (shifted r.depth (form.lazyPart 0 held) ++ back)) ∧
      (∀ r r' : Record, r.Derives r' → r'.lazyField = r.lazyField) ∧
      ∀ (depth : Nat) (w : World (fun _ => Script.Recipe) Script.Session)
        (source name lazyName : String),
        ∃ o w', Script.host.run depth (Script.Step.withLazyField source name lazyName).answer w =
            (.value o, w') ∧
          ∀ (r : Record) other, other ≠ name → w.host.names[other]? = some r.thing →
            (w.heap.cell? r.lazyField).isSome → ∀ (form : Form) depth',
              form.Shows depth' w other (r.textOn form w.heap) ∧
                form.Shows depth' w' other (r.textOn form w.heap) :=
  ⟨fun host depth x s _ => ⟨_, (host.run_coherent depth x s).shownTogether host⟩,
    Record.exists_text, fun _ _ => Record.Derives.lazyField_eq, withLazyField_keeps⟩

end LazyFields
