import LazyFields.Proofs.Quoting
import LazyFields.Display
import LazyFields.World

/-!
The texts of records and of lazy fields are faithful: they show the plain fields and whether the
lazy field has a value and which, and records or fields that look alike agree in all of this. A
placeholder is never mistaken for a value, since no value begins the way it does.
-/

namespace LazyFields

open Text (Shape Layout Bracket indent decimal quoted cut_before cut_after not_mem_decimal
  decimal_inj quoted_inj)

namespace Text.Shape

def written (layout : Layout) (depth : Nat) (s : Shape) : String :=
  match layout with
  | .inline => s.inline
  | .indented => s.indented depth

theorem print_eq_written (s : Shape) (layout : Layout) : s.print layout = s.written layout 0 := by
  cases layout <;> rfl

@[simp] theorem written_atom (layout : Layout) (depth : Nat) (text : String) :
    (atom text).written layout depth = text := by
  cases layout <;> simp [written, inline, indented]

/-- Around the members of a record with two members the text is constant. The first member ends
before a comma, and the second begins after a blank. -/
theorem exists_written_pair (layout : Layout) (depth : Nat) (name label label' : String) :
    ∃ front mid back : String, mid.toList.head? = some ',' ∧ mid.toList.getLast? = some ' ' ∧
      ∀ x y : Shape,
        (group (.record name) [.labelled label x, .labelled label' y]).written layout depth =
          name ++ (front ++ (x.written layout (depth + 1) ++
            (mid ++ (y.written layout (depth + 1) ++ back)))) := by
  cases layout with
  | inline =>
    refine ⟨" \x7b " ++ label ++ ": ", ", " ++ (label' ++ ": "), " \x7d", by simp, ?_,
      fun x y => ?_⟩
    · simp only [String.toList_append, List.getLast?_append]
      rfl
    · simp [written, inline, inlineAll, Bracket.opening, Bracket.closing, Bracket.gap,
        String.append_assoc]
  | indented =>
    refine ⟨" \x7b\n" ++ indent (depth + 1) ++ label ++ ": ",
      ",\n" ++ (indent (depth + 1) ++ (label' ++ ": ")), ",\n" ++ indent depth ++ "\x7d", by simp,
      ?_, fun x y => ?_⟩
    · simp only [String.toList_append, List.getLast?_append]
      rfl
    · simp [written, indented, indentedAll, Bracket.opening, Bracket.closing, String.append_assoc]

def before (layout : Layout) (depth : Nat) : String :=
  match layout with
  | .inline => ""
  | .indented => "\n" ++ indent (depth + 1)

def after (layout : Layout) (depth : Nat) : String :=
  match layout with
  | .inline => ""
  | .indented => ",\n" ++ indent depth

theorem written_tuple (layout : Layout) (depth : Nat) (name text : String) :
    (group (.tuple name) [.atom text]).written layout depth =
      name ++ ("(" ++ (before layout depth ++ (text ++ (after layout depth ++ ")")))) := by
  cases layout <;>
    simp only [written, inline, inlineAll, indented, indentedAll, Bracket.opening, Bracket.closing,
      Bracket.gap, before, after, String.append_empty, String.empty_append, String.append_assoc]

end Text.Shape

namespace Value

def debugText : Value → String
  | .int n => decimal n
  | .text s => quoted s

theorem shape_eq_atom (v : Value) : v.shape = .atom v.debugText := by
  cases v <;> rfl

theorem head?_debugText (v : Value) : v.debugText.toList.head? ≠ some '<' := by
  cases v with
  | int n => exact fun h => not_mem_decimal rfl n (List.mem_of_mem_head? h)
  | text s => simp [debugText, Text.toList_quoted]

theorem debugText_inj {k : Kind} {v w : k.Val} :
    (Value.of v).debugText = (Value.of w).debugText ↔ v = w := by
  cases k with
  | int => exact decimal_inj
  | text => exact quoted_inj

end Value

/-- A field without a value is shown unlike every field with one, and values are told apart. -/
theorem Flavour.written_shape_injective (f : Flavour) {k : Kind} (layout : Layout) (depth : Nat) :
    Function.Injective fun held : Option k.Val => (f.shape held).written layout depth := by
  let front := Shape.before layout depth
  let back := Shape.after layout depth ++ ")"
  have hsome (v : k.Val) : (f.shape (some v)).written layout depth =
      f.name ++ ("(" ++ (front ++ ((Value.of v).debugText ++ back))) := by
    rw [shape, Value.shape_eq_atom, Shape.written_tuple]
  have hnone : (f.shape (none : Option k.Val)).written layout depth =
      f.name ++ ("(" ++ "<unevaluated>)") := by
    rw [shape, Shape.written_atom]
    rfl
  have hfront : front.toList.head? ≠ some '<' := by cases layout <;> simp [front, Shape.before]
  have hback : back.toList.head? ≠ some '<' := by cases layout <;> simp [back, Shape.after]
  refine Option.injective_iff.mpr ⟨fun v v' h => ?_, ?_⟩
  · simp only [Function.comp, hsome, String.append_right_inj, String.append_left_inj] at h
    exact Value.debugText_inj.mp h
  · rintro ⟨v, h⟩
    simp only [Function.comp, hsome, hnone, String.append_right_inj] at h
    -- Whichever of the three parts comes first, it does not begin with the placeholder's bracket.
    have hhead := congrArg (List.head? ∘ String.toList) h
    simp only [Function.comp, String.toList_append, List.head?_append] at hhead
    have hvalue := (Value.of v).head?_debugText
    cases hf : front.toList.head? <;> cases ht : (Value.of v).debugText.toList.head? <;>
      simp_all

inductive Form
  | display
  | debug (layout : Layout)

def Form.lazyPart (form : Form) (depth : Nat) (held : Option Int32) : String :=
  match form with
  | .display => lazyText held
  | .debug layout => (Flavour.single.shape (k := .int) held).written layout depth

theorem lazyText_injective : Function.Injective lazyText := by
  refine Option.injective_iff.mpr ⟨fun n n' h => decimal_inj.mp h, ?_⟩
  rintro ⟨n, h⟩
  have h : decimal n = "<lazy>" := h
  exact not_mem_decimal (c := '<') rfl n (by simp [h])

theorem Form.lazyPart_injective (form : Form) (depth : Nat) :
    Function.Injective (form.lazyPart depth) := by
  cases form with
  | display => exact lazyText_injective
  | debug layout => exact Flavour.single.written_shape_injective (k := .int) layout depth

namespace A

def text (a : A) (form : Form) (held : Option Int32) : String :=
  match form with
  | .display => a.display held
  | .debug layout => (a.shape held).print layout

def textIn {π : Kind → Type} {σ : Type} (a : A) (form : Form) (w : World π σ) : String :=
  a.text form (w.peek a.lazyField)

theorem exists_written_shape (layout : Layout) (depth : Nat) :
    ∃ front mid back : String, mid.toList.head? = some ',' ∧
      ∀ (a : A) (held : Option Int32), (a.shape held).written layout depth =
        "A" ++ (front ++ (decimal a.normalField ++
          (mid ++ ((Form.debug layout).lazyPart (depth + 1) held ++ back)))) := by
  obtain ⟨front, mid, back, hcomma, -, hpair⟩ :=
    Shape.exists_written_pair layout depth "A" "normal_field" "lazy_field"
  refine ⟨front, mid, back, hcomma, fun a held => ?_⟩
  rw [shape, hpair, Shape.written_atom]
  rfl

theorem exists_text (form : Form) :
    ∃ front mid back : String, mid.toList.head? = some ',' ∧
      ∀ (a : A) (held : Option Int32), a.text form held =
        "A" ++ (front ++ (decimal a.normalField ++ (mid ++ (form.lazyPart 1 held ++ back)))) := by
  cases form with
  | display =>
    refine ⟨"(normalField: ", ", lazyField: ", ")", by simp, fun a held => ?_⟩
    have hopening : "A(normalField: " = "A" ++ "(normalField: " := rfl
    change "A(normalField: " ++ decimal a.normalField ++ ", lazyField: " ++ lazyText held ++ ")" = _
    simp only [Form.lazyPart, hopening, String.append_assoc]
  | debug layout =>
    obtain ⟨front, mid, back, hcomma, hshape⟩ := exists_written_shape layout 0
    refine ⟨front, mid, back, hcomma, fun a held => ?_⟩
    rw [text, Shape.print_eq_written, hshape]

/-- The members of a record of the base type, read from its text from the left. -/
theorem members_of_framed {front mid back : String} {form : Form} {depth : Nat} {a a' : A}
    {held held' : Option Int32} (hcomma : mid.toList.head? = some ',')
    (h : "A" ++ (front ++ (decimal a.normalField ++ (mid ++ (form.lazyPart depth held ++ back)))) =
      "A" ++ (front ++ (decimal a'.normalField ++ (mid ++ (form.lazyPart depth held' ++ back))))) :
    a.normalField = a'.normalField ∧ held = held' := by
  rw [String.append_right_inj, String.append_right_inj] at h
  obtain ⟨hnormal, hrest⟩ := cut_before hcomma (not_mem_decimal rfl _) (not_mem_decimal rfl _) h
  rw [String.append_left_inj, (form.lazyPart_injective depth).eq_iff] at hrest
  exact ⟨decimal_inj.mp hnormal, hrest⟩

theorem members_of_written_shape {layout : Layout} {depth : Nat} {a a' : A}
    {held held' : Option Int32}
    (h : (a.shape held).written layout depth = (a'.shape held').written layout depth) :
    a.normalField = a'.normalField ∧ held = held' := by
  obtain ⟨front, mid, back, hcomma, hshape⟩ := exists_written_shape layout depth
  rw [hshape, hshape] at h
  exact members_of_framed hcomma h

theorem text_inj {form : Form} {a a' : A} {held held' : Option Int32} :
    a.text form held = a'.text form held' ↔ a.normalField = a'.normalField ∧ held = held' := by
  obtain ⟨front, mid, back, hcomma, htext⟩ := exists_text form
  rw [htext, htext]
  refine ⟨members_of_framed hcomma, ?_⟩
  rintro ⟨hnormal, rfl⟩
  rw [hnormal]

end A

namespace B

def text (b : B) (form : Form) (held : Option Int32) : String :=
  match form with
  | .display => b.display held
  | .debug layout => (b.shape held).print layout

def textIn {π : Kind → Type} {σ : Type} (b : B) (form : Form) (w : World π σ) : String :=
  b.text form (w.peek b.lazyField)

/-- The text of a record of the extended type puts its second plain field between the first and
the lazy one. -/
theorem text_display (b : B) (held : Option Int32) :
    b.text .display held = "B" ++ ("(normalField: " ++ (decimal b.normalField ++
      (", dummyField: " ++ (decimal b.dummyField ++
        (", lazyField: " ++ (lazyText held ++ ")")))))) := by
  have hopening : "B(normalField: " = "B" ++ "(normalField: " := rfl
  change "B(normalField: " ++ decimal b.normalField ++ ", dummyField: " ++ decimal b.dummyField ++
    ", lazyField: " ++ lazyText held ++ ")" = _
  simp only [hopening, String.append_assoc]

theorem exists_debug (layout : Layout) :
    ∃ front mid back : String, mid.toList.getLast? = some ' ' ∧
      ∀ (b : B) (held : Option Int32), b.text (.debug layout) held =
        "B" ++ (front ++ ((b.asA.shape held).written layout 1 ++
          (mid ++ (decimal b.dummyField ++ back)))) := by
  obtain ⟨front, mid, back, -, hblank, hpair⟩ :=
    Shape.exists_written_pair layout 0 "B" "base" "dummy_field"
  refine ⟨front, mid, back, hblank, fun b held => ?_⟩
  rw [text, Shape.print_eq_written, shape, hpair, Shape.written_atom]

theorem text_inj {form : Form} {b b' : B} {held held' : Option Int32} :
    b.text form held = b'.text form held' ↔
      b.normalField = b'.normalField ∧ b.dummyField = b'.dummyField ∧ held = held' := by
  constructor
  · intro h
    cases form with
    | display =>
      rw [text_display, text_display, String.append_right_inj, String.append_right_inj] at h
      obtain ⟨hnormal, h⟩ := cut_before (c := ',') (by simp) (not_mem_decimal rfl _)
        (not_mem_decimal rfl _) h
      obtain ⟨hdummy, h⟩ := cut_before (c := ',') (by simp) (not_mem_decimal rfl _)
        (not_mem_decimal rfl _) h
      rw [String.append_left_inj, lazyText_injective.eq_iff] at h
      exact ⟨decimal_inj.mp hnormal, decimal_inj.mp hdummy, h⟩
    | debug layout =>
      obtain ⟨front, mid, back, hblank, hdebug⟩ := exists_debug layout
      -- The base record may contain any separator, so the last member is read from the right.
      rw [hdebug, hdebug, String.append_right_inj, String.append_right_inj, ← String.append_assoc,
        ← String.append_assoc, ← String.append_assoc, ← String.append_assoc,
        String.append_left_inj] at h
      obtain ⟨hbase, hdummy⟩ := cut_after hblank (not_mem_decimal rfl _) (not_mem_decimal rfl _) h
      obtain ⟨hnormal, hheld⟩ := A.members_of_written_shape hbase
      exact ⟨hnormal, decimal_inj.mp hdummy, hheld⟩
  · rintro ⟨hnormal, hdummy, rfl⟩
    cases form with
    | display => rw [text_display, text_display, hnormal, hdummy]
    | debug layout =>
      obtain ⟨front, mid, back, -, hdebug⟩ := exists_debug layout
      have hshape : b.asA.shape held = b'.asA.shape held := by
        simp only [A.shape, asA, hnormal]
      rw [hdebug, hdebug, hshape, hdummy]

end B

theorem A.text_ne_text (form : Form) (a : A) (b : B) (held held' : Option Int32) :
    a.text form held ≠ b.text form held' := by
  intro h
  obtain ⟨front, mid, back, -, htext⟩ := A.exists_text form
  have hB : ∃ rest, b.text form held' = "B" ++ rest := by
    cases form with
    | display => exact ⟨_, B.text_display b held'⟩
    | debug layout =>
      obtain ⟨front, mid, back, -, hdebug⟩ := B.exists_debug layout
      exact ⟨_, hdebug b held'⟩
  obtain ⟨rest, hB⟩ := hB
  rw [htext, hB] at h
  simpa using congrArg (List.head? ∘ String.toList) h

/-- Records and fields are shown alike if and only if they have the same plain fields and are
seen to hold the same: nothing, or one value. The two states may be one. -/
theorem texts_faithful {π : Kind → Type} {σ : Type} (w w' : World π σ) :
    (∀ (f : Flavour) {k : Kind} (h h' : Handle k) (layout : Layout),
      (f.shape (w.peek h)).print layout = (f.shape (w'.peek h')).print layout ↔
        w.peek h = w'.peek h') ∧
    ∀ form : Form,
      (∀ a a' : A, a.textIn form w = a'.textIn form w' ↔
        a.normalField = a'.normalField ∧ w.peek a.lazyField = w'.peek a'.lazyField) ∧
      (∀ b b' : B, b.textIn form w = b'.textIn form w' ↔
        b.normalField = b'.normalField ∧ b.dummyField = b'.dummyField ∧
          w.peek b.lazyField = w'.peek b'.lazyField) ∧
      ∀ (a : A) (b : B), a.textIn form w ≠ b.textIn form w' := by
  refine ⟨fun f k h h' layout => ?_, fun form => ⟨fun a a' => A.text_inj, fun b b' => B.text_inj,
    fun a b => A.text_ne_text form a b _ _⟩⟩
  rw [Shape.print_eq_written, Shape.print_eq_written]
  exact (f.written_shape_injective layout 0).eq_iff

example : (Flavour.single.shape (k := .text) (some "<unevaluated>")).print .inline =
    "Lazy(\"<unevaluated>\")" := by decide +kernel

end LazyFields
