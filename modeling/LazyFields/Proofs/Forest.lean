import LazyFields.Proofs.Brackets

/-!
Forests of productions. Where listeners only record, the marks of a computation are a forest: a
production opens with its announcement and its call, contains the forest of what its producer did,
and closes with the end of the call and the report of its error. Read one by one, the marks of a
forest move a position that knows the calls in progress, and all accounts of the log come from
what one mark can do to a position.
-/

namespace LazyFields

def Mark.isAside : Mark → Bool
  | .asked _ | .answered _ _ | .begun _ | .ended _ _ => false
  | .emitted (.forcing _ _) | .emitted (.evaluationFailed _ _ _) => false
  | _ => true

namespace Finish

inductive AtOnce : Finish EvalError Value → Prop
  | value (v : Value) : AtOnce (.value v)
  | poisoned : AtOnce (.error .poisoned)

/-- A production that ends in the first way is answered in the second. The value of the answer is
the one that is stored by then. -/
inductive Settles : Finish EvalError Value → Finish EvalError Value → Prop
  | value (v held : Value) : Settles (.value v) (.value held)
  | error (e : EvalError) : Settles (.error e) (.error e)
  | panic (message : String) : Settles (.panic message) (.panic message)

def report (f : Flavour) (c : CellId) : Finish EvalError Value → List Mark
  | .error e => [.emitted (.evaluationFailed f c e)]
  | _ => []

end Finish

inductive Forest : List Mark → Prop
  | nil : Forest []
  | append {a b : List Mark} : Forest a → Forest b → Forest (a ++ b)
  | aside {m : Mark} : m.isAside → Forest [m]
  | atOnce (c : CellId) {r : Finish EvalError Value} :
      r.AtOnce → Forest [.asked c, .answered c r]
  | production (f : Flavour) (c : CellId) {inside : List Mark} {r answer : Finish EvalError Value} :
      Forest inside → r.Settles answer →
      Forest (.asked c :: .emitted (.forcing f c) :: .begun c ::
        (inside ++ .ended c r :: (r.report f c ++ [.answered c answer])))

/-- Where an access stands that is not in a call of its producer. -/
inductive Pending
  | idle
  | asked (c : CellId)
  | announced (f : Flavour) (c : CellId)
  | failing (f : Flavour) (c : CellId) (e : EvalError)
  | over (c : CellId) (r : Finish EvalError Value)

/-- A place in a forest: the calls that are in progress there, the innermost first, and the access
that has yet to come to its call or has come back from it. -/
structure Position where
  pending : Pending
  calls : List (Flavour × CellId)

inductive Advance : Position → Mark → Position → Prop
  | aside {m : Mark} {calls : List (Flavour × CellId)} :
      m.isAside → Advance ⟨.idle, calls⟩ m ⟨.idle, calls⟩
  | ask (c : CellId) (calls : List (Flavour × CellId)) :
      Advance ⟨.idle, calls⟩ (.asked c) ⟨.asked c, calls⟩
  | atOnce {c : CellId} {r : Finish EvalError Value} {calls : List (Flavour × CellId)} :
      r.AtOnce → Advance ⟨.asked c, calls⟩ (.answered c r) ⟨.idle, calls⟩
  | announce (f : Flavour) (c : CellId) (calls : List (Flavour × CellId)) :
      Advance ⟨.asked c, calls⟩ (.emitted (.forcing f c)) ⟨.announced f c, calls⟩
  | call (f : Flavour) (c : CellId) (calls : List (Flavour × CellId)) :
      Advance ⟨.announced f c, calls⟩ (.begun c) ⟨.idle, (f, c) :: calls⟩
  | fail (f : Flavour) (c : CellId) (e : EvalError) (calls : List (Flavour × CellId)) :
      Advance ⟨.idle, (f, c) :: calls⟩ (.ended c (.error e)) ⟨.failing f c e, calls⟩
  | finish (f : Flavour) (c : CellId) {r : Finish EvalError Value}
      (calls : List (Flavour × CellId)) :
      (∀ e, r ≠ .error e) → Advance ⟨.idle, (f, c) :: calls⟩ (.ended c r) ⟨.over c r, calls⟩
  | report (f : Flavour) (c : CellId) (e : EvalError) (calls : List (Flavour × CellId)) :
      Advance ⟨.failing f c e, calls⟩ (.emitted (.evaluationFailed f c e))
        ⟨.over c (.error e), calls⟩
  | answer {c : CellId} {r answer : Finish EvalError Value} {calls : List (Flavour × CellId)} :
      r.Settles answer → Advance ⟨.over c r, calls⟩ (.answered c answer) ⟨.idle, calls⟩

inductive Advances : Position → List Mark → Position → Prop
  | nil (s : Position) : Advances s [] s
  | cons {s t u : Position} {m : Mark} {marks : List Mark} :
      Advance s m t → Advances t marks u → Advances s (m :: marks) u

namespace Advances

variable {s t u : Position} {a b marks : List Mark} {m : Mark}

theorem append_iff : Advances s (a ++ b) u ↔ ∃ t, Advances s a t ∧ Advances t b u := by
  induction a generalizing s with
  | nil =>
    refine ⟨fun h => ⟨s, .nil s, h⟩, ?_⟩
    rintro ⟨t, ⟨⟩, h⟩
    exact h
  | cons m a ih =>
    constructor
    · rintro (_ | ⟨hm, h⟩)
      obtain ⟨t, ha, hb⟩ := ih.mp h
      exact ⟨t, .cons hm ha, hb⟩
    · rintro ⟨t, (_ | ⟨hm, ha⟩), hb⟩
      exact .cons hm (ih.mpr ⟨t, ha, hb⟩)

theorem trans (h₁ : Advances s a t) (h₂ : Advances t b u) : Advances s (a ++ b) u :=
  append_iff.mpr ⟨t, h₁, h₂⟩

theorem single (h : Advance s m t) : Advances s [m] t := .cons h (.nil t)

theorem concat_iff : Advances s (marks ++ [m]) u ↔ ∃ t, Advances s marks t ∧ Advance t m u := by
  rw [append_iff]
  refine exists_congr fun t => and_congr_right fun _ => ⟨?_, single⟩
  rintro (_ | ⟨hm, ⟨⟩⟩)
  exact hm

/-- Something is held at a position; some marks add one to it and others take one away. -/
theorem conserve {held : Position → Nat} {adds takes : Mark → Bool}
    (hstep : ∀ {s m t}, Advance s m t →
      held t + (if takes m then 1 else 0) = held s + (if adds m then 1 else 0))
    (h : Advances s marks t) : held t + marks.countP takes = held s + marks.countP adds := by
  induction h with
  | nil => rfl
  | cons hm _ ih =>
    have hone := hstep hm
    simp only [List.countP_cons]
    omega

end Advances

theorem Forest.advances {marks : List Mark} (h : Forest marks) (calls : List (Flavour × CellId)) :
    Advances ⟨.idle, calls⟩ marks ⟨.idle, calls⟩ := by
  induction h generalizing calls with
  | nil => exact .nil _
  | append _ _ iha ihb => exact (iha calls).trans (ihb calls)
  | aside hm => exact .single (.aside hm)
  | atOnce c hr => exact .cons (.ask c calls) (.single (.atOnce hr))
  | @production f c inside r answer _ hr ih =>
    refine .cons (.ask c calls) (.cons (.announce f c calls) (.cons (.call f c calls) ?_))
    refine (ih ((f, c) :: calls)).trans ?_
    cases hr with
    | error e =>
      exact .cons (.fail f c e calls) (.cons (.report f c e calls) (.single (.answer (.error e))))
    | value v held =>
      exact .cons (.finish f c calls (by simp)) (.single (.answer (.value v held)))
    | panic message =>
      exact .cons (.finish f c calls (by simp)) (.single (.answer (.panic message)))

/-! What is counted of a cell, among the marks and at a position. -/

namespace Mark

def isForcing (c : CellId) : Mark → Bool
  | .emitted (.forcing _ d) => d = c
  | _ => false

def isFailure (c : CellId) : Mark → Bool
  | .emitted (.evaluationFailed _ d _) => d = c
  | _ => false

def isBegin (c : CellId) : Mark → Bool
  | .begun d => d = c
  | _ => false

def isEnd (c : CellId) : Mark → Bool
  | .ended d _ => d = c
  | _ => false

def isError (c : CellId) : Mark → Bool
  | .ended d (.error _) => d = c
  | _ => false

def isReturn (c : CellId) : Mark → Bool
  | .ended d (.value _) => d = c
  | _ => false

def isPanic (c : CellId) : Mark → Bool
  | .ended d (.panic _) => d = c
  | _ => false

end Mark

theorem Mark.uncounted {m : Mark} (hm : m.isAside) (c : CellId) :
    m.isForcing c = false ∧ m.isBegin c = false ∧ m.isEnd c = false ∧ m.isError c = false ∧
      m.isFailure c = false := by
  cases m with
  | emitted e => cases e <;> first | exact ⟨rfl, rfl, rfl, rfl, rfl⟩ | cases hm
  | _ => first | exact ⟨rfl, rfl, rfl, rfl, rfl⟩ | cases hm

theorem Mark.track_of_isAside {m : Mark} (hm : m.isAside) (accesses : List Underway) :
    m.track accesses = accesses := by
  cases m with
  | emitted e => cases e <;> first | rfl | cases hm
  | _ => first | rfl | cases hm

namespace Position

def announced (c : CellId) (s : Position) : Nat :=
  match s.pending with
  | .announced _ d => if d = c then 1 else 0
  | _ => 0

def failing (c : CellId) (s : Position) : Nat :=
  match s.pending with
  | .failing _ d _ => if d = c then 1 else 0
  | _ => 0

def called (c : CellId) (s : Position) : Nat := s.calls.countP fun call => call.2 = c

def underway (s : Position) : List Underway :=
  let outer := s.calls.map fun call => ⟨call.2, true⟩
  match s.pending with
  | .idle => outer
  | .asked c => ⟨c, false⟩ :: outer
  | .announced _ c | .failing _ c _ | .over c _ => ⟨c, true⟩ :: outer

theorem eq_zero_of_not_mem {c : CellId} {s : Position} (h : ⟨c, true⟩ ∉ s.underway) :
    s.announced c = 0 ∧ s.called c = 0 ∧ s.failing c = 0 := by
  rcases s with ⟨pending, calls⟩
  have houter : ⟨c, true⟩ ∉ calls.map (fun call => (⟨call.2, true⟩ : Underway)) →
      calls.countP (fun call => call.2 = c) = 0 := by
    intro hnot
    refine List.countP_eq_zero.mpr fun call hcall hc => hnot ?_
    exact List.mem_map.mpr ⟨call, hcall, by simpa using hc⟩
  cases pending <;> simp_all [underway, announced, called, failing, eq_comm]

end Position

namespace Advance

variable {s t : Position} {m : Mark}

theorem announced (h : Advance s m t) (c : CellId) :
    t.announced c = if m.isForcing c then 1 else 0 := by
  cases h with
  | aside hm => simp [Position.announced, (Mark.uncounted hm c).1]
  | _ => simp [Position.announced, Mark.isForcing]

/-! The ledgers of a cell: an announcement waits for its call, a call for its end, and an error for
its report. -/

theorem announce_call (h : Advance s m t) (c : CellId) :
    t.announced c + (if m.isBegin c then 1 else 0) =
      s.announced c + (if m.isForcing c then 1 else 0) := by
  cases h with
  | aside hm =>
    obtain ⟨hforcing, hbegin, -⟩ := Mark.uncounted hm c
    simp [hforcing, hbegin]
  | _ => simp [Position.announced, Mark.isForcing, Mark.isBegin]

theorem call_end (h : Advance s m t) (c : CellId) :
    t.called c + (if m.isEnd c then 1 else 0) = s.called c + (if m.isBegin c then 1 else 0) := by
  cases h with
  | aside hm =>
    obtain ⟨-, hbegin, hend, -⟩ := Mark.uncounted hm c
    simp [hbegin, hend]
  | _ => simp [Position.called, Mark.isEnd, Mark.isBegin, List.countP_cons]

theorem fail_report (h : Advance s m t) (c : CellId) :
    t.failing c + (if m.isFailure c then 1 else 0) =
      s.failing c + (if m.isError c then 1 else 0) := by
  cases h with
  | aside hm =>
    obtain ⟨-, -, -, herror, hfailure⟩ := Mark.uncounted hm c
    simp [herror, hfailure]
  | @finish f d r calls hr =>
    cases r with
    | error e => exact absurd rfl (hr e)
    | _ => simp [Position.failing, Mark.isFailure, Mark.isError]
  | _ => simp [Position.failing, Mark.isFailure, Mark.isError]

theorem track (h : Advance s m t) : m.track s.underway = t.underway := by
  cases h with
  | aside hm => exact Mark.track_of_isAside hm _
  | _ => rfl

end Advance

theorem countP_isEnd (marks : List Mark) (c : CellId) :
    marks.countP (Mark.isEnd c) =
      marks.countP (Mark.isError c) + marks.countP (Mark.isReturn c) +
        marks.countP (Mark.isPanic c) := by
  induction marks with
  | nil => rfl
  | cons m marks ih =>
    simp only [List.countP_cons, ih]
    have hm : (if m.isEnd c then 1 else 0) = (if m.isError c then 1 else 0) +
        (if m.isReturn c then 1 else 0) + (if m.isPanic c then 1 else 0) := by
      cases m with
      | ended d r => cases r <;> simp [Mark.isEnd, Mark.isError, Mark.isReturn, Mark.isPanic]
      | _ => rfl
    omega

namespace Advances

variable {s t : Position} {calls calls' : List (Flavour × CellId)} {marks before after : List Mark}
  {f : Flavour} {c : CellId} {e : EvalError}

theorem underway (h : Advances s marks t) :
    marks.foldl (fun accesses m => m.track accesses) s.underway = t.underway := by
  induction h with
  | nil => rfl
  | cons hm _ ih => rw [List.foldl_cons, hm.track, ih]

/-! A position that waits for something was reached by the mark that makes it wait. -/

theorem announced_by (h : Advances ⟨.idle, calls⟩ marks ⟨.announced f c, calls'⟩) :
    marks.getLast? = some (.emitted (.forcing f c)) := by
  rcases List.eq_nil_or_concat marks with rfl | ⟨init, m, rfl⟩
  · cases h
  · rw [List.concat_eq_append] at h
    obtain ⟨t, -, hm⟩ := concat_iff.mp h
    cases hm
    simp

theorem failing_by (h : Advances ⟨.idle, calls⟩ marks ⟨.failing f c e, calls'⟩) :
    marks.getLast? = some (.ended c (.error e)) := by
  rcases List.eq_nil_or_concat marks with rfl | ⟨init, m, rfl⟩
  · cases h
  · rw [List.concat_eq_append] at h
    obtain ⟨t, -, hm⟩ := concat_iff.mp h
    cases hm
    simp

theorem called_next (h : Advances s (before ++ .emitted (.forcing f c) :: after) t) :
    after.head? = some (.begun c) ∨ after = [] ∧ t.pending ≠ .idle := by
  obtain ⟨u, -, _ | ⟨hm, hafter⟩⟩ := append_iff.mp h
  cases hm with
  | aside hm => cases hm
  | announce =>
    cases hafter with
    | nil => exact .inr ⟨rfl, nofun⟩
    | cons hm' _ =>
      cases hm'
      exact .inl rfl

theorem failed_next (h : Advances s (before ++ .ended c (.error e) :: after) t) :
    (∃ f, after.head? = some (.emitted (.evaluationFailed f c e))) ∨
      after = [] ∧ t.pending ≠ .idle := by
  obtain ⟨u, -, _ | ⟨hm, hafter⟩⟩ := append_iff.mp h
  cases hm with
  | aside hm => cases hm
  | finish f c calls hr => exact absurd rfl (hr e)
  | fail f =>
    cases hafter with
    | nil => exact .inr ⟨rfl, nofun⟩
    | cons hm' _ =>
      cases hm'
      exact .inl ⟨f, rfl⟩

theorem called_by (h : Advances ⟨.idle, calls⟩ (before ++ .begun c :: after) t) :
    ∃ f, before.getLast? = some (.emitted (.forcing f c)) := by
  obtain ⟨u, hbefore, _ | ⟨hm, -⟩⟩ := append_iff.mp h
  cases hm with
  | aside hm => cases hm
  | call f => exact ⟨f, hbefore.announced_by⟩

theorem failed_by (h : Advances ⟨.idle, calls⟩
    (before ++ .emitted (.evaluationFailed f c e) :: after) t) :
    before.getLast? = some (.ended c (.error e)) := by
  obtain ⟨u, hbefore, _ | ⟨hm, -⟩⟩ := append_iff.mp h
  cases hm with
  | aside hm => cases hm
  | report => exact hbefore.failing_by

theorem announced_eq (h : Advances ⟨.idle, calls⟩ marks t) (c : CellId) :
    t.announced c = if marks.getLast?.any (Mark.isForcing c) then 1 else 0 := by
  rcases List.eq_nil_or_concat marks with rfl | ⟨init, m, rfl⟩
  · cases h
    rfl
  · rw [List.concat_eq_append] at h ⊢
    obtain ⟨u, -, hm⟩ := concat_iff.mp h
    simp [hm.announced c]

theorem begun_eq (h : Advances ⟨.idle, []⟩ marks t) (c : CellId) :
    marks.countP (Mark.isForcing c) =
      marks.countP (Mark.isBegin c) + if marks.getLast?.any (Mark.isForcing c) then 1 else 0 := by
  have hbegun := h.conserve fun hm => hm.announce_call c
  rw [h.announced_eq c] at hbegun
  have hstart : Position.announced c ⟨.idle, []⟩ = 0 := rfl
  omega

theorem settled_eq (h : Advances ⟨.idle, []⟩ marks t)
    (hidle : ⟨c, true⟩ ∉ LazyFields.underway marks) :
    marks.countP (Mark.isForcing c) = marks.countP (Mark.isFailure c) +
      marks.countP (Mark.isReturn c) + marks.countP (Mark.isPanic c) := by
  have hunderway : LazyFields.underway marks = t.underway := h.underway
  rw [hunderway] at hidle
  obtain ⟨hannounced, hcalled, hfailing⟩ := Position.eq_zero_of_not_mem hidle
  have hbegun := h.conserve fun hm => hm.announce_call c
  have hended := h.conserve fun hm => hm.call_end c
  have hreported := h.conserve fun hm => hm.fail_report c
  have hends := countP_isEnd marks c
  have hstart : Position.announced c ⟨.idle, []⟩ = 0 ∧ Position.called c ⟨.idle, []⟩ = 0 ∧
    Position.failing c ⟨.idle, []⟩ = 0 := ⟨rfl, rfl, rfl⟩
  omega

end Advances

/-- How the events of a log account for the calls of producers. A log that is broken off may end
where it should go on. -/
structure EventAccount (broken : Prop) (marks : List Mark) : Prop where
  called_next : ∀ before f c after, marks = before ++ .emitted (.forcing f c) :: after →
    after.head? = some (.begun c) ∨ after = [] ∧ broken
  called_by : ∀ before c after, marks = before ++ .begun c :: after →
    ∃ f, before.getLast? = some (.emitted (.forcing f c))
  failed_next : ∀ before c e after, marks = before ++ .ended c (.error e) :: after →
    (∃ f, after.head? = some (.emitted (.evaluationFailed f c e))) ∨ after = [] ∧ broken
  failed_by : ∀ before f c e after, marks = before ++ .emitted (.evaluationFailed f c e) :: after →
    before.getLast? = some (.ended c (.error e))
  /-- At all times but between an announcement and its call. -/
  begun : ∀ before, before <+: marks → ∀ c, before.countP (Mark.isForcing c) =
    before.countP (Mark.isBegin c) + if before.getLast?.any (Mark.isForcing c) then 1 else 0
  /-- At all times when no production of the cell is in progress. -/
  settled : ∀ before, before <+: marks → ∀ c, ⟨c, true⟩ ∉ underway before →
    before.countP (Mark.isForcing c) = before.countP (Mark.isFailure c) +
      before.countP (Mark.isReturn c) + before.countP (Mark.isPanic c)
  closed : ¬ broken → underway marks = [] ∧
    ∀ c, marks.countP (Mark.isForcing c) = marks.countP (Mark.isBegin c)

theorem Advances.account {broken : Prop} {marks : List Mark} {t : Position}
    (h : Advances ⟨.idle, []⟩ marks t) (ht : ¬ broken → t = ⟨.idle, []⟩) :
    EventAccount broken marks := by
  have hbroken (hopen : t.pending ≠ .idle) : broken :=
    Classical.byContradiction fun hnot => hopen (by rw [ht hnot])
  refine ⟨?_, ?_, ?_, ?_, ?_, ?_, fun hnot => ?_⟩
  · rintro before f c after rfl
    exact h.called_next.imp_right fun hopen => ⟨hopen.1, hbroken hopen.2⟩
  · rintro before c after rfl
    exact h.called_by
  · rintro before c e after rfl
    exact h.failed_next.imp_right fun hopen => ⟨hopen.1, hbroken hopen.2⟩
  · rintro before f c e after rfl
    exact h.failed_by
  · rintro before ⟨after, rfl⟩ c
    obtain ⟨s, hbefore, -⟩ := append_iff.mp h
    exact hbefore.begun_eq c
  · rintro before ⟨after, rfl⟩ c hidle
    obtain ⟨s, hbefore, -⟩ := append_iff.mp h
    exact hbefore.settled_eq hidle
  · obtain rfl := ht hnot
    refine ⟨h.underway, fun c => ?_⟩
    rw [h.begun_eq c, ← h.announced_eq c]
    rfl

end LazyFields
