import LazyFields.Proofs.Later
import LazyFields.Record.Equality

/-!
Equality of records is stable. What a comparison has answered once it answers for good, from
either side and without any effect, and its answers form an equivalence: plain fields never
change, a handle stays the same handle, and a value that has been compared stays in its cell.
-/

namespace LazyFields

variable {π : Kind → Type} {σ α R S : Type} {k : Kind}

theorem Host.Answers.unique {host : Host π σ} {depth : Nat}
    {x : Proc π σ (Except EvalError Bool)} {b b' : Bool} {w w' : World π σ}
    (h : host.Answers depth x (.ok b) w) (hrun : host.run depth x w = (.value (.ok b'), w')) :
    b' = b := by
  obtain ⟨u, hanswer, -⟩ := h
  exact Except.ok.inj (Ending.value.inj (Prod.mk.inj (hrun.symm.trans hanswer)).1)

/-- A comparison whose answer, once it is there, can be read off the heap by `D`. -/
structure Decides (host : Host π σ) (tryEq : R → R → Proc π σ (Except EvalError Bool))
    (D : Heap π → R → R → Bool → Prop) : Prop where
  sound : ∀ {depth l r b} {u u' : World π σ},
    host.run depth (tryEq l r) u = (.value (.ok b), u') → D u'.heap l r b
  answers : ∀ {l r b} {w : World π σ} (depth : Nat), D w.heap l r b →
    host.Answers depth (tryEq l r) (.ok b) w
  self : ∀ depth l (w : World π σ), host.run depth (tryEq l l) w = (.value (.ok true), w)
  keeps : ∀ {a a' : Heap π} {l r b}, a.Keeps a' → D a l r b → D a' l r b
  symm : ∀ {a : Heap π} {l r b}, D a l r b → D a r l b
  trans : ∀ {a : Heap π} {l m r b}, D a l m true → D a m r b → D a l r b

namespace Handle

def valueEq (l r : Handle k) : Proc π σ (Except EvalError Bool) := do
  match ← l.get with
  | .error e => return .error e
  | .ok v =>
    match ← r.get with
    | .error e => return .error e
    | .ok v' => return .ok (v = v')

theorem tryEq_eq (l r : Handle k) :
    (l.tryEq r : Proc π σ _) = if l = r then pure (.ok true) else l.valueEq r := rfl

def Compares (heap : Heap π) (l r : Handle k) (b : Bool) : Prop :=
  (l = r ∧ b = true) ∨
    (l ≠ r ∧ ∃ x y, heap.peek l = some x ∧ heap.peek r = some y ∧ b = decide (x = y))

variable {host : Host π σ} {depth : Nat} {l r : Handle k} {b : Bool}

theorem valueEq_sound {u u' : World π σ}
    (h : host.run depth (l.valueEq r) u = (.value (.ok b), u')) :
    ∃ x y, u'.peek l = some x ∧ u'.peek r = some y ∧ b = decide (x = y) := by
  have henv := host.environment_follows depth
  obtain ⟨left, v, hl, h⟩ := Exec.bind_eq_value_iff.mp h
  cases left with
  | error e => cases h
  | ok x =>
    obtain ⟨right, v', hr, h⟩ := Exec.bind_eq_value_iff.mp h
    cases right with
    | error e => cases h
    | ok y =>
      cases h
      have hkeeps := (henv.force r v).keeps
      rw [show (host.environment depth).force r v = (.value (.ok y), u') from hr] at hkeeps
      exact ⟨x, y, hkeeps.peek (henv.peek_of_force hl), henv.peek_of_force hr, rfl⟩

theorem valueEq_answers {w : World π σ} {x y : k.Val} (hl : w.peek l = some x)
    (hr : w.peek r = some y) :
    host.Answers depth (l.valueEq r) (.ok (decide (x = y))) w := by
  have hleft := Environment.force_known (host.environment depth) hl
  have hknown := World.Undisturbed.known w l x
  have hright := Environment.force_known (host.environment depth)
    (show ((w.note (.asked l.id)).answer l (.value (.ok x))).peek r = some y from hr)
  exact ⟨_, (Exec.bind_of_value hleft).trans ((Exec.bind_of_value hright).trans rfl),
    hknown.trans (.known _ r y)⟩

theorem decides (host : Host π σ) :
    Decides host (tryEq (k := k)) Compares where
  sound {depth l r b u u'} h := by
    rw [tryEq_eq] at h
    split at h
    next hsame =>
      cases h
      exact .inl ⟨hsame, rfl⟩
    next hne => exact .inr ⟨hne, valueEq_sound h⟩
  answers {l r b w} depth h := by
    rw [tryEq_eq]
    rcases h with ⟨rfl, rfl⟩ | ⟨hne, x, y, hl, hr, rfl⟩
    · rw [if_pos rfl]
      exact ⟨w, rfl, .refl w⟩
    · rw [if_neg hne]
      exact valueEq_answers hl hr
  self depth l w := by
    rw [tryEq_eq, if_pos rfl]
    rfl
  keeps {a a' l r b} hkeeps h := by
    rcases h with hsame | ⟨hne, x, y, hl, hr, hb⟩
    · exact .inl hsame
    · exact .inr ⟨hne, x, y, hkeeps.peek hl, hkeeps.peek hr, hb⟩
  symm {a l r b} h := by
    rcases h with ⟨hsame, hb⟩ | ⟨hne, x, y, hl, hr, hb⟩
    · exact .inl ⟨hsame.symm, hb⟩
    · exact .inr ⟨Ne.symm hne, y, x, hr, hl, hb.trans (by simp [eq_comm])⟩
  trans {a l m r b} hlm hmr := by
    rcases hlm with ⟨rfl, -⟩ | ⟨hne, x, y, hl, hm, hxy⟩
    · exact hmr
    · obtain rfl : x = y := by simpa using hxy
      rcases hmr with ⟨rfl, rfl⟩ | ⟨-, y, z, hm', hr, rfl⟩
      · exact .inr ⟨hne, x, x, hl, hm, by simp⟩
      · obtain rfl : x = y := Option.some.inj (hm.symm.trans hm')
        by_cases hsame : l = r
        · -- The handles at both ends share a cell, so the values in the middle agree as well.
          subst hsame
          obtain rfl : x = z := Option.some.inj (hl.symm.trans hr)
          exact .inl ⟨rfl, by simp⟩
        · exact .inr ⟨hsame, x, z, hl, hr, rfl⟩

end Handle

theorem Decides.field {host : Host π σ} {tryEq : S → S → Proc π σ (Except EvalError Bool)}
    {D : Heap π → S → S → Bool → Prop} (h : Decides host tryEq D) (field : R → Int32)
    (rest : R → S) :
    Decides host
      (fun l r => if field l = field r then tryEq (rest l) (rest r) else pure (.ok false))
      (fun heap l r b =>
        (field l ≠ field r ∧ b = false) ∨ (field l = field r ∧ D heap (rest l) (rest r) b)) where
  sound {depth l r b u u'} hrun := by
    by_cases hfield : field l = field r
    · rw [if_pos hfield] at hrun
      exact .inr ⟨hfield, h.sound hrun⟩
    · rw [if_neg hfield] at hrun
      cases hrun
      exact .inl ⟨hfield, rfl⟩
  answers {l r b w} depth hD := by
    rcases hD with ⟨hfield, rfl⟩ | ⟨hfield, hD⟩
    · rw [if_neg hfield]
      exact ⟨w, rfl, .refl w⟩
    · rw [if_pos hfield]
      exact h.answers depth hD
  self depth l w := by
    rw [if_pos rfl]
    exact h.self depth _ w
  keeps {a a' l r b} hkeeps hD := hD.imp_right fun hD => ⟨hD.1, h.keeps hkeeps hD.2⟩
  symm {a l r b} hD := by
    rcases hD with ⟨hfield, hb⟩ | ⟨hfield, hD⟩
    · exact .inl ⟨Ne.symm hfield, hb⟩
    · exact .inr ⟨hfield.symm, h.symm hD⟩
  trans {a l m r b} hlm hmr := by
    rcases hlm with ⟨-, hfalse⟩ | ⟨hfield, hlm⟩
    · cases hfalse
    · rcases hmr with ⟨hne, hb⟩ | ⟨hfield', hmr⟩
      · exact .inl ⟨hfield ▸ hne, hb⟩
      · exact .inr ⟨hfield.trans hfield', h.trans hlm hmr⟩

structure StableEquality (host : Host π σ) (tryEq : R → R → Proc π σ (Except EvalError Bool)) :
    Prop where
  stable : ∀ {depth l r b} {u u' v : World π σ} (depth' : Nat),
    host.run depth (tryEq l r) u = (.value (.ok b), u') → u'.Later v →
      host.Answers depth' (tryEq l r) (.ok b) v ∧ host.Answers depth' (tryEq r l) (.ok b) v
  reflexive : ∀ depth l (w : World π σ), host.run depth (tryEq l l) w = (.value (.ok true), w)
  transitive : ∀ {d d' l m r b} {u u' v v' w : World π σ} (depth : Nat),
    host.run d (tryEq l m) u = (.value (.ok true), u') → u'.Later w →
      host.run d' (tryEq m r) v = (.value (.ok b), v') → v'.Later w →
        host.Answers depth (tryEq l r) (.ok b) w
  unambiguous : ∀ {depth depth' l r b b'} {u u' v v' : World π σ},
    host.run depth (tryEq l r) u = (.value (.ok b), u') → u'.Later v →
      host.run depth' (tryEq l r) v = (.value (.ok b'), v') ∨
        host.run depth' (tryEq r l) v = (.value (.ok b'), v') → b' = b

theorem Decides.answers_later {host : Host π σ}
    {tryEq : R → R → Proc π σ (Except EvalError Bool)} {D : Heap π → R → R → Bool → Prop}
    (h : Decides host tryEq D) {depth : Nat} {l r : R} {b : Bool} {u u' v : World π σ}
    (depth' : Nat) (hrun : host.run depth (tryEq l r) u = (.value (.ok b), u'))
    (hlater : u'.Later v) :
    host.Answers depth' (tryEq l r) (.ok b) v ∧ host.Answers depth' (tryEq r l) (.ok b) v := by
  have hD := h.keeps hlater.keeps (h.sound hrun)
  exact ⟨h.answers depth' hD, h.answers depth' (h.symm hD)⟩

theorem Decides.stableEquality {host : Host π σ}
    {tryEq : R → R → Proc π σ (Except EvalError Bool)} {D : Heap π → R → R → Bool → Prop}
    (h : Decides host tryEq D) : StableEquality host tryEq where
  stable depth' hrun hlater := h.answers_later depth' hrun hlater
  reflexive := h.self
  transitive depth hlm hu hmr hv :=
    h.answers depth
      (h.trans (h.keeps hu.keeps (h.sound hlm)) (h.keeps hv.keeps (h.sound hmr)))
  unambiguous {depth depth' l r b b' u u' v v'} hrun hlater hrun' := by
    obtain ⟨hanswer, hanswer'⟩ := h.answers_later depth' hrun hlater
    rcases hrun' with hrun' | hrun'
    · exact hanswer.unique hrun'
    · exact hanswer'.unique hrun'

theorem A.decides (host : Host π σ) :
    Decides host A.tryEq fun heap l r b =>
      (l.normalField ≠ r.normalField ∧ b = false) ∨
        (l.normalField = r.normalField ∧ l.lazyField.Compares heap r.lazyField b) :=
  (Handle.decides host).field A.normalField A.lazyField

/-- Two records of the same type have one answer for good. The answer that a shared handle gives
at once is never contradicted by the values, which are one value whenever they are there. -/
theorem Host.tryEq_stable (host : Host π σ) :
    StableEquality host A.tryEq ∧ StableEquality host B.tryEq ∧
      ∀ depth (h : Handle k) (w : World π σ),
        (host.run depth (h.valueEq h) w).1 ≠ .value (.ok false) := by
  refine ⟨(A.decides host).stableEquality,
    ((A.decides host).field B.dummyField B.asA).stableEquality, fun depth h w hfalse => ?_⟩
  obtain ⟨x, y, hx, hy, hxy⟩ := Handle.valueEq_sound (Prod.ext hfalse rfl)
  obtain rfl : x = y := Option.some.inj (hx.symm.trans hy)
  simp at hxy

end LazyFields
