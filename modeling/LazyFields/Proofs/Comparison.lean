import LazyFields.Proofs.StableEquality
import LazyFields.Proofs.Updates

/-!
Comparisons taken apart. Plain fields that differ and handles that are the same decide a
comparison where it stands. All others come down to at most two accesses, the left one first, and
the right one in the world that the left one leaves.
-/

namespace LazyFields

variable {π : Kind → Type} {σ ε α β : Type} {k : Kind} {host : Host π σ} {depth : Nat}
  {w w' : World π σ}

/-- What hands out no value ends all that would have used the value, in its own way. -/
inductive Ending.Stops : Ending (Except ε α) → Ending (Except ε β) → Prop
  | failed (x : ε) : Stops (.value (.error x)) (.value (.error x))
  | panicked (message : String) : Stops (.panicked message) (.panicked message)
  | halted (reason : Halt) : Stops (.halted reason) (.halted reason)

/-- The ways in which a comparison can go, of records that hold these handles and whose plain
fields agree or not. -/
inductive Host.Equates (host : Host π σ) (depth : Nat) (agree : Prop) (l r : Handle k)
    (w : World π σ) : Ending (Except EvalError Bool) → World π σ → Prop
  | differ : ¬ agree → Equates host depth agree l r w (.value (.ok false)) w
  | same : agree → l = r → Equates host depth agree l r w (.value (.ok true)) w
  | left {x : Ending (Except EvalError k.Val)} {e : Ending (Except EvalError Bool)}
      {w' : World π σ} :
      agree → l ≠ r → host.run depth l.get w = (x, w') → x.Stops e →
      Equates host depth agree l r w e w'
  | right {v : k.Val} {x : Ending (Except EvalError k.Val)} {e : Ending (Except EvalError Bool)}
      {w₁ w' : World π σ} :
      agree → l ≠ r → host.run depth l.get w = (.value (.ok v), w₁) →
      host.run depth r.get w₁ = (x, w') → x.Stops e → Equates host depth agree l r w e w'
  | both {v v' : k.Val} {w₁ w' : World π σ} :
      agree → l ≠ r → host.run depth l.get w = (.value (.ok v), w₁) →
      host.run depth r.get w₁ = (.value (.ok v'), w') →
      Equates host depth agree l r w (.value (.ok (decide (v = v')))) w'

def Exec.thenWith (x : Exec π σ (Except ε α)) (f : α → Exec π σ (Except ε β)) :
    Exec π σ (Except ε β) :=
  x >>= fun
    | .error y => pure (.error y)
    | .ok v => f v

theorem Exec.thenWith_eq_iff {x : Exec π σ (Except ε α)} {f : α → Exec π σ (Except ε β)}
    {e : Ending (Except ε β)} :
    x.thenWith f w = (e, w') ↔
      (∃ y, x w = (y, w') ∧ y.Stops e) ∨ ∃ v w₁, x w = (.value (.ok v), w₁) ∧ f v w₁ = (e, w') := by
  rw [thenWith, bind_def]
  rcases x w with ⟨(y | v) | message | reason, w₁⟩
  · constructor
    · rintro ⟨⟩
      exact .inl ⟨_, rfl, .failed y⟩
    · rintro (⟨_, ⟨⟩, ⟨⟩⟩ | ⟨_, _, ⟨⟩, -⟩)
      rfl
  · constructor
    · exact fun h => .inr ⟨v, w₁, rfl, h⟩
    · rintro (⟨_, ⟨⟩, ⟨⟩⟩ | ⟨_, _, ⟨⟩, h⟩)
      exact h
  · constructor
    · rintro ⟨⟩
      exact .inl ⟨_, rfl, .panicked message⟩
    · rintro (⟨_, ⟨⟩, ⟨⟩⟩ | ⟨_, _, ⟨⟩, -⟩)
      rfl
  · constructor
    · rintro ⟨⟩
      exact .inl ⟨_, rfl, .halted reason⟩
    · rintro (⟨_, ⟨⟩, ⟨⟩⟩ | ⟨_, _, ⟨⟩, -⟩)
      rfl

namespace Handle

variable {l r : Handle k} {e : Ending (Except EvalError Bool)}

theorem run_valueEq (host : Host π σ) (depth : Nat) (l r : Handle k) :
    host.run depth (l.valueEq r) =
      (host.run depth l.get).thenWith fun v => (host.run depth r.get).thenWith fun v' =>
        pure (.ok (decide (v = v'))) := by
  refine congrArg (host.run depth l.get >>= ·) (funext fun x => ?_)
  rcases x with _ | v
  · rfl
  · refine congrArg (host.run depth r.get >>= ·) (funext fun x => ?_)
    rcases x with _ | v' <;> rfl

theorem tryEq_iff :
    host.run depth (l.tryEq r) w = (e, w') ↔ host.Equates depth True l r w e w' := by
  rw [tryEq_eq]
  by_cases hsame : l = r
  · rw [if_pos hsame]
    constructor
    · rintro ⟨⟩
      exact .same trivial hsame
    · rintro (hdiffer | _ | ⟨-, hne⟩ | ⟨-, hne⟩ | ⟨-, hne⟩)
      · exact absurd trivial hdiffer
      · rfl
      all_goals exact absurd hsame hne
  · rw [if_neg hsame, run_valueEq]
    simp only [Exec.thenWith_eq_iff]
    constructor
    · rintro (⟨x, hl, hx⟩ | ⟨v, w₁, hl, ⟨x, hr, hx⟩ | ⟨v', w₂, hr, ⟨⟩⟩⟩)
      · exact .left trivial hsame hl hx
      · exact .right trivial hsame hl hr hx
      · exact .both trivial hsame hl hr
    · rintro (hdiffer | ⟨-, heq⟩ | ⟨-, -, hl, hx⟩ | ⟨-, -, hl, hr, hx⟩ | ⟨-, -, hl, hr⟩)
      · exact absurd trivial hdiffer
      · exact absurd heq hsame
      · exact .inl ⟨_, hl, hx⟩
      · exact .inr ⟨_, _, hl, .inl ⟨_, hr, hx⟩⟩
      · exact .inr ⟨_, _, hl, .inr ⟨_, _, hr, rfl⟩⟩

end Handle

theorem Host.equates_field {p agree : Prop} [Decidable p] {l r : Handle k}
    {x : Proc π σ (Except EvalError Bool)} {e : Ending (Except EvalError Bool)}
    (hx : host.run depth x w = (e, w') ↔ host.Equates depth agree l r w e w') :
    host.run depth (if p then x else pure (.ok false)) w = (e, w') ↔
      host.Equates depth (p ∧ agree) l r w e w' := by
  by_cases hp : p
  · rw [if_pos hp, hx, and_iff_right hp]
  · rw [if_neg hp]
    constructor
    · rintro ⟨⟩
      exact .differ fun h => hp h.1
    · rintro (_ | ⟨h, -⟩ | ⟨h, -⟩ | ⟨h, -⟩ | ⟨h, -⟩)
      · rfl
      all_goals exact absurd h.1 hp

theorem A.tryEq_iff {l r : A} {e : Ending (Except EvalError Bool)} :
    host.run depth (l.tryEq r) w = (e, w') ↔
      host.Equates depth (l.normalField = r.normalField) l.lazyField r.lazyField w e w' := by
  rw [← and_true (l.normalField = r.normalField)]
  exact Host.equates_field Handle.tryEq_iff

namespace B

theorem tryEq_of_dummyField {l r : B} (h : l.dummyField = r.dummyField) :
    (l.tryEq r : Proc π σ _) = l.asA.tryEq r.asA := if_pos h

theorem lazyField_updates_of_plain (b : B) {us : List Update}
    (hus : ∀ u ∈ us, u.lazyField? = none) : (b.updates us).lazyField = b.lazyField := by
  rw [lazyField_updates, lastWrite?, List.filterMap_eq_nil_iff.mpr hus]
  rfl

theorem tryEq_of_same (host : Host π σ) (depth : Nat) {l r : B} (h : l.lazyField = r.lazyField)
    (w : World π σ) :
    host.run depth (l.tryEq r) w =
      (.value (.ok (decide (l.normalField = r.normalField ∧ l.dummyField = r.dummyField))), w) := by
  by_cases hdummy : l.dummyField = r.dummyField
  · rw [tryEq_of_dummyField hdummy, A.tryEq_iff]
    by_cases hnormal : l.normalField = r.normalField
    · rw [decide_eq_true ⟨hnormal, hdummy⟩]
      exact .same hnormal h
    · rw [decide_eq_false fun hboth => hnormal hboth.1]
      exact .differ hnormal
  · rw [decide_eq_false fun hboth => hdummy hboth.2]
    exact Host.equates_field (x := l.asA.tryEq r.asA) A.tryEq_iff |>.mpr
      (.differ fun hboth => hdummy hboth.1)

end B

structure Host.ComparesExactly (host : Host π σ) : Prop where
  base : ∀ (depth : Nat) (l r : A) (w w' : World π σ) (e : Ending (Except EvalError Bool)),
    host.run depth (l.tryEq r) w = (e, w') ↔
      host.Equates depth (l.normalField = r.normalField) l.lazyField r.lazyField w e w'
  extended : ∀ (depth : Nat) (l r : B) (w w' : World π σ) (e : Ending (Except EvalError Bool)),
    host.run depth (l.tryEq r) w = (e, w') ↔
      host.Equates depth (l.dummyField = r.dummyField ∧ l.normalField = r.normalField)
        l.lazyField r.lazyField w e w'
  delegates : ∀ (depth : Nat) (l r : B), l.dummyField = r.dummyField →
    host.run depth (l.tryEq r) = host.run depth (l.asA.tryEq r.asA)
  /-- Updates of plain fields carry the lazy field along, so nothing has to be accessed. -/
  updated : ∀ (depth : Nat) (b : B) (us vs : List B.Update) (w : World π σ),
    (∀ u ∈ us, u.lazyField? = none) → (∀ u ∈ vs, u.lazyField? = none) →
      host.run depth ((b.updates us).tryEq (b.updates vs)) w =
        (.value (.ok (decide ((b.updates us).normalField = (b.updates vs).normalField ∧
          (b.updates us).dummyField = (b.updates vs).dummyField))), w)

/-- A comparison accesses the left field and then the right one, and neither unless the plain
fields agree and the handles are different; the first access that hands out no value is the
last. -/
theorem Host.compares_exactly (host : Host π σ) : host.ComparesExactly where
  base _ _ _ _ _ _ := A.tryEq_iff
  extended _ l r _ _ _ := equates_field (x := l.asA.tryEq r.asA) A.tryEq_iff
  delegates _ _ _ h := by rw [B.tryEq_of_dummyField h]
  updated depth b _ _ w hus hvs := by
    refine B.tryEq_of_same host depth ?_ w
    rw [b.lazyField_updates_of_plain hus, b.lazyField_updates_of_plain hvs]

end LazyFields
