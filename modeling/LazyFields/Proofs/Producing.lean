import LazyFields.Proofs.Guard
import LazyFields.Proofs.Alone

/-!
A thread in the middle of a production. Its producer steps as a thread of its own would, until
it comes back to the access that called it, and all the while the guard is held and the field
has no value.
-/

namespace LazyFields

variable {π : Kind → Type} {σ ρ τ : Type} {k : Kind} {w w' : World π σ}

def Calls.append : {υ : Type} → Calls π σ τ υ → Calls π σ ρ τ → Calls π σ ρ υ
  | _, .none, base => base
  | _, .call h next rest, base => .call h next (rest.append base)

theorem Calls.cells_append {υ : Type} (calls : Calls π σ τ υ) (base : Calls π σ ρ τ) :
    (calls.append base).cells = calls.cells ++ base.cells := by
  induction calls with
  | none => rfl
  | call h next rest ih => simp [append, cells, ih]

namespace Thread

variable {crew : Crew π σ} {h : Handle k} {n : Nat}

def under (base : Calls π σ ρ τ) : Thread π σ τ → Thread π σ ρ
  | .running code calls => .running code (calls.append base)
  | .inside h p next calls => .inside h p next (calls.append base)

theorem access_under {υ : Type} (base : Calls π σ ρ τ) (h : Handle k) (c : Cell π k)
    (next : Reply k → Code π σ υ) (calls : Calls π σ τ υ) (p : Phase k) :
    access crew w h c next (calls.append base) p =
      (access crew w h c next calls p).map fun x => (x.1.under base, x.2) := by
  cases p with
  | look | lookAgain => cases hv : c.value? <;> simp [access, hv, under]
  | lock => cases hg : c.guard <;> simp [access, hg, under]
  | call => cases hs : c.source? <;> simp [access, hs, under, Calls.append]
  | announce | fill | report | release => rfl

theorem step_under (base : Calls π σ ρ τ) {t : Thread π σ τ} (ht : t.result? = none) :
    (t.under base).step crew w = (t.step crew w).map fun x => (x.1.under base, x.2) := by
  cases t with
  | running code calls =>
    cases code with
    | done r =>
      cases calls with
      | none => cases ht
      | call h next rest => rfl
    | quiet q next => rfl
    | get h next => rfl
    | stuck => rfl
  | inside h p next calls =>
    show step crew (.inside h p next (calls.append base)) w = _
    simp only [step]
    cases w.heap.cell? h with
    | none => rfl
    | some c =>
      by_cases hf : c.flavour = .shared
      · simp only [hf, if_true, access_under]
      · simp only [hf, if_false, Option.map_none]

theorem holding_under (base : Calls π σ ρ τ) (t : Thread π σ τ) :
    (t.under base).holding = t.holding ++ base.cells := by
  cases t with
  | running => exact Calls.cells_append _ _
  | inside h p next calls => cases hp : p.guarded <;> simp [under, holding, Calls.cells_append, hp]

end Thread

def Phase.producing : Phase k → Bool
  | .announce | .call | .fill _ | .report _ => true
  | _ => false

namespace Thread

theorem eq_of_result? {t : Thread π σ ρ} {r : Except String ρ} (ht : t.result? = some r) :
    t = .running (.done r) .none := by
  cases t with
  | running code calls =>
    cases code with
    | done r' =>
      cases calls with
      | none =>
        obtain rfl : r' = r := Option.some.inj ht
        rfl
      | call => cases ht
    | quiet | get | stuck => cases ht
  | inside => cases ht

def outcome? : Thread π σ ρ → Option (Except String ρ)
  | .running (.done r) .none => some r
  | .inside _ (.release r) next .none =>
    match next r with
    | .done x => some x
    | _ => none
  | _ => none

/-- The thread is in the middle of a production for the access that it was started for. -/
inductive Busy (h : Handle k) : Thread π σ (Except EvalError k.Val) → Prop
  | producing {p : Phase k} : p.producing = true → Busy h (.inside h p .done .none)
  | calling (t : Thread π σ (Except EvalError k.Val)) : Busy h (t.under (.call h .done .none))

namespace Busy

variable {t t' : Thread π σ (Except EvalError k.Val)}

theorem mem_holding (ht : Busy h t) : h.id ∈ t.holding := by
  cases ht with
  | @producing p hp =>
    have hguarded : p.guarded = true := by cases p <;> first | rfl | cases hp
    simp [holding, hguarded]
  | calling t =>
    rw [holding_under]
    exact List.mem_append_right _ List.mem_cons_self

theorem outcome?_eq_none (ht : Busy h t) : t.outcome? = none := by
  cases ht with
  | @producing p hp => cases p <;> first | rfl | cases hp
  | calling t =>
    cases t with
    | running code calls => cases code <;> cases calls <;> rfl
    | inside h' p next calls => cases p <;> cases calls <;> rfl

theorem eq_none_of_sees (ht : Busy h t) {x : Option Value} (hsees : t.Sees h.id x) : x = none := by
  cases ht with
  | @producing p hp =>
    have hknows : p.knows = some none := by cases p <;> first | rfl | cases hp
    exact hsees.2 rfl none hknows
  | calling t =>
    cases t with
    | running code calls =>
      refine hsees ?_
      rw [Calls.cells_append]
      exact List.mem_append_right _ List.mem_cons_self
    | inside h' p next calls =>
      refine hsees.1 ?_
      rw [Calls.cells_append]
      exact List.mem_append_right _ List.mem_cons_self

theorem step (ht : Busy h t) (hs : t.step crew w = some (t', w')) :
    Busy h t' ∨ ∃ r, t' = .inside h (.release r) .done .none := by
  cases ht with
  | @producing p hp =>
    obtain ⟨c, -, -, haccess⟩ := access_of_step hs
    cases p with
    | look | lock | lookAgain | release => cases hp
    | announce =>
      cases haccess
      exact .inl (.producing rfl)
    | call =>
      cases hsource : c.source? with
      | none => simp [access, hsource] at haccess
      | some s =>
        simp only [access, hsource] at haccess
        cases haccess
        exact .inl (.calling (.running (s.producer.code crew) .none))
    | fill v =>
      cases haccess
      exact .inr ⟨_, rfl⟩
    | report e =>
      cases haccess
      exact .inr ⟨_, rfl⟩
  | calling t =>
    cases hr : t.result? with
    | none =>
      rw [step_under _ hr] at hs
      obtain ⟨x, -, hx⟩ := Option.map_eq_some_iff.mp hs
      cases hx
      exact .inl (.calling x.1)
    | some r =>
      -- The producer has come back.
      obtain rfl := eq_of_result? hr
      cases hs
      rcases r with message | e | v
      · exact .inr ⟨_, rfl⟩
      · exact .inl (.producing rfl)
      · exact .inl (.producing rfl)

end Busy

end Thread

end LazyFields
