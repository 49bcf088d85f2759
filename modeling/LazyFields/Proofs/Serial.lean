import LazyFields.Proofs.Alone

/-!
Accesses to one field that are made alone, one after another. Step by step they come to what a
program comes to that makes them, and an access that has got as far as its production has
already come to what the production comes to.
-/

namespace LazyFields

variable {π : Kind → Type} {σ : Type} {k : Kind} {w w' u u' v : World π σ}

def Handle.gets (h : Handle k) : Nat → Proc π σ (List (Reply k))
  | 0 => return []
  | n + 1 => do
    let r ← .attempt h.get
    return r :: (← h.gets n)

inductive Serial (crew : Crew π σ) (h : Handle k) (w : World π σ) :
    List (Reply k) → World π σ → Prop
  | start : Serial crew h w [] w
  | next {rs : List (Reply k)} {u u' : World π σ} {n : Nat} {r : Reply k} :
      Serial crew h w rs u → Thread.Finishes crew n (Thread.start h.get) u r u' →
      Serial crew h w (rs ++ [r]) u'

namespace Handle

variable {host : Host π σ} {d : Nat} {h : Handle k}

theorem run_gets_succ {n : Nat} {r : Reply k} {rs : List (Reply k)} :
    host.run d (h.gets (n + 1)) w = (.value (r :: rs), w') ↔
      ∃ v, host.run d (.attempt h.get) w = (.value r, v) ∧
        host.run d (h.gets n) v = (.value rs, w') := by
  constructor
  · intro hrun
    obtain ⟨r', v, hr, hrun⟩ := Exec.bind_eq_value_iff.mp hrun
    obtain ⟨rs', v', hrs, hrun⟩ := Exec.bind_eq_value_iff.mp hrun
    cases hrun
    exact ⟨v, hr, hrs⟩
  · rintro ⟨v, hr, hrs⟩
    exact Exec.bind_eq_value_iff.mpr ⟨r, v, hr, Exec.bind_eq_value_iff.mpr ⟨rs, w', hrs, rfl⟩⟩

theorem run_gets_snoc {rs : List (Reply k)} {r : Reply k}
    (hrs : host.run d (h.gets rs.length) w = (.value rs, w'))
    (hr : host.run d (.attempt h.get) w' = (.value r, v)) :
    host.run d (h.gets (rs.length + 1)) w = (.value (rs ++ [r]), v) := by
  induction rs generalizing w with
  | nil =>
    cases hrs
    exact run_gets_succ.mpr ⟨v, hr, rfl⟩
  | cons a rs ih =>
    obtain ⟨u, ha, hrs⟩ := run_gets_succ.mp hrs
    exact run_gets_succ.mpr ⟨u, ha, ih hrs⟩

end Handle

theorem Thread.Finishes.run {crew : Crew π σ} {h : Handle k} {n d : Nat} {r : Reply k}
    (hf : Finishes crew n (Thread.start h.get) u r u') (hd : n ≤ d) (hu : u.Alike v) :
    ∃ v', crew.host.run d (.attempt h.get) v = (.value r, v') ∧ u'.Alike v' := by
  obtain ⟨a, w, n', -, hended, hget⟩ := Thread.simulated crew n h.get .done .none hf
  obtain ⟨v', hv', halike⟩ := hget d v hd hu
  cases hended with
  | step hs => cases hs
  | ended hr =>
    obtain rfl : a = r := Option.some.inj hr
    cases a with
    | ok a => exact ⟨v', by simp [Host.run, Proc.exec, Exec.attempt, hv', Ending.of], halike⟩
    | error message =>
      exact ⟨v'.note (.caught message),
        by simp [Host.run, Proc.exec, Exec.attempt, hv', Ending.of], halike.note_right rfl⟩

theorem Serial.gets {crew : Crew π σ} {h : Handle k} {rs : List (Reply k)}
    (hs : Serial crew h w rs u) :
    ∃ depth, ∀ d, depth ≤ d →
      ∃ v, crew.host.run d (h.gets rs.length) w = (.value rs, v) ∧ u.Alike v := by
  induction hs with
  | start => exact ⟨0, fun d _ => ⟨w, rfl, .refl w⟩⟩
  | @next rs u u' n r hs hf ih =>
    obtain ⟨depth, hgets⟩ := ih
    refine ⟨max depth n, fun d hd => ?_⟩
    have hn : n ≤ d := Nat.le_trans (Nat.le_max_right depth n) hd
    obtain ⟨v, hv, hu⟩ := hgets d (Nat.le_trans (Nat.le_max_left depth n) hd)
    obtain ⟨v', hr, hu'⟩ := hf.run hn hu
    refine ⟨v', ?_, hu'⟩
    rw [List.length_append]
    exact Handle.run_gets_snoc hv hr

namespace Thread

variable {crew : Crew π σ} {h : Handle k} {c : Cell π k}

/-- Whatever the thread comes to from here, an access that is made alone in the world `u` comes
to as well. -/
def Continues (crew : Crew π σ) (h : Handle k) (u : World π σ)
    (t : Thread π σ (Except EvalError k.Val)) (w : World π σ) : Prop :=
  ∀ n r w', Finishes crew n t w r w' →
    ∃ n' u', Finishes crew n' (Thread.start h.get) u r u' ∧ u'.Alike w'

theorem Continues.step {t t' : Thread π σ (Except EvalError k.Val)}
    (hc : Continues crew h u t w) (hs : t.step crew w = some (t', w')) :
    Continues crew h u t' w' :=
  fun n r w₁ hf => hc (n + 1) r w₁ (.step hs hf)

theorem Continues.congr {t : Thread π σ (Except EvalError k.Val)} (hc : Continues crew h u t w)
    (hu : u.Alike u') (hw : w.Alike w') : Continues crew h u' t w' := by
  intro n r w₁ hf
  obtain ⟨w₂, hf₂, hw₂⟩ := hf.alike hw.symm
  obtain ⟨n₃, u₃, hf₃, hu₃⟩ := hc n r w₂ hf₂
  obtain ⟨u₄, hf₄, hu₄⟩ := hf₃.alike hu
  exact ⟨n₃, u₄, hf₄, hu₄.symm.trans (hu₃.trans hw₂.symm)⟩

theorem leave_held (hc : u.heap.cell? h = some c) (hg : c.guard = .free) (r : Reply k)
    (hr : Guard.after r = .free) : ((u.modify h (·.withGuard .held)).leave h r).Alike u := by
  have hsame : (u.heap.modify h (·.withGuard .held)).modify h (·.withGuard (.after r)) =
      u.heap := by
    rw [Heap.modify_modify]
    refine Heap.modify_eq_self hc ?_
    rw [hr]
    cases c with
    | ready => rfl
    | deferred f s value g =>
      obtain rfl : g = .free := hg
      rfl
  have hmodified : ((u.modify h (·.withGuard .held)).modify h
      (·.withGuard (.after r))).Alike u := ⟨hsame, rfl, rfl, rfl⟩
  exact hmodified.note_left rfl

theorem found_alone {v : k.Val} (hc : u.heap.cell? h = some c) (hf : c.flavour = .shared)
    (hv : c.value? = some v) :
    Finishes crew 2 (Thread.start h.get) u (.ok (.ok v))
      ((u.note (.asked h.id)).note (.answered h.id (.value (.of v)))) :=
  .step rfl (.step (Step.found (w := u.note (.asked h.id)) hc hf hv).step (.ended rfl))

theorem refused_alone (hc : u.heap.cell? h = some c) (hf : c.flavour = .shared)
    (hv : c.value? = none) (hg : c.guard = .poisoned) :
    Finishes crew 3 (Thread.start h.get) u (.ok (.error .poisoned))
      ((u.note (.asked h.id)).note (.answered h.id (.error .poisoned))) :=
  .step rfl (.step (Step.wait (w := u.note (.asked h.id)) hc hf hv).step
    (.step (Step.refused (w := u.note (.asked h.id)) hc hf hg).step (.ended rfl)))

theorem enter_alone (hc : u.heap.cell? h = some c) (hf : c.flavour = .shared)
    (hv : c.value? = none) (hg : c.guard = .free) :
    Continues crew h u (.inside h .announce .done .none)
      ((u.note (.asked h.id)).modify h (·.withGuard .held)) := by
  intro n r w' hfinishes
  have hheld : ((u.note (.asked h.id)).modify h (·.withGuard .held)).heap.cell? h =
      some (c.withGuard .held) := by
    rw [World.modify, Heap.cell?_modify, World.heap_note, hc, Option.map_some]
  refine ⟨n + 4, w', .step rfl (.step (Step.wait (w := u.note (.asked h.id)) hc hf hv).step
    (.step (Step.take (w := u.note (.asked h.id)) hc hf hg).step
      (.step (Step.enter hheld ?_ ?_).step hfinishes))), .refl w'⟩
  · rw [Cell.flavour_withGuard, hf]
  · rw [Cell.value?_withGuard, hv]

theorem leave_alone {r : Reply k} (hc : w.heap.cell? h = some c) (hf : c.flavour = .shared)
    (hcontinues : Continues crew h u (.inside h (.release r) .done .none) w) :
    ∃ n u', Finishes crew n (Thread.start h.get) u r u' ∧ (w.leave h r).Alike u' := by
  obtain ⟨n, u', hfinishes, halike⟩ :=
    hcontinues 1 r (w.leave h r) (.step (Step.release hc hf).step (.ended rfl))
  exact ⟨n, u', hfinishes, halike.symm⟩

end Thread

end LazyFields
