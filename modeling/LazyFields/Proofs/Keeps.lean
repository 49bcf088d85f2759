import LazyFields.Program

/-!
What is never taken away from a cell: its flavour, its producer, and its value once it has
one. Heaps only grow, by new cells and by values of cells that had none.
-/

namespace LazyFields

variable {π : Kind → Type} {σ α : Type} {k : Kind}

structure Cell.Keeps (c d : Cell π k) : Prop where
  flavour : d.flavour = c.flavour
  source? : d.source? = c.source?
  value? : ∀ v, c.value? = some v → d.value? = some v

namespace Cell.Keeps

theorem refl (c : Cell π k) : c.Keeps c := ⟨rfl, rfl, fun _ h => h⟩

theorem trans {c d e : Cell π k} (hcd : c.Keeps d) (hde : d.Keeps e) : c.Keeps e :=
  ⟨hde.flavour.trans hcd.flavour, hde.source?.trans hcd.source?,
    fun v hv => hde.value? v (hcd.value? v hv)⟩

theorem withGuard (g : Guard) (c : Cell π k) : c.Keeps (c.withGuard g) :=
  ⟨by simp, by simp, by simp⟩

theorem fill (v : k.Val) (c : Cell π k) : c.Keeps (c.fill v) := by
  refine ⟨by simp, by simp, ?_⟩
  intro u hu
  rw [value?_fill, hu, Option.getD_some]

end Cell.Keeps

@[simp] theorem World.cell?_start (host : σ) (h : Handle k) :
    (World.start host : World π σ).heap.cell? h = none := by
  cases k <;> rfl

def Heap.Keeps (a b : Heap π) : Prop :=
  ∀ ⦃k : Kind⦄ (h : Handle k) (c : Cell π k), a.cell? h = some c →
    ∃ d, b.cell? h = some d ∧ c.Keeps d

namespace Heap.Keeps

theorem refl (a : Heap π) : a.Keeps a := fun _ _ c hc => ⟨c, hc, .refl c⟩

theorem trans {a b c : Heap π} (hab : a.Keeps b) (hbc : b.Keeps c) : a.Keeps c := by
  intro k h x hx
  obtain ⟨y, hy, hxy⟩ := hab h x hx
  obtain ⟨z, hz, hyz⟩ := hbc h y hy
  exact ⟨z, hz, hxy.trans hyz⟩

theorem peek {a b : Heap π} (hab : a.Keeps b) {h : Handle k} {v : k.Val}
    (hv : a.peek h = some v) : b.peek h = some v := by
  obtain ⟨c, hc, hcv⟩ := Option.bind_eq_some_iff.mp hv
  obtain ⟨d, hd, hcd⟩ := hab h c hc
  simp [Heap.peek, hd, hcd.value? v hcv]

theorem alloc (a : Heap π) (c : Cell π k) : a.Keeps (a.alloc c).2 :=
  fun _ _ d hd => ⟨d, cell?_alloc_of_some a c hd, .refl d⟩

theorem modify (a : Heap π) (h : Handle k) {f : Cell π k → Cell π k}
    (hf : ∀ c : Cell π k, c.Keeps (f c)) :
    a.Keeps (a.modify h f) := by
  intro l h' c hc
  by_cases e : h'.id = h.id
  · obtain ⟨rfl, rfl⟩ := Handle.eq_of_id e
    exact ⟨f c, by rw [cell?_modify, hc, Option.map_some], hf c⟩
  · exact ⟨c, by rw [cell?_modify_of_ne _ _ e, hc], .refl c⟩

end Heap.Keeps

theorem World.store_keeps (w : World π σ) (h : Handle k) (v : k.Val) :
    w.heap.Keeps (w.store h v).2.heap := by
  unfold World.store
  split
  · exact .refl _
  · exact .modify _ h (.fill v)

theorem Quiet.cell?_apply (q : Quiet π σ α) (w : World π σ) {h : Handle k} {c : Cell π k}
    (hc : w.heap.cell? h = some c) : (q.apply w).2.heap.cell? h = some c := by
  cases q with
  | defer f p => exact Heap.cell?_alloc_of_some _ _ hc
  | ready f v => exact Heap.cell?_alloc_of_some _ _ hc
  | scenario p => exact Heap.cell?_alloc_of_some _ _ hc
  | peek h' | evaluations s | host f => exact hc

theorem Quiet.apply_keeps (q : Quiet π σ α) (w : World π σ) :
    w.heap.Keeps (q.apply w).2.heap :=
  fun _ _ c hc => ⟨c, q.cell?_apply w hc, .refl c⟩

theorem World.peek_modify_withGuard (w : World π σ) {l : Kind} (h : Handle l) (g : Guard)
    (h' : Handle k) : (w.modify h (·.withGuard g)).peek h' = w.peek h' := by
  by_cases e : h'.id = h.id
  · obtain ⟨rfl, rfl⟩ := Handle.eq_of_id e
    simp only [peek, Heap.peek, modify, Heap.cell?_modify]
    cases w.heap.cell? h' with
    | none => rfl
    | some c => exact c.value?_withGuard g
  · simp only [peek, Heap.peek, modify, Heap.cell?_modify_of_ne _ _ e]

end LazyFields
