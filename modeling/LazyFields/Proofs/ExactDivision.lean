import Mathlib.Data.Rat.Floor
import Mathlib.Tactic.FieldSimp
import Mathlib.Tactic.Linarith
import LazyFields.Force

/-!
The division of machine integers is exact. Its answer is the rational quotient with the fraction
cut off, which is the one integer that leaves a small remainder on the side of the dividend. No
quotient wraps around: the only one that is no machine integer is reported, as is a zero divisor.
-/

namespace LazyFields

def cutOff (x : ℚ) : ℤ := if 0 ≤ x then ⌊x⌋ else ⌈x⌉

/-- What `q` leaves of the dividend is smaller than the divisor, and on the side of the dividend if
it is anything. -/
def IsQuotient (a b q : ℤ) : Prop :=
  ∃ r, a = q * b + r ∧ |r| < |b| ∧ (r = 0 ∨ r.sign = a.sign)

section

variable {a b q r : ℤ}

theorem isQuotient_tdiv (hb : b ≠ 0) : IsQuotient a b (a.tdiv b) := by
  refine ⟨a.tmod b, (Int.tdiv_mul_add_tmod a b).symm, ?_, ?_⟩
  · have hlt : a.natAbs % b.natAbs < b.natAbs := Nat.mod_lt _ (Int.natAbs_pos.mpr hb)
    rw [Int.abs_eq_natAbs, Int.abs_eq_natAbs, Int.natAbs_tmod]
    exact_mod_cast hlt
  · by_cases hdvd : b ∣ a
    · exact .inl (Int.tmod_eq_zero_of_dvd hdvd)
    · exact .inr (by rw [Int.sign_tmod, if_neg hdvd])

theorem nonneg_of_side (hside : r = 0 ∨ r.sign = a.sign) (ha : 0 ≤ a) : 0 ≤ r := by
  rcases hside with rfl | hsign
  · exact le_rfl
  · rwa [← Int.sign_nonneg_iff, hsign, Int.sign_nonneg_iff]

theorem nonpos_of_side (hside : r = 0 ∨ r.sign = a.sign) (ha : a ≤ 0) : r ≤ 0 := by
  rcases hside with rfl | hsign
  · exact le_rfl
  · rwa [← Int.sign_nonpos_iff, hsign, Int.sign_nonpos_iff]

theorem IsQuotient.exists_fraction (h : IsQuotient a b q) :
    ∃ t : ℚ, (a / b : ℚ) = q + t ∧ |t| < 1 ∧ (0 ≤ (a / b : ℚ) → 0 ≤ t) ∧
      ((a / b : ℚ) ≤ 0 → t ≤ 0) := by
  obtain ⟨r, ha, hr, hside⟩ := h
  have hb : 0 < |b| := lt_of_le_of_lt (abs_nonneg r) hr
  have hexact : (a / b : ℚ) = q + r / b := by
    have hb : (b : ℚ) ≠ 0 := by exact_mod_cast abs_pos.mp hb
    rw [ha]
    push_cast
    field_simp
  have hsmall : |(r / b : ℚ)| < 1 := by
    rw [abs_div, div_lt_one (by exact_mod_cast hb)]
    exact_mod_cast hr
  have hnonneg : (0 : ℚ) ≤ a → (0 : ℚ) ≤ r := by exact_mod_cast nonneg_of_side hside
  have hnonpos : (a : ℚ) ≤ 0 → (r : ℚ) ≤ 0 := by exact_mod_cast nonpos_of_side hside
  refine ⟨r / b, hexact, hsmall, fun hx => ?_, fun hx => ?_⟩
  · exact div_nonneg_iff.mpr
      ((div_nonneg_iff.mp hx).imp (And.imp_left hnonneg) (And.imp_left hnonpos))
  · exact div_nonpos_iff.mpr
      ((div_nonpos_iff.mp hx).imp (And.imp_left hnonneg) (And.imp_left hnonpos))

theorem IsQuotient.eq_cutOff (h : IsQuotient a b q) : q = cutOff (a / b) := by
  obtain ⟨t, hexact, hsmall, hnonneg, hnonpos⟩ := h.exists_fraction
  obtain ⟨hlow, hhigh⟩ := abs_lt.mp hsmall
  symm
  unfold cutOff
  split
  next hx =>
    have ht := hnonneg hx
    exact Int.floor_eq_iff.mpr ⟨by linarith, by linarith⟩
  next hx =>
    have ht := hnonpos (le_of_not_ge hx)
    exact Int.ceil_eq_iff.mpr ⟨by linarith, by linarith⟩

theorem tdiv_eq_cutOff (a b : ℤ) : a.tdiv b = cutOff (a / b) := by
  by_cases hb : b = 0
  · simp [hb, cutOff]
  · exact (isQuotient_tdiv hb).eq_cutOff

theorem isQuotient_iff (hb : b ≠ 0) : IsQuotient a b q ↔ q = a.tdiv b := by
  rw [tdiv_eq_cutOff]
  refine ⟨IsQuotient.eq_cutOff, ?_⟩
  rintro rfl
  rw [← tdiv_eq_cutOff]
  exact isQuotient_tdiv hb

end

variable {a b : Int32}

theorem overflows_iff : (a = Int32.minValue ∧ b = -1) ↔ a.toInt = -2 ^ 31 ∧ b.toInt = -1 :=
  and_congr Int32.toInt_inj.symm Int32.toInt_inj.symm

theorem toInt_div_of_ne (h : ¬ (a = Int32.minValue ∧ b = -1)) :
    (a / b).toInt = a.toInt.tdiv b.toInt := by
  by_cases ha : a = Int32.minValue
  · exact Int32.toInt_div_of_ne_right a b fun hb => h ⟨ha, hb⟩
  · exact Int32.toInt_div_of_ne_left a b ha

theorem exists_toInt_eq_tdiv_iff :
    (∃ q : Int32, q.toInt = a.toInt.tdiv b.toInt) ↔ ¬ (a = Int32.minValue ∧ b = -1) := by
  constructor
  · rintro ⟨q, hq⟩ ⟨rfl, rfl⟩
    have hlt := q.toInt_lt
    rw [hq] at hlt
    exact absurd hlt (by decide)
  · exact fun h => ⟨a / b, toInt_div_of_ne h⟩

theorem checkedDiv_error_iff :
    (∃ text, checkedDiv a b = .error (.arithmetic text)) ↔
      b = 0 ∨ a = Int32.minValue ∧ b = -1 := by
  unfold checkedDiv
  split
  next hb => simp [hb]
  next hb =>
    split
    next h => simp [h]
    next h => simp [hb, h]

theorem checkedDiv_ok (hb : b ≠ 0) (h : ¬ (a = Int32.minValue ∧ b = -1)) :
    checkedDiv a b = .ok (a / b) := by
  simp only [checkedDiv, if_neg hb, if_neg h]

/-- A division has an error for its answer exactly when it has no quotient among the machine
integers, and otherwise the quotient. A producer that divides comes to its answer in every world. -/
theorem checkedDiv_exact {π : Kind → Type} {σ : Type} (env : Environment π σ) (w : World π σ)
    (a b : Int32) :
    env.produce (.division a b) w = (.value (checkedDiv a b), w) ∧
      ((∃ text, checkedDiv a b = .error (.arithmetic text)) ↔
        b = 0 ∨ ¬ ∃ q : Int32, q.toInt = cutOff (a.toInt / b.toInt)) ∧
      ((¬ ∃ q : Int32, q.toInt = cutOff (a.toInt / b.toInt)) ↔
        a.toInt = -2 ^ 31 ∧ b.toInt = -1) ∧
      ((∃ text, checkedDiv a b = .error (.arithmetic text)) ∨
        ∃ q, checkedDiv a b = .ok q ∧ ∀ z, IsQuotient a.toInt b.toInt z ↔ z = q.toInt) := by
  rw [← tdiv_eq_cutOff, exists_toInt_eq_tdiv_iff, not_not, checkedDiv_error_iff]
  refine ⟨rfl, Iff.rfl, overflows_iff, ?_⟩
  by_cases hb : b = 0
  · exact .inl (.inl hb)
  by_cases h : a = Int32.minValue ∧ b = -1
  · exact .inl (.inr h)
  · refine .inr ⟨a / b, checkedDiv_ok hb h, fun z => ?_⟩
    have hb' : b.toInt ≠ 0 := fun e => hb (Int32.toInt_inj.mp e)
    rw [isQuotient_iff hb', toInt_div_of_ne h]

example : checkedDiv (-7) 2 = .ok (-3) := by decide

end LazyFields
