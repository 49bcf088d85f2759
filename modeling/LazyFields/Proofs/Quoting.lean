import LazyFields.Proofs.Delimiters
import LazyFields.Text.Quoted

/-!
Quoted texts can be read back. What stands for a character tells by itself where it ends: a
character that is written as it is takes one place, a short escape two, and a number ends at its
closing brace. So no two texts are quoted alike.
-/

namespace LazyFields.Text

/-! Numbers in hexadecimal notation, or in another base that has enough digits. -/

section

variable {b m n : Nat} {c : Char}

theorem digitChar_inj : ∀ m < 16, ∀ n < 16, m.digitChar = n.digitChar → m = n := by decide

theorem exists_digit_of_mem_toDigits (hb : 1 < b) (h : c ∈ b.toDigits n) :
    ∃ d < b, c = d.digitChar := by
  induction n using Nat.strongRecOn with
  | ind n ih =>
    by_cases hn : n < b
    · rw [Nat.toDigits_of_lt_base hn, List.mem_singleton] at h
      exact ⟨n, hn, h⟩
    · rw [Nat.toDigits_of_base_le hb (Nat.le_of_not_lt hn), List.mem_append,
        List.mem_singleton] at h
      rcases h with hfirst | hlast
      · exact ih (n / b) (Nat.div_lt_self (by omega) hb) hfirst
      · exact ⟨n % b, Nat.mod_lt _ (by omega), hlast⟩

theorem toDigits_inj (hb : 1 < b) (hb' : b ≤ 16) (h : b.toDigits m = b.toDigits n) : m = n := by
  have hdigit {i j : Nat} (hi : i < b) (hj : j < b) (hij : i.digitChar = j.digitChar) : i = j :=
    digitChar_inj i (by omega) j (by omega) hij
  have hmod (i : Nat) : i % b < b := Nat.mod_lt _ (by omega)
  have hlong (i : Nat) (hi : ¬ i < b) : 1 < (b.toDigits i).length := by
    rw [Nat.toDigits_of_base_le hb (Nat.le_of_not_lt hi), List.length_append,
      List.length_singleton]
    exact Nat.succ_lt_succ Nat.length_toDigits_pos
  induction m using Nat.strongRecOn generalizing n with
  | ind m ih =>
    by_cases hm : m < b <;> by_cases hn : n < b
    · rw [Nat.toDigits_of_lt_base hm, Nat.toDigits_of_lt_base hn] at h
      exact hdigit hm hn (List.cons.inj h).1
    · have hlength := hlong n hn
      rw [← h, Nat.toDigits_of_lt_base hm, List.length_singleton] at hlength
      omega
    · have hlength := hlong m hm
      rw [h, Nat.toDigits_of_lt_base hn, List.length_singleton] at hlength
      omega
    · rw [Nat.toDigits_of_base_le hb (Nat.le_of_not_lt hm),
        Nat.toDigits_of_base_le hb (Nat.le_of_not_lt hn)] at h
      obtain ⟨hfirst, hlast⟩ := List.append_inj' h rfl
      have hdiv := ih (m / b) (Nat.div_lt_self (by omega) hb) hfirst
      have hrest := hdigit (hmod m) (hmod n) (List.cons.inj hlast).1
      rw [← Nat.div_add_mod m b, ← Nat.div_add_mod n b, hdiv, hrest]

theorem brace_notMem_toDigits (n : Nat) : '\x7d' ∉ Nat.toDigits 16 n := by
  intro h
  obtain ⟨d, hd, hbrace⟩ := exists_digit_of_mem_toDigits (by decide) h
  have hnone : ∀ d < 16, '\x7d' ≠ d.digitChar := by decide
  exact hnone d hd hbrace

end

def shorts : List (Char × Char) :=
  [('"', '"'), ('\\', '\\'), ('\x00', '0'), ('\t', 't'), ('\r', 'r'), ('\n', 'n')]

theorem escape_of_mem_shorts : ∀ p ∈ shorts, escape p.1 = ['\\', p.2] := by decide

theorem escape_of_notMem_shorts {c : Char} (h : c ∉ shorts.map Prod.fst) :
    escape c = if isPrintable c then [c] else numbered c := by
  simp only [shorts, List.map_cons, List.map_nil, List.mem_cons, List.not_mem_nil, or_false,
    not_or] at h
  simp [escape, h]

inductive Escapes (c : Char) : List Char → Prop
  | plain : c ≠ '\\' → Escapes c [c]
  | short {x : Char} : (c, x) ∈ shorts → Escapes c ['\\', x]
  | byNumber : Escapes c (numbered c)

theorem escapes (c : Char) : Escapes c (escape c) := by
  by_cases hc : c ∈ shorts.map Prod.fst
  · obtain ⟨⟨_, x⟩, hmem, rfl⟩ := List.mem_map.mp hc
    rw [escape_of_mem_shorts _ hmem]
    exact .short hmem
  · rw [escape_of_notMem_shorts hc]
    split
    · refine .plain fun hbackslash => hc ?_
      subst hbackslash
      decide
    · exact .byNumber

theorem Escapes.inj {c d : Char} {x y s t : List Char} (hx : Escapes c x) (hy : Escapes d y)
    (h : x ++ s = y ++ t) : c = d ∧ s = t := by
  have hnumber : ∀ p ∈ shorts, p.2 ≠ 'u' := by decide
  have hshort : ∀ p ∈ shorts, ∀ q ∈ shorts, p.2 = q.2 → p.1 = q.1 := by decide
  cases hx <;> cases hy
  case plain.plain => exact List.cons.inj h
  case plain.short hc _ _ => exact absurd (List.cons.inj h).1 hc
  case plain.byNumber hc => exact absurd (List.cons.inj h).1 hc
  case short.plain hd => exact absurd (List.cons.inj h).1.symm hd
  case byNumber.plain hd => exact absurd (List.cons.inj h).1.symm hd
  case short.short hc _ hd =>
    obtain ⟨hletter, hst⟩ := List.cons.inj (List.cons.inj h).2
    exact ⟨hshort _ hc _ hd hletter, hst⟩
  case short.byNumber hc => exact absurd (List.cons.inj (List.cons.inj h).2).1 (hnumber _ hc)
  case byNumber.short hd => exact absurd (List.cons.inj (List.cons.inj h).2).1.symm (hnumber _ hd)
  case byNumber.byNumber =>
    simp only [numbered, List.cons_append, List.append_assoc, List.nil_append, List.cons.injEq,
      true_and] at h
    obtain ⟨hdigits, hst⟩ := cut_first (brace_notMem_toDigits _) (brace_notMem_toDigits _) h
    exact ⟨Char.toNat_inj.mp (toDigits_inj (by decide) (by decide) hdigits), hst⟩

theorem flatMap_escape_inj {s t : List Char} (h : s.flatMap escape = t.flatMap escape) : s = t := by
  induction s generalizing t with
  | nil =>
    cases t with
    | nil => rfl
    | cons d t => exact absurd (List.append_eq_nil_iff.mp h.symm).1 (escape_ne_nil d)
  | cons c s ih =>
    cases t with
    | nil => exact absurd (List.append_eq_nil_iff.mp h).1 (escape_ne_nil c)
    | cons d t =>
      rw [List.flatMap_cons, List.flatMap_cons] at h
      obtain ⟨rfl, hst⟩ := (escapes c).inj (escapes d) h
      rw [ih hst]

theorem quoted_inj {s t : String} : quoted s = quoted t ↔ s = t := by
  refine ⟨fun h => ?_, congrArg quoted⟩
  have hlist := congrArg String.toList h
  rw [toList_quoted, toList_quoted] at hlist
  have hinner := List.append_cancel_right (List.cons.inj hlist).2
  exact String.toList_injective (flatMap_escape_inj hinner)

end LazyFields.Text
