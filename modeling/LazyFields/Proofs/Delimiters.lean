import Mathlib
import LazyFields.Text.Decimal

/-!
Texts that fall apart in one way only. A part that lacks a character ends before the character
first comes, or begins after it has come last. Numbers in decimal notation are such parts, since
they are made of digits and a minus sign, and no two numbers are written alike.
-/

namespace LazyFields.Text

section

variable {α : Type} {c : α} {xs ys us vs : List α}

theorem cut_first (hx : c ∉ xs) (hy : c ∉ ys) (h : xs ++ c :: us = ys ++ c :: vs) :
    xs = ys ∧ us = vs := by
  induction xs generalizing ys with
  | nil =>
    cases ys with
    | nil => exact ⟨rfl, (List.cons.inj h).2⟩
    | cons y ys => exact absurd (List.cons.inj h).1 (List.ne_of_not_mem_cons hy)
  | cons x xs ih =>
    cases ys with
    | nil => exact absurd (List.cons.inj h).1.symm (List.ne_of_not_mem_cons hx)
    | cons y ys =>
      obtain ⟨rfl, hrest⟩ := List.cons.inj h
      obtain ⟨rfl, hus⟩ :=
        ih (List.not_mem_of_not_mem_cons hx) (List.not_mem_of_not_mem_cons hy) hrest
      exact ⟨rfl, hus⟩

theorem cut_last (hx : c ∉ xs) (hy : c ∉ ys) (h : us ++ c :: xs = vs ++ c :: ys) :
    us = vs ∧ xs = ys := by
  have hreverse : xs.reverse ++ c :: us.reverse = ys.reverse ++ c :: vs.reverse := by
    simpa using congrArg List.reverse h
  obtain ⟨hxs, hus⟩ := cut_first (by simpa using hx) (by simpa using hy) hreverse
  exact ⟨List.reverse_inj.mp hus, List.reverse_inj.mp hxs⟩

end

variable {c : Char} {a b s t d : String}

/-- A part that lacks the first character of what comes after it ends there. -/
theorem cut_before (hd : d.toList.head? = some c) (ha : c ∉ a.toList) (hb : c ∉ b.toList)
    (h : a ++ (d ++ s) = b ++ (d ++ t)) : a = b ∧ s = t := by
  obtain ⟨rest, hrest⟩ := List.head?_eq_some_iff.mp hd
  have hlist := congrArg String.toList h
  simp only [String.toList_append, hrest, List.cons_append] at hlist
  obtain ⟨hab, hst⟩ := cut_first ha hb hlist
  exact ⟨String.toList_injective hab, String.toList_injective (List.append_cancel_left hst)⟩

theorem cut_after (hd : d.toList.getLast? = some c) (ha : c ∉ a.toList) (hb : c ∉ b.toList)
    (h : s ++ d ++ a = t ++ d ++ b) : s = t ∧ a = b := by
  obtain ⟨rest, hrest⟩ := List.getLast?_eq_some_iff.mp hd
  have hlist := congrArg String.toList h
  simp only [String.toList_append, hrest, List.append_assoc, List.singleton_append] at hlist
  rw [← List.append_assoc, ← List.append_assoc] at hlist
  obtain ⟨hst, hab⟩ := cut_last ha hb hlist
  exact ⟨String.toList_injective (List.append_cancel_right hst), String.toList_injective hab⟩

def isNumeral (c : Char) : Bool := c.isDigit || c = '-'

theorem isNumeral_of_mem_repr {n : Nat} (h : c ∈ n.repr.toList) : isNumeral c = true := by
  rw [Nat.toList_repr] at h
  simp [isNumeral, Nat.isDigit_of_mem_toDigits (by decide) (by decide) h]

theorem isNumeral_of_mem_decimal {n : Int32} (h : c ∈ (decimal n).toList) : isNumeral c = true := by
  rw [decimal, Int.repr_eq_if] at h
  split at h
  · exact isNumeral_of_mem_repr h
  · rw [String.toList_append, List.mem_append] at h
    rcases h with hminus | hdigit
    · obtain rfl : c = '-' := by simpa using hminus
      rfl
    · exact isNumeral_of_mem_repr hdigit

theorem not_mem_repr (hc : isNumeral c = false) (n : Nat) : c ∉ n.repr.toList := fun h =>
  Bool.noConfusion (hc.symm.trans (isNumeral_of_mem_repr h))

theorem not_mem_decimal (hc : isNumeral c = false) (n : Int32) : c ∉ (decimal n).toList := fun h =>
  Bool.noConfusion (hc.symm.trans (isNumeral_of_mem_decimal h))

theorem decimal_inj {m n : Int32} : decimal m = decimal n ↔ m = n :=
  Int.repr_inj.trans Int32.toInt_inj

end LazyFields.Text
