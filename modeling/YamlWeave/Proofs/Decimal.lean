import Mathlib.Data.List.Basic
import Mathlib.Data.List.Induction
import YamlWeave.Decimal

/-!
# The canonical decimal form

A whole number has one spelling with nothing to spare: its digits, the first of which is no zero,
after a hyphen when the number is negative, and a single zero for zero. `Canonical` says this of a
text, without regard to any number that it was made from.

**The laws.** The digits of a number that is not zero start with no zero
(`head?_toDigits_ne_zero`), and digits that start with no zero are those of some number
(`IsPositive.exists_eq_toDigits`). So whole numbers are written in the canonical form, and every
text of this form is what some whole number is written as (`canonical_iff`).
-/

set_option autoImplicit false

namespace YamlWeave.Decimal

variable {text : List Char} {n : Nat}

/-! ## What whole numbers are written as -/

/-- A number is written with at least one digit. The reader of plain scalars decides by the first
character, so the later laws of reading start from this shape. -/
theorem exists_toDigits_eq_cons (n : Nat) :
    ∃ c rest, Nat.toDigits 10 n = c :: rest ∧ c.isDigit = true := by
  obtain ⟨c, rest, hdigits⟩ := List.exists_cons_of_ne_nil (Nat.toDigits_ne_nil (n := n) (b := 10))
  have hmem : c ∈ Nat.toDigits 10 n := hdigits ▸ List.mem_cons_self
  exact ⟨c, rest, hdigits, Nat.isDigit_of_mem_toDigits (by decide) (by decide) hmem⟩

/-- The digits of a number that is not zero start with no zero. The first digit is that of a tenth
of the number, as long as the number has two of them. -/
theorem head?_toDigits_ne_zero (h : 0 < n) : (Nat.toDigits 10 n).head? ≠ some '0' := by
  induction n using Nat.strongRecOn with
  | _ n ih =>
    by_cases hlt : n < 10
    · rw [Nat.toDigits_of_lt_base hlt, List.head?_cons]
      intro hzero
      exact Nat.ne_of_gt h (Nat.digitChar_eq_zero.mp (Option.some.inj hzero))
    · rw [Nat.toDigits_of_base_le (by decide) (by omega),
        List.head?_append_of_ne_nil _ Nat.toDigits_ne_nil]
      exact ih (n / 10) (by omega) (by omega)

theorem toList_toString_natCast (n : Nat) : (toString (n : Int)).toList = Nat.toDigits 10 n := by
  rw [Int.toString_eq_repr, Int.repr_eq_if, if_pos (by omega), Int.toNat_natCast, Nat.toList_repr]

/-- A negative number is written as a hyphen and the digits of its amount. Zero is excluded, because
it is written without the hyphen. -/
theorem toList_toString_neg_natCast (h : 0 < n) :
    (toString (-n : Int)).toList = '-' :: Nat.toDigits 10 n := by
  rw [Int.toString_eq_repr, Int.repr_eq_if, if_neg (by omega), Int.neg_neg, Int.toNat_natCast,
    String.toList_append, Nat.toList_repr]
  rfl

/-- A whole number is a natural number, or the negative of one that is not zero. These are the two
ways in which it is written, so laws about its text are proved by these cases. -/
theorem natCast_or_neg (i : Int) : (∃ n : Nat, i = n) ∨ ∃ n : Nat, 0 < n ∧ i = -n := by
  rcases Int.lt_or_le i 0 with hneg | hpos
  · exact .inr ⟨i.natAbs, by omega, by omega⟩
  · exact .inl ⟨i.toNat, by omega⟩

/-! ## The form -/

/-- Digits, one at least, of which the first is no zero. -/
structure IsPositive (text : List Char) : Prop where
  isDigit : ∀ c ∈ text, c.isDigit = true
  nonempty : text ≠ []
  head : text.head? ≠ some '0'

/-- A text in the canonical form of whole numbers. -/
inductive Canonical : List Char → Prop
  | zero : Canonical ['0']
  | positive {text : List Char} (h : IsPositive text) : Canonical text
  | negative {text : List Char} (h : IsPositive text) : Canonical ('-' :: text)

theorem isPositive_toDigits (h : 0 < n) : IsPositive (Nat.toDigits 10 n) where
  isDigit _ := Nat.isDigit_of_mem_toDigits (by decide) (by decide)
  nonempty := Nat.toDigits_ne_nil
  head := head?_toDigits_ne_zero h

/-- The ten characters that count as digits are those of the numbers below ten. -/
theorem exists_digitChar_of_isDigit {c : Char} (h : c.isDigit = true) :
    ∃ d, d < 10 ∧ c = Nat.digitChar d := by
  obtain ⟨hlow, hhigh⟩ := Char.isDigit_iff_toNat.mp h
  have hlow' : 48 ≤ c.toNat := hlow
  have hhigh' : c.toNat ≤ 57 := hhigh
  have hdigit : c.toNat - 48 < 10 := by omega
  refine ⟨c.toNat - 48, hdigit, Char.toNat_inj.mp ?_⟩
  rw [Nat.toNat_digitChar_of_lt_ten hdigit]
  omega

/-- Digits that start with no zero are those of a positive number. The induction takes the digits
from the back, since the number is put together from its front digits and the last one. -/
theorem IsPositive.exists_eq_toDigits (h : IsPositive text) :
    ∃ n, 0 < n ∧ text = Nat.toDigits 10 n := by
  induction text using List.reverseRecOn with
  | nil => exact absurd rfl h.nonempty
  | append_singleton front c ih =>
    obtain ⟨d, hd, rfl⟩ := exists_digitChar_of_isDigit (h.isDigit c (by simp))
    cases front with
    | nil =>
      have hpos : d ≠ 0 := by
        rintro rfl
        exact h.head rfl
      exact ⟨d, Nat.pos_of_ne_zero hpos, (Nat.toDigits_of_lt_base hd).symm⟩
    | cons first rest =>
      have hfront : IsPositive (first :: rest) :=
        ⟨fun c hc => h.isDigit c (List.mem_append_left _ hc), List.cons_ne_nil _ _, h.head⟩
      obtain ⟨m, hm, hdigits⟩ := ih hfront
      refine ⟨10 * m + d, by omega, ?_⟩
      rw [← Nat.toDigits_append_toDigits (by decide) hm hd, Nat.toDigits_of_lt_base hd, hdigits]

/-- The texts in canonical form are those that whole numbers are written as. One direction says that
nothing else is written, the other one that the form leaves no text out. -/
theorem canonical_iff : Canonical text ↔ ∃ i : Int, text = (toString i).toList := by
  have hzero : (toString (0 : Int)).toList = ['0'] := by
    rw [← Int.natCast_zero, toList_toString_natCast, Nat.toDigits_zero]
  constructor
  · intro h
    cases h with
    | zero => exact ⟨0, hzero.symm⟩
    | positive h =>
      obtain ⟨n, -, rfl⟩ := h.exists_eq_toDigits
      exact ⟨n, (toList_toString_natCast n).symm⟩
    | negative h =>
      obtain ⟨n, hn, rfl⟩ := h.exists_eq_toDigits
      exact ⟨-n, (toList_toString_neg_natCast hn).symm⟩
  · rintro ⟨i, rfl⟩
    rcases natCast_or_neg i with ⟨n, rfl⟩ | ⟨n, hn, rfl⟩
    · cases n with
      | zero => exact hzero ▸ .zero
      | succ n => exact toList_toString_natCast (n + 1) ▸ .positive (isPositive_toDigits n.succ_pos)
    · exact toList_toString_neg_natCast hn ▸ .negative (isPositive_toDigits hn)

end YamlWeave.Decimal
