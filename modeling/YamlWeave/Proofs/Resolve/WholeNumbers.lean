import Mathlib
import YamlWeave.Proofs.Decimal
import YamlWeave.Proofs.Resolve.Faults
import YamlWeave.Value.Document

/-!
# Whole numbers as operands

Where a tag takes its operand as text, a whole number stands for its decimal digits, however it was
written. The canonical form is the one spelling that comes out as it went in.

**The laws.** What a whole number is written as is read as this number, as long as it fits 64 bits
(`Plain.value?_toString_eq_int_iff`); the reader tries words, signs, marks for other bases and
leading zeros first, none of which such a text has. Under a tag, an operand with a text is that text
(`Value.resolved_tagged_of_scalarText?`). Together they keep operands that are whole numbers apart
(`whole_numbers_keep_identity`).

Nothing of this holds of spellings that are not canonical: a hexadecimal operand is passed on in
decimal digits.
-/

set_option autoImplicit false

namespace YamlWeave

open Decimal

namespace Plain

variable {text : String} {i j : Int}

/-! ## Reading -/

/-- Whether a text starts as whole numbers do: with a digit or a hyphen. -/
def startsWhole (text : List Char) : Bool :=
  text.head?.any fun c => c.isDigit || c == '-'

/-- What a whole number is written as starts like one. Everything that the reader tries before it
reads digits is ruled out by this alone (`not_word_of_startsWhole`). -/
theorem startsWhole_toString (i : Int) : startsWhole (toString i).toList = true := by
  rcases natCast_or_neg i with ⟨n, rfl⟩ | ⟨n, hn, rfl⟩
  · obtain ⟨c, rest, hdigits, hdigit⟩ := exists_toDigits_eq_cons n
    rw [toList_toString_natCast, hdigits]
    simp [startsWhole, hdigit]
  · rw [toList_toString_neg_natCast hn]
    rfl

/-- The words for null and for truth values, the empty one among them. -/
def words : List String :=
  ["", "null", "Null", "NULL", "~", "true", "True", "TRUE", "false", "False", "FALSE"]

/-- What starts as whole numbers do is no such word. The empty word has no first character, and the
others start with letters or a tilde. -/
theorem not_mem_words (h : startsWhole text.toList = true) : text ∉ words := by
  have hwords : ∀ word ∈ words, startsWhole word.toList = false := by decide
  intro hmem
  exact Bool.false_ne_true ((hwords text hmem).symm.trans h)

theorem not_word_of_startsWhole (h : startsWhole text.toList = true) :
    (text.isEmpty || isNull text) = false ∧ bool? text = none := by
  have hword := not_mem_words h
  simp only [words, List.mem_cons, List.not_mem_nil, or_false, not_or] at hword
  simp [isNull, bool?, hword]

section Digits

variable {c : Char} {rest : List Char}

theorem not_sign_of_isDigit (h : c.isDigit = true) : c ≠ '+' ∧ c ≠ '-' := by
  constructor
  · rintro rfl
    exact absurd h (by decide)
  · rintro rfl
    exact absurd h (by decide)

/-- What starts with a digit has no sign, so none is taken away when leading zeros are looked
for. -/
theorem withoutSign_of_isDigit (h : c.isDigit = true) : withoutSign (c :: rest) = c :: rest := by
  obtain ⟨hplus, hminus⟩ := not_sign_of_isDigit h
  unfold withoutSign
  split
  · next heq => exact absurd (List.cons.inj heq).1 hplus
  · next heq => exact absurd (List.cons.inj heq).1 hminus
  · rfl

/-- What starts with a digit other than zero is read by decimal digits alone. The zero is excluded
because a mark for another base may follow it. -/
theorem magnitude?_of_isDigit (h : c.isDigit = true) (hzero : c ≠ '0') :
    magnitude? (c :: rest) = readDecimal? (c :: rest) := by
  have hplain : hasLeadingZero (c :: rest) = false := by
    rw [hasLeadingZero, withoutSign_of_isDigit h]
    split
    · next heq => exact absurd (List.cons.inj heq).1 hzero
    · rfl
  unfold magnitude?
  split
  · next heq => exact absurd (List.cons.inj heq).1 hzero
  · next heq => exact absurd (List.cons.inj heq).1 hzero
  · next heq => exact absurd (List.cons.inj heq).1 hzero
  · rw [hplain, if_neg Bool.false_ne_true]

theorem int?_of_isDigit (h : c.isDigit = true) :
    int? (c :: rest) = (magnitude? (c :: rest)).map Int.ofNat := by
  obtain ⟨hplus, hminus⟩ := not_sign_of_isDigit h
  unfold int?
  split
  · next heq => exact absurd (List.cons.inj heq).1 hplus
  · next heq => exact absurd (List.cons.inj heq).1 hminus
  · rfl

end Digits

/-- The digits of a number are read as decimal digits, and as this number. -/
theorem readDecimal?_toDigits (n : Nat) : readDecimal? (Nat.toDigits 10 n) = some n := by
  have hdigit : (Nat.toDigits 10 n).all (·.isDigit) = true :=
    List.all_eq_true.mpr fun _ => Nat.isDigit_of_mem_toDigits (by decide) (by decide)
  rw [readDecimal?, hdigit, Nat.ofDigitChars_ten_toDigits]
  simp

/-- The digits of a number are read as it. Zero stands apart: its text starts with the character
that leading zeros and marks for other bases start with. -/
theorem magnitude?_toDigits (n : Nat) : magnitude? (Nat.toDigits 10 n) = some n := by
  obtain ⟨c, rest, hdigits, hdigit⟩ := exists_toDigits_eq_cons n
  by_cases hn : n = 0
  · subst hn
    rw [Nat.toDigits_zero]
    decide
  · have hzero : c ≠ '0' := by
      have hhead := head?_toDigits_ne_zero (Nat.pos_of_ne_zero hn)
      rw [hdigits] at hhead
      rintro rfl
      exact hhead rfl
    rw [hdigits, magnitude?_of_isDigit hdigit hzero, ← hdigits, readDecimal?_toDigits]

/-- The text of a whole number is read as it, before it is asked whether the number fits. The hyphen
of a negative number is the sign that the reader takes off. -/
theorem int?_toString (i : Int) : int? (toString i).toList = some i := by
  rcases natCast_or_neg i with ⟨n, rfl⟩ | ⟨n, hn, rfl⟩
  · obtain ⟨c, rest, hdigits, hdigit⟩ := exists_toDigits_eq_cons n
    rw [toList_toString_natCast, hdigits, int?_of_isDigit hdigit, ← hdigits, magnitude?_toDigits]
    rfl
  · rw [toList_toString_neg_natCast hn, int?, magnitude?_toDigits]
    rfl

/-- The text of a whole number is read as this number exactly where it fits 64 bits, and never as
another one. -/
theorem value?_toString_eq_int_iff :
    value? (toString i) = some (.int j) ↔ fits i = true ∧ j = i := by
  obtain ⟨hnull, hbool⟩ := not_word_of_startsWhole (startsWhole_toString i)
  simp only [value?, hnull, hbool, int?_toString]
  cases hfits : fits i with
  | true => simp [Value.int, eq_comm]
  | false =>
    refine iff_of_false ?_ fun h => Bool.false_ne_true h.1
    simp only [Bool.false_eq_true, if_false]
    split
    · nofun
    · split
      · nofun
      · split <;> nofun

end Plain

/-! ## Operands -/

namespace Value

variable {operand : Value} {text : String}

theorem operandText_of_scalarText? (h : operand.scalarText? = some text) :
    operand.operandText = text := by
  rw [operandText, h, Option.getD_some]

/-- Under a tag, an operand with a text is that text. This holds of every tag, known or not, because
handlers look at the text of a scalar and at nothing else of it. -/
theorem resolved_tagged_of_scalarText? (h : operand.scalarText? = some text) (r : Resolver)
    (tag : Tag) : resolved r (.tagged tag operand) = resolved r (.tagged tag (.string text)) := by
  have hfiles : r.included operand = r.included (.string text) := by
    rw [Resolver.included, Resolver.included, fileNames_of_scalarText? h,
      fileNames_of_scalarText? rfl]
  have htext : operand.operandText = (string text).operandText := operandText_of_scalarText? h
  have henvironment : r.environment tag operand = r.environment tag (.string text) := by
    cases operand <;> simp_all [Resolver.environment, scalarText?, isNull]
  have hdemand : r.demand tag operand = r.demand tag (.string text) := by
    cases operand <;> simp_all [Resolver.demand, scalarText?]
  have hcontent : ∀ place, r.demand tag (.string text) ≠ .content place := by
    intro place h
    unfold Resolver.demand at h
    split at h
    · cases h
    · split at h <;> cases h
  rw [resolved_tagged, resolved_tagged, hdemand, hfiles]
  cases hstring : r.demand tag (.string text) with
  | content place => exact absurd hstring (hcontent place)
  | files => rfl
  | nothing outcome => rfl

end Value

/-- **Whole numbers keep their identity as text.** The text of a whole number is its canonical
decimal form, and as a plain scalar it is read as this number exactly when the number fits 64 bits
with or without a sign. So different numbers have different texts as the names of files and
variables and as operands of functions. A plain scalar in canonical form that is read as a whole
number is passed on as it is written, and under every tag the number is what this text would be. -/
theorem whole_numbers_keep_identity :
    (∀ i : Int, (Value.int i).scalarText? = some (toString i) ∧
      Canonical (toString i).toList ∧
      (Plain.value? (toString i) = some (.int i) ↔ -Int.pow 2 63 ≤ i ∧ i < Int.pow 2 64)) ∧
    (∀ i j : Int, i ≠ j → (Value.int i).fileName ≠ (Value.int j).fileName ∧
      (Value.int i).scalarText? ≠ (Value.int j).scalarText? ∧
      (Value.int i).operandText ≠ (Value.int j).operandText) ∧
    ∀ (text : String) (i : Int), Canonical text.toList → Plain.value? text = some (.int i) →
      (Value.int i).fileName = .ok text ∧ (Value.int i).scalarText? = some text ∧
      (Value.int i).operandText = text ∧
      ∀ tag : Tag, (TagUse.keep tag).scalar? true text = some (.tagged tag (.int i)) ∧
        ∀ r : Resolver, (Value.tagged tag (.int i)).resolved r =
          (Value.tagged tag (.string text)).resolved r := by
  have htext : ∀ i, (Value.int i).scalarText? = some (toString i) := fun i => rfl
  refine ⟨fun i => ⟨htext i, canonical_iff.mpr ⟨i, rfl⟩, ?_⟩, fun i j hne => ?_,
    fun text i hcanonical hvalue => ?_⟩
  · exact Plain.value?_toString_eq_int_iff.trans (by simp [Plain.fits])
  · have hwritten : toString i ≠ toString j := by
      rwa [Int.toString_eq_repr, Int.toString_eq_repr, Ne, Int.repr_inj]
    rw [Value.fileName_eq_ok.mpr (htext i), Value.fileName_eq_ok.mpr (htext j),
      Value.operandText_of_scalarText? (htext i), Value.operandText_of_scalarText? (htext j),
      htext, htext]
    simpa using hwritten
  · obtain ⟨j, hj⟩ := canonical_iff.mp hcanonical
    obtain rfl := String.toList_inj.mp hj
    obtain ⟨-, rfl⟩ := Plain.value?_toString_eq_int_iff.mp hvalue
    refine ⟨Value.fileName_eq_ok.mpr (htext i), htext i, Value.operandText_of_scalarText? (htext i),
      fun tag => ⟨?_, fun r => Value.resolved_tagged_of_scalarText? (htext i) r tag⟩⟩
    rw [TagUse.scalar?, TagUse.untagged?, if_pos rfl, hvalue]
    rfl

/-- The greatest number of 64 bits is passed on, the next one is refused, and a number with a
leading zero is no number. -/
example : Plain.value? "18446744073709551615" = some (.int (Int.pow 2 64 - 1)) ∧
    Plain.value? "18446744073709551616" = none ∧ Plain.value? "-01" = some (.string "-01") := by
  decide +kernel

end YamlWeave
