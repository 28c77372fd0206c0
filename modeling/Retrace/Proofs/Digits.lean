import Mathlib.Algebra.Group.Nat.Defs
import Retrace.Decimal
/-!
# Digits — numbers are read back from their digits

Digits stand for the number they were written for, in any base and with zeros in front.  Decimal digits have no zero in
front, unless the number is zero, and nothing but digits occurs in them: so they are not taken for anything else.
-/
namespace Retrace
namespace Digits

theorem digit?_digitChar : ∀ base ≤ 16, ∀ d < base, digit? base d.digitChar = some d := by decide

theorem readFrom?_append (base : Nat) : ∀ (cs ds : List Char) (acc : Nat),
    readFrom? base acc (cs ++ ds) = (readFrom? base acc cs).bind fun acc => readFrom? base acc ds
  | [], ds, acc => rfl
  | c :: cs, ds, acc => by
    rw [List.cons_append, readFrom?, readFrom?]
    cases digit? base c with
    | none => rfl
    | some d => exact readFrom?_append base cs ds _

/-- **The digits of a number stand for it.** -/
theorem readFrom?_toDigits {base : Nat} (hlow : 1 < base) (hhigh : base ≤ 16) (n : Nat) :
    readFrom? base 0 (Nat.toDigits base n) = some n := by
  rw [Nat.toDigits_eq_if hlow]
  split
  · rename_i hlt
    simp [readFrom?, digit?_digitChar base hhigh n hlt]
  · have hmod := Nat.mod_lt n (Nat.lt_of_succ_lt hlow)
    have hdec : n / base < n := Nat.div_lt_self (by omega) hlow
    rw [readFrom?_append, readFrom?_toDigits hlow hhigh (n / base), Option.bind_some]
    simp [readFrom?, digit?_digitChar base hhigh _ hmod, Nat.div_add_mod]
termination_by n

theorem readFrom?_zeros {base : Nat} (hbase : 0 < base) (hhigh : base ≤ 16) (cs : List Char) :
    ∀ k, readFrom? base 0 (List.replicate k '0' ++ cs) = readFrom? base 0 cs
  | 0 => rfl
  | k + 1 => by
    rw [List.replicate_succ, List.cons_append, readFrom?, show '0' = Nat.digitChar 0 from rfl,
      digit?_digitChar base hhigh 0 hbase]
    exact readFrom?_zeros hbase hhigh cs k

theorem length_padded {base width n : Nat} (hbase : 1 < base) (hwidth : 0 < width) (hn : n < base ^ width) :
    (padded base width n).length = width := by
  have := (Nat.length_toDigits_le_iff hbase hwidth).2 hn
  simp only [padded, List.length_append, List.length_replicate]
  omega

theorem toDigits_ne_nil (base n : Nat) : Nat.toDigits base n ≠ [] := List.length_pos_iff.1 Nat.length_toDigits_pos

/-- **Padding does not change the number.** -/
theorem read?_padded {base width : Nat} (hbase : 1 < base) (hhigh : base ≤ 16) (n : Nat) :
    read? base (padded base width n) = some n := by
  have hne : (padded base width n).isEmpty = false := by
    rw [List.isEmpty_eq_false_iff]
    exact List.append_ne_nil_of_right_ne_nil _ (toDigits_ne_nil base n)
  rw [read?, hne, padded]
  exact (readFrom?_zeros (by omega) hhigh _ _).trans (readFrom?_toDigits hbase hhigh n)

/-! ## Decimal digits -/

theorem isDigit_of_mem {n : Nat} {c : Char} (hc : c ∈ Nat.toDigits 10 n) : c.isDigit = true :=
  Nat.isDigit_of_mem_toDigits (by decide) (by decide) hc

/-- **A number other than zero has no zero in front.** -/
theorem toDigits_head {n : Nat} (hn : n ≠ 0) : ∃ c rest, Nat.toDigits 10 n = c :: rest ∧ c ≠ '0' := by
  rw [Nat.toDigits_eq_if (by decide)]
  split
  · rename_i hlt
    have hdigit : ∀ d < 10, d ≠ 0 → d.digitChar ≠ '0' := by decide
    exact ⟨_, _, rfl, hdigit n hlt hn⟩
  · -- the first digit is that of a tenth of the number
    obtain ⟨c, rest, hdigits, hc⟩ := toDigits_head (n := n / 10) (by omega)
    exact ⟨c, rest ++ [(n % 10).digitChar], by rw [hdigits]; rfl, hc⟩
termination_by n

theorem read?_toDigits (n : Nat) : read? 10 (Nat.toDigits 10 n) = some n := by
  rw [read?, List.isEmpty_eq_false_iff.2 (toDigits_ne_nil 10 n)]
  exact readFrom?_toDigits (by decide) (by decide) n

end Digits
end Retrace
