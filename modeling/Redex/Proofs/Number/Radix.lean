import Redex.Number.Numeral
import Redex.Proofs.Number.Naturals
import Redex.Proofs.Text.Trimming
import Mathlib.Data.List.Induction
import Mathlib.Data.List.Infix
import Mathlib.Data.Bool.AllAny

/-! Radix literals. Their digits are taken in one at a time and each time the number so far is
rounded. While the digits denote less than 2^53 nothing is lost; the digit that brings them there may
be rounded away, and those after it are less than half of the gap above the number and only scale it.
So a literal reads as its first digits followed by zeros would, rounded once. That is the number
nearest to the literal itself unless those first digits are a tie that goes down. -/
namespace Redex.Numeral

open Binary64

variable {i j n radix digit bits : Nat}

theorem shiftIn_ofIndex (positive : 0 < radix) (small : radix < 2 ^ 53) (single : digit < radix)
    (exact : units j = units i * radix) :
    shiftIn radix (ofIndex false i) digit =
      ofIndex false (nearest (units i * radix + digit * one) 1) := by
  rw [shiftIn, mul_ofNat positive small exact, add_ofNat (single.trans small), exact]

/-- Takes one more digit into a natural that is exact below 2^53 only. -/
def settle (radix n digit : Nat) : Nat :=
  if 2 ^ 53 ≤ n then n * radix else n * radix + digit

/-- Scaling the number nearest to a natural by a radix is exact. -/
theorem exists_scaled (n bits : Nat) : ∃ j, units j = units (indexOf n) * 2 ^ bits := by
  rcases Nat.eq_zero_or_pos n with rfl | positive
  · exact ⟨0, by rw [units_indexOf (by decide), Nat.zero_mul, Nat.zero_mul, units_zero]⟩
  · exact ⟨_, units_add_binades ((nearest_indexOf n).normal (binade_le_natural positive)) bits⟩

/-- One digit: the number so far stays the rounding of what the digits are settled to. -/
theorem shiftIn_ofNat (short : bits < 53) (single : digit < 2 ^ bits) :
    shiftIn (2 ^ bits) (ofNat n) digit = ofNat (settle (2 ^ bits) n digit) := by
  have small : 2 ^ bits < 2 ^ 53 := Nat.pow_lt_pow_right (by decide) short
  obtain ⟨j, exact⟩ := exists_scaled n bits
  rw [ofNat_eq, ofNat_eq, shiftIn_ofIndex (Nat.two_pow_pos bits) small single exact, settle]
  refine congrArg (ofIndex false) ?_
  split
  next large => exact nearest_scaled_add large single
  next exact =>
    rw [units_indexOf (not_le.mp exact), Nat.mul_right_comm, ← Nat.add_mul]
    rfl

/-! ## The digits of a literal -/

/-- The value of a digit or of a letter in either case. -/
def digitValue (c : Char) : Nat := "0123456789abcdef".toList.idxOf c.toLower

/-- The natural that digits denote in a radix. -/
def denoted (radix : Nat) (digits : List Char) : Nat :=
  digits.foldl (fun n c => n * radix + digitValue c) 0

/-- What digits are settled to. -/
def settled (radix : Nat) (digits : List Char) : Nat :=
  digits.foldl (fun n c => settle radix n (digitValue c)) 0

variable {c mark : Char} {digits alphabet : List Char}

theorem denoted_concat (first : List Char) (c : Char) :
    denoted radix (first ++ [c]) = denoted radix first * radix + digitValue c :=
  List.foldl_concat ..

theorem denoted_append (first rest : List Char) :
    denoted radix (first ++ rest) = denoted radix first * radix ^ rest.length + denoted radix rest := by
  induction rest using List.reverseRecOn with
  | nil => simp [denoted]
  | append_singleton rest c ih =>
    rw [← List.append_assoc, denoted_concat, ih, denoted_concat, List.length_append,
      List.length_singleton, Nat.pow_succ]
    ring

theorem denoted_lt (below : ∀ c ∈ digits, digitValue c < radix) :
    denoted radix digits < radix ^ digits.length := by
  induction digits using List.reverseRecOn with
  | nil => exact Nat.one_pos
  | append_singleton digits c ih =>
    rw [denoted_concat, List.length_append, List.length_singleton, Nat.pow_succ]
    have single := below c (by simp)
    calc denoted radix digits * radix + digitValue c
        < denoted radix digits * radix + radix := Nat.add_lt_add_left single _
      _ = (denoted radix digits + 1) * radix := by ring
      _ ≤ radix ^ digits.length * radix :=
          Nat.mul_le_mul_right _ (ih fun c member => below c (List.mem_append_left _ member))

/-- Digits are settled to the first of them, up to where they reach 2^53, with zeros after them. -/
theorem exists_settled (positive : 0 < radix) (digits : List Char) : ∃ kept rest,
    digits = kept ++ rest ∧ (rest ≠ [] → 2 ^ 53 ≤ denoted radix kept) ∧
      (∀ shorter, shorter <+: kept → shorter ≠ kept → denoted radix shorter < 2 ^ 53) ∧
      settled radix digits = denoted radix kept * radix ^ rest.length := by
  induction digits using List.reverseRecOn with
  | nil =>
    refine ⟨[], [], rfl, by simp, ?_, rfl⟩
    intro shorter before other
    exact absurd (List.prefix_nil.mp before) other
  | append_singleton digits c ih =>
    obtain ⟨kept, rest, split, reached, before, value⟩ := ih
    have step : settled radix (digits ++ [c]) =
        settle radix (settled radix digits) (digitValue c) := List.foldl_concat ..
    -- One more digit is among the first ones until these have reached 2^53.
    by_cases full : 2 ^ 53 ≤ denoted radix kept
    · refine ⟨kept, rest ++ [c], by rw [split, List.append_assoc], fun _ => full, before, ?_⟩
      have large : 2 ^ 53 ≤ denoted radix kept * radix ^ rest.length :=
        full.trans (Nat.le_mul_of_pos_right _ (Nat.pow_pos positive))
      rw [step, value, settle, if_pos large, List.length_append, List.length_singleton,
        Nat.pow_succ, Nat.mul_assoc]
    · obtain rfl : rest = [] := by
        by_contra some
        exact full (reached some)
      rw [List.length_nil, Nat.pow_zero, Nat.mul_one] at value
      rw [List.append_nil] at split
      refine ⟨kept ++ [c], [], by rw [split, List.append_nil], by simp, ?_, ?_⟩
      · intro shorter start other
        rcases List.prefix_concat_iff.mp start with same | start
        · exact absurd same other
        · rcases eq_or_ne shorter kept with rfl | other
          · exact not_le.mp full
          · exact before shorter start other
      · rw [step, value, settle, if_neg full, denoted_concat, List.length_nil, Nat.pow_zero,
          Nat.mul_one]

theorem radixDigit?_lt (found : radixDigit? radix c = some digit) : digit < radix := by
  rw [radixDigit?, Option.filter_eq_some_iff] at found
  exact of_decide_eq_true found.2

theorem radixDigit?_ascii (found : radixDigit? radix c = some digit) : c.toNat < 128 := by
  rw [radixDigit?, Option.filter_eq_some_iff] at found
  obtain ⟨found, -⟩ := found
  simp only [Char.le_def, UInt32.le_iff_toNat_le] at found
  split at found
  next range => exact Nat.lt_of_le_of_lt range.2 (by decide)
  next =>
    split at found
    next range => exact Nat.lt_of_le_of_lt range.2 (by decide)
    next =>
      split at found
      next range => exact Nat.lt_of_le_of_lt range.2 (by decide)
      next => cases found

/-- Reading the digits of a radix gives the number nearest to what they are settled to. -/
theorem radixNumber?_eq (short : bits < 53) (nonempty : digits ≠ [])
    (all : ∀ c ∈ digits, radixDigit? (2 ^ bits) c = some (digitValue c)) :
    radixNumber? (2 ^ bits) digits = some (ofNat (settled (2 ^ bits) digits)) := by
  rw [radixNumber?, if_neg nonempty]
  clear nonempty
  induction digits using List.reverseRecOn with
  | nil => exact congrArg some ofNat_zero.symm
  | append_singleton digits c ih =>
    have found := all c (by simp)
    have step : settled (2 ^ bits) (digits ++ [c]) =
        settle (2 ^ bits) (settled (2 ^ bits) digits) (digitValue c) := List.foldl_concat ..
    rw [List.foldlM_append, ih fun c member => all c (List.mem_append_left _ member), step,
      ← shiftIn_ofNat short (radixDigit?_lt found)]
    simp [found]

/-! ## The marks -/

/-- A mark after a leading zero, the radix it stands for and the digits that may follow it. -/
inductive RadixMark : (mark : Char) → (radix : Nat) → (alphabet : List Char) → Prop
  | hexadecimal {mark : Char} (either : mark = 'x' ∨ mark = 'X') :
      RadixMark mark 16 "0123456789abcdefABCDEF".toList
  | octal {mark : Char} (either : mark = 'o' ∨ mark = 'O') : RadixMark mark 8 "01234567".toList
  | binary {mark : Char} (either : mark = 'b' ∨ mark = 'B') : RadixMark mark 2 "01".toList

namespace RadixMark

theorem radix?_eq (marked : RadixMark mark radix alphabet) : radix? mark = some radix := by
  rcases marked with either | either | either <;> rcases either with rfl | rfl <;> rfl

theorem radixDigit? (marked : RadixMark mark radix alphabet) :
    ∀ c ∈ alphabet, Numeral.radixDigit? radix c = some (digitValue c) := by
  rcases marked with _ | _ | _ <;> exact List.all_iff_forall_prop.mp (by decide)

theorem power (marked : RadixMark mark radix alphabet) : ∃ bits, radix = 2 ^ bits ∧ bits < 53 := by
  rcases marked with _ | _ | _
  exacts [⟨4, by decide⟩, ⟨3, by decide⟩, ⟨1, by decide⟩]

theorem isPadding (marked : RadixMark mark radix alphabet) :
    ∀ c ∈ alphabet, isPadding c = false := by
  rcases marked with _ | _ | _ <;> exact List.all_iff_forall_prop.mp (by decide)

/-- There is no digit but those of the alphabet. -/
theorem mem_of_radixDigit? (marked : RadixMark mark radix alphabet)
    (found : Numeral.radixDigit? radix c = some digit) : c ∈ alphabet := by
  have known : ∀ n < 128, (Numeral.radixDigit? radix (Char.ofNat n)).isSome →
      Char.ofNat n ∈ alphabet := by
    rcases marked with _ | _ | _ <;> decide
  have member := known c.toNat (radixDigit?_ascii found)
  rw [Char.ofNat_toNat, found] at member
  exact member rfl

end RadixMark

theorem exists_radixMark (found : radix? mark = some radix) :
    ∃ alphabet, RadixMark mark radix alphabet := by
  unfold radix? at found
  split at found
  next either => exact Option.some.inj found ▸ ⟨_, .hexadecimal either⟩
  next =>
    split at found
    next either => exact Option.some.inj found ▸ ⟨_, .octal either⟩
    next =>
      split at found
      next either => exact Option.some.inj found ▸ ⟨_, .binary either⟩
      next => cases found

theorem RadixMark.number?_eq (marked : RadixMark mark radix alphabet) :
    number? ('0' :: mark :: digits) = radixNumber? radix digits := by
  simp only [number?, marked.radix?_eq]

/-- Nothing is trimmed from a radix literal. -/
theorem RadixMark.trimBoth_eq (marked : RadixMark mark radix alphabet) (nonempty : digits ≠ [])
    (all : ∀ c ∈ digits, c ∈ alphabet) :
    trimBoth Redex.isPadding ('0' :: mark :: digits) = '0' :: mark :: digits := by
  apply trimBoth_self
  · rintro c ⟨⟩
    rfl
  · intro c last
    have last : c ∈ ([('0' : Char), mark] ++ digits).getLast? := last
    rw [List.getLast?_append_of_ne_nil _ nonempty] at last
    exact marked.isPadding c (all c (List.mem_of_getLast? last))

theorem ofText_radix (marked : RadixMark mark radix alphabet) (nonempty : digits ≠ [])
    (all : ∀ c ∈ digits, c ∈ alphabet) :
    Binary64.ofText (String.ofList ('0' :: mark :: digits)) = ofNat (settled radix digits) := by
  obtain ⟨bits, rfl, short⟩ := marked.power
  have read := radixNumber?_eq short nonempty fun c member => marked.radixDigit? c (all c member)
  rw [Binary64.ofText, String.toList_ofList, marked.trimBoth_eq nonempty all, marked.number?_eq, read,
    Option.getD_some]

/-- A radix literal is read as its first digits, up to where they reach 2^53, with zeros for the
others. This is the number nearest to the literal unless the first digits are in the middle of two
magnitudes, the lower of which is even, and the others are not all zeros. -/
theorem radix_literal_rounds_first (marked : RadixMark mark radix alphabet) (nonempty : digits ≠ [])
    (all : ∀ c ∈ digits, c ∈ alphabet) : ∃ first rest x, digits = first ++ rest ∧
      (rest ≠ [] → 2 ^ 53 ≤ denoted radix first) ∧
      (∀ shorter, shorter <+: first → shorter ≠ first → denoted radix shorter < 2 ^ 53) ∧
      Binary64.ofText (String.ofList ('0' :: mark :: digits)) = x ∧
      Rounds (denoted radix first * radix ^ rest.length : Nat) x ∧
      (Rounds (denoted radix digits) x ↔
        x = .infinite false ∨ denoted radix rest = 0 ∨ ¬TiesDown (denoted radix first)) := by
  obtain ⟨bits, same, -⟩ := marked.power
  have positive : 0 < radix := same ▸ Nat.two_pow_pos bits
  obtain ⟨first, rest, rfl, reached, before, value⟩ := exists_settled positive digits
  refine ⟨first, rest, _, rfl, reached, before, ofText_radix marked nonempty all, ?_, ?_⟩
  · rw [rounds_ofNat, value]
  · have below : denoted radix rest < radix ^ rest.length := by
      refine denoted_lt fun c member => radixDigit?_lt (marked.radixDigit? c (all c ?_))
      exact List.mem_append_right _ member
    rw [rounds_ofNat, value, denoted_append, ofNat_eq, ofNat_eq]
    rcases Nat.eq_zero_or_pos (denoted radix rest) with none | some
    · simp [none]
    · have large : 2 ^ 53 ≤ denoted radix first := by
        apply reached
        rintro rfl
        exact some.false
      have power : radix ^ rest.length = 2 ^ (bits * rest.length) := by rw [same, Nat.pow_mul]
      rw [power] at below ⊢
      by_cases tie : TiesDown (denoted radix first)
      · have positive : 0 < denoted radix first := (Nat.two_pow_pos 53).trans_le large
        have up : indexOf (denoted radix first * 2 ^ (bits * rest.length)) < indexOf _ :=
          indexOf_lt_of_tiesDown positive tie some
        rw [ofIndex_eq_of_lt up, ofIndex_eq_infinite]
        simp [tie, some.ne']
      · rw [indexOf_mul_add large below tie]
        simp [tie]

theorem radix_literal_rounds_first_tie :
    RadixMark 'x' 16 "0123456789abcdefABCDEF".toList ∧ "1000000000000081".toList ≠ [] ∧
    (∀ c ∈ "1000000000000081".toList, c ∈ "0123456789abcdefABCDEF".toList) ∧
    ∃ first rest x, "1000000000000081".toList = first ++ rest ∧
      (rest ≠ [] → 2 ^ 53 ≤ denoted 16 first) ∧
      (∀ shorter, shorter <+: first → shorter ≠ first → denoted 16 shorter < 2 ^ 53) ∧
      Binary64.ofText (String.ofList ('0' :: 'x' :: "1000000000000081".toList)) = x ∧
      Rounds (denoted 16 first * 16 ^ rest.length : Nat) x ∧
      (Rounds (denoted 16 "1000000000000081".toList) x ↔
        x = .infinite false ∨ denoted 16 rest = 0 ∨ ¬TiesDown (denoted 16 first)) :=
  have all : ∀ c ∈ "1000000000000081".toList, c ∈ "0123456789abcdefABCDEF".toList :=
    List.all_iff_forall_prop.mp (by decide)
  have marked : RadixMark 'x' 16 "0123456789abcdefABCDEF".toList := .hexadecimal (.inl rfl)
  ⟨marked, by decide, all, radix_literal_rounds_first marked (by decide) all⟩

/-- The digits 100000000000008 are 2^56 + 8, in the middle of two magnitudes, and are rounded down
before the last digit could show that the literal is past the middle. -/
theorem radix_literal_not_nearest :
    Binary64.ofText "0x1000000000000081" = .finite false ⟨0x43b0000000000000, by decide⟩ ∧
      ¬Rounds (denoted 16 "1000000000000081".toList) (Binary64.ofText "0x1000000000000081") ∧
      Rounds (denoted 16 "1000000000000081".toList)
        (.finite false ⟨0x43b0000000000001, by decide⟩) := by
  have value : denoted 16 "1000000000000081".toList = 2 ^ 60 + 129 := by decide
  have read : Binary64.ofText "0x1000000000000081" =
      .finite false ⟨0x43b0000000000000, by decide⟩ := by decide +kernel
  have nearest : ofNat (2 ^ 60 + 129) = .finite false ⟨0x43b0000000000001, by decide⟩ := by
    decide +kernel
  rw [read, value, rounds_ofNat, rounds_ofNat, nearest]
  decide +kernel

end Redex.Numeral
