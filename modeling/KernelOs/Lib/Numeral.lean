import Mathlib.Data.Nat.Digits.Lemmas

/-!
# Numerals

A number as a text of digits in some base, most significant first. Zero has one digit, and no
other number starts with a zero.
-/

namespace Lib

variable {α : Type*} {symbol : Nat → α} {value : α → Option Nat} {b n k : Nat}

/-- Least significant digit first. -/
def numeralDigits (b n : Nat) : List Nat := if n = 0 then [0] else Nat.digits b n

def numeral (symbol : Nat → α) (b n : Nat) : List α := ((numeralDigits b n).map symbol).reverse

/-- The value of a text of digits, by position. -/
def readNumeral (value : α → Option Nat) (b : Nat) (text : List α) : Option Nat :=
  if text.isEmpty then none else (text.mapM value).map fun ds => Nat.ofDigits b ds.reverse

theorem numeralDigits_step (hb : 1 < b) :
    numeralDigits b n = n % b :: if n / b = 0 then [] else numeralDigits b (n / b) := by
  unfold numeralDigits
  by_cases h0 : n = 0
  · simp [h0]
  · rw [if_neg h0, Nat.digits_def' hb (Nat.pos_of_ne_zero h0)]
    by_cases hdiv : n / b = 0
    · simp [hdiv]
    · rw [if_neg hdiv, if_neg hdiv]

theorem numeralDigits_lt (hb : 1 < b) {d : Nat} (hd : d ∈ numeralDigits b n) : d < b := by
  unfold numeralDigits at hd
  split at hd
  · rw [List.mem_singleton.mp hd]
    omega
  · exact Nat.digits_lt_base hb hd

theorem ofDigits_numeralDigits (b n : Nat) : Nat.ofDigits b (numeralDigits b n) = n := by
  unfold numeralDigits
  split
  · next h0 => simp [h0]
  · exact Nat.ofDigits_digits b n

theorem numeral_ne_nil (symbol : Nat → α) (b n : Nat) : numeral symbol b n ≠ [] := by
  unfold numeral numeralDigits
  split
  · simp
  · next h0 => simpa using Nat.digits_ne_nil_iff_ne_zero.mpr h0

theorem mem_numeral (hb : 1 < b) {a : α} (ha : a ∈ numeral symbol b n) : ∃ d < b, a = symbol d := by
  rw [numeral, List.mem_reverse] at ha
  obtain ⟨d, hd, rfl⟩ := List.mem_map.mp ha
  exact ⟨d, numeralDigits_lt hb hd, rfl⟩

theorem length_numeral_le (symbol : Nat → α) (hb : 1 < b) (hk : 0 < k) (hn : n < b ^ k) :
    (numeral symbol b n).length ≤ k := by
  rw [numeral, List.length_reverse, List.length_map, numeralDigits]
  split
  · exact hk
  · exact (Nat.digits_length_le_iff hb n).mpr hn

/-- Only zero starts with a zero. -/
theorem head_numeral (symbol : Nat → α) (hb : 1 < b) (hn : n ≠ 0) :
    ∃ d, 0 < d ∧ d < b ∧ (numeral symbol b n).head? = some (symbol d) := by
  have hne := Nat.digits_ne_nil_iff_ne_zero (b := b).mpr hn
  have hlast := Nat.getLast_digit_ne_zero b hn
  refine ⟨(Nat.digits b n).getLast hne, Nat.pos_of_ne_zero hlast, Nat.digits_lt_base hb (List.getLast_mem hne), ?_⟩
  rw [numeral, numeralDigits, if_neg hn, List.head?_reverse, List.getLast?_map, List.getLast?_eq_some_getLast hne]
  rfl

theorem mapM_symbols (hread : ∀ d < b, value (symbol d) = some d) : ∀ ds :
    List Nat, (∀ d ∈ ds, d < b) → (ds.map symbol).mapM value = some ds
  | [], _ => rfl
  | d :: ds, hlt => by
    rw [List.map_cons, List.mapM_cons, hread d (hlt d (List.mem_cons_self ..)),
      mapM_symbols hread ds fun e he => hlt e (List.mem_cons_of_mem _ he)]
    rfl

theorem readNumeral_numeral (hb : 1 < b) (hread : ∀ d < b, value (symbol d) = some d) (n : Nat) :
    readNumeral value b (numeral symbol b n) = some n := by
  rw [readNumeral, if_neg (by simpa using numeral_ne_nil symbol b n), numeral, ← List.map_reverse,
    mapM_symbols hread _ fun d hd => numeralDigits_lt hb (List.mem_reverse.mp hd), Option.map_some,
    List.reverse_reverse, ofDigits_numeralDigits]

/-- The last `k` digits, zeros in front included. -/
def fixedNumeral (symbol : Nat → α) (b n k : Nat) : List α :=
  (((List.range k).map fun i => n / b ^ i % b).map symbol).reverse

theorem ofDigits_fixed (b n : Nat) : ∀ k, Nat.ofDigits b ((List.range k).map fun i => n / b ^ i % b) = n % b ^ k
  | 0 => by rw [pow_zero, Nat.mod_one]; rfl
  | k + 1 => by
    rw [List.range_succ, List.map_append, Nat.ofDigits_append, ofDigits_fixed b n k, List.length_map,
      List.length_range, List.map_singleton, Nat.ofDigits_singleton, Nat.mod_pow_succ]

theorem readNumeral_fixedNumeral (hb : 0 < b) (hk : 0 < k) (hread : ∀ d < b, value (symbol d) = some d) (n : Nat) :
    readNumeral value b (fixedNumeral symbol b n k) = some (n % b ^ k) := by
  have hne : ¬ (fixedNumeral symbol b n k).isEmpty := by
    rw [List.isEmpty_iff_length_eq_zero, fixedNumeral, List.length_reverse, List.length_map, List.length_map,
      List.length_range]
    omega
  have hlt : ∀ d ∈ ((List.range k).map fun i => n / b ^ i % b).reverse, d < b := by
    intro d hd
    obtain ⟨i, _, rfl⟩ := List.mem_map.mp (List.mem_reverse.mp hd)
    exact Nat.mod_lt _ hb
  rw [readNumeral, if_neg hne, fixedNumeral, ← List.map_reverse, mapM_symbols hread _ hlt, Option.map_some,
    List.reverse_reverse, ofDigits_fixed]

end Lib
