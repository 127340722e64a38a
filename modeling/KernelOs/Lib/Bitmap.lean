import Mathlib.Data.Finset.Card
import Mathlib.Tactic.IntervalCases

/-!
# Bitmaps

One bit for each index, eight to a byte, least significant first. `get`, `set`
and `clear` are the byte operations; the rules say what they do to the family of
bits, so that no proof about a client looks into a byte again.
-/

namespace Lib.Bitmap

def mask (i : Nat) : UInt8 := ⟨BitVec.twoPow 8 (i % 8)⟩

def get (b : Nat → UInt8) (i : Nat) : Bool := b (i / 8) &&& mask i != 0

def set (b : Nat → UInt8) (i : Nat) : Nat → UInt8 := fun k => if k = i / 8 then b k ||| mask i else b k

def clear (b : Nat → UInt8) (i : Nat) : Nat → UInt8 := fun k => if k = i / 8 then b k &&& ~~~mask i else b k

theorem get_eq (b : Nat → UInt8) (i : Nat) : get b i = (b (i / 8)).toBitVec.getLsbD (i % 8) := by
  have hi : i % 8 < 8 := Nat.mod_lt _ (by decide)
  have hne : BitVec.twoPow 8 (i % 8) ≠ 0#8 := by
    intro h
    have := congrArg (BitVec.getLsbD · (i % 8)) h
    simp [hi] at this
  have hand : (b (i / 8) &&& mask i).toBitVec =
      if (b (i / 8)).toBitVec.getLsbD (i % 8) then BitVec.twoPow 8 (i % 8) else 0#8 := by
    rw [UInt8.toBitVec_and]
    exact BitVec.and_twoPow _ _
  rw [get, bne, Bool.not_eq_eq_eq_not, ← Bool.not_eq_eq_eq_not]
  cases hb : (b (i / 8)).toBitVec.getLsbD (i % 8) with
  | true =>
    rw [hb, if_pos rfl] at hand
    have : b (i / 8) &&& mask i ≠ 0 := fun h => hne (by rw [← hand, h]; rfl)
    simpa using this
  | false =>
    rw [hb] at hand
    have : b (i / 8) &&& mask i = 0 := UInt8.toBitVec_inj.mp hand
    simpa using this

theorem byte_bit_inj {i j : Nat} (hd : i / 8 = j / 8) (hm : i % 8 = j % 8) : i = j := by omega

@[simp] theorem get_set (b : Nat → UInt8) (i j : Nat) : get (set b i) j = (decide (j = i) || get b j) := by
  simp only [get_eq, set]
  by_cases hd : j / 8 = i / 8
  · have hj : j % 8 < 8 := Nat.mod_lt _ (by decide)
    rw [if_pos hd, UInt8.toBitVec_or, BitVec.getLsbD_or, mask, BitVec.getLsbD_twoPow, hd, Bool.or_comm]
    by_cases hij : j = i
    · subst hij; simp [hj]
    · have : i % 8 ≠ j % 8 := fun h => hij (byte_bit_inj hd h.symm)
      simp [hij, this]
  · have hij : j ≠ i := fun h => hd (by rw [h])
    rw [if_neg hd]
    simp [hij]

@[simp] theorem get_clear (b : Nat → UInt8) (i j : Nat) : get (clear b i) j = (!decide (j = i) && get b j) := by
  simp only [get_eq, clear]
  by_cases hd : j / 8 = i / 8
  · have hj : j % 8 < 8 := Nat.mod_lt _ (by decide)
    rw [if_pos hd, UInt8.toBitVec_and, UInt8.toBitVec_not, BitVec.getLsbD_and, BitVec.getLsbD_not, mask,
      BitVec.getLsbD_twoPow, hd, Bool.and_comm]
    by_cases hij : j = i
    · subst hij; simp [hj]
    · have : i % 8 ≠ j % 8 := fun h => hij (byte_bit_inj hd h.symm)
      simp [hij, hj, this]
  · have hij : j ≠ i := fun h => hd (by rw [h])
    rw [if_neg hd]
    simp [hij]

theorem ext {b b' : Nat → UInt8} (h : ∀ i, get b i = get b' i) : b = b' := by
  funext k
  apply UInt8.toBitVec_inj.mp
  apply BitVec.eq_of_getLsbD_eq
  intro j hj
  have hk := h (8 * k + j)
  rwa [get_eq, get_eq, show (8 * k + j) / 8 = k by omega, show (8 * k + j) % 8 = j by omega] at hk

theorem get_of_zero {b : Nat → UInt8} {i : Nat} (h : b (i / 8) = 0) : get b i = false := by
  rw [get_eq, h]; simp

end Lib.Bitmap
