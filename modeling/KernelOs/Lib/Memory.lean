import Mathlib.Data.Nat.ModEq
import Mathlib.Tactic.Ring

/-!
# Byte-addressed memory

A memory is a function from addresses to bytes. Words of `n` bytes are read and
written little-endian; the rules a program proof needs are the round trip of one
word and the frame of a store, both stated for every width.
-/

namespace Lib

abbrev Memory := Nat → UInt8

/-- An address of 48 bits, of which the highest is copied into all bits above. -/
def CanonicalAddress (v : UInt64) : Prop := v.toNat < 2 ^ 47 ∨ 2 ^ 64 - 2 ^ 47 ≤ v.toNat

instance (v : UInt64) : Decidable (CanonicalAddress v) := inferInstanceAs (Decidable (_ ∨ _))

/-- A NUL-terminated string: the bytes before the NUL. -/
abbrev CString := { bytes : List UInt8 // 0 ∉ bytes }

/-- The string and its NUL, from position `i` on. -/
def HoldsString (field : Nat → UInt8) : Nat → List UInt8 → Prop
  | i, [] => field i = 0
  | i, c :: string => field i = c ∧ HoldsString field (i + 1) string

namespace Memory

/-- The `n` bytes at `a`, least significant first. -/
def loadLe (m : Memory) : Nat → Nat → Nat
  | _, 0 => 0
  | a, n + 1 => (m a).toNat + 256 * loadLe m (a + 1) n

def storeLe (m : Memory) (a n v : Nat) : Memory := fun x =>
  if a ≤ x ∧ x < a + n then UInt8.ofNat (v / 256 ^ (x - a)) else m x

def store8 (m : Memory) (a : Nat) (b : UInt8) : Memory := fun x => if x = a then b else m x

def load64 (m : Memory) (a : Nat) : UInt64 := UInt64.ofNat (m.loadLe a 8)

def store64 (m : Memory) (a : Nat) (v : UInt64) : Memory := m.storeLe a 8 v.toNat

/-! ## Loads -/

theorem loadLe_congr {m m' : Memory} : ∀ {n a : Nat}, (∀ i < n, m (a + i) = m' (a + i)) →
    m.loadLe a n = m'.loadLe a n
  | 0, _, _ => rfl
  | n + 1, a, h => by
    have h0 : m a = m' a := h 0 (by omega)
    have ih : m.loadLe (a + 1) n = m'.loadLe (a + 1) n :=
      loadLe_congr fun i hi => by
        have := h (i + 1) (by omega)
        rwa [show a + (i + 1) = a + 1 + i by omega] at this
    rw [loadLe, loadLe, h0, ih]

theorem loadLe_eq_mod {m : Memory} : ∀ {n a v : Nat},
    (∀ i < n, (m (a + i)).toNat = v / 256 ^ i % 256) → m.loadLe a n = v % 256 ^ n
  | 0, _, v, _ => by simp [loadLe, Nat.mod_one]
  | n + 1, a, v, h => by
    have h0 : (m a).toNat = v % 256 := by simpa using h 0 (by omega)
    have ih : m.loadLe (a + 1) n = v / 256 % 256 ^ n :=
      loadLe_eq_mod fun i hi => by
        have := h (i + 1) (by omega)
        rw [show a + (i + 1) = a + 1 + i by omega] at this
        rw [this, Nat.div_div_eq_div_mul, pow_succ, Nat.mul_comm]
    rw [loadLe, h0, ih, pow_succ, Nat.mul_comm (256 ^ n), Nat.mod_mul]

theorem load64_congr {m m' : Memory} {a : Nat} (h : ∀ i < 8, m (a + i) = m' (a + i)) :
    m.load64 a = m'.load64 a := by
  rw [load64, load64, loadLe_congr h]

/-! ## Stores -/

theorem storeLe_of_lt (m : Memory) {a n v x : Nat} (h : x < a ∨ a + n ≤ x) : m.storeLe a n v x = m x := by
  rw [storeLe, if_neg (by omega)]

theorem storeLe_at (m : Memory) {a n v i : Nat} (hi : i < n) :
    (m.storeLe a n v (a + i)).toNat = v / 256 ^ i % 256 := by
  rw [storeLe, if_pos (by omega), Nat.add_sub_cancel_left]
  exact UInt8.toNat_ofNat'

theorem loadLe_storeLe (m : Memory) (a n v : Nat) : (m.storeLe a n v).loadLe a n = v % 256 ^ n :=
  loadLe_eq_mod fun _ hi => storeLe_at m hi

@[simp] theorem store8_same (m : Memory) (a : Nat) (b : UInt8) : m.store8 a b a = b := by simp [store8]

theorem store8_of_ne (m : Memory) {a x : Nat} (b : UInt8) (h : x ≠ a) : m.store8 a b x = m x := by
  simp [store8, h]

@[simp] theorem load64_store64 (m : Memory) (a : Nat) (v : UInt64) : (m.store64 a v).load64 a = v := by
  rw [load64, store64, loadLe_storeLe, Nat.mod_eq_of_lt (by simpa using v.toNat_lt)]
  exact UInt64.ofNat_toNat

theorem store64_of_lt (m : Memory) {a x : Nat} (v : UInt64) (h : x < a ∨ a + 8 ≤ x) : m.store64 a v x = m x :=
  storeLe_of_lt m h

theorem load64_store64_of_disjoint (m : Memory) {a b : Nat} (v : UInt64) (h : b + 8 ≤ a ∨ a + 8 ≤ b) :
    (m.store64 a v).load64 b = m.load64 b :=
  load64_congr fun i hi => store64_of_lt m v (by omega)

theorem load64_store8_of_disjoint (m : Memory) {a b : Nat} (v : UInt8) (h : a < b ∨ b + 8 ≤ a) :
    (m.store8 a v).load64 b = m.load64 b :=
  load64_congr fun i hi => store8_of_ne m v (by omega)

/-! ## Agreement on a range -/

def AgreeOn (m m' : Memory) (lo hi : Nat) : Prop := ∀ x, lo ≤ x → x < hi → m x = m' x

theorem AgreeOn.symm {m m' : Memory} {lo hi : Nat} (h : AgreeOn m m' lo hi) : AgreeOn m' m lo hi :=
  fun x h1 h2 => (h x h1 h2).symm

theorem AgreeOn.trans {m₁ m₂ m₃ : Memory} {lo hi : Nat} (h : AgreeOn m₁ m₂ lo hi) (h' : AgreeOn m₂ m₃ lo hi) :
    AgreeOn m₁ m₃ lo hi :=
  fun x h1 h2 => (h x h1 h2).trans (h' x h1 h2)

theorem AgreeOn.mono {m m' : Memory} {lo hi lo' hi' : Nat} (h : AgreeOn m m' lo hi) (hl : lo ≤ lo')
    (hh : hi' ≤ hi) :
    AgreeOn m m' lo' hi' :=
  fun x h1 h2 => h x (by omega) (by omega)

theorem AgreeOn.load64 {m m' : Memory} {lo hi a : Nat} (h : AgreeOn m m' lo hi) (hl : lo ≤ a) (hh : a + 8 ≤ hi) :
    m.load64 a = m'.load64 a :=
  load64_congr fun i hi => h _ (by omega) (by omega)

end Memory

end Lib
