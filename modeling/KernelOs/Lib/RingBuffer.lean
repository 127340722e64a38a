import Mathlib.Data.Nat.ModEq
import Mathlib.Logic.Function.Basic

/-!
# Ring buffers

A queue of at most `N - 1` elements in an array of `N` slots: `head` is the next slot to
write, `tail` the oldest element, and one slot stays empty so that a full buffer differs
from an empty one.
-/

namespace Lib

/-- The elements `queue`, oldest first, from `tail` on. -/
structure RingBuffer {α : Type*} (N : Nat) (buffer : Nat → α) (head tail : Nat) (queue : List α) : Prop where
  tail_lt : tail < N
  length_lt : queue.length < N
  head_eq : head = (tail + queue.length) % N
  slot : ∀ (i : Nat) (h : i < queue.length), buffer ((tail + i) % N) = queue[i]

namespace RingBuffer

variable {α : Type*} {N head tail : Nat} {buffer : Nat → α} {queue : List α} {a : α}

/-- Offsets below `N` from one slot lead to different slots. -/
theorem offset_inj {i j : Nat} (hi : i < N) (hj : j < N) (h : (tail + i) % N = (tail + j) % N) : i = j := by
  have hmod : i % N = j % N := Nat.ModEq.add_left_cancel' tail h
  rwa [Nat.mod_eq_of_lt hi, Nat.mod_eq_of_lt hj] at hmod

theorem nil (buffer : Nat → α) (htail : tail < N) : RingBuffer N buffer tail tail [] where
  tail_lt := htail
  length_lt := Nat.zero_lt_of_lt htail
  head_eq := (Nat.mod_eq_of_lt htail).symm
  slot _ h := absurd h (Nat.not_lt_zero _)

theorem head_lt (h : RingBuffer N buffer head tail queue) : head < N := by
  rw [h.head_eq]
  exact Nat.mod_lt _ (Nat.zero_lt_of_lt h.tail_lt)

theorem empty_iff (h : RingBuffer N buffer head tail queue) : head = tail ↔ queue = [] := by
  have htail : tail = (tail + 0) % N := (Nat.mod_eq_of_lt h.tail_lt).symm
  constructor
  · intro he
    rw [h.head_eq] at he
    exact List.length_eq_zero_iff.mp (offset_inj h.length_lt (Nat.zero_lt_of_lt h.tail_lt) (he.trans htail))
  · rintro rfl
    exact h.head_eq.trans htail.symm

theorem next_head (h : RingBuffer N buffer head tail queue) : (head + 1) % N = (tail + (queue.length + 1)) % N := by
  rw [h.head_eq, Nat.mod_add_mod, Nat.add_assoc]

theorem full_iff (h : RingBuffer N buffer head tail queue) : (head + 1) % N = tail ↔ queue.length + 1 = N := by
  rw [h.next_head]
  constructor
  · intro he
    refine Nat.le_antisymm h.length_lt (Nat.le_of_not_lt fun hlt => ?_)
    have htail : tail = (tail + 0) % N := (Nat.mod_eq_of_lt h.tail_lt).symm
    exact absurd (offset_inj hlt (Nat.zero_lt_of_lt hlt) (he.trans htail)) (Nat.succ_ne_zero _)
  · intro hfull
    rw [hfull, Nat.add_mod_right, Nat.mod_eq_of_lt h.tail_lt]

theorem push (h : RingBuffer N buffer head tail queue) (hroom : queue.length + 1 < N) (a : α) :
    RingBuffer N (Function.update buffer head a) ((head + 1) % N) tail (queue ++ [a]) where
  tail_lt := h.tail_lt
  length_lt := by rwa [List.length_append]
  head_eq := by rw [List.length_append, h.next_head, List.length_singleton]
  slot i hi := by
    rw [List.length_append, List.length_singleton] at hi
    rcases Nat.lt_succ_iff_lt_or_eq.mp hi with hlt | rfl
    · have hne : (tail + i) % N ≠ head := fun he =>
        absurd (offset_inj (Nat.lt_trans hlt h.length_lt) h.length_lt (he.trans h.head_eq)) (Nat.ne_of_lt hlt)
      rw [Function.update_of_ne hne, List.getElem_append_left hlt]
      exact h.slot i hlt
    · rw [← h.head_eq, Function.update_self]
      simp

theorem oldest (h : RingBuffer N buffer head tail (a :: queue)) : buffer tail = a := by
  have := h.slot 0 (Nat.zero_lt_succ _)
  rwa [Nat.add_zero, Nat.mod_eq_of_lt h.tail_lt] at this

theorem pop (h : RingBuffer N buffer head tail (a :: queue)) : RingBuffer N buffer head ((tail + 1) % N) queue where
  tail_lt := Nat.mod_lt _ (Nat.zero_lt_of_lt h.tail_lt)
  length_lt := Nat.lt_of_succ_lt h.length_lt
  head_eq := by rw [h.head_eq, Nat.mod_add_mod, List.length_cons, Nat.add_assoc, Nat.add_comm 1]
  slot i hi := by
    have := h.slot (i + 1) (Nat.succ_lt_succ hi)
    rwa [List.getElem_cons_succ, Nat.add_comm i, ← Nat.add_assoc, ← Nat.mod_add_mod] at this

end RingBuffer

end Lib
