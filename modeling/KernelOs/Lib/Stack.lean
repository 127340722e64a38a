import KernelOs.Lib.Memory

/-!
# Words on a stack

Consecutive 64-bit words, and changes of a memory that stay in a range.
-/

namespace Lib

namespace Memory

variable {m m' m'' : Memory} {a b lo hi lo' hi' : Nat} {v : UInt64} {vs ws : List UInt64}

def Holds (m : Memory) : Nat → List UInt64 → Prop
  | _, [] => True
  | a, v :: vs => m.load64 a = v ∧ Holds m (a + 8) vs

def storeWords (m : Memory) : Nat → List UInt64 → Memory
  | _, [] => m
  | a, v :: vs => storeWords (m.store64 a v) (a + 8) vs

def ChangedIn (m m' : Memory) (lo hi : Nat) : Prop := ∀ x, x < lo ∨ hi ≤ x → m' x = m x

theorem ChangedIn.refl (m : Memory) (lo hi : Nat) : ChangedIn m m lo hi := fun _ _ => rfl

theorem ChangedIn.mono (h : ChangedIn m m' lo hi) (hl : lo' ≤ lo) (hh : hi ≤ hi') : ChangedIn m m' lo' hi' := by
  intro x hx
  apply h
  omega

theorem ChangedIn.trans (h : ChangedIn m m' lo hi) (h' : ChangedIn m' m'' lo hi) : ChangedIn m m'' lo hi := by
  intro x hx
  rw [h' x hx, h x hx]

theorem ChangedIn.store64 (m : Memory) (v : UInt64) (hl : lo ≤ a) (hh : a + 8 ≤ hi) :
    ChangedIn m (m.store64 a v) lo hi := by
  intro x hx
  apply store64_of_lt
  omega

theorem ChangedIn.agreeOn (h : ChangedIn m m' lo hi) (hd : b ≤ lo ∨ hi ≤ a) : AgreeOn m m' a b := by
  intro x hxa hxb
  rw [h x]
  omega

theorem Holds.congr (h : m.Holds a vs) (hm : AgreeOn m m' a (a + 8 * vs.length)) : m'.Holds a vs := by
  induction vs generalizing a with
  | nil => trivial
  | cons v vs ih =>
    rw [List.length_cons] at hm
    obtain ⟨h1, h2⟩ := h
    refine ⟨?_, ih h2 (hm.mono (by omega) (by omega))⟩
    rw [← h1]
    exact (hm.load64 (Nat.le_refl a) (by omega)).symm

theorem holds_append : m.Holds a (vs ++ ws) ↔ m.Holds a vs ∧ m.Holds (a + 8 * vs.length) ws := by
  induction vs generalizing a with
  | nil => simp [Holds]
  | cons v vs ih =>
    have hlen : a + 8 * (v :: vs).length = a + 8 + 8 * vs.length := by
      rw [List.length_cons]
      omega
    rw [List.cons_append, Holds, Holds, ih, hlen, and_assoc]

theorem changedIn_storeWords (m : Memory) (a : Nat) (vs : List UInt64) :
    ChangedIn m (m.storeWords a vs) a (a + 8 * vs.length) := by
  induction vs generalizing m a with
  | nil => exact ChangedIn.refl m _ _
  | cons v vs ih =>
    rw [List.length_cons]
    refine (ChangedIn.store64 m v (Nat.le_refl a) (by omega)).trans ?_
    exact (ih (m.store64 a v) (a + 8)).mono (by omega) (by omega)

theorem holds_storeWords (m : Memory) (a : Nat) (vs : List UInt64) : (m.storeWords a vs).Holds a vs := by
  induction vs generalizing m a with
  | nil => trivial
  | cons v vs ih =>
    refine ⟨?_, ih (m.store64 a v) (a + 8)⟩
    have hrest := changedIn_storeWords (m.store64 a v) (a + 8) vs
    rw [storeWords,
      ← (hrest.agreeOn (a := a) (b := a + 8) (Or.inl (Nat.le_refl _))).load64 (Nat.le_refl a) (Nat.le_refl _)]
    exact load64_store64 m a v

theorem Holds.store64 (h : m.Holds a vs) (ha : 8 ≤ a) : (m.store64 (a - 8) v).Holds (a - 8) (v :: vs) := by
  refine ⟨load64_store64 m _ v, ?_⟩
  rw [Nat.sub_add_cancel ha]
  refine h.congr ((ChangedIn.store64 m v (Nat.le_refl _) (Nat.le_refl _)).agreeOn (Or.inr ?_))
  omega

end Memory

end Lib
