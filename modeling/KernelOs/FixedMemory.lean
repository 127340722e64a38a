import KernelOs.KernelSpaces
import KernelOs.PmmOwnership

/-!
# Memory at fixed addresses

`kernel_main` reserves its image and, inside it, the bitmap. The text buffer of
`console.cpp` stays clear in the bitmap, and an allocation may hand it out.
-/

namespace KernelOs
open Lib

def vgaPage : Nat := 0xB8

/-- The search of an allocation passes `page` by: the page is taken, or enough clear pages come
before it, from `search_hint` on for one page and from page 0 on for a range. -/
def Pmm.Passes (s : Pmm) (page : Nat) : PmmOp → Prop
  | .allocPage =>
    page ∉ s.clearPages ∨ ∃ k, (s.searchHint.toNat + k) % s.totalPages.toNat ∈ s.clearPages ∧
      ∀ j ≤ k, (s.searchHint.toNat + j) % s.totalPages.toNat ≠ page
  | .allocPages count =>
    (∃ t, t + count.toNat ≤ page ∧ Finset.Ico t (t + count.toNat) ⊆ s.clearPages) ∨
      ∀ t ≤ page, page < t + count.toNat → ¬ Finset.Ico t (t + count.toNat) ⊆ s.clearPages
  | _ => True

namespace Ledger

/-- The ledger when the scheduler starts: the image is reserved, and nobody holds a page. -/
def atBoot (bytes : Nat → UInt8) : Ledger := (init bytes 0x200000 32768).step (.markReserved 0x100000 0x200000)

def returned : Ledger → List PmmOp → List (Finset Nat)
  | _, [] => []
  | l, op :: ops => l.granted op :: returned (l.step op) ops

/-- `P` holds of each call and the state before it. -/
def Throughout (P : Pmm → PmmOp → Prop) : Ledger → List PmmOp → Prop
  | _, [] => True
  | l, op :: ops => P l.pmm op ∧ Throughout P (l.step op) ops

variable {bitmapAddr pageCount : UInt64} {l l' : Ledger} {page : Nat}

theorem notMem_granted_iff (hi : Inv bitmapAddr pageCount l) (op : PmmOp) :
    page ∉ l.granted op ↔ l.pmm.Passes page op := by
  cases op with
  | allocPage =>
    cases granted_allocPage hi with
    | inl h =>
      obtain ⟨-, hg, hc⟩ := h
      simp [hg, Pmm.Passes, hc]
    | inr h =>
      obtain ⟨k, s', -, hg, hk, hmin, -⟩ := h
      rw [hg, Finset.mem_singleton]
      constructor
      · intro hne
        by_cases hp : page ∈ l.pmm.clearPages
        · refine Or.inr ⟨k, hk, fun j hj => ?_⟩
          cases Nat.lt_or_eq_of_le hj with
          | inl hj =>
            rintro rfl
            exact hmin j hj hp
          | inr hj =>
            rw [hj]
            exact Ne.symm hne
        · exact Or.inl hp
      · rintro (hp | ⟨k', hk', hne⟩) rfl
        · exact hp hk
        · cases Nat.lt_or_ge k' k with
          | inl hlt => exact hmin k' hlt hk'
          | inr hge => exact hne k hge rfl
  | allocPages count =>
    cases granted_allocPages hi count with
    | inl h =>
      obtain ⟨-, hg, hc⟩ := h
      rw [hg]
      refine iff_of_true (Finset.notMem_empty page) ?_
      cases hc with
      | inl h0 =>
        subst h0
        exact Or.inl ⟨0, Nat.zero_le _, by simp⟩
      | inr hno => exact Or.inr fun t _ _ => hno t
    | inr h =>
      obtain ⟨t, s', -, hg, hpos, hsub, hmin, -⟩ := h
      rw [hg, Finset.mem_Ico]
      constructor
      · intro hout
        cases Nat.lt_or_ge page t with
        | inl hlt => exact Or.inr fun u hu _ => hmin u (by omega)
        | inr hge => exact Or.inl ⟨t, Nat.le_of_not_lt fun h => hout ⟨hge, h⟩, hsub⟩
      · rintro (⟨u, hu, husub⟩ | hno) ⟨h1, h2⟩
        · exact hmin u (by omega) husub
        · exact hno t h1 h2 hsub
  | markReserved baseAddr lengthBytes => simp [granted, PmmOp.apply, Pmm.Passes]
  | freePage physAddr => simp [granted, PmmOp.apply, Pmm.Passes]
  | freePages physAddr count => simp [granted, PmmOp.apply, Pmm.Passes]

theorem returned_reserved {ops : List PmmOp} (hi : Inv bitmapAddr pageCount l) (hr : Run Calls l ops l')
    (hp : l.reserved page) :
    ∀ R ∈ l.returned ops, page ∉ R := by
  induction ops generalizing l with
  | nil => intro R hR; cases hR
  | cons op ops ih =>
    obtain ⟨l₁, ⟨hlegal, rfl⟩, hr⟩ := hr.uncons
    intro R hR
    cases List.mem_cons.mp hR with
    | inl hR =>
      subst hR
      exact fun hc => hi.kept page hp ((granted_clear hi op).1 hc)
    | inr hR =>
      refine ih (inv_step hi hlegal) hr ?_ R hR
      cases op with
      | markReserved baseAddr lengthBytes => exact Or.inl hp
      | _ => exact hp

theorem returned_passes {ops : List PmmOp} (hi : Inv bitmapAddr pageCount l) (hr : Run Calls l ops l') :
    (∀ R ∈ l.returned ops, page ∉ R) ↔ Throughout (Pmm.Passes · page) l ops := by
  induction ops generalizing l with
  | nil => simp [returned, Throughout]
  | cons op ops ih =>
    obtain ⟨l₁, ⟨hlegal, rfl⟩, hr⟩ := hr.uncons
    rw [returned, List.forall_mem_cons, Throughout, notMem_granted_iff hi, ih (inv_step hi hlegal) hr]

theorem inv_atBoot (bytes : Nat → UInt8) : Inv 0x200000 32768 (atBoot bytes) := by
  refine inv_step (inv_init bytes 0x200000 (by decide)) ?_
  rintro p ⟨R, hR, -⟩
  cases hR

theorem touches_vga (p : Nat) : Touches 0xB8000 (80 * 25 * 2) p ↔ p = vgaPage := by
  unfold Touches vgaPage
  omega

/-- **Fixed memory.** In a disciplined run after boot no returned range touches the bitmap or the
image, and none touches the text buffer exactly if every search passes its page by. -/
theorem fixed_memory (bytes : Nat → UInt8) {ops : List PmmOp} (hr : Run Calls (atBoot bytes) ops l) :
    (∀ R ∈ (atBoot bytes).returned ops, ∀ p ∈ R, ¬ Touches 0x200000 4096 p ∧ ¬ Touches 0x100000 0x200000 p) ∧
    ((∀ R ∈ (atBoot bytes).returned ops, ∀ p ∈ R, ¬ Touches 0xB8000 (80 * 25 * 2) p) ↔
      Throughout (Pmm.Passes · vgaPage) (atBoot bytes) ops) := by
  refine ⟨fun R hR p hp => ?_, ?_⟩
  · have himage : ¬ Touches 0x100000 0x200000 p :=
      fun hc => returned_reserved (inv_atBoot bytes) hr (Or.inr hc) R hR hp
    refine ⟨fun hc => himage ?_, himage⟩
    unfold Touches at *
    omega
  · rw [← returned_passes (inv_atBoot bytes) hr]
    refine forall₂_congr fun R _ => ?_
    constructor
    · exact fun h hc => h vgaPage hc ((touches_vga vgaPage).mpr rfl)
    · intro h p hp hc
      rw [(touches_vga p).mp hc] at hp
      exact h hp

theorem mem_atBoot (bytes : Nat → UInt8) (f : Nat) : f ∈ (atBoot bytes).pmm.clearPages ↔
    0 < f ∧ f < 32768 ∧ ¬ (256 ≤ f ∧ f < 768) := by
  rw [← mem_kernelPmm_zero bytes, kernelPmm_zero]
  simp only [atBoot, step, init, PmmOp.apply]

theorem returned_first (bytes : Nat → UInt8) {count : UInt64} (hpos : 0 < count.toNat) (hfit : count.toNat ≤ 255) :
    (atBoot bytes).returned [.allocPages count] = [Finset.Ico 1 (1 + count.toNat)] := by
  have hsub : Finset.Ico 1 (1 + count.toNat) ⊆ (atBoot bytes).pmm.clearPages := fun f hf => by
    have := Finset.mem_Ico.mp hf
    exact (mem_atBoot bytes f).mpr (by omega)
  have h0 : ¬ Finset.Ico 0 (0 + count.toNat) ⊆ (atBoot bytes).pmm.clearPages := fun hc =>
    Nat.lt_irrefl 0 ((mem_atBoot bytes 0).mp (hc (Finset.left_mem_Ico.mpr (by omega)))).1
  cases granted_allocPages (inv_atBoot bytes) count with
  | inl h =>
    cases h.2.2 with
    | inl hc => simp [hc] at hpos
    | inr hno => exact absurd hsub (hno 1)
  | inr h =>
    obtain ⟨t, s', -, hg, -, htsub, hmin, -⟩ := h
    obtain rfl : t = 1 := by
      rcases Nat.lt_trichotomy t 1 with ht | ht | ht
      · obtain rfl : t = 0 := by omega
        exact absurd htsub h0
      · exact ht
      · exact absurd hsub (hmin 1 ht)
    rw [returned, returned, hg]

theorem fixed_memory_below_vga : ∃ l, Run Calls (atBoot fun _ => 0) [.allocPages 183] l ∧
    Throughout (Pmm.Passes · vgaPage) (atBoot fun _ => 0) [.allocPages 183] := by
  have hr : Run Calls (atBoot fun _ => 0) [.allocPages 183] ((atBoot fun _ => 0).step (.allocPages 183)) :=
    Run.single ⟨trivial, rfl⟩
  refine ⟨_, hr, (fixed_memory (fun _ => 0) hr).2.mp fun R hR p hp hc => ?_⟩
  rw [returned_first _ (by decide) (by decide), List.mem_singleton] at hR
  subst hR
  rw [touches_vga] at hc
  subst hc
  exact absurd hp (by decide)

/-- A range of 184 pages, the first one asked for, ends with the page of the text buffer. -/
theorem vga_handed_out : ∃ l, Run Calls (atBoot fun _ => 0) [.allocPages 184] l ∧
    ∃ R ∈ (atBoot fun _ => 0).returned [.allocPages 184], ∃ p ∈ R, Touches 0xB8000 (80 * 25 * 2) p := by
  refine ⟨_, Run.single ⟨trivial, rfl⟩, Finset.Ico 1 185, ?_, vgaPage, by decide, by decide⟩
  rw [returned_first _ (by decide) (by decide)]
  exact List.mem_singleton_self _

end Ledger

end KernelOs
