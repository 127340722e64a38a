import KernelOs.Lib.Run
import KernelOs.PmmLemmas

/-!
# Who holds which page

A ledger records beside the allocator what its callers know: the pages still
held from each allocation, and the pages ever reserved. The callers free only
what they hold and reserve only what nobody holds; under that discipline no
page is ever in two hands.
-/

namespace KernelOs
open Lib

inductive PmmOp where
  | markReserved (baseAddr lengthBytes : UInt64)
  | allocPage
  | allocPages (count : UInt64)
  | freePage (physAddr : UInt64)
  | freePages (physAddr count : UInt64)
  deriving Repr, DecidableEq

/-- The address the call returns (0 for a call without a result) and the state after it. -/
def PmmOp.apply (s : Pmm) : PmmOp → UInt64 × Pmm
  | .markReserved baseAddr lengthBytes => (0, pmmMarkReserved s baseAddr lengthBytes)
  | .allocPage => pmmAllocPage s
  | .allocPages count => pmmAllocPages s count
  | .freePage physAddr => (0, pmmFreePage s physAddr)
  | .freePages physAddr count => (0, pmmFreePages s physAddr count)

/-- The pages of `[addr, addr + count * 4096)`. -/
def pagesAt (addr count : Nat) : Finset Nat := Finset.Ico (addr / 4096) (addr / 4096 + count)

structure Ledger where
  pmm : Pmm
  held : List (Finset Nat)
  reserved : Nat → Prop

namespace Ledger

def init (bytes : Nat → UInt8) (bitmapAddr pageCount : UInt64) : Ledger where
  pmm := pmmInit bytes bitmapAddr pageCount
  held := []
  reserved p := Touches bitmapAddr.toNat ((pageCount.toNat + 7) / 8) p ∨ p = 0

def Holds (l : Ledger) (p : Nat) : Prop := ∃ R ∈ l.held, p ∈ R

instance (l : Ledger) (p : Nat) : Decidable (l.Holds p) := by unfold Holds; infer_instance

/-- The callers' discipline: (parts of) held ranges are freed, and no held page is reserved. -/
def Legal (l : Ledger) : PmmOp → Prop
  | .markReserved baseAddr lengthBytes => ∀ p, l.Holds p → ¬ Touches baseAddr.toNat lengthBytes.toNat p
  | .allocPage => True
  | .allocPages _ => True
  | .freePage physAddr => physAddr.toNat % 4096 = 0 ∧ ∀ p ∈ pagesAt physAddr.toNat 1, l.Holds p
  | .freePages physAddr count =>
    physAddr.toNat % 4096 = 0 ∧ ∀ p ∈ pagesAt physAddr.toNat count.toNat, l.Holds p

/-- The pages an allocation hands out: none when it returns 0. -/
def granted (l : Ledger) (op : PmmOp) : Finset Nat :=
  let addr := (op.apply l.pmm).1
  if addr = 0 then ∅
  else match op with
    | .allocPage => pagesAt addr.toNat 1
    | .allocPages count => pagesAt addr.toNat count.toNat
    | _ => ∅

def freed : PmmOp → Finset Nat
  | .freePage physAddr => pagesAt physAddr.toNat 1
  | .freePages physAddr count => pagesAt physAddr.toNat count.toNat
  | _ => ∅

def step (l : Ledger) (op : PmmOp) : Ledger where
  pmm := (op.apply l.pmm).2
  held :=
    match op with
    | .allocPage | .allocPages _ => l.granted op :: l.held
    | _ => l.held.map (· \ freed op)
  reserved p :=
    match op with
    | .markReserved baseAddr lengthBytes => l.reserved p ∨ Touches baseAddr.toNat lengthBytes.toNat p
    | _ => l.reserved p

def Calls (l : Ledger) (op : PmmOp) (l' : Ledger) : Prop := l.Legal op ∧ l' = l.step op

/-! ## The invariant -/

structure Inv (bitmapAddr pageCount : UInt64) (l : Ledger) : Prop where
  ok : l.pmm.Ok
  total : l.pmm.totalPages = pageCount
  apart : l.held.Pairwise Disjoint
  owned : ∀ p, l.Holds p → p < pageCount.toNat ∧ p ∉ l.pmm.clearPages ∧ ¬ l.reserved p
  kept : ∀ p, l.reserved p → p ∉ l.pmm.clearPages
  bitmap : ∀ p, Touches bitmapAddr.toNat ((pageCount.toNat + 7) / 8) p → l.reserved p
  zero : l.reserved 0

variable {bitmapAddr pageCount : UInt64} {l : Ledger}

theorem inv_init (bytes : Nat → UInt8) (bitmapAddr : UInt64) (h : pageCount.toNat < 2 ^ 52) :
    Inv bitmapAddr pageCount (init bytes bitmapAddr pageCount) := by
  obtain ⟨h1, h2, h3⟩ := pmmInit_spec bytes bitmapAddr pageCount h
  refine ⟨h1, h2, List.Pairwise.nil, ?_, ?_, fun p hp => Or.inl hp, Or.inr rfl⟩
  · rintro p ⟨R, hR, _⟩; cases hR
  · intro p hp hc
    have hc' := h3 ▸ hc
    simp only [Finset.mem_filter] at hc'
    rcases hp with hp | hp
    · exact hc'.2.1 hp
    · exact hc'.2.2 hp

/-- The order in which the callers are listed is no matter. -/
theorem Inv.of_perm {l' : Ledger} (hi : Inv bitmapAddr pageCount l) (hpmm : l'.pmm = l.pmm)
    (hheld : l'.held.Perm l.held) (hres : l'.reserved = l.reserved) : Inv bitmapAddr pageCount l' := by
  have hholds (p : Nat) : l'.Holds p → l.Holds p := fun ⟨R, hR, hp⟩ => ⟨R, hheld.mem_iff.mp hR, hp⟩
  refine ⟨hpmm ▸ hi.ok, hpmm ▸ hi.total, ?_, fun p hp => ?_, fun p hp => ?_, ?_, ?_⟩
  · exact (hheld.pairwise_iff fun h => h.symm).mpr hi.apart
  · rw [hpmm, hres]
    exact hi.owned p (hholds p hp)
  · rw [hres] at hp
    rw [hpmm]
    exact hi.kept p hp
  · rw [hres]
    exact hi.bitmap
  · rw [hres]
    exact hi.zero

theorem address_of_clear (hi : Inv bitmapAddr pageCount l) {t : Nat} (ht : t ∈ l.pmm.clearPages) :
    (UInt64.ofNat (t * 4096)).toNat = t * 4096 ∧ UInt64.ofNat (t * 4096) ≠ 0 := by
  have hs := hi.ok.small
  have hlt := (Pmm.mem_clearPages.mp ht).1
  have hn := toNat_ofNat_page (p := t) (by omega)
  refine ⟨hn, fun h0 => hi.kept 0 hi.zero ?_⟩
  have : t * 4096 = 0 := by rw [← hn, h0]; rfl
  rwa [show (0 : Nat) = t by omega]

theorem granted_allocPage (hi : Inv bitmapAddr pageCount l) :
    (pmmAllocPage l.pmm = (0, l.pmm) ∧ l.granted .allocPage = ∅ ∧ l.pmm.clearPages = ∅) ∨
      ∃ k s', pmmAllocPage l.pmm =
      (UInt64.ofNat ((l.pmm.searchHint.toNat + k) % l.pmm.totalPages.toNat * 4096), s') ∧
        l.granted .allocPage = {(l.pmm.searchHint.toNat + k) % l.pmm.totalPages.toNat} ∧
        (l.pmm.searchHint.toNat + k) % l.pmm.totalPages.toNat ∈ l.pmm.clearPages ∧
        (∀ j < k, (l.pmm.searchHint.toNat + j) % l.pmm.totalPages.toNat ∉ l.pmm.clearPages) ∧
        s'.Ok ∧ s'.totalPages = l.pmm.totalPages ∧ s'.clearPages = l.pmm.clearPages \ l.granted .allocPage := by
  rcases pmmAllocPage_spec hi.ok with ⟨h1, h2⟩ | ⟨k, s', h1, h2, h3, h4, h5, h6⟩
  · exact Or.inl ⟨h1, by simp [granted, PmmOp.apply, h1], h2⟩
  · obtain ⟨ha, hne⟩ := address_of_clear hi h2
    have hg : l.granted .allocPage = {(l.pmm.searchHint.toNat + k) % l.pmm.totalPages.toNat} := by
      simp only [granted, PmmOp.apply, h1, if_neg hne, pagesAt, ha, Nat.mul_div_cancel _ (show 0 < 4096 by decide)]
      ext p; simp only [Finset.mem_Ico, Finset.mem_singleton]; omega
    exact Or.inr ⟨k, s', h1, hg, h2, h3, h4, h5, by rw [h6, hg, Finset.sdiff_singleton_eq_erase]⟩

theorem granted_allocPages (hi : Inv bitmapAddr pageCount l) (count : UInt64) :
    (pmmAllocPages l.pmm count = (0, l.pmm) ∧ l.granted (.allocPages count) = ∅ ∧
      (count = 0 ∨ ∀ t, ¬ Finset.Ico t (t + count.toNat) ⊆ l.pmm.clearPages)) ∨
      ∃ t s', pmmAllocPages l.pmm count = (UInt64.ofNat (t * 4096), s') ∧
        l.granted (.allocPages count) = Finset.Ico t (t + count.toNat) ∧ 0 < count.toNat ∧
        Finset.Ico t (t + count.toNat) ⊆ l.pmm.clearPages ∧
        (∀ u < t, ¬ Finset.Ico u (u + count.toNat) ⊆ l.pmm.clearPages) ∧
        s'.Ok ∧ s'.totalPages = l.pmm.totalPages ∧ s'.clearPages = l.pmm.clearPages \ l.granted
        (.allocPages count) := by
  rcases pmmAllocPages_spec hi.ok count with ⟨h1, h2⟩ | ⟨t, s', h1, h2, h3, h4, h5, h6, h7⟩
  · exact Or.inl ⟨h1, by simp [granted, PmmOp.apply, h1], h2⟩
  · obtain ⟨ha, hne⟩ := address_of_clear hi (h3 (Finset.left_mem_Ico.mpr (by omega)))
    have hg : l.granted (.allocPages count) = Finset.Ico t (t + count.toNat) := by
      simp only [granted, PmmOp.apply, h1, if_neg hne, pagesAt, ha, Nat.mul_div_cancel _ (show 0 < 4096 by decide)]
    exact Or.inr ⟨t, s', h1, hg, h2, h3, h4, h5, h6, by rw [h7, hg]⟩

theorem granted_clear (hi : Inv bitmapAddr pageCount l) (op : PmmOp) :
    l.granted op ⊆ l.pmm.clearPages ∧
      ((op.apply l.pmm).1 ≠ 0 → (op.apply l.pmm).1.toNat % 4096 = 0) ∧
      (op = .allocPage ∨ (∃ count, op = .allocPages count) →
        (op.apply l.pmm).2.Ok ∧ (op.apply l.pmm).2.totalPages = l.pmm.totalPages ∧
        (op.apply l.pmm).2.clearPages = l.pmm.clearPages \ l.granted op) := by
  cases op with
  | allocPage =>
    rcases granted_allocPage hi with ⟨h1, h2, -⟩ | ⟨k, s', h1, h2, h3, -, h4⟩
    · simp [h2, PmmOp.apply, h1, hi.ok]
    · refine ⟨by rw [h2]; exact Finset.singleton_subset_iff.mpr h3, fun _ => ?_, fun _ => ?_⟩
        <;> simp only [PmmOp.apply, h1]
      · rw [(address_of_clear hi h3).1, Nat.mul_mod_left]
      · exact h4
  | allocPages count =>
    rcases granted_allocPages hi count with ⟨h1, h2, -⟩ | ⟨t, s', h1, h2, hc, h3, -, h4⟩
    · simp [h2, PmmOp.apply, h1, hi.ok]
    · refine ⟨by rw [h2]; exact h3, fun _ => ?_, fun _ => ?_⟩ <;> simp only [PmmOp.apply, h1]
      · rw [(address_of_clear hi (h3 (Finset.left_mem_Ico.mpr (by omega)))).1, Nat.mul_mod_left]
      · exact h4
  | markReserved baseAddr lengthBytes => simp [granted, PmmOp.apply]
  | freePage physAddr => simp [granted, PmmOp.apply]
  | freePages physAddr count => simp [granted, PmmOp.apply]

theorem inv_alloc (hi : Inv bitmapAddr pageCount l) {op : PmmOp}
    (hop : op = .allocPage ∨ ∃ count, op = .allocPages count) :
    Inv bitmapAddr pageCount (l.step op) := by
  obtain ⟨hg, _, hafter⟩ := granted_clear hi op
  obtain ⟨h1, h2, h3⟩ := hafter hop
  have hheld : (l.step op).held = l.granted op :: l.held := by rcases hop with rfl | ⟨_, rfl⟩ <;> rfl
  have hres : (l.step op).reserved = l.reserved := by rcases hop with rfl | ⟨_, rfl⟩ <;> rfl
  refine ⟨h1, h2.trans hi.total, ?_, ?_, ?_, by rw [hres]; exact hi.bitmap, by rw [hres]; exact hi.zero⟩
  · rw [hheld, List.pairwise_cons]
    refine ⟨fun R hR => Finset.disjoint_left.mpr fun p hp hpR => ?_, hi.apart⟩
    exact (hi.owned p ⟨R, hR, hpR⟩).2.1 (hg hp)
  · rintro p ⟨R, hR, hp⟩
    rw [hres, show (l.step op).pmm.clearPages = _ from h3]
    rw [hheld] at hR
    rcases List.mem_cons.mp hR with rfl | hR
    · have hc := hg hp
      exact ⟨hi.total ▸ (Pmm.mem_clearPages.mp hc).1, fun h => (Finset.mem_sdiff.mp h).2 hp,
        fun h => hi.kept p h hc⟩
    · obtain ⟨k1, k2, k3⟩ := hi.owned p ⟨R, hR, hp⟩
      exact ⟨k1, fun h => k2 (Finset.mem_sdiff.mp h).1, k3⟩
  · intro p hp
    rw [hres] at hp
    rw [show (l.step op).pmm.clearPages = _ from h3]
    exact fun h => hi.kept p hp (Finset.mem_sdiff.mp h).1

theorem inv_free (hi : Inv bitmapAddr pageCount l) {op : PmmOp}
    (hheld : (l.step op).held = l.held.map (· \ freed op)) (hres : (l.step op).reserved = l.reserved)
    (hall : ∀ p ∈ freed op, l.Holds p) (h1 : (l.step op).pmm.Ok)
    (h2 : (l.step op).pmm.totalPages = l.pmm.totalPages)
    (h3 : (l.step op).pmm.clearPages ⊆ l.pmm.clearPages ∪ freed op) : Inv bitmapAddr pageCount (l.step op) := by
  refine ⟨h1, h2.trans hi.total, ?_, ?_, ?_, by rw [hres]; exact hi.bitmap, by rw [hres]; exact hi.zero⟩
  · rw [hheld, List.pairwise_map]
    exact hi.apart.imp fun h => Disjoint.mono Finset.sdiff_subset Finset.sdiff_subset h
  · rintro p ⟨R, hR, hp⟩
    rw [hheld] at hR
    obtain ⟨R', hR', rfl⟩ := List.mem_map.mp hR
    obtain ⟨hp1, hp2⟩ := Finset.mem_sdiff.mp hp
    obtain ⟨k1, k2, k3⟩ := hi.owned p ⟨R', hR', hp1⟩
    refine ⟨k1, fun h => ?_, hres ▸ k3⟩
    rcases Finset.mem_union.mp (h3 h) with h | h
    · exact k2 h
    · exact hp2 h
  · intro p hp h
    rw [hres] at hp
    rcases Finset.mem_union.mp (h3 h) with h | h
    · exact hi.kept p hp h
    · exact (hi.owned p (hall p h)).2.2 hp

theorem inv_step (hi : Inv bitmapAddr pageCount l) {op : PmmOp} (hl : l.Legal op) :
    Inv bitmapAddr pageCount (l.step op) := by
  cases op with
  | allocPage => exact inv_alloc hi (Or.inl rfl)
  | allocPages count => exact inv_alloc hi (Or.inr ⟨count, rfl⟩)
  | markReserved baseAddr lengthBytes =>
    obtain ⟨h1, h2, _, h4⟩ := pmmMarkReserved_spec hi.ok baseAddr lengthBytes
    have hheld : (l.step (.markReserved baseAddr lengthBytes)).held = l.held := by
      simp [step, freed]
    have hcl : (l.step (.markReserved baseAddr lengthBytes)).pmm.clearPages = _ := h4
    refine ⟨h1, h2.trans hi.total, hheld ▸ hi.apart, ?_, ?_, fun p hp => Or.inl (hi.bitmap p hp), Or.inl hi.zero⟩
    · intro p hp
      have hp' : l.Holds p := by rwa [Holds, hheld] at hp
      obtain ⟨k1, k2, k3⟩ := hi.owned p hp'
      rw [hcl]
      refine ⟨k1, fun h => k2 (Finset.mem_filter.mp h).1, ?_⟩
      rintro (h | h)
      · exact k3 h
      · exact hl p hp' h
    · rintro p hp h
      rw [hcl, Finset.mem_filter] at h
      rcases hp with hp | hp
      · exact hi.kept p hp h.1
      · exact h.2 hp
  | freePage physAddr =>
    obtain ⟨h1, h2, h3⟩ := pmmFreePage_spec hi.ok physAddr
    refine inv_free hi rfl rfl hl.2 h1 h2 ?_
    rw [show (l.step (.freePage physAddr)).pmm.clearPages = _ from h3]
    split
    · intro p hp
      rw [Finset.mem_insert] at hp
      rw [Finset.mem_union]
      rcases hp with rfl | hp
      · exact Or.inr (Finset.mem_Ico.mpr ⟨Nat.le_refl _, Nat.lt_succ_self _⟩)
      · exact Or.inl hp
    · exact Finset.subset_union_left
  | freePages physAddr count =>
    obtain ⟨h1, h2, h3⟩ := pmmFreePages_spec hi.ok physAddr count
    refine inv_free hi rfl rfl hl.2 h1 h2 ?_
    rw [show (l.step (.freePages physAddr count)).pmm.clearPages = _ from h3]
    split
    · exact Finset.Subset.refl _
    · exact Finset.subset_union_left

theorem inv_run {bytes : Nat → UInt8} (h : pageCount.toNat < 2 ^ 52) {ops : List PmmOp}
    (hr : Run Calls (init bytes bitmapAddr pageCount) ops l) : Inv bitmapAddr pageCount l :=
  hr.invariant (I := Inv bitmapAddr pageCount) (fun _ _ _ hi hs => by obtain ⟨hl, rfl⟩ := hs; exact inv_step hi hl)
    (inv_init bytes bitmapAddr h)

/-- **Page ownership.** After every disciplined run the held ranges are pairwise
disjoint, lie in `[1, pageCount)` and hold no reserved page, and an allocation
from there denotes whole pages that were neither held nor reserved. -/
theorem page_ownership (bytes : Nat → UInt8) (bitmapAddr pageCount : UInt64) (h : pageCount.toNat < 2 ^ 52)
    (ops : List PmmOp) (l : Ledger) (hr : Run Calls (init bytes bitmapAddr pageCount) ops l) :
    l.held.Pairwise Disjoint ∧
    (∀ R ∈ l.held, ∀ p ∈ R, 1 ≤ p ∧ p < pageCount.toNat ∧ ¬ l.reserved p ∧
      ¬ Touches bitmapAddr.toNat ((pageCount.toNat + 7) / 8) p) ∧
    (∀ op, (op.apply l.pmm).1 ≠ 0 →
      (op.apply l.pmm).1.toNat % 4096 = 0 ∧ ∀ p ∈ l.granted op, ¬ l.Holds p ∧ ¬ l.reserved p) := by
  have hi := inv_run h hr
  refine ⟨hi.apart, fun R hR p hp => ?_, fun op hne => ?_⟩
  · obtain ⟨h1, _, h3⟩ := hi.owned p ⟨R, hR, hp⟩
    refine ⟨Nat.pos_of_ne_zero ?_, h1, h3, fun ht => h3 (hi.bitmap p ht)⟩
    rintro rfl
    exact h3 hi.zero
  · obtain ⟨hg, ha, _⟩ := granted_clear hi op
    exact ⟨ha hne, fun p hp => ⟨fun hh => (hi.owned p hh).2.1 (hg hp), fun hh => hi.kept p hh (hg hp)⟩⟩

theorem page_ownership_partial_free :
    let l₀ := init (fun _ => 0xFF) 0x1000 64
    let l := ((l₀.step .allocPage).step (.allocPages 3)).step (.freePages 0x4000 2)
    l.held = [{3}, {2}] ∧ l.held.Pairwise Disjoint := by
  intro l₀ l
  have hr : Run Calls l₀ [.allocPage, .allocPages 3, .freePages 0x4000 2] l :=
    ((Run.single ⟨trivial, rfl⟩).snoc ⟨trivial, rfl⟩).snoc
      ⟨⟨by decide, by decide⟩, rfl⟩
  exact ⟨by decide, (page_ownership (fun _ => 0xFF) 0x1000 64 (by decide) _ l hr).1⟩

end Ledger

end KernelOs
