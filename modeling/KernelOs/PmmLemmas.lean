import KernelOs.Pmm
import Mathlib.Order.Interval.Finset.Nat

/-!
# What each operation of the physical memory manager does

The allocator stands for the set of its clear pages. Each operation gets one
specification that says how it changes that set; nothing after this file looks
at a bitmap byte or at a loop again.
-/

namespace KernelOs

/-! ## Words as numbers -/

@[simp] theorem pageSize_toNat : pageSize.toNat = 4096 := rfl

theorem toNat_succ {a : UInt64} (h : a.toNat + 1 < 2 ^ 64) : (a + 1).toNat = a.toNat + 1 := by
  rw [UInt64.toNat_add]
  exact Nat.mod_eq_of_lt h

theorem toNat_pred {a : UInt64} (h : 0 < a.toNat) : (a - 1).toNat = a.toNat - 1 := by
  have h1 : (1 : UInt64) ≤ a := UInt64.le_iff_toNat_le.mpr h
  exact UInt64.toNat_sub_of_le _ _ h1

theorem toNat_page {p : UInt64} (h : p.toNat < 2 ^ 52) : (p * pageSize).toNat = p.toNat * 4096 := by
  rw [UInt64.toNat_mul, pageSize_toNat]
  exact Nat.mod_eq_of_lt (by omega)

theorem toNat_ofNat_page {p : Nat} (h : p < 2 ^ 52) : (UInt64.ofNat (p * 4096)).toNat = p * 4096 := by
  rw [UInt64.toNat_ofNat']
  exact Nat.mod_eq_of_lt (by omega)

theorem page_address {p : UInt64} (h : p.toNat < 2 ^ 52) : p * pageSize = UInt64.ofNat (p.toNat * 4096) :=
  UInt64.toNat_inj.mp (by rw [toNat_page h, toNat_ofNat_page h])

theorem toNat_pageOf (a : UInt64) : (a / pageSize).toNat = a.toNat / 4096 := by
  rw [UInt64.toNat_div, pageSize_toNat]

theorem toNat_add_of_lt {a b : UInt64} (h : a.toNat + b.toNat < 2 ^ 64) : (a + b).toNat = a.toNat + b.toNat := by
  rw [UInt64.toNat_add]
  exact Nat.mod_eq_of_lt h

theorem toNat_sub_of_toNat_le {a b : UInt64} (h : b.toNat ≤ a.toNat) : (a - b).toNat = a.toNat - b.toNat :=
  UInt64.toNat_sub_of_le _ _ (UInt64.le_iff_toNat_le.mpr h)

/-- A sum that cannot have wrapped, since it is at least one of its terms. -/
theorem toNat_of_add_eq {a b c : UInt64} (h : a + b = c) (hle : b.toNat ≤ c.toNat) :
    a.toNat + b.toNat = c.toNat := by
  have hback : a = c - b := by rw [← h, UInt64.add_sub_cancel]
  rw [hback, toNat_sub_of_toNat_le hle]
  exact Nat.sub_add_cancel hle

theorem eq_zero_iff_toNat (a : UInt64) : a = 0 ↔ a.toNat = 0 := UInt64.toNat_inj.symm

namespace Pmm
open Lib

/-! ## The bits -/

theorem bitMask_eq (bit : UInt64) : bitMask bit = Bitmap.mask bit.toNat := by
  have h8 : (bit % 8).toNat < 8 := by rw [UInt64.toNat_mod]; exact Nat.mod_lt _ (by decide)
  have hb : bit % 8 = UInt64.ofNat (bit % 8).toNat := (UInt64.ofNat_toNat ..).symm
  have hm : bit.toNat % 8 = (bit % 8).toNat := by rw [UInt64.toNat_mod]; rfl
  rw [bitMask, Bitmap.mask, hm, hb]
  generalize (bit % 8).toNat = k at h8
  interval_cases k <;> rfl

theorem toNat_byte (bit : UInt64) : (bit / 8).toNat = bit.toNat / 8 := by rw [UInt64.toNat_div]; rfl

def used (s : Pmm) (p : Nat) : Bool := Bitmap.get s.bitmap p

theorem testBit_eq (s : Pmm) (bit : UInt64) : s.testBit bit = s.used bit.toNat := by
  rw [testBit, bitMask_eq, toNat_byte]; rfl

theorem setBit_bitmap (s : Pmm) (bit : UInt64) : (s.setBit bit).bitmap = Bitmap.set s.bitmap bit.toNat := by
  rw [setBit, bitMask_eq, toNat_byte]; rfl

theorem clearBit_bitmap (s : Pmm) (bit : UInt64) : (s.clearBit bit).bitmap = Bitmap.clear s.bitmap bit.toNat := by
  rw [clearBit, bitMask_eq, toNat_byte]; rfl

/-! ## The set of clear pages -/

def clearPages (s : Pmm) : Finset Nat := (Finset.range s.totalPages.toNat).filter fun p => s.used p = false

@[simp] theorem mem_clearPages {s : Pmm} {p : Nat} :
    p ∈ s.clearPages ↔ p < s.totalPages.toNat ∧ s.used p = false := by
  simp [clearPages]

structure Ok (s : Pmm) : Prop where
  small : s.totalPages.toNat < 2 ^ 52
  count : s.freePages.toNat = s.clearPages.card
  hint : s.searchHint.toNat ≤ s.totalPages.toNat

theorem clearPages_congr {s t : Pmm} (hbitmap : t.bitmap = s.bitmap) (htotal : t.totalPages = s.totalPages) :
    t.clearPages = s.clearPages := by
  unfold clearPages used
  rw [hbitmap, htotal]

theorem card_clearPages_le (s : Pmm) : s.clearPages.card ≤ s.totalPages.toNat := by
  have := Finset.card_filter_le (Finset.range s.totalPages.toNat) (fun p => s.used p = false)
  rwa [Finset.card_range] at this

/-! ## Changes of bits -/

/-- The bits of `P` have become `b`, and `free_pages` has followed. -/
structure Filled (s : Pmm) (P : Finset Nat) (b : Bool) (s' : Pmm) : Prop where
  total : s'.totalPages = s.totalPages
  used : ∀ p, s'.used p = if p ∈ P then b else s.used p
  count : s'.freePages + UInt64.ofNat s.clearPages.card = s.freePages + UInt64.ofNat s'.clearPages.card

section
variable {s t u : Pmm} {P Q : Finset Nat} {b : Bool} {bit : UInt64}

theorem Filled.of_same (h : ∀ p ∈ P, s.used p = b) : Filled s P b s := by
  refine ⟨rfl, fun p => ?_, rfl⟩
  split
  · next hp => exact h p hp
  · rfl

theorem Filled.refl : Filled s ∅ b s := .of_same (by simp)

theorem Filled.trans (h : Filled s P b t) (h' : Filled t Q b u) : Filled s (P ∪ Q) b u := by
  refine ⟨h'.total.trans h.total, fun p => ?_, ?_⟩
  · rw [h'.used, h.used]
    by_cases hp : p ∈ P <;> by_cases hq : p ∈ Q <;> simp [hp, hq]
  · have h1 := h.count
    have h2 := h'.count
    grind

theorem Filled.unique (h : Filled s P b t) (h' : Filled s P b u) (hhint : t.searchHint = u.searchHint) : t = u := by
  have hbitmap : t.bitmap = u.bitmap := Bitmap.ext fun p => (h.used p).trans (h'.used p).symm
  have htotal : t.totalPages = u.totalPages := h.total.trans h'.total.symm
  have hclear : t.clearPages = u.clearPages := clearPages_congr hbitmap htotal
  have hfree : t.freePages = u.freePages := by
    have h1 := h.count
    have h2 := h'.count
    rw [hclear] at h1
    grind
  cases t
  cases u
  simp_all

theorem Filled.clearPages_taken (h : Filled s P true t) : t.clearPages = s.clearPages \ P := by
  ext p
  rw [Finset.mem_sdiff, mem_clearPages, mem_clearPages, h.total, h.used]
  by_cases hp : p ∈ P <;> simp [hp]

theorem Filled.clearPages_freed (h : Filled s P false t) (hP : ∀ p ∈ P, p < s.totalPages.toNat) :
    t.clearPages = s.clearPages ∪ P := by
  ext p
  rw [Finset.mem_union, mem_clearPages, mem_clearPages, h.total, h.used]
  by_cases hp : p ∈ P
  · simp [hp, hP p hp]
  · simp [hp]

theorem Filled.ok (h : Filled s P b t) (hok : s.Ok) (hhint : t.searchHint.toNat ≤ s.totalPages.toNat) : t.Ok := by
  refine ⟨h.total ▸ hok.small, ?_, h.total ▸ hhint⟩
  have hfree : s.freePages = UInt64.ofNat s.clearPages.card := by rw [← hok.count, UInt64.ofNat_toNat]
  have hlt : t.clearPages.card < 2 ^ 64 := (card_clearPages_le t).trans_lt t.totalPages.toNat_lt
  have hcount : t.freePages = UInt64.ofNat t.clearPages.card := by
    have h1 := h.count
    rw [hfree] at h1
    grind
  rw [hcount, UInt64.toNat_ofNat_of_lt' hlt]

theorem Filled.one (hbit : bit.toNat < s.totalPages.toNat) (hu : s.used bit.toNat = !b)
    (hused : ∀ p, t.used p = if p = bit.toNat then b else s.used p) (htotal : t.totalPages = s.totalPages)
    (hfree : t.freePages = if b then s.freePages - 1 else s.freePages + 1) : Filled s {bit.toNat} b t := by
  refine ⟨htotal, fun p => by simp only [hused, Finset.mem_singleton], ?_⟩
  cases b with
  | true =>
    have hclear : t.clearPages = s.clearPages.erase bit.toNat := by
      ext p
      rw [Finset.mem_erase, mem_clearPages, mem_clearPages, hused, htotal]
      by_cases hp : p = bit.toNat <;> simp [hp]
    have hcard := Finset.card_erase_add_one (mem_clearPages.mpr ⟨hbit, hu⟩)
    rw [hclear, hfree, ← hcard, UInt64.ofNat_add, if_pos rfl]
    grind
  | false =>
    have hclear : t.clearPages = insert bit.toNat s.clearPages := by
      ext p
      rw [Finset.mem_insert, mem_clearPages, mem_clearPages, hused, htotal]
      by_cases hp : p = bit.toNat
      · simp [hp, hbit]
      · simp [hp]
    have hnot : bit.toNat ∉ s.clearPages := by simp [hu]
    rw [hclear, hfree, Finset.card_insert_of_notMem hnot, UInt64.ofNat_add, if_neg Bool.false_ne_true]
    grind

theorem used_set (s : Pmm) (bit : UInt64) (p : Nat) :
    (s.setBit bit).used p = if p = bit.toNat then true else s.used p := by
  rw [Pmm.used, setBit_bitmap, Bitmap.get_set]
  by_cases hp : p = bit.toNat <;> simp [hp, Pmm.used]

theorem used_clear (s : Pmm) (bit : UInt64) (p : Nat) : (s.clearBit bit).used p =
    if p = bit.toNat then false else s.used p := by
  rw [Pmm.used, clearBit_bitmap, Bitmap.get_clear]
  by_cases hp : p = bit.toNat <;> simp [hp, Pmm.used]

/-- A loop that turns one bit after the other to `b`. -/
theorem filled_loop {loop : Nat → UInt64 → Pmm → Pmm} {round : UInt64 → Pmm → Pmm}
    (hzero : ∀ page s, loop 0 page s = s)
    (hsucc : ∀ n page s, loop (n + 1) page s = loop n (page + 1) (round page s))
    (hround : ∀ page s, page.toNat < s.totalPages.toNat → Filled s {page.toNat} b (round page s) ∧
      (round page s).searchHint = s.searchHint) :
    ∀ (n : Nat) (page : UInt64) (s : Pmm), page.toNat + n ≤ s.totalPages.toNat →
      Filled s (Finset.Ico page.toNat (page.toNat + n)) b (loop n page s) ∧
      (loop n page s).searchHint = s.searchHint := by
  intro n
  induction n with
  | zero =>
    intro page s _
    rw [hzero, Nat.add_zero, Finset.Ico_self]
    exact ⟨.refl, rfl⟩
  | succ n ih =>
    intro page s hle
    have hpage : (page + 1).toNat = page.toNat + 1 := toNat_succ (by have := s.totalPages.toNat_lt; omega)
    obtain ⟨h1, h2⟩ := hround page s (by omega)
    obtain ⟨k1, k2⟩ := ih (page + 1) (round page s) (by rw [h1.total]; omega)
    have hcover : Finset.Ico page.toNat (page.toNat + (n + 1)) = {page.toNat} ∪ Finset.Ico (page + 1).toNat
        ((page + 1).toNat + n) := by
      ext p
      simp only [Finset.mem_union, Finset.mem_singleton, Finset.mem_Ico]
      omega
    rw [hsucc, hcover]
    exact ⟨h1.trans k1, k2.trans h2⟩

end

end Pmm

/-! ## Reservations -/

open Pmm

variable {s : Pmm}

theorem markLoop_filled (n : Nat) (page : UInt64) (h : page.toNat + n ≤ s.totalPages.toNat) :
    Filled s (Finset.Ico page.toNat (page.toNat + n)) true (markLoop n page s) ∧
      (markLoop n page s).searchHint = s.searchHint := by
  refine filled_loop (fun _ _ => rfl) (fun _ _ _ => rfl) (fun page s hpage => ?_) n page s h
  rw [testBit_eq]
  cases hu : s.used page.toNat with
  | true => exact ⟨.of_same fun p hp => by rwa [Finset.mem_singleton.mp hp], rfl⟩
  | false => exact ⟨.one hpage hu (used_set s page) rfl rfl, rfl⟩

/-- The page `p` holds a byte of `[base, base + len)`. -/
def Touches (base len p : Nat) : Prop := 0 < len ∧ base < (p + 1) * 4096 ∧ p * 4096 < base + len

instance (base len p : Nat) : Decidable (Touches base len p) := by unfold Touches; infer_instance

/-- The end of a reservation in pages, clipped. A managed page is below it just if its first byte is below
the end of the range. -/
theorem reservedEnd_spec (hs : s.totalPages.toNat < 2 ^ 52) {base len : UInt64} (hlen : 0 < len.toNat)
    (hbase : base.toNat < s.totalPages.toNat * 4096) :
    let e := min (if len - 1 > uintptrMax - base then s.totalPages else (base + (len - 1)) / pageSize + 1).toNat
      s.totalPages.toNat
    base.toNat / 4096 < e ∧ e ≤ s.totalPages.toNat ∧ ∀ p, p < s.totalPages.toNat →
        (p < e ↔ p * 4096 < base.toNat + len.toNat) := by
  have hlast : (len - 1).toNat = len.toNat - 1 := toNat_pred hlen
  have hb64 := base.toNat_lt
  have hmax : (uintptrMax - base).toNat = 2 ^ 64 - 1 - base.toNat := by
    rw [toNat_sub_of_toNat_le (by rw [show uintptrMax.toNat = 2 ^ 64 - 1 from rfl]; omega)]
    rfl
  split
  · next hwrap =>
    rw [gt_iff_lt, UInt64.lt_iff_toNat_lt, hmax, hlast] at hwrap
    exact ⟨by omega, by omega, fun p hp => by omega⟩
  · next hwrap =>
    rw [gt_iff_lt, UInt64.not_lt, UInt64.le_iff_toNat_le, hmax, hlast] at hwrap
    have hsum : (base + (len - 1)).toNat = base.toNat + (len.toNat - 1) := by
      rw [toNat_add_of_lt (by rw [hlast]; omega), hlast]
    have hend : ((base + (len - 1)) / pageSize + 1).toNat = (base.toNat + (len.toNat - 1)) / 4096 + 1 := by
      rw [toNat_succ (by rw [toNat_pageOf, hsum]; omega), toNat_pageOf, hsum]
    rw [hend]
    exact ⟨by omega, by omega, fun p hp => by omega⟩

/-- **Reservation.** Exactly the touched pages are marked. -/
theorem pmmMarkReserved_filled (hs : s.totalPages.toNat < 2 ^ 52) (base len : UInt64) :
    Filled s ((Finset.range s.totalPages.toNat).filter (Touches base.toNat len.toNat)) true
      (pmmMarkReserved s base len) ∧
      (pmmMarkReserved s base len).searchHint = s.searchHint := by
  have hmul := toNat_page hs
  unfold pmmMarkReserved
  split
  · next hout =>
    refine ⟨.of_same fun p hp => ?_, rfl⟩
    obtain ⟨hlt, ht⟩ := Finset.mem_filter.mp hp
    rw [Finset.mem_range] at hlt
    cases hout with
    | inl h0 =>
      rw [h0] at ht
      exact absurd ht.1 (by decide)
    | inr hge =>
      rw [ge_iff_le, UInt64.le_iff_toNat_le, hmul] at hge
      have h1 := ht.2.1
      have h2 : (p + 1) * 4096 ≤ s.totalPages.toNat * 4096 := Nat.mul_le_mul_right _ hlt
      omega
  next hin =>
  simp only [not_or, ge_iff_le, UInt64.not_le, UInt64.lt_iff_toNat_lt, hmul] at hin
  obtain ⟨hlen, hbase⟩ := hin
  have hlen0 : 0 < len.toNat := Nat.pos_of_ne_zero fun h0 => hlen ((eq_zero_iff_toNat len).mpr h0)
  have hstart := toNat_pageOf base
  obtain ⟨h1, h2, h3⟩ := reservedEnd_spec hs hlen0 hbase
  dsimp only at h1 h2 h3 ⊢
  generalize min (if len - 1 > uintptrMax - base then s.totalPages else (base + (len - 1)) / pageSize + 1).toNat
    s.totalPages.toNat = e at h1 h2 h3 ⊢
  have hfilled := markLoop_filled (s := s) (e - (base / pageSize).toNat) (base / pageSize) (by rw [hstart]; omega)
  rw [hstart] at hfilled ⊢
  have hpages : (Finset.range s.totalPages.toNat).filter (Touches base.toNat len.toNat) =
      Finset.Ico (base.toNat / 4096) (base.toNat / 4096 + (e - base.toNat / 4096)) := by
    ext p
    simp only [Finset.mem_filter, Finset.mem_range, Finset.mem_Ico, Touches]
    by_cases hp : p < s.totalPages.toNat
    · have := h3 p hp
      omega
    · omega
  rwa [hpages]

theorem pmmMarkReserved_spec (h : s.Ok) (base len : UInt64) :
    (pmmMarkReserved s base len).Ok ∧ (pmmMarkReserved s base len).totalPages = s.totalPages ∧
      (pmmMarkReserved s base len).searchHint = s.searchHint ∧
      (pmmMarkReserved s base len).clearPages = s.clearPages.filter fun p => ¬ Touches base.toNat len.toNat p := by
  obtain ⟨h1, h2⟩ := pmmMarkReserved_filled h.small base len
  refine ⟨h1.ok h (by rw [h2]; exact h.hint), h1.total, h2, ?_⟩
  rw [h1.clearPages_taken]
  ext p
  simp only [Finset.mem_sdiff, Finset.mem_filter, Finset.mem_range]
  refine and_congr_right fun hp => ?_
  have := (mem_clearPages.mp hp).1
  tauto

/-! ## Single pages -/

theorem allocScan_spec (h : s.Ok) : ∀ (n : Nat) (i : UInt64), i.toNat + n = s.totalPages.toNat →
    (∀ j < i.toNat, (s.searchHint.toNat + j) % s.totalPages.toNat ∉ s.clearPages) →
    (allocScan n i s = (0, s) ∧
      ∀ j < s.totalPages.toNat, (s.searchHint.toNat + j) % s.totalPages.toNat ∉ s.clearPages) ∨
      ∃ k page s', allocScan n i s = (page * pageSize, s') ∧
      page.toNat = (s.searchHint.toNat + k) % s.totalPages.toNat ∧
        page.toNat ∈ s.clearPages ∧ (∀ j < k, (s.searchHint.toNat + j) % s.totalPages.toNat ∉ s.clearPages) ∧
        Filled s {page.toNat} true s' ∧ s'.searchHint = page + 1
  | 0, i, hi, hj => Or.inl ⟨rfl, fun j hlt => hj j (by omega)⟩
  | n + 1, i, hi, hj => by
    have hs := h.small
    have hh := h.hint
    have hpos : 0 < s.totalPages.toNat := by omega
    have hpage : ((s.searchHint + i) % s.totalPages).toNat =
        (s.searchHint.toNat + i.toNat) % s.totalPages.toNat := by
      rw [UInt64.toNat_mod, toNat_add_of_lt (by omega)]
    have hlt := Nat.mod_lt (s.searchHint.toNat + i.toNat) hpos
    rw [allocScan]
    dsimp only
    generalize (s.searchHint + i) % s.totalPages = page at hpage ⊢
    rw [testBit_eq]
    cases hu : s.used page.toNat with
    | true =>
      refine allocScan_spec h n (i + 1) (by rw [toNat_succ (by omega)]; omega) fun j hj' => ?_
      rw [toNat_succ (by omega)] at hj'
      rcases Nat.lt_succ_iff_lt_or_eq.mp hj' with hlt' | rfl
      · exact hj j hlt'
      · rw [← hpage]
        simp [hu]
    | false =>
      refine Or.inr ⟨i.toNat, page, _, rfl, hpage, mem_clearPages.mpr ⟨hpage ▸ hlt, hu⟩, hj, ?_, rfl⟩
      exact .one (hpage ▸ hlt) hu (used_set s page) rfl rfl

/-- **Single-page allocation.** Out of memory leaves everything; otherwise the
first clear page met from the hint on is taken. -/
theorem pmmAllocPage_filled (h : s.Ok) : (pmmAllocPage s = (0, s) ∧ s.clearPages = ∅) ∨
    ∃ k page s', pmmAllocPage s = (page * pageSize, s') ∧
    page.toNat = (s.searchHint.toNat + k) % s.totalPages.toNat ∧
      page.toNat ∈ s.clearPages ∧ (∀ j < k, (s.searchHint.toNat + j) % s.totalPages.toNat ∉ s.clearPages) ∧
      Filled s {page.toNat} true s' ∧ s'.searchHint = page + 1 := by
  refine (allocScan_spec h s.totalPages.toNat 0 (by simp) (by simp)).imp_left fun ⟨h1, h2⟩ => ⟨h1, ?_⟩
  -- the scan has met every residue
  rw [Finset.eq_empty_iff_forall_notMem]
  intro p hp
  have hlt := (mem_clearPages.mp hp).1
  have hh := h.hint
  refine h2 ((p + s.totalPages.toNat - s.searchHint.toNat) % s.totalPages.toNat) (Nat.mod_lt _ (by omega)) ?_
  rw [Nat.add_mod_mod, show s.searchHint.toNat + (p + s.totalPages.toNat - s.searchHint.toNat) =
    p + s.totalPages.toNat by omega, Nat.add_mod_right, Nat.mod_eq_of_lt hlt]
  exact hp

theorem pmmAllocPage_spec (h : s.Ok) :
    (pmmAllocPage s = (0, s) ∧ s.clearPages = ∅) ∨
      ∃ k s', pmmAllocPage s = (UInt64.ofNat ((s.searchHint.toNat + k) % s.totalPages.toNat * 4096), s') ∧
        (s.searchHint.toNat + k) % s.totalPages.toNat ∈ s.clearPages ∧
        (∀ j < k, (s.searchHint.toNat + j) % s.totalPages.toNat ∉ s.clearPages) ∧
        s'.Ok ∧ s'.totalPages = s.totalPages ∧
        s'.clearPages = s.clearPages.erase ((s.searchHint.toNat + k) % s.totalPages.toNat) := by
  refine (pmmAllocPage_filled h).imp_right fun ⟨k, page, s', he, hpage, hmem, hfirst, hfilled, hhint⟩ => ?_
  have hs := h.small
  have hlt := (mem_clearPages.mp hmem).1
  have hok := hfilled.ok h (by rw [hhint, toNat_succ (by omega)]; omega)
  have hclear := hfilled.clearPages_taken
  rw [page_address (by omega), hpage] at he
  rw [Finset.sdiff_singleton_eq_erase, hpage] at hclear
  rw [hpage] at hmem
  exact ⟨k, s', he, hmem, hfirst, hok, hfilled.total, hclear⟩

/-! ## Runs of pages -/

theorem setBits_spec : ∀ (n : Nat) (page : UInt64) (s : Pmm), page.toNat + n < 2 ^ 64 →
    (setBits n page s).totalPages = s.totalPages ∧
      ∀ p, (setBits n page s).used p = if p ∈ Finset.Ico page.toNat (page.toNat + n) then true else s.used p
  | 0, page, s, _ => ⟨rfl, by simp [setBits]⟩
  | n + 1, page, s, hlt => by
    have hsucc : (page + 1).toNat = page.toNat + 1 := toNat_succ (by omega)
    obtain ⟨h1, h2⟩ := setBits_spec n (page + 1) (s.setBit page) (by omega)
    refine ⟨h1, fun p => ?_⟩
    rw [setBits, h2, used_set, hsucc]
    simp only [Finset.mem_Ico]
    by_cases hp : p = page.toNat
    · simp [hp]
    · rw [if_neg hp]
      exact if_congr (by omega) rfl rfl

theorem setBits_filled {start count : UInt64}
    (h : Finset.Ico start.toNat (start.toNat + count.toNat) ⊆ s.clearPages)
    (hlt : start.toNat + count.toNat ≤ s.totalPages.toNat) :
    Filled s (Finset.Ico start.toNat (start.toNat + count.toNat)) true
      { setBits count.toNat start s with freePages := s.freePages - count, searchHint := start + count } := by
  obtain ⟨h1, h2⟩ := setBits_spec count.toNat start s (by have := s.totalPages.toNat_lt; omega)
  refine ⟨h1, h2, ?_⟩
  have hclear : clearPages
    { setBits count.toNat start s with freePages := s.freePages - count, searchHint := start + count } =
      s.clearPages \ Finset.Ico start.toNat (start.toNat + count.toNat) := by
    ext p
    rw [Finset.mem_sdiff, mem_clearPages, mem_clearPages]
    change (p < (setBits count.toNat start s).totalPages.toNat ∧ (setBits count.toNat start s).used p = false) ↔ _
    rw [h1, h2]
    by_cases hp : p ∈ Finset.Ico start.toNat (start.toNat + count.toNat) <;> simp [hp]
  have hcard := Finset.card_sdiff_add_card_eq_card h
  rw [Nat.card_Ico, Nat.add_sub_cancel_left] at hcard
  rw [hclear, ← hcard, UInt64.ofNat_add, UInt64.ofNat_toNat]
  grind

/-- The loop of `pmm_alloc_pages` has come to `page`: it keeps the longest clear run that ends there, and no run
of `count` clear pages ends earlier. -/
structure Scanned (s : Pmm) (count page runStart runLength : UInt64) : Prop where
  short : runLength.toNat < count.toNat
  fits : runLength.toNat ≤ page.toNat
  start : runLength.toNat ≠ 0 → runStart.toNat = page.toNat - runLength.toNat
  run : Finset.Ico (page.toNat - runLength.toNat) page.toNat ⊆ s.clearPages
  longest : ∀ t < page.toNat - runLength.toNat, ¬ Finset.Ico t page.toNat ⊆ s.clearPages
  none : ∀ t, t + count.toNat ≤ page.toNat → ¬ Finset.Ico t (t + count.toNat) ⊆ s.clearPages

namespace Scanned

variable {count page runStart runLength : UInt64}

theorem init (hpos : 0 < count.toNat) : Scanned s count 0 0 0 where
  short := hpos
  fits := Nat.le_refl _
  start h := absurd rfl h
  run := Finset.empty_subset _
  longest _ ht := absurd ht (Nat.not_lt_zero _)
  none t ht := by
    have hzero : (0 : UInt64).toNat = 0 := rfl
    omega

/-- A page in use ends the run. -/
theorem broken (h : Scanned s count page runStart runLength) (hsucc : (page + 1).toNat = page.toNat + 1)
    (hused : page.toNat ∉ s.clearPages) :
    Scanned s count (page + 1) runStart 0 where
  short := Nat.zero_lt_of_lt h.short
  fits := Nat.zero_le _
  start h0 := absurd rfl h0
  run := by
    rw [show (0 : UInt64).toNat = 0 from rfl, Nat.sub_zero, Finset.Ico_self]
    exact Finset.empty_subset _
  longest t ht hsub := by
    rw [show (0 : UInt64).toNat = 0 from rfl, hsucc] at ht
    rw [hsucc] at hsub
    exact hused (hsub (Finset.mem_Ico.mpr (by omega)))
  none t ht hsub := by
    by_cases hend : t + count.toNat ≤ page.toNat
    · exact h.none t hend hsub
    · have hshort := h.short
      rw [hsucc] at ht
      exact hused (hsub (Finset.mem_Ico.mpr (by omega)))

/-- The run with this page starts where it did. -/
theorem start_toNat (h : Scanned s count page runStart runLength) :
    (if runLength = 0 then page else runStart).toNat = page.toNat - runLength.toNat := by
  split
  · next h0 => rw [(eq_zero_iff_toNat runLength).mp h0, Nat.sub_zero]
  · next h0 => exact h.start fun h1 => h0 ((eq_zero_iff_toNat runLength).mpr h1)

theorem run_succ (h : Scanned s count page runStart runLength) (hclear : page.toNat ∈ s.clearPages) :
    Finset.Ico (page.toNat - runLength.toNat) (page.toNat + 1) ⊆ s.clearPages := by
  intro p hp
  obtain ⟨h1, h2⟩ := Finset.mem_Ico.mp hp
  rcases Nat.lt_succ_iff_lt_or_eq.mp h2 with hlt | rfl
  · exact h.run (Finset.mem_Ico.mpr ⟨h1, hlt⟩)
  · exact hclear

theorem longest_succ (h : Scanned s count page runStart runLength) :
    ∀ t < page.toNat - runLength.toNat, ¬ Finset.Ico t (page.toNat + 1) ⊆ s.clearPages := fun t ht hsub =>
  h.longest t ht fun p hp => hsub (Finset.mem_Ico.mpr (by rw [Finset.mem_Ico] at hp; omega))

/-- A run that would be long enough with this page ends here and starts where the longest one does. -/
theorem not_earlier (h : Scanned s count page runStart runLength) {t : Nat} (ht : t < page.toNat - runLength.toNat)
    (hend : t + count.toNat ≤ page.toNat + 1) : ¬ Finset.Ico t (t + count.toNat) ⊆ s.clearPages := by
  intro hsub
  by_cases hold : t + count.toNat ≤ page.toNat
  · exact h.none t hold hsub
  · refine h.longest_succ t ht fun p hp => hsub (Finset.mem_Ico.mpr ?_)
    rw [Finset.mem_Ico] at hp
    omega

theorem grow (h : Scanned s count page runStart runLength) (hsucc : (page + 1).toNat = page.toNat + 1)
    (hclear : page.toNat ∈ s.clearPages) (hlen : (runLength + 1).toNat = runLength.toNat + 1)
    (hne : runLength + 1 ≠ count) :
    Scanned s count (page + 1) (if runLength = 0 then page else runStart) (runLength + 1) := by
  have hsub : page.toNat + 1 - (runLength.toNat + 1) = page.toNat - runLength.toNat := by omega
  have hshort : runLength.toNat + 1 ≠ count.toNat := fun h1 => hne (UInt64.toNat_inj.mp (by rw [hlen, h1]))
  have hlt := h.short
  have hfits := h.fits
  constructor
  · omega
  · omega
  · intro _
    rw [h.start_toNat, hsucc, hlen, hsub]
  · rw [hsucc, hlen, hsub]
    exact h.run_succ hclear
  · rw [hsucc, hlen, hsub]
    exact h.longest_succ
  · rw [hsucc]
    exact fun t ht => h.not_earlier (by omega) ht

/-- With `count` pages the run is complete, and it is the first one. -/
theorem first (h : Scanned s count page runStart runLength) (hclear : page.toNat ∈ s.clearPages)
    (hfull : count.toNat = runLength.toNat + 1) {start : UInt64}
    (hstart : start.toNat = page.toNat - runLength.toNat) :
    Finset.Ico start.toNat (start.toNat + count.toNat) ⊆ s.clearPages ∧
      ∀ t < start.toNat, ¬ Finset.Ico t (t + count.toNat) ⊆ s.clearPages := by
  have hfits := h.fits
  have hend : page.toNat - runLength.toNat + count.toNat = page.toNat + 1 := by omega
  rw [hstart]
  exact ⟨hend ▸ h.run_succ hclear, fun t ht => h.not_earlier ht (by omega)⟩

end Scanned

theorem runScan_spec {count : UInt64} :
    ∀ (n : Nat) (page runStart runLength : UInt64), page.toNat + n = s.totalPages.toNat →
    Scanned s count page runStart runLength →
      (runScan count n page runStart runLength s = (0, s) ∧ ∀ t, ¬ Finset.Ico t (t + count.toNat) ⊆ s.clearPages) ∨
        ∃ start : UInt64, Finset.Ico start.toNat (start.toNat + count.toNat) ⊆ s.clearPages ∧
          (∀ t < start.toNat, ¬ Finset.Ico t (t + count.toNat) ⊆ s.clearPages) ∧
          runScan count n page runStart runLength s = (start * pageSize,
            { setBits count.toNat start s with freePages := s.freePages - count, searchHint := start + count })
  | 0, page, _, _, hn, h => by
    have hshort := h.short
    refine Or.inl ⟨rfl, fun t hsub => ?_⟩
    have hlast : t + count.toNat - 1 ∈ s.clearPages := hsub (Finset.mem_Ico.mpr (by omega))
    have := (mem_clearPages.mp hlast).1
    exact h.none t (by omega) hsub
  | n + 1, page, runStart, runLength, hn, h => by
    have hs := s.totalPages.toNat_lt
    have hsucc : (page + 1).toNat = page.toNat + 1 := toNat_succ (by omega)
    have hshort := h.short
    have hlen : (runLength + 1).toNat = runLength.toNat + 1 := toNat_succ (by have := count.toNat_lt; omega)
    rw [runScan]
    simp only [testBit_eq]
    by_cases hu : s.used page.toNat = true
    · have hnot : page.toNat ∉ s.clearPages := by simp [hu]
      simp only [hu, if_true]
      exact runScan_spec n (page + 1) runStart 0 (by omega) (h.broken hsucc hnot)
    · have hu' : s.used page.toNat = false := by simpa using hu
      have hpage : page.toNat ∈ s.clearPages := mem_clearPages.mpr ⟨by omega, hu'⟩
      simp only [hu', Bool.false_eq_true, if_false]
      by_cases hfull : runLength + 1 = count
      · have hcount : count.toNat = runLength.toNat + 1 := by rw [← hfull, hlen]
        have hstart := h.start_toNat
        have hfits := h.fits
        rw [if_neg (not_not.mpr hfull)]
        generalize (if runLength = 0 then page else runStart) = start at hstart ⊢
        have hsum : (start + count).toNat = start.toNat + count.toNat := toNat_add_of_lt (by omega)
        rw [hsum, Nat.add_sub_cancel_left]
        obtain ⟨hrun, hfirst⟩ := h.first hpage hcount hstart
        exact Or.inr ⟨start, hrun, hfirst, rfl⟩
      · rw [if_pos hfull]
        exact runScan_spec n (page + 1) _ (runLength + 1) (by omega) (h.grow hsucc hpage hlen hfull)

/-- **Multi-page allocation**, in any state. It fails without a change exactly when no run of
`count` clear pages exists, and takes the lowest such run otherwise. -/
theorem pmmAllocPages_filled (s : Pmm) (count : UInt64) :
    (pmmAllocPages s count = (0, s) ∧ (count = 0 ∨ ∀ t, ¬ Finset.Ico t (t + count.toNat) ⊆ s.clearPages)) ∨
      ∃ start s', pmmAllocPages s count = (start * pageSize, s') ∧ 0 < count.toNat ∧
        start.toNat + count.toNat ≤ s.totalPages.toNat ∧ Finset.Ico start.toNat (start.toNat + count.toNat) ⊆
        s.clearPages ∧
        (∀ t < start.toNat, ¬ Finset.Ico t (t + count.toNat) ⊆ s.clearPages) ∧
        Filled s (Finset.Ico start.toNat (start.toNat + count.toNat)) true s' ∧ s'.searchHint = start + count := by
  -- a clear run ends at the last page or before
  have hend {t : Nat} (hpos : 0 < count.toNat) (hsub : Finset.Ico t (t + count.toNat) ⊆ s.clearPages) :
      t + count.toNat ≤ s.totalPages.toNat := by
    have := (mem_clearPages.mp (hsub (Finset.mem_Ico.mpr (show t ≤ t + count.toNat - 1 ∧ _ by omega)))).1
    omega
  unfold pmmAllocPages
  by_cases h0 : count = 0
  · exact Or.inl ⟨by simp [h0], Or.inl h0⟩
  have hpos : 0 < count.toNat := Nat.pos_of_ne_zero fun h1 => h0 ((eq_zero_iff_toNat count).mpr h1)
  by_cases hbig : count > s.totalPages
  · refine Or.inl ⟨by simp [hbig], Or.inr fun t hsub => ?_⟩
    rw [gt_iff_lt, UInt64.lt_iff_toNat_lt] at hbig
    have := hend hpos hsub
    omega
  · rw [if_neg (by simp [h0, hbig])]
    rcases runScan_spec s.totalPages.toNat 0 0 0 (Nat.zero_add _) (Scanned.init hpos) with ⟨h1, h2⟩
      | ⟨start, h1, h2, h3⟩
    · exact Or.inl ⟨h1, Or.inr h2⟩
    · exact Or.inr ⟨start, _, h3, hpos, hend hpos h1, h1, h2, setBits_filled h1 (hend hpos h1), rfl⟩

theorem pmmAllocPages_spec (h : s.Ok) (count : UInt64) :
    (pmmAllocPages s count = (0, s) ∧ (count = 0 ∨ ∀ t, ¬ Finset.Ico t (t + count.toNat) ⊆ s.clearPages)) ∨
      ∃ t s', pmmAllocPages s count = (UInt64.ofNat (t * 4096), s') ∧ 0 < count.toNat ∧
        Finset.Ico t (t + count.toNat) ⊆ s.clearPages ∧
        (∀ u < t, ¬ Finset.Ico u (u + count.toNat) ⊆ s.clearPages) ∧
        s'.Ok ∧ s'.totalPages = s.totalPages ∧
        s'.clearPages = s.clearPages \ Finset.Ico t (t + count.toNat) := by
  refine (pmmAllocPages_filled s count).imp_right fun ⟨start, s', he, hpos, hend, hsub, hfirst,
    hfilled, hhint⟩ => ?_
  have hs := h.small
  have hok := hfilled.ok h (by rw [hhint, toNat_add_of_lt (by omega)]; exact hend)
  rw [page_address (by omega)] at he
  exact ⟨start.toNat, s', he, hpos, hsub, hfirst, hok, hfilled.total, hfilled.clearPages_taken⟩

/-! ## Giving pages back -/

theorem freePage_filled {page : UInt64} (h : page.toNat < s.totalPages.toNat) :
    Filled s {page.toNat} false
      (if s.testBit page then { s.clearBit page with freePages := s.freePages + 1 } else s) ∧
      (if s.testBit page then { s.clearBit page with freePages := s.freePages + 1 } else s).searchHint =
      s.searchHint := by
  rw [testBit_eq]
  cases hu : s.used page.toNat with
  | true => exact ⟨.one h hu (used_clear s page) rfl rfl, rfl⟩
  | false => exact ⟨.of_same fun p hp => by rwa [Finset.mem_singleton.mp hp], rfl⟩

/-- **Freeing a page.** A page-aligned address of a managed page other than
page 0 makes that page clear; every other call changes nothing. -/
theorem pmmFreePage_filled (s : Pmm) (physAddr : UInt64) :
    Filled s
        (if physAddr.toNat % 4096 = 0 ∧ physAddr.toNat / 4096 ≠ 0 ∧ physAddr.toNat / 4096 < s.totalPages.toNat then
          {physAddr.toNat / 4096} else ∅) false (pmmFreePage s physAddr) ∧
      (pmmFreePage s physAddr).searchHint = s.searchHint := by
  have hpg := toNat_pageOf physAddr
  have hmod : physAddr % pageSize ≠ 0 ↔ physAddr.toNat % 4096 ≠ 0 := by
    rw [ne_eq, eq_zero_iff_toNat, UInt64.toNat_mod, pageSize_toNat]
  unfold pmmFreePage
  simp only [hmod, eq_zero_iff_toNat, hpg, ge_iff_le, UInt64.le_iff_toNat_le]
  by_cases hgood : physAddr.toNat % 4096 = 0 ∧ physAddr.toNat / 4096 ≠ 0 ∧
    physAddr.toNat / 4096 < s.totalPages.toNat
  · rw [if_pos hgood, if_neg (by omega), ← hpg]
    exact freePage_filled (by omega)
  · rw [if_neg hgood, if_pos (by omega)]
    exact ⟨.refl, rfl⟩

theorem pmmFreePage_spec (h : s.Ok) (physAddr : UInt64) :
    (pmmFreePage s physAddr).Ok ∧ (pmmFreePage s physAddr).totalPages = s.totalPages ∧
      (pmmFreePage s physAddr).clearPages =
        if physAddr.toNat % 4096 = 0 ∧ physAddr.toNat / 4096 ≠ 0 ∧ physAddr.toNat / 4096 < s.totalPages.toNat then
          insert (physAddr.toNat / 4096) s.clearPages else s.clearPages := by
  obtain ⟨h1, h2⟩ := pmmFreePage_filled s physAddr
  refine ⟨h1.ok h (by rw [h2]; exact h.hint), h1.total, ?_⟩
  split at h1
  · next hpage =>
    rw [if_pos hpage, h1.clearPages_freed (by simpa using hpage.2.2), Finset.union_comm, Finset.insert_eq]
  · next hpage =>
    rw [if_neg hpage, h1.clearPages_freed (by simp), Finset.union_empty]

theorem freeLoop_filled (n : Nat) (page : UInt64) (h : page.toNat + n ≤ s.totalPages.toNat) :
    Filled s (Finset.Ico page.toNat (page.toNat + n)) false (freeLoop n page s) ∧
      (freeLoop n page s).searchHint = s.searchHint :=
  filled_loop (fun _ _ => rfl) (fun _ _ _ => rfl) (fun _ _ hpage => freePage_filled hpage) n page s h

/-- **Freeing a run.** A page-aligned run of managed pages that does not start
at page 0 becomes clear; every other call changes nothing. -/
theorem pmmFreePages_filled (s : Pmm) (physAddr count : UInt64) :
    Filled s
        (if physAddr.toNat % 4096 = 0 ∧ physAddr.toNat ≠ 0 ∧
            physAddr.toNat / 4096 + count.toNat ≤ s.totalPages.toNat then
          Finset.Ico (physAddr.toNat / 4096) (physAddr.toNat / 4096 + count.toNat) else ∅) false
        (pmmFreePages s physAddr count) ∧
      (pmmFreePages s physAddr count).searchHint = s.searchHint := by
  have hs := s.totalPages.toNat_lt
  have hpg := toNat_pageOf physAddr
  have hmod : physAddr % pageSize ≠ 0 ↔ physAddr.toNat % 4096 ≠ 0 := by
    rw [ne_eq, eq_zero_iff_toNat, UInt64.toNat_mod, pageSize_toNat]
  unfold pmmFreePages
  simp only [hmod, eq_zero_iff_toNat count, eq_zero_iff_toNat physAddr]
  by_cases hrun : physAddr.toNat % 4096 = 0 ∧ physAddr.toNat ≠ 0 ∧
    physAddr.toNat / 4096 + count.toNat ≤ s.totalPages.toNat
  swap
  · rw [if_neg hrun]
    by_cases hcall : count.toNat = 0 ∨ physAddr.toNat % 4096 ≠ 0 ∨ physAddr.toNat = 0
    · rw [if_pos hcall]
      exact ⟨.refl, rfl⟩
    · rw [if_neg hcall, if_pos]
      · exact ⟨.refl, rfl⟩
      · rw [ge_iff_le, gt_iff_lt, UInt64.le_iff_toNat_le, UInt64.lt_iff_toNat_lt, hpg, or_iff_not_imp_left]
        intro hlt
        rw [toNat_sub_of_toNat_le (by rw [hpg]; omega), hpg]
        omega
  rw [if_pos hrun]
  by_cases hzero : count.toNat = 0
  · rw [if_pos (Or.inl hzero), hzero, Nat.add_zero, Finset.Ico_self]
    exact ⟨.refl, rfl⟩
  have hsum : (physAddr / pageSize + count).toNat = physAddr.toNat / 4096 + count.toNat := by
    rw [toNat_add_of_lt (by rw [hpg]; omega), hpg]
  have hin : ¬ (physAddr / pageSize ≥ s.totalPages ∨ count > s.totalPages - physAddr / pageSize) := by
    rw [ge_iff_le, gt_iff_lt, UInt64.le_iff_toNat_le, UInt64.lt_iff_toNat_lt,
      toNat_sub_of_toNat_le (by rw [hpg]; omega), hpg]
    omega
  rw [if_neg (by omega), if_neg hin, hsum, hpg, Nat.add_sub_cancel_left]
  have hfilled := freeLoop_filled (s := s) count.toNat (physAddr / pageSize) (by rw [hpg]; omega)
  rwa [hpg] at hfilled

theorem pmmFreePages_spec (h : s.Ok) (physAddr count : UInt64) :
    (pmmFreePages s physAddr count).Ok ∧ (pmmFreePages s physAddr count).totalPages = s.totalPages ∧
      (pmmFreePages s physAddr count).clearPages =
        if physAddr.toNat % 4096 = 0 ∧ physAddr.toNat ≠ 0 ∧
            physAddr.toNat / 4096 + count.toNat ≤ s.totalPages.toNat then
          s.clearPages ∪ Finset.Ico (physAddr.toNat / 4096) (physAddr.toNat / 4096 + count.toNat)
        else s.clearPages := by
  obtain ⟨h1, h2⟩ := pmmFreePages_filled s physAddr count
  refine ⟨h1.ok h (by rw [h2]; exact h.hint), h1.total, ?_⟩
  split at h1
  · next hpages =>
    rw [if_pos hpages, h1.clearPages_freed fun p hp => ?_]
    have := (Finset.mem_Ico.mp hp).2
    omega
  · next hpages =>
    rw [if_neg hpages, h1.clearPages_freed (by simp), Finset.union_empty]

/-! ## The initial state -/

/-- **Initialisation.** Every page is clear except those of the bitmap and page 0. -/
theorem pmmInit_spec (bytes : Nat → UInt8) (bitmapAddr pageCount : UInt64) (h : pageCount.toNat < 2 ^ 52) :
    (pmmInit bytes bitmapAddr pageCount).Ok ∧ (pmmInit bytes bitmapAddr pageCount).totalPages = pageCount ∧
      (pmmInit bytes bitmapAddr pageCount).clearPages =
        (Finset.range pageCount.toNat).filter fun p =>
          ¬ Touches bitmapAddr.toNat ((pageCount.toNat + 7) / 8) p ∧ p ≠ 0 := by
  let s : Pmm :=
    { bitmap := fun i => if i < ((pageCount + 7) / 8).toNat then 0 else bytes i
      totalPages := pageCount
      freePages := pageCount
      searchHint := 0 }
  have hbytes : ((pageCount + 7) / 8).toNat = (pageCount.toNat + 7) / 8 := by
    have h7 : (7 : UInt64).toNat = 7 := rfl
    rw [UInt64.toNat_div, toNat_add_of_lt (by rw [h7]; omega), h7]; rfl
  have hall : s.clearPages = Finset.range pageCount.toNat := by
    ext p
    rw [mem_clearPages, Finset.mem_range]
    refine and_iff_left_of_imp fun hp => Lib.Bitmap.get_of_zero (if_pos ?_)
    rw [hbytes]
    change p < pageCount.toNat at hp
    omega
  have hs : s.Ok := ⟨h, by rw [hall, Finset.card_range], Nat.zero_le _⟩
  obtain ⟨h1, h2, _, h4⟩ := pmmMarkReserved_spec hs bitmapAddr ((pageCount + 7) / 8)
  obtain ⟨k1, k2, _, k4⟩ := pmmMarkReserved_spec h1 0 pageSize
  refine ⟨k1, k2.trans h2, ?_⟩
  rw [pmmInit, k4, h4, hall, hbytes]
  ext p
  simp only [Finset.mem_filter, Finset.mem_range, and_assoc]
  refine and_congr_right fun _ => and_congr_right fun _ => ?_
  have hz : (0 : UInt64).toNat = 0 := rfl
  simp only [Touches, hz, pageSize_toNat]
  omega

end KernelOs
