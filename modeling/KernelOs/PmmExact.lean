import KernelOs.PmmAccounting

/-!
# The allocator, bit by bit

What each call does to every bit of the bitmap and to the counters, in any state that calls
can lead to.
-/

namespace KernelOs
open Lib Pmm

section
variable {s s' : Pmm} {P : Finset Nat} {b : Bool}

theorem Pmm.Filled.testBit (h : Filled s P b s') (page : UInt64) :
    s'.testBit page = if page.toNat ∈ P then b else s.testBit page := by
  rw [testBit_eq, testBit_eq, h.used]

theorem Pmm.Filled.freed_count (h : Filled s P true s') (hP : P ⊆ s.clearPages) :
    s'.freePages + UInt64.ofNat P.card = s.freePages := by
  have hcount := h.count
  have hcard := Finset.card_sdiff_add_card_eq_card hP
  rw [h.clearPages_taken, ← hcard, UInt64.ofNat_add] at hcount
  grind

theorem mem_clearPages_iff (page : UInt64) :
    page.toNat ∈ s.clearPages ↔ page < s.totalPages ∧ s.testBit page = false := by
  rw [mem_clearPages, testBit_eq, UInt64.lt_iff_toNat_lt]

end

/-! ## Runs of pages -/

/-- The `count` pages from `start` on are managed and clear. -/
def Pmm.ClearRun (s : Pmm) (start count : UInt64) : Prop :=
  start.toNat + count.toNat ≤ s.totalPages.toNat ∧
    ∀ page : UInt64, start ≤ page → page.toNat < start.toNat + count.toNat → s.testBit page = false

theorem clearRun_iff {s : Pmm} {start count : UInt64} (hpos : 0 < count.toNat) :
    s.ClearRun start count ↔ Finset.Ico start.toNat (start.toNat + count.toNat) ⊆ s.clearPages := by
  have htotal := s.totalPages.toNat_lt
  constructor
  · rintro ⟨hend, hclear⟩ p hp
    rw [Finset.mem_Ico] at hp
    have hpage : (UInt64.ofNat p).toNat = p := UInt64.toNat_ofNat_of_lt' (by simp only [UInt64.size]; omega)
    rw [← hpage, mem_clearPages_iff, UInt64.lt_iff_toNat_lt]
    exact ⟨by omega, hclear _ (UInt64.le_iff_toNat_le.mpr (by omega)) (by omega)⟩
  · intro h
    refine ⟨?_, fun page hle hlt => ?_⟩
    · have :=
        (mem_clearPages.mp
          (h (Finset.mem_Ico.mpr (show start.toNat ≤ start.toNat + count.toNat - 1 ∧ _ by omega)))).1
      omega
    · exact ((mem_clearPages_iff page).mp (h (Finset.mem_Ico.mpr ⟨UInt64.le_iff_toNat_le.mp hle, hlt⟩))).2

/-- **Exact first fit.** After any calls `pmm_alloc_pages` takes the lowest run, and leaves all as it is
only if there is none. -/
theorem pmm_alloc_pages_first_fit (bytes : Nat → UInt8) (bitmapAddr pageCount : UInt64) (ops : List PmmOp)
    (count : UInt64) :
    let s := ops.foldl (fun s op => (op.apply s).2) (pmmInit bytes bitmapAddr pageCount)
    let r := pmmAllocPages s count
    (r = (0, s) ↔ count = 0 ∨ ∀ start, ¬ s.ClearRun start count) ∧
    (¬ (count = 0 ∨ ∀ start, ¬ s.ClearRun start count) →
      ∃ start, s.ClearRun start count ∧ (∀ lower < start, ¬ s.ClearRun lower count) ∧ r.1 = start * pageSize ∧
        r.2.totalPages = s.totalPages ∧
        (∀ page, r.2.testBit page = (s.testBit page || (decide (start ≤ page) && decide (page < start + count)))) ∧
        r.2.freePages + count = s.freePages ∧ r.2.searchHint ≤ r.2.totalPages ∧
        (pageCount.toNat < 2 ^ 52 → r.1.toNat = start.toNat * 4096 ∧ r.2.freePages.toNat + count.toNat =
        s.freePages.toNat)) := by
  intro s r
  rcases pmmAllocPages_filled s count with ⟨he, hnone⟩ | ⟨start, s', he, hpos, hend, hsub, hfirst, hfilled, hhint⟩
  · have hfail : count = 0 ∨ ∀ start, ¬ s.ClearRun start count := by
      refine or_iff_not_imp_left.mpr fun h0 start hrun => ?_
      have hpos : 0 < count.toNat := Nat.pos_of_ne_zero fun hc => h0 ((eq_zero_iff_toNat count).mpr hc)
      exact hnone.resolve_left h0 start.toNat ((clearRun_iff hpos).mp hrun)
    exact ⟨iff_of_true he hfail, fun h => absurd hfail h⟩
  have htotal := s.totalPages.toNat_lt
  have hrun : s.ClearRun start count := (clearRun_iff hpos).mpr hsub
  have hsuccess : ¬ (count = 0 ∨ ∀ start, ¬ s.ClearRun start count) := by
    rintro (h0 | hno)
    · rw [h0] at hpos
      exact absurd hpos (by decide)
    · exact hno start hrun
  have hsum : (start + count).toNat = start.toNat + count.toNat := toNat_add_of_lt (by omega)
  have hfree := hfilled.freed_count hsub
  rw [Nat.card_Ico, Nat.add_sub_cancel_left, UInt64.ofNat_toNat] at hfree
  have hr : r = (start * pageSize, s') := he
  rw [hr]
  refine ⟨iff_of_false (fun hc => ?_) hsuccess,
    fun _ => ⟨start, hrun, fun lower hlt hlower => ?_, rfl, hfilled.total, fun page => ?_,
    hfree, ?_, fun hsmall => ?_⟩⟩
  · -- the first page of the run has changed
    have hstart := (mem_clearPages.mp (hsub (Finset.mem_Ico.mpr ⟨Nat.le_refl start.toNat, by omega⟩))).2
    have hused := hfilled.used start.toNat
    rw [(Prod.mk.inj hc).2, if_pos (Finset.mem_Ico.mpr ⟨Nat.le_refl _, by omega⟩), hstart] at hused
    cases hused
  · exact hfirst lower.toNat (UInt64.lt_iff_toNat_lt.mp hlt) ((clearRun_iff hpos).mp hlower)
  · rw [hfilled.testBit]
    simp only [Finset.mem_Ico, ← hsum, ← UInt64.le_iff_toNat_le, ← UInt64.lt_iff_toNat_lt]
    by_cases h1 : start ≤ page <;> by_cases h2 : page < start + count <;> simp [h1, h2]
  · rw [hhint, hfilled.total, UInt64.le_iff_toNat_le, hsum]
    exact hend
  · obtain ⟨hok, -, -⟩ : s.Accounted pageCount := (accounted_init bytes bitmapAddr hsmall).run ops
    have hs := hok.small
    have hle : count.toNat ≤ s.freePages.toNat := by
      have := Finset.card_le_card hsub
      rwa [Nat.card_Ico, Nat.add_sub_cancel_left, ← hok.count] at this
    exact ⟨toNat_page (by omega), toNat_of_add_eq hfree hle⟩

/-! ## Single pages -/

/-- The arithmetic of a search. -/
inductive SearchEvent where
  | add (a b : UInt64)
  | sub (a b : UInt64)
  | mul (a b : UInt64)
  | mod (a b : UInt64)
  deriving DecidableEq

def SearchEvent.Exact : SearchEvent → Prop
  | .add a b => a.toNat + b.toNat < 2 ^ 64
  | .sub a b => b ≤ a
  | .mul a b => a.toNat * b.toNat < 2 ^ 64
  | .mod _ b => b ≠ 0

namespace SearchArithmetic

def add (a b : UInt64) : Traced SearchEvent UInt64 := ⟨a + b, [.add a b]⟩

def sub (a b : UInt64) : Traced SearchEvent UInt64 := ⟨a - b, [.sub a b]⟩

def mul (a b : UInt64) : Traced SearchEvent UInt64 := ⟨a * b, [.mul a b]⟩

def mod (a b : UInt64) : Traced SearchEvent UInt64 := ⟨a % b, [.mod a b]⟩

def allocScan : Nat → UInt64 → Pmm → Traced SearchEvent (UInt64 × Pmm)
  | 0, _, s => pure (0, s)
  | n + 1, i, s => do
    let sum ← add s.searchHint i
    let page ← mod sum s.totalPages
    if !s.testBit page then
      let freePages ← sub s.freePages 1
      let searchHint ← add page 1
      let address ← mul page pageSize
      pure (address, { s.setBit page with freePages, searchHint })
    else
      let i ← add i 1
      allocScan n i s

def pmmAllocPage (s : Pmm) : Traced SearchEvent (UInt64 × Pmm) := allocScan s.totalPages.toNat 0 s

theorem returns_allocScan {s : Pmm} (h : s.Ok) :
    ∀ (n : Nat) (i : UInt64) (past : List SearchEvent), i.toNat + n = s.totalPages.toNat →
    Traced.Returns (fun _ => SearchEvent.Exact) past (allocScan n i s) (KernelOs.allocScan n i s)
  | 0, _, _, _ => .pure (0, s)
  | n + 1, i, past, hi => by
    have hs := h.small
    have hh := h.hint
    have h1 : (1 : UInt64).toNat = 1 := rfl
    have hmod : s.totalPages ≠ 0 := fun hc => by rw [hc] at hi; exact absurd hi (by simp)
    have hpage : ((s.searchHint + i) % s.totalPages).toNat < s.totalPages.toNat := by
      rw [UInt64.toNat_mod]
      exact Nat.mod_lt _ (by omega)
    unfold allocScan KernelOs.allocScan
    have hsum : (SearchEvent.add s.searchHint i).Exact := show s.searchHint.toNat + i.toNat < 2 ^ 64 by omega
    refine .bind (.event hsum) (.bind (.event hmod) ?_)
    dsimp only
    generalize (s.searchHint + i) % s.totalPages = page at hpage
    cases hu : s.testBit page with
    | true =>
      have hstep : (SearchEvent.add i 1).Exact := show i.toNat + (1 : UInt64).toNat < 2 ^ 64 by omega
      exact .bind (.event hstep) (returns_allocScan h n (i + 1) _ (by rw [toNat_succ (by omega)]; omega))
    | false =>
      have hfree : (1 : UInt64) ≤ s.freePages := by
        rw [UInt64.le_iff_toNat_le, h1, h.count]
        exact Finset.card_pos.mpr ⟨_, (mem_clearPages_iff page).mpr ⟨UInt64.lt_iff_toNat_lt.mpr hpage, hu⟩⟩
      have hhint : (SearchEvent.add page 1).Exact := show page.toNat + (1 : UInt64).toNat < 2 ^ 64 by omega
      have haddr : (SearchEvent.mul page pageSize).Exact := show page.toNat * pageSize.toNat < 2 ^ 64 by
        rw [pageSize_toNat]; omega
      exact .bind (.event hfree) (.bind (.event hhint) (.bind (.event haddr) (.pure _)))

end SearchArithmetic

/-- **Exact cyclic search.** After any calls `pmm_alloc_page` takes the first clear page from the hint on,
fails only if there is none, and computes nothing that wraps. -/
theorem pmm_alloc_page_exact (bytes : Nat → UInt8) (bitmapAddr pageCount : UInt64)
    (hsmall : pageCount.toNat < 2 ^ 52) (ops : List PmmOp) :
    let s := ops.foldl (fun s op => (op.apply s).2) (pmmInit bytes bitmapAddr pageCount)
    let r := pmmAllocPage s
    (r.1 = 0 ↔ s.freePages = 0) ∧ (s.freePages = 0 → r.2 = s) ∧
    (s.freePages ≠ 0 → ∃ k page, page.toNat = (s.searchHint.toNat + k) % s.totalPages.toNat ∧
    s.testBit page = false ∧
      (∀ j < k, s.testBit (UInt64.ofNat ((s.searchHint.toNat + j) % s.totalPages.toNat)) = true) ∧
      r.1.toNat = page.toNat * 4096 ∧
      r.2.totalPages = s.totalPages ∧ (∀ bit, r.2.testBit bit = (s.testBit bit || decide (bit = page))) ∧
      r.2.freePages.toNat + 1 = s.freePages.toNat) ∧
    (SearchArithmetic.pmmAllocPage s).val = r ∧ ∀ e ∈ (SearchArithmetic.pmmAllocPage s).trace, e.Exact := by
  intro s r
  obtain ⟨hok, -, h0⟩ : s.Accounted pageCount := (accounted_init bytes bitmapAddr hsmall).run ops
  have hs := hok.small
  obtain ⟨hval, hclean⟩ := SearchArithmetic.returns_allocScan hok s.totalPages.toNat 0 [] (Nat.zero_add _)
  refine and_assoc.mp (and_assoc.mp ⟨?_, hval, Traced.clean_iff_forall.mp hclean⟩)
  rcases pmmAllocPage_filled hok with ⟨he, hnone⟩ | ⟨k, page, s', he, hpage, hmem, hfirst, hfilled, hhint⟩
  · have hfree : s.freePages = 0 := by rw [eq_zero_iff_toNat, hok.count, hnone, Finset.card_empty]
    have hr : r = (0, s) := he
    rw [hr]
    exact ⟨⟨iff_of_true rfl hfree, fun _ => rfl⟩, fun hc => absurd hfree hc⟩
  have hlt := (mem_clearPages.mp hmem).1
  have hpos : s.freePages ≠ 0 := by
    rw [ne_eq, eq_zero_iff_toNat, hok.count, Finset.card_eq_zero]
    exact Finset.ne_empty_of_mem hmem
  have haddr : (page * pageSize).toNat = page.toNat * 4096 := toNat_page (by omega)
  have hr : r = (page * pageSize, s') := he
  rw [hr]
  refine ⟨⟨iff_of_false (fun hc => ?_) hpos, fun hc => absurd hc hpos⟩,
    fun _ => ⟨k, page, hpage, ((mem_clearPages_iff page).mp hmem).2,
    fun j hj => ?_, haddr, hfilled.total, fun bit => ?_, ?_⟩⟩
  · -- page 0 is never clear
    rw [show page * pageSize = 0 from hc, UInt64.toNat_zero] at haddr
    rw [show page.toNat = 0 by omega] at hmem
    exact h0 hmem
  · have hjlt : (s.searchHint.toNat + j) % s.totalPages.toNat < s.totalPages.toNat := Nat.mod_lt _ (by omega)
    have hj64 : (UInt64.ofNat ((s.searchHint.toNat + j) % s.totalPages.toNat)).toNat =
        (s.searchHint.toNat + j) % s.totalPages.toNat :=
      UInt64.toNat_ofNat_of_lt' (by simp only [UInt64.size]; omega)
    have hnot := hfirst j hj
    rw [mem_clearPages, not_and] at hnot
    rw [testBit_eq, hj64]
    simpa using hnot hjlt
  · rw [hfilled.testBit]
    simp only [Finset.mem_singleton, UInt64.toNat_inj]
    by_cases hbit : bit = page <;> simp [hbit]
  · have hfree := hfilled.freed_count (Finset.singleton_subset_iff.mpr hmem)
    rw [Finset.card_singleton] at hfree
    exact toNat_of_add_eq hfree (Nat.pos_of_ne_zero fun hc => hpos ((eq_zero_iff_toNat _).mpr hc))

/-- The hint is one past the end, and the only free page is before it. -/
theorem pmm_alloc_page_exact_wraps :
    let s := [PmmOp.allocPages 2, .freePage 0x1000].foldl (fun s op => (op.apply s).2) (pmmInit (fun _ => 0) 0 3)
    s.searchHint = s.totalPages ∧ (pmmAllocPage s).1 ≠ 0 := by
  intro s
  have hexact := pmm_alloc_page_exact (fun _ => 0) 0 3 (by decide) [.allocPages 2, .freePage 0x1000]
  have hfree : s.freePages ≠ 0 := by decide
  exact ⟨by decide, fun hc => hfree (hexact.1.mp hc)⟩

/-! ## Reservations -/

/-- The pages that a reservation takes. -/
def Pmm.newlyReserved (s : Pmm) (baseAddr lengthBytes : UInt64) : List Nat :=
  (List.range s.totalPages.toNat).filter fun p =>
    !s.testBit (UInt64.ofNat p) && Touches baseAddr.toNat lengthBytes.toNat p

theorem length_newlyReserved (s : Pmm) (baseAddr lengthBytes : UInt64) :
    (s.newlyReserved baseAddr lengthBytes).length =
    (s.clearPages ∩ (Finset.range s.totalPages.toNat).filter (Touches baseAddr.toNat lengthBytes.toNat)).card := by
  have htotal := s.totalPages.toNat_lt
  have hset : s.clearPages ∩ (Finset.range s.totalPages.toNat).filter (Touches baseAddr.toNat lengthBytes.toNat) =
      (s.newlyReserved baseAddr lengthBytes).toFinset := by
    ext p
    simp only [Pmm.newlyReserved, Finset.mem_inter, mem_clearPages, Finset.mem_filter, Finset.mem_range,
      List.mem_toFinset, List.mem_filter, List.mem_range, Bool.and_eq_true, decide_eq_true_eq, testBit_eq,
      Bool.not_eq_true']
    by_cases hp : p < s.totalPages.toNat
    · rw [UInt64.toNat_ofNat_of_lt' (by simp only [UInt64.size]; omega)]
      tauto
    · tauto
  rw [hset]
  exact (List.toFinset_card_of_nodup (List.nodup_range.filter _)).symm

/-- **Exact reservations**, in any state. The touched pages are set, and no others; the counter drops by the newly
set ones; repeating and reordering reservations makes no difference. -/
theorem pmm_mark_reserved_exact {s : Pmm} (hsmall : s.totalPages.toNat < 2 ^ 52) (baseAddr lengthBytes : UInt64) :
    let s' := pmmMarkReserved s baseAddr lengthBytes
    let taken := (s.newlyReserved baseAddr lengthBytes).length
    (∀ page, s'.testBit page =
      (s.testBit page || (decide (page < s.totalPages) && Touches baseAddr.toNat lengthBytes.toNat page.toNat))) ∧
    s'.freePages + UInt64.ofNat taken = s.freePages ∧
    (taken ≤ s.freePages.toNat → s'.freePages.toNat + taken = s.freePages.toNat) ∧
    s'.totalPages = s.totalPages ∧ s'.searchHint = s.searchHint ∧ pmmMarkReserved s' baseAddr lengthBytes = s' ∧
    ∀ base len, pmmMarkReserved s' base len =
    pmmMarkReserved (pmmMarkReserved s base len) baseAddr lengthBytes := by
  intro s' taken
  obtain ⟨hfilled, hhint⟩ := pmmMarkReserved_filled hsmall baseAddr lengthBytes
  have hagain (base len : UInt64) := pmmMarkReserved_filled (s := s') (by rw [hfilled.total]; exact hsmall) base len
  have hfree : s'.freePages + UInt64.ofNat taken = s.freePages := by
    have hcount := hfilled.count
    have hcard :=
      Finset.card_sdiff_add_card_inter s.clearPages
        ((Finset.range s.totalPages.toNat).filter (Touches baseAddr.toNat lengthBytes.toNat))
    rw [← hfilled.clearPages_taken, ← length_newlyReserved] at hcard
    rw [← hcard, UInt64.ofNat_add] at hcount
    grind
  refine ⟨fun page => ?_, hfree, fun hle => ?_, hfilled.total, hhint, ?_, fun base len => ?_⟩
  · rw [hfilled.testBit]
    simp only [Finset.mem_filter, Finset.mem_range, ← UInt64.lt_iff_toNat_lt]
    by_cases h1 : page < s.totalPages <;> by_cases h2 : Touches baseAddr.toNat lengthBytes.toNat page.toNat
      <;> simp [h1, h2]
  · have htaken : (UInt64.ofNat taken).toNat = taken :=
      UInt64.toNat_ofNat_of_lt' (hle.trans_lt s.freePages.toNat_lt)
    have hadd := toNat_of_add_eq hfree (by rwa [htaken])
    rwa [htaken] at hadd
  · obtain ⟨h1, h2⟩ := hagain baseAddr lengthBytes
    rw [hfilled.total] at h1
    exact h1.unique (.of_same fun p hp => by rw [hfilled.used, if_pos hp]) h2
  · -- both orders fill the union of the two ranges
    obtain ⟨h1, h2⟩ := hagain base len
    obtain ⟨k1, k2⟩ := pmmMarkReserved_filled hsmall base len
    obtain ⟨l1, l2⟩ :=
      pmmMarkReserved_filled (s := pmmMarkReserved s base len)
        (by rw [k1.total]; exact hsmall) baseAddr lengthBytes
    rw [hfilled.total] at h1
    rw [k1.total] at l1
    have hother := k1.trans l1
    rw [Finset.union_comm] at hother
    exact (hfilled.trans h1).unique hother (h2.trans (hhint.trans (l2.trans k2).symm))

/-- A range that wraps, reserved twice. -/
theorem pmm_mark_reserved_exact_wraps :
    let s := pmmMarkReserved (pmmInit (fun _ => 0) 0 8) 0x6800 0xFFFFFFFFFFFFFFFF
    s.testBit 5 = false ∧ s.testBit 6 = true ∧ s.testBit 7 = true ∧
        pmmMarkReserved s 0x6800 0xFFFFFFFFFFFFFFFF = s := by
  intro s
  exact ⟨by decide, by decide, by decide,
    (pmm_mark_reserved_exact (s := pmmInit (fun _ => 0) 0 8) (by decide) 0x6800 0xFFFFFFFFFFFFFFFF).2.2.2.2.2.1⟩

end KernelOs
