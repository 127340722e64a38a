import KernelOs.Lib.Traced
import KernelOs.PmmOwnership

/-!
# The allocator under arbitrary calls

The calls are free in order and arguments. What holds of the counters after any of them, and
which bits of the bitmap a call touches: for the latter every function is written again over
bit operations that leave a trace.
-/

namespace KernelOs
open Lib Pmm

/-! ## Calls with a trace -/

namespace Accesses

def testBit (s : Pmm) (bit : UInt64) : Traced UInt64 Bool := ⟨s.testBit bit, [bit]⟩

def setBit (s : Pmm) (bit : UInt64) : Traced UInt64 Pmm := ⟨s.setBit bit, [bit]⟩

def clearBit (s : Pmm) (bit : UInt64) : Traced UInt64 Pmm := ⟨s.clearBit bit, [bit]⟩

def markLoop : Nat → UInt64 → Pmm → Traced UInt64 Pmm
  | 0, _, s => pure s
  | n + 1, page, s => do
    if !(← testBit s page) then
      let t ← setBit s page
      markLoop n (page + 1) { t with freePages := s.freePages - 1 }
    else markLoop n (page + 1) s

def pmmMarkReserved (s : Pmm) (baseAddr lengthBytes : UInt64) : Traced UInt64 Pmm :=
  if lengthBytes = 0 ∨ baseAddr ≥ s.totalPages * pageSize then pure s
  else
    let startPage := baseAddr / pageSize
    let lastByte := lengthBytes - 1
    let endPage :=
      if lastByte > uintptrMax - baseAddr then s.totalPages else (baseAddr + lastByte) / pageSize + 1
    markLoop (min endPage.toNat s.totalPages.toNat - startPage.toNat) startPage s

def allocScan : Nat → UInt64 → Pmm → Traced UInt64 (UInt64 × Pmm)
  | 0, _, s => pure (0, s)
  | n + 1, i, s => do
    let page := (s.searchHint + i) % s.totalPages
    if !(← testBit s page) then
      let t ← setBit s page
      pure (page * pageSize, { t with freePages := s.freePages - 1, searchHint := page + 1 })
    else allocScan n (i + 1) s

def pmmAllocPage (s : Pmm) : Traced UInt64 (UInt64 × Pmm) := allocScan s.totalPages.toNat 0 s

def setBits : Nat → UInt64 → Pmm → Traced UInt64 Pmm
  | 0, _, s => pure s
  | n + 1, page, s => do
    let t ← setBit s page
    setBits n (page + 1) t

def runScan (count : UInt64) : Nat → UInt64 → UInt64 → UInt64 → Pmm → Traced UInt64 (UInt64 × Pmm)
  | 0, _, _, _, s => pure (0, s)
  | n + 1, page, runStart, runLength, s => do
    if ← testBit s page then runScan count n (page + 1) runStart 0 s
    else
      let runStart := if runLength = 0 then page else runStart
      let runLength := runLength + 1
      if runLength ≠ count then runScan count n (page + 1) runStart runLength s
      else
        let t ← setBits ((runStart + count).toNat - runStart.toNat) runStart s
        pure (runStart * pageSize, { t with freePages := s.freePages - count, searchHint := runStart + count })

def pmmAllocPages (s : Pmm) (count : UInt64) : Traced UInt64 (UInt64 × Pmm) :=
  if count = 0 ∨ count > s.totalPages then pure (0, s)
  else runScan count s.totalPages.toNat 0 0 0 s

def pmmFreePage (s : Pmm) (physAddr : UInt64) : Traced UInt64 Pmm := do
  let page := physAddr / pageSize
  if physAddr % pageSize ≠ 0 ∨ page = 0 ∨ page ≥ s.totalPages then return s
  if ← testBit s page then
    let t ← clearBit s page
    return { t with freePages := s.freePages + 1 }
  else return s

def freeLoop : Nat → UInt64 → Pmm → Traced UInt64 Pmm
  | 0, _, s => pure s
  | n + 1, page, s => do
    if ← testBit s page then
      let t ← clearBit s page
      freeLoop n (page + 1) { t with freePages := s.freePages + 1 }
    else freeLoop n (page + 1) s

def pmmFreePages (s : Pmm) (physAddr count : UInt64) : Traced UInt64 Pmm :=
  if count = 0 ∨ physAddr % pageSize ≠ 0 ∨ physAddr = 0 then pure s
  else
    let startPage := physAddr / pageSize
    if startPage ≥ s.totalPages ∨ count > s.totalPages - startPage then pure s
    else freeLoop ((startPage + count).toNat - startPage.toNat) startPage s

end Accesses

/-- `PmmOp.apply` with the bits that the call tests, sets and clears. -/
def PmmOp.accesses (s : Pmm) : PmmOp → Traced UInt64 (UInt64 × Pmm)
  | .markReserved baseAddr lengthBytes => do return (0, ← Accesses.pmmMarkReserved s baseAddr lengthBytes)
  | .allocPage => Accesses.pmmAllocPage s
  | .allocPages count => Accesses.pmmAllocPages s count
  | .freePage physAddr => do return (0, ← Accesses.pmmFreePage s physAddr)
  | .freePages physAddr count => do return (0, ← Accesses.pmmFreePages s physAddr count)

/-! ## The bits of a call -/

def Pmm.SameAbove (s s' : Pmm) : Prop :=
  s'.totalPages = s.totalPages ∧ ∀ p, s.totalPages.toNat ≤ p → s'.used p = s.used p

/-- The call made in `s` has the result `r`, and only pages that there are have been touched. -/
structure Confined {β : Type} (state : β → Pmm) (s : Pmm) (x : Traced UInt64 β) (r : β) : Prop where
  val : x.val = r
  bits : x.Within fun bit => bit.toNat < s.totalPages.toNat
  same : s.SameAbove (state r)

namespace Confined

variable {β γ : Type} {state : β → Pmm} {state' : γ → Pmm} {s : Pmm} {bit : UInt64} {r : β}

theorem pure (r : β) (h : s.SameAbove (state r)) : Confined state s (Pure.pure r) r :=
  ⟨rfl, Traced.Within.pure r, h⟩

theorem test {f : Bool → Traced UInt64 β} (hbit : bit.toNat < s.totalPages.toNat)
    (h : Confined state s (f (s.testBit bit)) r) :
    Confined state s (Accesses.testBit s bit >>= f) r :=
  ⟨h.val, Traced.Within.bind (by simpa [Traced.Within, Accesses.testBit] using hbit) h.bits, h.same⟩

theorem bind {x : Traced UInt64 γ} {f : γ → Traced UInt64 β} {r' : γ} (h : Confined state' s x r')
    (h' : Confined state (state' r') (f r') r) : Confined state s (x >>= f) r := by
  obtain ⟨h1, h2, h3⟩ := h
  obtain ⟨k1, k2, k3⟩ := h'
  subst h1
  rw [h3.1] at k2
  refine ⟨k1, Traced.Within.bind h2 k2, k3.1.trans h3.1, fun p hp => (k3.2 p ?_).trans (h3.2 p hp)⟩
  rwa [h3.1]

theorem set (hbit : bit.toNat < s.totalPages.toNat) : Confined id s (Accesses.setBit s bit) (s.setBit bit) := by
  refine ⟨rfl, by simpa [Traced.Within, Accesses.setBit] using hbit, rfl, fun p hp => ?_⟩
  rw [id, Pmm.used, Pmm.setBit_bitmap, Bitmap.get_set, decide_eq_false (by omega)]
  rfl

theorem clear (hbit : bit.toNat < s.totalPages.toNat) :
    Confined id s (Accesses.clearBit s bit) (s.clearBit bit) := by
  refine ⟨rfl, by simpa [Traced.Within, Accesses.clearBit] using hbit, rfl, fun p hp => ?_⟩
  rw [id, Pmm.used, Pmm.clearBit_bitmap, Bitmap.get_clear, decide_eq_false (by omega)]
  rfl

theorem counters {x : Traced UInt64 β} {s' : Pmm} (h : Confined state s' x r) (hb : s'.bitmap = s.bitmap)
    (ht : s'.totalPages = s.totalPages) : Confined state s x r := by
  obtain ⟨h1, h2, h3⟩ := h
  rw [ht] at h2
  refine ⟨h1, h2, h3.1.trans ht, fun p hp => (h3.2 p (ht ▸ hp)).trans ?_⟩
  rw [Pmm.used, Pmm.used, hb]

end Confined

variable {s : Pmm}

theorem confined_markLoop :
    ∀ (n : Nat) (page : UInt64) (s : Pmm), s.totalPages.toNat < 2 ^ 52 → page.toNat + n ≤ s.totalPages.toNat →
    Confined id s (Accesses.markLoop n page s) (markLoop n page s)
  | 0, _, s, _, _ => .pure s ⟨rfl, fun _ _ => rfl⟩
  | n + 1, page, s, hs, hle => by
    have hsucc : (page + 1).toNat = page.toNat + 1 := toNat_succ (by omega)
    unfold markLoop Accesses.markLoop
    apply Confined.test (by omega)
    cases s.testBit page with
    | true => exact confined_markLoop n (page + 1) s hs (by omega)
    | false =>
      have hrest := confined_markLoop n (page + 1) { s.setBit page with freePages := s.freePages - 1 } hs
        (by rw [hsucc]; exact (Nat.succ_add_eq_add_succ _ _).trans_le hle)
      exact .bind (.set (by omega)) (hrest.counters rfl rfl)

theorem confined_markReserved (h : s.Ok) (baseAddr lengthBytes : UInt64) :
    Confined id s (Accesses.pmmMarkReserved s baseAddr lengthBytes) (pmmMarkReserved s baseAddr lengthBytes) := by
  unfold pmmMarkReserved Accesses.pmmMarkReserved
  split
  · exact .pure s ⟨rfl, fun _ _ => rfl⟩
  · next hin =>
    have hlt : baseAddr.toNat < s.totalPages.toNat * 4096 := by
      rw [not_or, ge_iff_le, UInt64.not_le, UInt64.lt_iff_toNat_lt, toNat_page h.small] at hin
      exact hin.2
    apply confined_markLoop _ _ s h.small
    rw [toNat_pageOf]
    omega

theorem confined_allocScan (h : s.Ok) : ∀ (n : Nat) (i : UInt64), i.toNat + n = s.totalPages.toNat →
    Confined Prod.snd s (Accesses.allocScan n i s) (allocScan n i s)
  | 0, _, _ => .pure (0, s) ⟨rfl, fun _ _ => rfl⟩
  | n + 1, i, hi => by
    have hs := h.small
    have hpage : ((s.searchHint + i) % s.totalPages).toNat < s.totalPages.toNat := by
      rw [UInt64.toNat_mod]
      exact Nat.mod_lt _ (by omega)
    unfold allocScan Accesses.allocScan
    dsimp only
    generalize (s.searchHint + i) % s.totalPages = page at hpage
    apply Confined.test hpage
    cases s.testBit page with
    | true => exact confined_allocScan h n (i + 1) (by rw [toNat_succ (by omega)]; omega)
    | false => exact .bind (.set hpage) (.pure _ ⟨rfl, fun _ _ => rfl⟩)

theorem confined_setBits :
    ∀ (n : Nat) (page : UInt64) (s : Pmm), s.totalPages.toNat < 2 ^ 52 → page.toNat + n ≤ s.totalPages.toNat →
    Confined id s (Accesses.setBits n page s) (setBits n page s)
  | 0, _, s, _, _ => .pure s ⟨rfl, fun _ _ => rfl⟩
  | n + 1, page, s, hs, hle => by
    have hsucc : (page + 1).toNat = page.toNat + 1 := toNat_succ (by omega)
    unfold setBits Accesses.setBits
    have hrest := confined_setBits n (page + 1) (s.setBit page) hs
      (by rw [hsucc]; exact (Nat.succ_add_eq_add_succ _ _).trans_le hle)
    exact .bind (.set (by omega)) hrest

theorem confined_runScan (h : s.Ok) {count : UInt64} : ∀ (n : Nat) (page runStart runLength : UInt64),
    page.toNat + n = s.totalPages.toNat → runLength.toNat ≤ page.toNat →
    (runLength.toNat ≠ 0 → runStart.toNat + runLength.toNat = page.toNat) →
    Confined Prod.snd s (Accesses.runScan count n page runStart runLength s)
    (runScan count n page runStart runLength s)
  | 0, _, _, _, _, _, _ => .pure (0, s) ⟨rfl, fun _ _ => rfl⟩
  | n + 1, page, runStart, runLength, hn, hle, hrun => by
    have hs := h.small
    have hsucc : (page + 1).toNat = page.toNat + 1 := toNat_succ (by omega)
    have hlen : (runLength + 1).toNat = runLength.toNat + 1 := toNat_succ (by omega)
    unfold runScan Accesses.runScan
    apply Confined.test (by omega)
    cases s.testBit page with
    | true => exact confined_runScan h n (page + 1) runStart 0 (by omega) (Nat.zero_le _) fun h0 => absurd rfl h0
    | false =>
      simp only [Bool.false_eq_true, if_false]
      have hstart : (if runLength = 0 then page else runStart).toNat + runLength.toNat = page.toNat := by
        split
        · next h0 =>
          rw [h0]
          rfl
        · next h0 => exact hrun fun hc => h0 ((eq_zero_iff_toNat runLength).mpr hc)
      generalize (if runLength = 0 then page else runStart) = start at hstart
      split
      · exact confined_runScan h n (page + 1) start (runLength + 1) (by omega) (by omega) fun _ => by omega
      · next hcount =>
        rw [not_not] at hcount
        subst hcount
        have hend : (start + (runLength + 1)).toNat = page.toNat + 1 := by
          rw [toNat_add_of_lt (by omega)]
          omega
        refine .bind (confined_setBits _ _ _ hs (by omega)) (.pure _ ⟨rfl, fun _ _ => rfl⟩)

theorem confined_freeLoop :
    ∀ (n : Nat) (page : UInt64) (s : Pmm), s.totalPages.toNat < 2 ^ 52 → page.toNat + n ≤ s.totalPages.toNat →
    Confined id s (Accesses.freeLoop n page s) (freeLoop n page s)
  | 0, _, s, _, _ => .pure s ⟨rfl, fun _ _ => rfl⟩
  | n + 1, page, s, hs, hle => by
    have hsucc : (page + 1).toNat = page.toNat + 1 := toNat_succ (by omega)
    unfold freeLoop Accesses.freeLoop
    apply Confined.test (by omega)
    cases s.testBit page with
    | true =>
      have hrest := confined_freeLoop n (page + 1) { s.clearBit page with freePages := s.freePages + 1 } hs
        (by rw [hsucc]; exact (Nat.succ_add_eq_add_succ _ _).trans_le hle)
      exact .bind (.clear (by omega)) (hrest.counters rfl rfl)
    | false => exact confined_freeLoop n (page + 1) s hs (by omega)

theorem confined_freePage (physAddr : UInt64) :
    Confined id s (Accesses.pmmFreePage s physAddr) (pmmFreePage s physAddr) := by
  unfold pmmFreePage Accesses.pmmFreePage
  dsimp only
  split
  · exact .pure s ⟨rfl, fun _ _ => rfl⟩
  · next hin =>
    have hlt : (physAddr / pageSize).toNat < s.totalPages.toNat := by
      rw [not_or, not_or, ge_iff_le, UInt64.not_le, UInt64.lt_iff_toNat_lt] at hin
      exact hin.2.2
    apply Confined.test hlt
    cases s.testBit (physAddr / pageSize) with
    | true => exact .bind (.clear hlt) (.pure _ ⟨rfl, fun _ _ => rfl⟩)
    | false => exact .pure s ⟨rfl, fun _ _ => rfl⟩

theorem confined_freePages (h : s.Ok) (physAddr count : UInt64) :
    Confined id s (Accesses.pmmFreePages s physAddr count) (pmmFreePages s physAddr count) := by
  unfold pmmFreePages Accesses.pmmFreePages
  split
  · exact .pure s ⟨rfl, fun _ _ => rfl⟩
  dsimp only
  split
  · exact .pure s ⟨rfl, fun _ _ => rfl⟩
  · next hin =>
    have hs := h.small
    rw [not_or, ge_iff_le, gt_iff_lt, UInt64.not_le, UInt64.not_lt, UInt64.lt_iff_toNat_lt,
      UInt64.le_iff_toNat_le] at hin
    obtain ⟨h1, h2⟩ := hin
    rw [toNat_sub_of_toNat_le (Nat.le_of_lt h1)] at h2
    apply confined_freeLoop _ _ s hs
    rw [toNat_add_of_lt (by omega)]
    omega

theorem Confined.noResult {x : Traced UInt64 Pmm} {s' : Pmm} (h : Confined id s x s') :
    Confined Prod.snd s (do return (0, ← x)) ((0, s') : UInt64 × Pmm) :=
  .bind h (.pure (0, s') ⟨rfl, fun _ _ => rfl⟩)

theorem PmmOp.confined (h : s.Ok) (op : PmmOp) : Confined Prod.snd s (op.accesses s) (op.apply s) := by
  cases op with
  | markReserved baseAddr lengthBytes => exact (confined_markReserved h baseAddr lengthBytes).noResult
  | allocPage => exact confined_allocScan h _ 0 (Nat.zero_add _)
  | allocPages count =>
    unfold PmmOp.accesses PmmOp.apply pmmAllocPages Accesses.pmmAllocPages
    dsimp only
    split
    · exact .pure (0, s) ⟨rfl, fun _ _ => rfl⟩
    · exact confined_runScan h _ 0 0 0 (Nat.zero_add _) (Nat.le_refl _) fun h0 => absurd rfl h0
  | freePage physAddr => exact (confined_freePage physAddr).noResult
  | freePages physAddr count => exact (confined_freePages h physAddr count).noResult

/-! ## Runs -/

structure Pmm.Accounted (pageCount : UInt64) (s : Pmm) : Prop where
  ok : s.Ok
  total : s.totalPages = pageCount
  zero : 0 ∉ s.clearPages

theorem accounted_init (bytes : Nat → UInt8) (bitmapAddr : UInt64) {pageCount : UInt64}
    (h : pageCount.toNat < 2 ^ 52) :
    (pmmInit bytes bitmapAddr pageCount).Accounted pageCount := by
  obtain ⟨h1, h2, h3⟩ := pmmInit_spec bytes bitmapAddr pageCount h
  refine ⟨h1, h2, fun h0 => ?_⟩
  rw [h3] at h0
  exact (Finset.mem_filter.mp h0).2.2 rfl

theorem Pmm.Accounted.apply {pageCount : UInt64} (h : s.Accounted pageCount) (op : PmmOp) :
    (op.apply s).2.Accounted pageCount := by
  obtain ⟨hok, rfl, h0⟩ := h
  cases op with
  | markReserved baseAddr lengthBytes =>
    obtain ⟨h1, h2, -, h4⟩ := pmmMarkReserved_spec hok baseAddr lengthBytes
    exact ⟨h1, h2, fun hc => h0 (Finset.mem_filter.mp (h4 ▸ hc)).1⟩
  | allocPage =>
    change (pmmAllocPage s).2.Accounted s.totalPages
    cases pmmAllocPage_spec hok with
    | inl h =>
      rw [h.1]
      exact ⟨hok, rfl, h0⟩
    | inr h =>
      obtain ⟨k, s', he, -, -, h1, h2, h3⟩ := h
      rw [he]
      exact ⟨h1, h2, fun hc => h0 (Finset.mem_of_mem_erase (h3 ▸ hc))⟩
  | allocPages count =>
    change (pmmAllocPages s count).2.Accounted s.totalPages
    cases pmmAllocPages_spec hok count with
    | inl h =>
      rw [h.1]
      exact ⟨hok, rfl, h0⟩
    | inr h =>
      obtain ⟨t, s', he, -, -, -, h1, h2, h3⟩ := h
      rw [he]
      exact ⟨h1, h2, fun hc => h0 (Finset.mem_sdiff.mp (h3 ▸ hc)).1⟩
  | freePage physAddr =>
    obtain ⟨h1, h2, h3⟩ := pmmFreePage_spec hok physAddr
    refine ⟨h1, h2, fun hc => h0 ?_⟩
    rw [show (PmmOp.apply s (.freePage physAddr)).2.clearPages = _ from h3] at hc
    split at hc
    · next hp => exact (Finset.mem_insert.mp hc).resolve_left hp.2.1.symm
    · exact hc
  | freePages physAddr count =>
    obtain ⟨h1, h2, h3⟩ := pmmFreePages_spec hok physAddr count
    refine ⟨h1, h2, fun hc => h0 ?_⟩
    rw [show (PmmOp.apply s (.freePages physAddr count)).2.clearPages = _ from h3] at hc
    split at hc
    · next hp =>
      -- an aligned address other than 0 is in a later page
      refine (Finset.mem_union.mp hc).resolve_right fun hin => ?_
      have := (Finset.mem_Ico.mp hin).1
      omega
    · exact hc

theorem Pmm.Accounted.run {pageCount : UInt64} (ops : List PmmOp) : ∀ {s : Pmm}, s.Accounted pageCount →
    (ops.foldl (fun s op => (op.apply s).2) s).Accounted pageCount := by
  induction ops with
  | nil => exact id
  | cons op ops ih => exact fun h => ih (h.apply op)

theorem Pmm.Ok.alloc_zero (h : s.Ok) (h0 : 0 ∉ s.clearPages) {op : PmmOp}
    (hop : op = .allocPage ∨ ∃ count, op = .allocPages count) (hz : (op.apply s).1 = 0) : (op.apply s).2 = s := by
  -- no page of an allocation is page 0, so its address is not 0
  have hne : ∀ {t : Nat}, t ∈ s.clearPages → UInt64.ofNat (t * 4096) ≠ 0 := fun {t} ht hc => by
    have hsmall := h.small
    have hlt := (mem_clearPages.mp ht).1
    have hat := toNat_ofNat_page (p := t) (by omega)
    rw [hc, UInt64.toNat_zero] at hat
    obtain rfl : t = 0 := by omega
    exact h0 ht
  obtain rfl | ⟨count, rfl⟩ := hop
  · change (pmmAllocPage s).1 = 0 at hz
    change (pmmAllocPage s).2 = s
    cases pmmAllocPage_spec h with
    | inl h => rw [h.1]
    | inr h =>
      obtain ⟨k, s', he, hk, -⟩ := h
      rw [he] at hz
      exact absurd hz (hne hk)
  · change (pmmAllocPages s count).1 = 0 at hz
    change (pmmAllocPages s count).2 = s
    cases pmmAllocPages_spec h count with
    | inl h => rw [h.1]
    | inr h =>
      obtain ⟨t, s', he, hcount, hsub, -⟩ := h
      rw [he] at hz
      exact absurd hz (hne (hsub (Finset.mem_Ico.mpr ⟨Nat.le_refl t, by omega⟩)))

/-- **Accounting** under arbitrary calls: the counters after any of them, and what the next one touches. -/
theorem pmm_accounting (bytes : Nat → UInt8) (bitmapAddr pageCount : UInt64) (hsmall : pageCount.toNat < 2 ^ 52)
    (ops : List PmmOp) :
    let s := ops.foldl (fun s op => (op.apply s).2) (pmmInit bytes bitmapAddr pageCount)
    s.totalPages = pageCount ∧
    s.freePages.toNat = ((List.range s.totalPages.toNat).filter fun p => !s.testBit (UInt64.ofNat p)).length ∧
    s.freePages ≤ s.totalPages ∧ s.searchHint ≤ s.totalPages ∧ (0 < s.totalPages → s.testBit 0 = true) ∧
    ∀ op : PmmOp, (op.accesses s).val = op.apply s ∧ (∀ bit ∈ (op.accesses s).trace, bit < s.totalPages) ∧
      (∀ bit, s.totalPages ≤ bit → (op.apply s).2.testBit bit = s.testBit bit) ∧
      (op = .allocPage ∨ (∃ count, op = .allocPages count) → (op.apply s).1 = 0 → (op.apply s).2 = s) := by
  intro s
  obtain ⟨hok, htotal, h0⟩ : s.Accounted pageCount := (accounted_init bytes bitmapAddr hsmall).run ops
  refine ⟨htotal, ?_, ?_, UInt64.le_iff_toNat_le.mpr hok.hint, fun hpos => ?_, fun op => ?_⟩
  · have hlist : s.clearPages =
        ((List.range s.totalPages.toNat).filter fun p => !s.testBit (UInt64.ofNat p)).toFinset := by
      ext p
      have hs := hok.small
      simp only [mem_clearPages, List.mem_toFinset, List.mem_filter, List.mem_range, testBit_eq, Bool.not_eq_true']
      refine and_congr_right fun hp => ?_
      rw [UInt64.toNat_ofNat_of_lt' (by simp only [UInt64.size]; omega)]
    rw [hok.count, hlist, List.toFinset_card_of_nodup (List.nodup_range.filter _)]
  · rw [UInt64.le_iff_toNat_le, hok.count]
    exact card_clearPages_le s
  · rw [testBit_eq]
    by_contra hc
    exact h0 (mem_clearPages.mpr ⟨UInt64.lt_iff_toNat_lt.mp hpos, by simpa using hc⟩)
  · obtain ⟨h1, h2, -, h3⟩ := op.confined hok
    refine ⟨h1, fun bit hbit => UInt64.lt_iff_toNat_lt.mpr (h2 bit hbit), fun bit hbit => ?_, hok.alloc_zero h0⟩
    rw [testBit_eq, testBit_eq]
    exact h3 bit.toNat (UInt64.le_iff_toNat_le.mp hbit)

theorem pmm_accounting_double_free :
    let s := pmmInit (fun _ => 0xFF) 0x1000 64
    let s' := [PmmOp.allocPage, .freePage 0x2000, .freePage 0x2000].foldl (fun s op => (op.apply s).2) s
    s'.freePages = 62 ∧ (0 < s'.totalPages → s'.testBit 0 = true) := by
  intro s s'
  exact ⟨by decide, (pmm_accounting (fun _ => 0xFF) 0x1000 64 (by decide) _).2.2.2.2.1⟩

end KernelOs
