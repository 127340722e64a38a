import KernelOs.PmmExact

/-!
# Freeing undoes allocating

However the pages of an allocation are given back, in one piece or in many, once or more
often: bitmap and counter are as before it, and it can be repeated.
-/

namespace KernelOs
open Lib Pmm Ledger

/-- The page-aligned frees `frees` cover exactly the pages of `P`. -/
def Releases (frees : List PmmOp) (P : Finset Nat) : Prop :=
  (∀ op ∈ frees,
    (∃ physAddr, physAddr.toNat % 4096 = 0 ∧ (op = .freePage physAddr ∨ ∃ count, op = .freePages physAddr count)) ∧
      freed op ⊆ P) ∧
  ∀ p ∈ P, ∃ op ∈ frees, p ∈ freed op

/-- `n` requests for a page, one after the other. -/
def allocEach : Nat → Pmm → List UInt64 × Pmm
  | 0, s => ([], s)
  | n + 1, s =>
    let (physAddr, s) := pmmAllocPage s
    let (rest, s) := allocEach n s
    (physAddr :: rest, s)

section
variable {s t u : Pmm} {P : Finset Nat}

theorem Pmm.Filled.undo (h : Filled s P true t) (h' : Filled t P false u) (hP : ∀ p ∈ P, s.used p = false) :
    u.bitmap = s.bitmap ∧ u.freePages = s.freePages ∧ u.totalPages = s.totalPages := by
  have hused (p : Nat) : u.used p = s.used p := by
    rw [h'.used, h.used]
    split
    · next hp => exact (hP p hp).symm
    · rfl
  have hbitmap : u.bitmap = s.bitmap := Bitmap.ext hused
  have htotal : u.totalPages = s.totalPages := h'.total.trans h.total
  have hclear : u.clearPages = s.clearPages := clearPages_congr hbitmap htotal
  refine ⟨hbitmap, ?_, htotal⟩
  have h1 := h.count
  have h2 := h'.count
  rw [hclear] at h2
  grind

/-! ## Frees -/

theorem filled_free {op : PmmOp} (hP : ∀ p ∈ P, p ≠ 0 ∧ p < s.totalPages.toNat) (hsub : freed op ⊆ P)
    (hop : ∃ physAddr, physAddr.toNat % 4096 = 0 ∧
      (op = .freePage physAddr ∨ ∃ count, op = .freePages physAddr count)) :
    Filled s (freed op) false (op.apply s).2 ∧ (op.apply s).2.searchHint = s.searchHint := by
  obtain ⟨physAddr, haligned, rfl | ⟨count, rfl⟩⟩ := hop
  · obtain ⟨h, hhint⟩ := pmmFreePage_filled s physAddr
    have hpage := hP _ (hsub (Finset.mem_Ico.mpr ⟨Nat.le_refl (physAddr.toNat / 4096), Nat.lt_succ_self _⟩))
    rw [if_pos ⟨haligned, hpage⟩] at h
    have hfreed : freed (.freePage physAddr) = {physAddr.toNat / 4096} := by
      ext p
      simp only [freed, pagesAt, Finset.mem_Ico, Finset.mem_singleton]
      omega
    rw [hfreed]
    exact ⟨h, hhint⟩
  · obtain ⟨h, hhint⟩ := pmmFreePages_filled s physAddr count
    refine ⟨?_, hhint⟩
    change Filled s (Finset.Ico (physAddr.toNat / 4096) (physAddr.toNat / 4096 + count.toNat)) false _
    by_cases hcount : count.toNat = 0
    · rw [hcount, Nat.add_zero, Finset.Ico_self] at h ⊢
      rwa [ite_self] at h
    · have hfirst := hP _ (hsub (Finset.mem_Ico.mpr ⟨Nat.le_refl (physAddr.toNat / 4096), by omega⟩))
      have hlast := hP (physAddr.toNat / 4096 + count.toNat - 1) (hsub (Finset.mem_Ico.mpr ⟨by omega, by omega⟩))
      rwa [if_pos ⟨haligned, by omega, by omega⟩] at h

theorem Releases.filled {frees : List PmmOp} (h : Releases frees P) (hP : ∀ p ∈ P, p ≠ 0 ∧ p < s.totalPages.toNat) :
    Filled s P false (frees.foldl (fun s op => (op.apply s).2) s) ∧
      (frees.foldl (fun s op => (op.apply s).2) s).searchHint = s.searchHint := by
  obtain ⟨hsub, hall⟩ := h
  have hunion : P = frees.foldr (fun op Q => freed op ∪ Q) ∅ := by
    have hmem (p : Nat) : p ∈ frees.foldr (fun op Q => freed op ∪ Q) ∅ ↔ ∃ op ∈ frees, p ∈ freed op := by
      clear hsub hall
      induction frees with
      | nil => simp
      | cons op frees ih => simp [ih]
    ext p
    rw [hmem]
    exact ⟨hall p, fun ⟨op, hop, hp⟩ => (hsub op hop).2 hp⟩
  suffices hfold : Filled s (frees.foldr (fun op Q => freed op ∪ Q) ∅) false
    (frees.foldl (fun s op => (op.apply s).2) s) ∧
      (frees.foldl (fun s op => (op.apply s).2) s).searchHint = s.searchHint by
    rwa [← hunion] at hfold
  clear hunion hall
  induction frees generalizing s with
  | nil => exact ⟨.refl, rfl⟩
  | cons op frees ih =>
    obtain ⟨hone, hhint⟩ := filled_free hP (hsub op (List.mem_cons_self ..)).2 (hsub op (List.mem_cons_self ..)).1
    obtain ⟨hrest, hhint'⟩ := ih (by rwa [hone.total]) fun op hop => hsub op (List.mem_cons_of_mem _ hop)
    exact ⟨hone.trans hrest, hhint'.trans hhint⟩

/-! ## Single pages -/

theorem allocEach_filled : ∀ (n : Nat) {s : Pmm}, s.Ok → 0 ∉ s.clearPages →
    ∃ taken : Finset Nat, taken ⊆ s.clearPages ∧ Filled s taken true (allocEach n s).2 ∧ (allocEach n s).2.Ok ∧
      (0 ∉ (allocEach n s).1 → taken = ((allocEach n s).1.map fun physAddr => physAddr.toNat / 4096).toFinset ∧
        taken.card = n) ∧
      (n ≤ s.clearPages.card → 0 ∉ (allocEach n s).1)
  | 0, s, hok, _ => ⟨∅, Finset.empty_subset _, .refl, hok, by simp [allocEach], by simp [allocEach]⟩
  | n + 1, s, hok, h0 => by
    rcases pmmAllocPage_filled hok with ⟨he, hnone⟩ | ⟨k, page, t, he, -, hmem, -, hfilled, hhint⟩
    · obtain ⟨taken, hsub, hfilled, hok', -⟩ := allocEach_filled n hok h0
      refine ⟨taken, hsub, ?_⟩
      simp only [allocEach, he]
      refine ⟨hfilled, hok', by simp, fun hle => ?_⟩
      rw [hnone, Finset.card_empty] at hle
      exact absurd hle (Nat.not_succ_le_zero n)
    have hs := hok.small
    have hlt := (mem_clearPages.mp hmem).1
    have htok : t.Ok := hfilled.ok hok (by rw [hhint, toNat_succ (by omega)]; omega)
    have htclear : t.clearPages = s.clearPages.erase page.toNat := by
      rw [hfilled.clearPages_taken, Finset.sdiff_singleton_eq_erase]
    obtain ⟨taken, hsub, hrest, hok', hpages, henough⟩ :=
      allocEach_filled n htok (fun hc => h0 (Finset.mem_of_mem_erase (htclear ▸ hc)))
    rw [htclear] at hsub henough
    have haddr : (page * pageSize).toNat = page.toNat * 4096 := toNat_page (by omega)
    have hne : page * pageSize ≠ 0 := fun hc => by
      rw [hc, UInt64.toNat_zero] at haddr
      rw [show page.toNat = 0 by omega] at hmem
      exact h0 hmem
    have hnot : page.toNat ∉ taken := fun hc => Finset.notMem_erase _ _ (hsub hc)
    refine ⟨insert page.toNat taken, ?_, ?_⟩
    · exact Finset.insert_subset hmem fun p hp => Finset.mem_of_mem_erase (hsub hp)
    simp only [allocEach, he]
    refine ⟨?_, hok', fun hc => ?_, fun hle => ?_⟩
    · rw [Finset.insert_eq]
      exact hfilled.trans hrest
    · rw [List.mem_cons, not_or] at hc
      obtain ⟨h1, h2⟩ := hpages hc.2
      rw [List.map_cons, List.toFinset_cons, ← h1, haddr, Nat.mul_div_cancel _ (by decide),
        Finset.card_insert_of_notMem hnot, h2]
      exact ⟨rfl, rfl⟩
    · rw [List.mem_cons, not_or]
      refine ⟨hne.symm, henough ?_⟩
      rw [Finset.card_erase_of_mem hmem]
      omega

/-! ## Undoing an allocation -/

theorem allocPages_ne_zero (hok : s.Ok) (h0 : 0 ∉ s.clearPages) {count : UInt64}
    (hpos : 0 < count.toNat) {start : Nat} (hrun : Finset.Ico start (start + count.toNat) ⊆ s.clearPages) :
    (pmmAllocPages s count).1 ≠ 0 := by
  have hs := hok.small
  rcases pmmAllocPages_filled s count with ⟨-, hnone⟩ | ⟨start', t, he, -, hend, hsub, -⟩
  · rcases hnone with hc | hnone
    · rw [hc] at hpos
      exact absurd hpos (by decide)
    · exact absurd hrun (hnone start)
  · -- the first run does not start at page 0
    have hstart : start'.toNat ≠ 0 :=
      fun hc => h0 (hc ▸ hsub (Finset.mem_Ico.mpr ⟨Nat.le_refl start'.toNat, by omega⟩))
    have haddr : (start' * pageSize).toNat = start'.toNat * 4096 := toNat_page (by omega)
    rw [he]
    intro hc
    rw [show start' * pageSize = 0 from hc, UInt64.toNat_zero] at haddr
    omega

/-- An allocation of the clear pages `P`, and frees that cover them. -/
theorem Releases.undo {frees : List PmmOp} (h : Releases frees P) (hfilled : Filled s P true t)
    (h0 : 0 ∉ s.clearPages) (hP : P ⊆ s.clearPages) :
    let u := frees.foldl (fun s op => (op.apply s).2) t
    Filled t P false u ∧ u.searchHint = t.searchHint ∧ u.bitmap = s.bitmap ∧ u.freePages = s.freePages ∧
        u.clearPages = s.clearPages := by
  obtain ⟨hback, hhint⟩ := h.filled (s := t) fun p hp => by
    rw [hfilled.total]
    exact ⟨fun hc => h0 (hc ▸ hP hp), (mem_clearPages.mp (hP hp)).1⟩
  obtain ⟨hbitmap, hfree, htotal⟩ := hfilled.undo hback fun p hp => (mem_clearPages.mp (hP hp)).2
  exact ⟨hback, hhint, hbitmap, hfree, clearPages_congr hbitmap htotal⟩

theorem undo_allocPages (hok : s.Ok) (h0 : 0 ∉ s.clearPages) {count : UInt64}
    (hne : (pmmAllocPages s count).1 ≠ 0) {frees : List PmmOp}
    (hfrees : Releases frees (pagesAt (pmmAllocPages s count).1.toNat count.toNat)) :
    let s' := frees.foldl (fun s op => (op.apply s).2) (pmmAllocPages s count).2
    s'.bitmap = s.bitmap ∧ s'.freePages = s.freePages ∧ (pmmAllocPages s' count).1 ≠ 0 := by
  intro s'
  have hs := hok.small
  rcases pmmAllocPages_filled s count with ⟨he, -⟩ | ⟨start, t, he, hpos, hend, hsub, -, hfilled, hhint⟩
  · exact absurd (by rw [he]) hne
  have haddr : (start * pageSize).toNat = start.toNat * 4096 := toNat_page (by omega)
  have hpages : pagesAt (pmmAllocPages s count).1.toNat count.toNat =
      Finset.Ico start.toNat (start.toNat + count.toNat) := by
    rw [he, pagesAt, haddr, Nat.mul_div_cancel _ (by decide)]
  rw [hpages] at hfrees
  rw [← show (pmmAllocPages s count).2 = t by rw [he]] at hfilled hhint
  obtain ⟨hback, hhint', hbitmap, hfree, hclear⟩ := hfrees.undo hfilled h0 hsub
  have htok : (pmmAllocPages s count).2.Ok := hfilled.ok hok (by rw [hhint, toNat_add_of_lt (by omega)]; exact hend)
  have hs'ok : s'.Ok := hback.ok htok (by rw [hhint']; exact htok.hint)
  exact ⟨hbitmap, hfree, allocPages_ne_zero hs'ok (hclear ▸ h0) hpos (hclear ▸ hsub)⟩

theorem undo_allocEach (hok : s.Ok) (h0 : 0 ∉ s.clearPages) {n : Nat} (hn : 0 ∉ (allocEach n s).1)
    {frees : List PmmOp}
    (hfrees : Releases frees ((allocEach n s).1.map fun physAddr => physAddr.toNat / 4096).toFinset) :
    let s' := frees.foldl (fun s op => (op.apply s).2) (allocEach n s).2
    s'.bitmap = s.bitmap ∧ s'.freePages = s.freePages ∧ 0 ∉ (allocEach n s').1 := by
  intro s'
  obtain ⟨taken, hsub, hfilled, htok, hpages, -⟩ := allocEach_filled n hok h0
  obtain ⟨htaken, hcard⟩ := hpages hn
  rw [← htaken] at hfrees
  obtain ⟨hback, hhint, hbitmap, hfree, hclear⟩ := hfrees.undo hfilled h0 hsub
  have hs'ok : s'.Ok := hback.ok htok (by rw [hhint]; exact htok.hint)
  obtain ⟨-, -, -, -, -, henough⟩ := allocEach_filled n hs'ok (hclear ▸ h0)
  refine ⟨hbitmap, hfree, henough ?_⟩
  rw [hclear, ← hcard]
  exact Finset.card_le_card hsub

end

/-- **Freeing undoes allocating**, a run of pages or single ones, however the frees are split, ordered and
repeated. -/
theorem free_undoes_alloc (bytes : Nat → UInt8) (bitmapAddr pageCount : UInt64)
    (hsmall : pageCount.toNat < 2 ^ 52) (ops : List PmmOp) :
    let s := ops.foldl (fun s op => (op.apply s).2) (pmmInit bytes bitmapAddr pageCount)
    (∀ count, (pmmAllocPages s count).1 ≠ 0 → ∀ frees,
      Releases frees (pagesAt (pmmAllocPages s count).1.toNat count.toNat) →
      let s' := frees.foldl (fun s op => (op.apply s).2) (pmmAllocPages s count).2
      s'.bitmap = s.bitmap ∧ s'.freePages = s.freePages ∧ (pmmAllocPages s' count).1 ≠ 0) ∧
    ∀ n, 0 ∉ (allocEach n s).1 →
    ∀ frees, Releases frees ((allocEach n s).1.map fun physAddr => physAddr.toNat / 4096).toFinset →
      let s' := frees.foldl (fun s op => (op.apply s).2) (allocEach n s).2
      s'.bitmap = s.bitmap ∧ s'.freePages = s.freePages ∧ 0 ∉ (allocEach n s').1 := by
  intro s
  obtain ⟨hok, -, h0⟩ : s.Accounted pageCount := (accounted_init bytes bitmapAddr hsmall).run ops
  exact ⟨fun _ hne _ hfrees => undo_allocPages hok h0 hne hfrees,
    fun _ hn _ hfrees => undo_allocEach hok h0 hn hfrees⟩

/-- Three pages given back in pieces that overlap, the last one first. -/
theorem free_undoes_alloc_pieces :
    let s := pmmInit (fun _ => 0) 0x1000 64
    let s' :=
      [PmmOp.freePage 0x4000, .freePages 0x2000 2, .freePages 0x3000 2].foldl (fun s op => (op.apply s).2)
        (pmmAllocPages s 3).2
    (pmmAllocPages s 3).1 = 0x2000 ∧ s'.bitmap = s.bitmap ∧ s'.freePages = s.freePages := by
  intro s s'
  have haddr : (pmmAllocPages s 3).1 = 0x2000 := by decide +kernel
  have hne : (pmmAllocPages s 3).1 ≠ 0 := by rw [haddr]; decide
  have hundo := (free_undoes_alloc (fun _ => 0) 0x1000 64 (by decide) []).1 3 hne
    [.freePage 0x4000, .freePages 0x2000 2, .freePages 0x3000 2] (by
      change Releases _ (pagesAt (pmmAllocPages s 3).1.toNat 3)
      rw [haddr]
      refine ⟨fun op hop => ?_, by decide⟩
      simp only [List.mem_cons, List.not_mem_nil, or_false] at hop
      rcases hop with rfl | rfl | rfl
      · exact ⟨⟨0x4000, by decide, Or.inl rfl⟩, by decide⟩
      · exact ⟨⟨0x2000, by decide, Or.inr ⟨2, rfl⟩⟩, by decide⟩
      · exact ⟨⟨0x3000, by decide, Or.inr ⟨2, rfl⟩⟩, by decide⟩)
  exact ⟨haddr, hundo.1, hundo.2.1⟩

end KernelOs
