import KernelOs.ElfLoad
import KernelOs.Lib.Run

/-!
# The kernel's address spaces

The tables that `boot.S` leaves, and the states that loading programs and preparing
the demo task lead to from there. The PML4 in CR3 is the kernel's throughout.
-/

namespace KernelOs
open Lib LawfulPageAllocator CompletePageAllocator

/-! ## Boot -/

/-- The loop of `setup_page_tables` that fills the page directory: `n` entries, 2 MiB each. -/
def mapHugePages (mem : Memory) (pdTable : UInt64) : Nat → Memory
  | 0 => mem
  | n + 1 =>
    writeEntry (mapHugePages mem pdTable n) pdTable (Fin.ofNat 512 n) (UInt64.ofNat (0x200000 * n) ||| 0b10000011)

/-- `setup_page_tables`, over tables that the image's `.bss` section has zeroed. -/
def setupPageTables (mem : Memory) (pml4Table pdptTable pdTable : UInt64) : Memory :=
  let mem := zeroTable (zeroTable (zeroTable mem pml4Table) pdptTable) pdTable
  let mem := writeEntry mem pml4Table 0 (pdptTable ||| 0b11)
  let mem := writeEntry mem pdptTable 0 (pdTable ||| 0b11)
  mapHugePages mem pdTable 512

/-- All bits of an entry but "accessed" and "dirty", which the processor sets and nobody reads. -/
def pteUntouched : UInt64 := 0xFFFFFFFFFFFFFF9F

/-- What the three tables in the image hold, whatever walks the processor has made through them. -/
structure BootTables (mem : Memory) (pml4Table pdptTable pdTable : UInt64) : Prop where
  pml4 : ∀ i, readEntry mem pml4Table i &&& pteUntouched = if i = 0 then pdptTable ||| 0b11 else 0
  pdpt : ∀ i, readEntry mem pdptTable i &&& pteUntouched = if i = 0 then pdTable ||| 0b11 else 0
  pd : ∀ i : Fin 512, readEntry mem pdTable i &&& pteUntouched = UInt64.ofNat (0x200000 * i.val) ||| 0b10000011

theorem and_of_untouched {e e' m : UInt64} (h : e &&& pteUntouched = e') (hm : pteUntouched &&& m = m) :
    e &&& m = e' &&& m := by
  rw [← h, UInt64.and_assoc, hm]

/-- What is written has none of the two bits. -/
theorem frame_untouched {n bits : UInt64} (hn : IsFrame n) (hbits : bits &&& pteUntouched = bits) :
    (n ||| bits) &&& pteUntouched = n ||| bits := by
  rw [or_and_distrib, hbits, ← show n &&& pteAddrMask = n from hn, UInt64.and_assoc,
    show pteAddrMask &&& pteUntouched = pteAddrMask by decide]

theorem readEntry_mapHugePages_of_ne (mem : Memory) {n pdTable : UInt64} (hn : IsFrame n) (hpd : IsFrame pdTable)
    (hne : n ≠ pdTable) (i : Fin 512) (k : Nat) :
    readEntry (mapHugePages mem pdTable k) n i = readEntry mem n i := by
  induction k with
  | zero => rfl
  | succ k ih => rw [mapHugePages, readEntry_writeEntry_of_ne _ _ hn hpd fun h => hne h.1, ih]

theorem readEntry_mapHugePages (mem : Memory) {pdTable : UInt64} (hpd : IsFrame pdTable) (i : Fin 512) :
    ∀ k ≤ 512, i.val < k →
      readEntry (mapHugePages mem pdTable k) pdTable i = UInt64.ofNat (0x200000 * i.val) ||| 0b10000011
  | 0, _, hi => absurd hi (Nat.not_lt_zero _)
  | k + 1, hk, hi => by
    have hval : (Fin.ofNat 512 k).val = k := Nat.mod_eq_of_lt (by omega)
    rw [mapHugePages]
    by_cases h : i = Fin.ofNat 512 k
    · rw [h, readEntry_writeEntry, hval]
    · have hne : i.val ≠ k := fun hc => h (Fin.ext (hc.trans hval.symm))
      rw [readEntry_writeEntry_of_ne _ _ hpd hpd fun hc => h hc.2]
      exact readEntry_mapHugePages mem hpd i k (by omega) (by omega)

theorem bootTables_setup (mem : Memory) {pml4Table pdptTable pdTable : UInt64} (h1 : IsFrame pml4Table)
    (h2 : IsFrame pdptTable) (h3 : IsFrame pdTable) (h12 : pml4Table ≠ pdptTable) (h13 : pml4Table ≠ pdTable)
    (h23 : pdptTable ≠ pdTable) :
    BootTables (setupPageTables mem pml4Table pdptTable pdTable) pml4Table pdptTable pdTable := by
  refine ⟨fun i => ?_, fun i => ?_, fun i => ?_⟩
  · rw [setupPageTables, readEntry_mapHugePages_of_ne _ h1 h3 h13,
      readEntry_writeEntry_of_ne _ _ h1 h2 fun h => h12 h.1]
    by_cases hi : i = 0
    · rw [hi, readEntry_writeEntry, if_pos rfl, frame_untouched h2 (by decide)]
    · rw [readEntry_writeEntry_of_ne _ _ h1 h1 fun h => hi h.2, if_neg hi, readEntry_zeroTable_of_ne _ h1 h3 h13,
        readEntry_zeroTable_of_ne _ h1 h2 h12, readEntry_zeroTable, UInt64.zero_and]
  · rw [setupPageTables, readEntry_mapHugePages_of_ne _ h2 h3 h23]
    by_cases hi : i = 0
    · rw [hi, readEntry_writeEntry, if_pos rfl, frame_untouched h3 (by decide)]
    · rw [readEntry_writeEntry_of_ne _ _ h2 h2 fun h => hi h.2, if_neg hi,
        readEntry_writeEntry_of_ne _ _ h2 h1 fun h => h12 h.1.symm, readEntry_zeroTable_of_ne _ h2 h3 h23,
        readEntry_zeroTable, UInt64.zero_and]
  · rw [setupPageTables, readEntry_mapHugePages _ h3 i 512 (Nat.le_refl _) i.isLt,
      show 0x200000 * i.val = 512 * i.val * 4096 by omega]
    exact frame_untouched (isFrame_page (by omega)) (by decide)

variable {α : Type} [PageAllocator α]

/-- The state in which the kernel starts to build spaces: the boot tables stand, in frames that
the allocator does not give out. -/
structure Booted [LawfulPageAllocator α] (cr3 : UInt64) (s : Vmm α) : Prop where
  valid : Valid s.pmm
  tables : ∃ pdptTable pdTable, cr3 ≠ pdptTable ∧ cr3 ≠ pdTable ∧ pdptTable ≠ pdTable ∧
    (∀ n ∈ [cr3, pdptTable, pdTable], n ≠ 0 ∧ IsFrame n ∧ n.toNat / 4096 ∉ spare s.pmm) ∧
    BootTables s.mem cr3 pdptTable pdTable

/-- The allocator as `kernel_main` leaves it, with the stacks of `tasks` threads taken. -/
def kernelPmm (bytes : Nat → UInt8) (tasks : Nat) : Pmm :=
  (List.range tasks).foldl (fun s _ => (pmmAllocPages s 4).2)
    (pmmMarkReserved (pmmInit bytes 0x200000 32768) 0x100000 0x200000)

theorem kernelPmm_zero (bytes : Nat → UInt8) :
    kernelPmm bytes 0 = pmmMarkReserved (pmmInit bytes 0x200000 32768) 0x100000 0x200000 := by
  rw [kernelPmm, List.range_zero, List.foldl_nil]

theorem kernelPmm_succ (bytes : Nat → UInt8) (tasks : Nat) :
    kernelPmm bytes (tasks + 1) = (pmmAllocPages (kernelPmm bytes tasks) 4).2 := by
  rw [kernelPmm, List.range_succ, List.foldl_append, List.foldl_cons, List.foldl_nil, kernelPmm]

theorem kernelPmm_spec (bytes : Nat → UInt8) (tasks : Nat) : (kernelPmm bytes tasks).Ok ∧
    (kernelPmm bytes tasks).totalPages = 32768 ∧
    (kernelPmm bytes tasks).clearPages ⊆ (kernelPmm bytes 0).clearPages := by
  induction tasks with
  | zero =>
    obtain ⟨h1, h2, -⟩ := pmmInit_spec bytes 0x200000 32768 (by decide)
    obtain ⟨h3, h4, -, -⟩ := pmmMarkReserved_spec h1 0x100000 0x200000
    refine ⟨?_, ?_, Finset.Subset.refl _⟩ <;> rw [kernelPmm_zero]
    · exact h3
    · exact h4.trans h2
  | succ n ih =>
    obtain ⟨h1, h2, h3⟩ := ih
    rw [kernelPmm_succ]
    rcases pmmAllocPages_spec h1 4 with ⟨he, -⟩ | ⟨t, s', he, -, -, -, k1, k2, k3⟩
    · rw [he]
      exact ⟨h1, h2, h3⟩
    · rw [he]
      exact ⟨k1, k2.trans h2, by rw [k3]; exact Finset.sdiff_subset.trans h3⟩

theorem mem_kernelPmm_zero (bytes : Nat → UInt8) (f : Nat) : f ∈ (kernelPmm bytes 0).clearPages ↔
    0 < f ∧ f < 32768 ∧ ¬ (256 ≤ f ∧ f < 768) := by
  obtain ⟨h1, -, h3⟩ := pmmInit_spec bytes 0x200000 32768 (by decide)
  obtain ⟨-, -, -, h4⟩ := pmmMarkReserved_spec h1 0x100000 0x200000
  rw [kernelPmm_zero, h4, h3]
  simp only [Finset.mem_filter, Finset.mem_range, Touches, show (0x200000 : UInt64).toNat = 0x200000 from rfl,
    show (0x100000 : UInt64).toNat = 0x100000 from rfl, show (32768 : UInt64).toNat = 32768 from rfl]
  omega

/-- Tables in the image are in no frame that the allocator has. -/
theorem BootTables.booted {mem : Memory} (bytes : Nat → UInt8) (tasks : Nat) {pml4Table pdptTable pdTable : UInt64}
    (h : BootTables mem pml4Table pdptTable pdTable) (h1 : IsFrame pml4Table) (h2 : IsFrame pdptTable)
    (h3 : IsFrame pdTable) (h12 : pml4Table ≠ pdptTable) (h13 : pml4Table ≠ pdTable) (h23 : pdptTable ≠ pdTable)
    (himage : ∀ n ∈ [pml4Table, pdptTable, pdTable], 0x100000 ≤ n.toNat ∧ n.toNat < 0x300000) :
    Booted pml4Table (⟨mem, kernelPmm bytes tasks⟩ : Vmm Pmm) := by
  obtain ⟨k1, k2, k3⟩ := kernelPmm_spec bytes tasks
  have hclear {f : Nat} (hf : f ∈ (kernelPmm bytes tasks).clearPages) : 0 < f ∧ ¬ (256 ≤ f ∧ f < 768) := by
    have := (mem_kernelPmm_zero bytes f).mp (k3 hf)
    exact ⟨this.1, this.2.2⟩
  have h0 : 0 ∉ (kernelPmm bytes tasks).clearPages := fun hc => Nat.lt_irrefl 0 (hclear hc).1
  have hpages : (kernelPmm bytes tasks).totalPages.toNat ≤ 2 ^ 40 := by
    rw [k2, UInt64.toNat_ofNat]
    norm_num
  refine ⟨⟨k1, h0, hpages⟩, pdptTable, pdTable, h12, h13, h23, fun n hn => ?_, h⟩
  obtain ⟨h4, h5⟩ := himage n hn
  refine ⟨fun h0 => by rw [h0] at h4; exact absurd h4 (by decide), ?_, fun hc => (hclear hc).2 (by omega)⟩
  simp only [List.mem_cons, List.not_mem_nil, or_false] at hn
  rcases hn with rfl | rfl | rfl
  · exact h1
  · exact h2
  · exact h3

theorem booted_kernelPmm (mem : Memory) (bytes : Nat → UInt8) (tasks : Nat) {pml4Table pdptTable pdTable : UInt64}
    (h1 : IsFrame pml4Table) (h2 : IsFrame pdptTable) (h3 : IsFrame pdTable) (h12 : pml4Table ≠ pdptTable)
    (h13 : pml4Table ≠ pdTable) (h23 : pdptTable ≠ pdTable)
    (himage : ∀ n ∈ [pml4Table, pdptTable, pdTable], 0x100000 ≤ n.toNat ∧ n.toNat < 0x300000) :
    Booted pml4Table (⟨setupPageTables mem pml4Table pdptTable pdTable, kernelPmm bytes tasks⟩ : Vmm Pmm) :=
  (bootTables_setup mem h1 h2 h3 h12 h13 h23).booted bytes tasks h1 h2 h3 h12 h13 h23 himage

def bootVmm {α : Type} (pmm : α) : Vmm α := ⟨setupPageTables (fun _ => 0) 0x105000 0x106000 0x107000, pmm⟩

theorem booted_bootVmm (bytes : Nat → UInt8) (tasks : Nat) : Booted 0x105000 (bootVmm (kernelPmm bytes tasks)) := by
  refine booted_kernelPmm _ bytes tasks ?_ ?_ ?_ ?_ ?_ ?_ (by simp) <;> decide

/-! ## Calls -/

structure Kernel (α : Type) where
  vmm : Vmm α
  /-- The kernel's own space and those of the successful calls. -/
  spaces : List UInt64

inductive KernelCall where
  | elfLoad (entries : Ramfs) (name : Option (List UInt8)) (image : Option ElfImage)
  | prepareDemo (task : Option UInt64) (u : UserMode)

def Kernel.call (cr3 programPhys : UInt64) (k : Kernel α) : KernelCall → Kernel α
  | .elfLoad entries name image =>
    let (ok, image, vmm) := elfLoadFromRamfs entries cr3 name image k.vmm
    { vmm, spaces := (if ok then image.toList.map (·.pml4Phys) else []) ++ k.spaces }
  | .prepareDemo task u =>
    let (ok, task, _, vmm) := userModePrepareDemoTask cr3 programPhys task u k.vmm
    { vmm, spaces := (if ok then task.toList else []) ++ k.spaces }

def KernelStep (cr3 programPhys : UInt64) (k : Kernel α) (c : KernelCall) (k' : Kernel α) : Prop :=
  k' = k.call cr3 programPhys c

/-! ## What holds between calls -/

/-- Every space but the kernel's own shares the kernel's slot 0. -/
structure KernelInv [LawfulPageAllocator α] (cr3 : UInt64) (k : Kernel α) (S : Finset UInt64)
    (T : TableMap) : Prop where
  tabled : Tabled (kernelLayout cr3 S) k.vmm T
  kernel : T.label cr3 = some (.root cr3)
  pdpt : ∃ n, T.label n = some ⟨cr3, [0]⟩
  alone : cr3 ∉ S
  spaces : ∀ {q}, q ∈ k.spaces → T.label q = some (.root q) ∧ (q = cr3 ∨ q ∈ S)

theorem kernelLayout_huge {k : UInt64} {S : Finset UInt64} : ∀ ℓ, (kernelLayout k S).huge ℓ → ℓ.path = [0, 0] := by
  rintro ℓ rfl
  rfl

section
variable [LawfulPageAllocator α] {cr3 p : UInt64} {k : Kernel α} {S : Finset UInt64} {s s₁ s₂ : Vmm α}
  {T T₁ T' : TableMap}

theorem bootLink_and {n : UInt64} (hn : IsFrame n) :
    (n ||| 0b11) &&& pteAddrMask = n ∧ (n ||| 0b11) &&& ptePresent ≠ 0 ∧
    (n ||| 0b11) &&& pteHuge = 0 := by
  refine ⟨?_, ?_, ?_⟩ <;> rw [or_and_distrib]
  · rw [show n &&& pteAddrMask = n from hn, show (0b11 : UInt64) &&& pteAddrMask = 0 by decide, UInt64.or_zero]
  · exact or_ne_zero_right (by decide)
  · rw [← show n &&& pteAddrMask = n from hn, UInt64.and_assoc, show pteAddrMask &&& pteHuge = 0 by decide,
      UInt64.and_zero]
    decide

theorem slot_bootLink {mem : Memory} {t n : UInt64} {r : Nat} {i : Fin 512} (hn : IsFrame n) (hr : 0 < r)
    (ht : readEntry mem t i &&& pteUntouched = if i = 0 then n ||| 0b11 else 0) :
    slot mem r t i = if i = 0 then .node n else .empty := by
  obtain ⟨k1, k2, k3⟩ := bootLink_and hn
  have haddr := and_of_untouched ht (show pteUntouched &&& pteAddrMask = pteAddrMask by decide)
  have hpresent := and_of_untouched ht (show pteUntouched &&& ptePresent = ptePresent by decide)
  have hhuge := and_of_untouched ht (show pteUntouched &&& pteHuge = pteHuge by decide)
  by_cases hi : i = 0
  · rw [if_pos hi] at haddr hpresent hhuge ⊢
    rw [slot_of_link (by rw [hpresent]; exact k2) (by rw [hhuge]; exact k3) hr, haddr, k1]
  · rw [if_neg hi] at hpresent ⊢
    exact slot_of_absent (by rw [hpresent]; rfl)

theorem bootEntry_plain {mem : Memory} {t n : UInt64} {i : Fin 512} (hn : IsFrame n)
    (ht : readEntry mem t i &&& pteUntouched = if i = 0 then n ||| 0b11 else 0)
    (hpr : readEntry mem t i &&& ptePresent ≠ 0) :
    readEntry mem t i &&& pteHuge = 0 := by
  rw [and_of_untouched ht (by decide)] at hpr ⊢
  by_cases hi : i = 0
  · rw [if_pos hi]
    exact (bootLink_and hn).2.2
  · rw [if_neg hi] at hpr
    exact absurd rfl hpr

theorem exists_bootMap {cr3 pdpt pd : UInt64} (h12 : cr3 ≠ pdpt) (h13 : cr3 ≠ pd) (h23 : pdpt ≠ pd) :
    ∃ T : TableMap,
    T.names = {⟨cr3, [0, 0]⟩, ⟨cr3, [0]⟩, .root cr3} ∧ ∀ {n ℓ}, T.label n = some ℓ ↔
      n = cr3 ∧ ℓ = .root cr3 ∨ n = pdpt ∧ ℓ = ⟨cr3, [0]⟩ ∨ n = pd ∧ ℓ = ⟨cr3, [0, 0]⟩ := by
  have h1 : TableMap.empty.label cr3 = none := rfl
  have h2 : (TableMap.empty.insert cr3 (.root cr3) h1).label pdpt = none := TableMap.insert_label_of_ne h12.symm
  have h3 : ((TableMap.empty.insert cr3 (.root cr3) h1).insert pdpt ⟨cr3, [0]⟩ h2).label pd = none :=
    (TableMap.insert_label_of_ne h23.symm).trans (TableMap.insert_label_of_ne h13.symm)
  refine ⟨((TableMap.empty.insert cr3 (.root cr3) h1).insert pdpt ⟨cr3, [0]⟩ h2).insert pd ⟨cr3, [0, 0]⟩ h3,
    rfl, fun {n ℓ} => ?_⟩
  constructor
  · intro hn
    rcases TableMap.insert_cases hn with hn | ⟨-, hn⟩
    · exact Or.inr (Or.inr hn)
    rcases TableMap.insert_cases hn with hn | ⟨-, hn⟩
    · exact Or.inr (Or.inl hn)
    rcases TableMap.insert_cases hn with hn | ⟨-, hn⟩
    · exact Or.inl hn
    · cases hn
  · rintro (⟨rfl, rfl⟩ | ⟨rfl, rfl⟩ | ⟨rfl, rfl⟩)
    · exact TableMap.insert_mono (TableMap.insert_mono TableMap.insert_label_self)
    · exact TableMap.insert_mono TableMap.insert_label_self
    · exact TableMap.insert_label_self

theorem kernelLayout_empty_next (cr3 o : UInt64) (is : List (Fin 512)) (i : Fin 512) :
    (kernelLayout cr3 ∅).next ⟨o, is⟩ i = ⟨o, is ++ [i]⟩ := by
  unfold Layout.next
  split
  · next hc =>
    obtain ⟨rfl, rfl⟩ : is = [] ∧ i = 0 := hc
    simp [kernelLayout]
  · rfl

theorem BootTables.tabled {pdpt pd : UInt64} (h : BootTables s.mem cr3 pdpt pd) (hv : Valid s.pmm)
    (hframe : ∀ n ∈ [cr3, pdpt, pd], n ≠ 0 ∧ IsFrame n ∧ n.toNat / 4096 ∉ spare s.pmm) {T : TableMap}
    (hT : ∀ {n ℓ}, T.label n = some ℓ ↔ n = cr3 ∧ ℓ = .root cr3 ∨ n = pdpt ∧ ℓ = ⟨cr3, [0]⟩ ∨ n = pd ∧
      ℓ = ⟨cr3, [0, 0]⟩) :
    Tabled (kernelLayout cr3 ∅) s T := by
  have hF1 := hframe cr3 (by simp)
  have hF2 := hframe pdpt (by simp)
  have hF3 := hframe pd (by simp)
  have hslot4 (i : Fin 512) := slot_bootLink (r := 3) hF2.2.1 (by decide) (h.pml4 i)
  have hslot3 (i : Fin 512) := slot_bootLink (r := 2) hF3.2.1 (by decide) (h.pdpt i)
  have hhuge (i : Fin 512) : readEntry s.mem pd i &&& pteHuge ≠ 0 := by
    rw [and_of_untouched (h.pd i) (by decide), or_and_distrib]
    exact or_ne_zero_right (by decide)
  have hlow (q : UInt64) : (kernelLayout cr3 ∅).low q = q := by simp [kernelLayout]
  constructor
  case valid => exact hv
  case frame =>
    intro n ℓ hn
    rcases hT.mp hn with ⟨rfl, -⟩ | ⟨rfl, -⟩ | ⟨rfl, -⟩
    · exact hF1
    · exact hF2
    · exact hF3
  case root =>
    intro n p hn
    rcases hT.mp hn with ⟨rfl, hℓ⟩ | ⟨-, hℓ⟩ | ⟨-, hℓ⟩
    · exact (Label.mk.inj hℓ).1.symm
    · cases hℓ
    · cases hℓ
  case inj =>
    intro m n ℓ hm hn
    rcases hT.mp hm with ⟨rfl, rfl⟩ | ⟨rfl, rfl⟩ | ⟨rfl, rfl⟩ <;>
      rcases hT.mp hn with ⟨rfl, hℓ⟩ | ⟨rfl, hℓ⟩ | ⟨rfl, hℓ⟩ <;> first | rfl | cases hℓ
  case parent =>
    intro n o is i hn
    rcases hT.mp hn with ⟨-, hℓ⟩ | ⟨-, hℓ⟩ | ⟨-, hℓ⟩
    · simp [Label.root] at hℓ
    · obtain ⟨rfl, hp⟩ := Label.mk.inj hℓ
      obtain ⟨rfl, -⟩ := List.append_inj' (show is ++ [i] = [] ++ [0] from hp) rfl
      exact ⟨o, hT.mpr (by simp [Label.root])⟩
    · obtain ⟨rfl, hp⟩ := Label.mk.inj hℓ
      obtain ⟨rfl, -⟩ := List.append_inj' (show is ++ [i] = [0] ++ [0] from hp) rfl
      exact ⟨pdpt, hT.mpr (by simp)⟩
  case alone => exact fun _ => hlow _
  case shared => exact fun hc => absurd (hlow _) hc
  case labelled =>
    constructor
    intro n ℓ i n' hn hs
    rcases hT.mp hn with ⟨rfl, rfl⟩ | ⟨rfl, rfl⟩ | ⟨rfl, rfl⟩
    · rw [Label.rank_root, hslot4] at hs
      by_cases hi : i = 0
      · rw [if_pos hi] at hs
        cases hs
        rw [Label.root, kernelLayout_empty_next, hi]
        exact ⟨hT.mpr (by simp), rfl⟩
      · rw [if_neg hi] at hs
        cases hs
    · rw [show Label.rank ⟨cr3, [0]⟩ = 2 from rfl, hslot3] at hs
      by_cases hi : i = 0
      · rw [if_pos hi] at hs
        cases hs
        rw [kernelLayout_empty_next, hi]
        exact ⟨hT.mpr (by simp), rfl⟩
      · rw [if_neg hi] at hs
        cases hs
    · simp only [show Label.rank ⟨cr3, [0, 0]⟩ = 1 from rfl, slot, ne_eq, hhuge, not_false_eq_true, if_true] at hs
      split at hs <;> simp at hs
  case linked =>
    intro n ℓ i n' hn hr hn'
    rcases hT.mp hn with ⟨rfl, rfl⟩ | ⟨rfl, rfl⟩ | ⟨rfl, rfl⟩
    · rw [Label.root, kernelLayout_empty_next] at hn'
      rcases hT.mp hn' with ⟨-, hℓ⟩ | ⟨rfl, hℓ⟩ | ⟨-, hℓ⟩
      · simp [Label.root] at hℓ
      · rw [Label.rank_root, hslot4, if_pos (by simpa using hℓ)]
      · simp at hℓ
    · rw [kernelLayout_empty_next] at hn'
      rcases hT.mp hn' with ⟨-, hℓ⟩ | ⟨-, hℓ⟩ | ⟨rfl, hℓ⟩
      · simp [Label.root] at hℓ
      · simp at hℓ
      · rw [show Label.rank ⟨cr3, [0]⟩ = 2 from rfl, hslot3, if_pos (by simpa using hℓ)]
    · rw [kernelLayout_empty_next] at hn'
      rcases hT.mp hn' with ⟨-, hℓ⟩ | ⟨-, hℓ⟩ | ⟨-, hℓ⟩ <;> simp [Label.root] at hℓ
  case plain =>
    intro n ℓ i hn hr hh hpr
    rcases hT.mp hn with ⟨rfl, -⟩ | ⟨rfl, -⟩ | ⟨-, rfl⟩
    · exact bootEntry_plain hF2.2.1 (h.pml4 i) hpr
    · exact bootEntry_plain hF3.2.1 (h.pdpt i) hpr
    · exact absurd rfl hh

theorem Booted.inv (h : Booted cr3 s) : ∃ T, KernelInv cr3 ⟨s, [cr3]⟩ ∅ T ∧
    T.names = {⟨cr3, [0, 0]⟩, ⟨cr3, [0]⟩, .root cr3} := by
  obtain ⟨pdpt, pd, h12, h13, h23, hframe, hboot⟩ := h.tables
  obtain ⟨T, hnames, hT⟩ := exists_bootMap h12 h13 h23
  have hcr3 : T.label cr3 = some (.root cr3) := hT.mpr (by simp)
  have hpdpt : T.label pdpt = some ⟨cr3, [0]⟩ := hT.mpr (by simp)
  refine ⟨T, ⟨hboot.tabled h.valid hframe hT, hcr3, ⟨pdpt, hpdpt⟩, by simp, fun {q} hq => ?_⟩, hnames⟩
  obtain rfl := List.mem_singleton.mp hq
  exact ⟨hcr3, Or.inl rfl⟩

/-- **A new user space**: a fresh root that shares slot 0, nothing else having changed. -/
theorem KernelInv.share (h : KernelInv cr3 k S T) (hx : Extends (kernelLayout cr3 S) k.vmm T s₁ T₁)
    (hsame : SameLookups T k.vmm.mem s₁.mem) (hnone : T.label p = none) (hp : T₁.label p = some (.root p))
    (hnames : T₁.names = insert (.root p) T.names) (hzero : ∀ i, readEntry s₁.mem p i = 0)
    (htab : Tabled (kernelLayout cr3 S) s₂ T₁) (hmem : s₂.mem = s₁.mem) :
    let s₃ := { s₂ with mem := shareKernelSlot s₂.mem cr3 p }
    KernelInv cr3 ⟨s₃, p :: k.spaces⟩ (insert p S) T₁ ∧
      (∀ {q w}, T.label q = some (.root q) → Radix.lookup (slot s₃.mem) q (path w) =
      Radix.lookup (slot k.vmm.mem) q (path w)) ∧
      (∀ {w}, Radix.lookup (slot s₃.mem) p (path w) =
        if (splitVaddr w).pml4I = 0 then Radix.lookup (slot k.vmm.mem) cr3 (path w) else none) ∧
      ∀ {ℓ}, ℓ ∈ T₁.names → ℓ.owner = p → ℓ = .root p := by
  intro s₃
  have hpk : p ≠ cr3 := (TableMap.ne_of_label h.kernel hnone).symm
  have hpS : p ∉ S := by
    intro hc
    have := h.tabled.alone hnone
    simp only [kernelLayout, if_pos hc] at this
    exact hpk this.symm
  have howner {n : UInt64} {is : List (Fin 512)} (hn : T.label n = some ⟨p, is⟩) : False := by
    induction is using List.reverseRecOn generalizing n with
    | nil =>
      obtain rfl := h.tabled.root hn
      rw [hnone] at hn
      cases hn
    | append_singleton is i ih =>
      obtain ⟨m, hm⟩ := h.tabled.parent hn
      exact ih hm
  have h0 : ∃ n, T₁.label n = some ⟨cr3, [0]⟩ := by
    obtain ⟨n, hn⟩ := h.pdpt
    exact ⟨n, hx.mono hn⟩
  obtain ⟨k1, k2, k3⟩ := htab.share (hx.mono h.kernel) h0 hp hpk hpS (fun i => by rw [hmem, hzero])
  have hold {q w : UInt64} (hq : T.label q = some (.root q)) : Radix.lookup (slot s₂.mem) q (path w) =
      Radix.lookup (slot k.vmm.mem) q (path w) := by
    rw [hmem]
    exact hsame hq rfl
  refine ⟨⟨k1, hx.mono h.kernel, h0, ?_, fun {q} hq => ?_⟩, fun {q w} hq => ?_, fun {w} => ?_, fun {ℓ} hℓ ho => ?_⟩
  · rw [Finset.mem_insert]
    rintro (hc | hc)
    · exact hpk hc.symm
    · exact h.alone hc
  · cases List.mem_cons.mp hq with
    | inl hq => subst hq; exact ⟨hp, Or.inr (Finset.mem_insert_self ..)⟩
    | inr hq =>
      obtain ⟨h1, h2⟩ := h.spaces hq
      exact ⟨hx.mono h1, h2.imp_right fun hc => Finset.mem_insert_of_mem hc⟩
  · rw [← hold hq]
    exact k2 (hx.mono hq) (TableMap.ne_of_label hq hnone)
  · rw [← hold h.kernel]
    exact k3
  · rw [hnames, Finset.mem_insert] at hℓ
    rcases hℓ with hℓ | hℓ
    · exact hℓ
    · obtain ⟨n, hn⟩ := T.mem_names.mp hℓ
      cases ℓ
      simp only at ho
      subst ho
      exact absurd hn fun hc => howner hc

end

section
variable [CompletePageAllocator α] {cr3 p : UInt64} {k : Kernel α} {S : Finset UInt64} {s s₃ s' : Vmm α}
  {T T₁ T' : TableMap} {frames : Nat → Option UInt64} {bytes : Nat → UInt8}

theorem Loading.inv (h : Loading (kernelLayout cr3 S) s₃ T₁ p s' T' frames bytes) {spaces : List UInt64}
    (hi : KernelInv cr3 ⟨s₃, spaces⟩ S T₁) : KernelInv cr3 ⟨s', spaces⟩ S T' where
  tabled := h.tabled
  kernel := h.mono hi.kernel
  pdpt := by
    obtain ⟨n, hn⟩ := hi.pdpt
    exact ⟨n, h.mono hn⟩
  alone := hi.alone
  spaces hq := ⟨h.mono (hi.spaces hq).1, (hi.spaces hq).2⟩

/-- Where a load stands once its space exists: in `s₃` nothing but the new root has been added to `k`. -/
structure Opened (cr3 : UInt64) (k : Kernel α) (S : Finset UInt64) (T : TableMap) (p : UInt64) (s₃ : Vmm α)
    (T₁ : TableMap) : Prop where
  inv : KernelInv cr3 ⟨s₃, p :: k.spaces⟩ (insert p S) T₁
  created : (vmmCreateAddressSpace k.vmm).1 = p
  taken : p.toNat / 4096 ∈ spare k.vmm.pmm
  kept : ∀ {n ℓ i}, T.label n = some ℓ → readEntry s₃.mem n i = readEntry k.vmm.mem n i
  old : ∀ {q w}, T.label q = some (.root q) →
    Radix.lookup (slot s₃.mem) q (path w) = Radix.lookup (slot k.vmm.mem) q (path w)
  new : ∀ {w}, Radix.lookup (slot s₃.mem) p (path w) =
    if (splitVaddr w).pml4I = 0 then Radix.lookup (slot k.vmm.mem) cr3 (path w) else none
  mono : ∀ {n ℓ}, T.label n = some ℓ → T₁.label n = some ℓ
  fresh : T.label p = none
  names : T₁.names = insert (.root p) T.names
  bare : ∀ {ℓ}, ℓ ∈ T₁.names → ℓ.owner = p → ℓ = .root p

theorem shareKernelSlot_kept {L : Layout} {s : Vmm α} (hx : Extends L s T s₁ T₁) (hnone : T.label p = none)
    (hp : T₁.label p = some (.root p))
    (hkept : ∀ {n ℓ i}, T.label n = some ℓ → readEntry s₁.mem n i = readEntry s.mem n i) {n : UInt64}
    {ℓ : Label} {i : Fin 512} (hn : T.label n = some ℓ) :
    readEntry (shareKernelSlot s₁.mem cr3 p) n i = readEntry s.mem n i := by
  have hne := TableMap.ne_of_label hn hnone
  rw [shareKernelSlot,
    readEntry_writeEntry_of_ne _ _ (hx.tabled.frame (hx.mono hn)).2.1 (hx.tabled.frame hp).2.1 fun hc => hne hc.1]
  exact hkept hn

theorem Opened.root (h : Opened cr3 k S T p s₃ T₁) : T₁.label p = some (.root p) :=
  (h.inv.spaces (List.mem_cons_self ..)).1

theorem Extends.spare_eq {L : Layout} {s : Vmm α} (hx : Extends L s T s' T) (h : Tabled L s T) :
    spare s'.pmm = spare s.pmm := by
  ext f
  rw [hx.left]
  refine and_iff_left_of_imp fun hf n hn => ?_
  cases hl : T.label n with
  | none => rfl
  | some ℓ => exact absurd (hn ▸ hf) (h.frame hl).2.2

theorem Extends.create_count {L : Layout} {s : Vmm α} (hx : Extends L s T s' T₁) (h : Tabled L s T)
    (hnone : T.label p = none) (hnames : T₁.names = insert (.root p) T.names) :
    (spare s'.pmm).encard + 1 = (spare s.pmm).encard := by
  have hnew : Label.root p ∉ T.names := by
    rw [T.mem_names]
    rintro ⟨n, hn⟩
    obtain rfl := h.root hn
    rw [hnone] at hn
    cases hn
  have hcount := hx.count
  rw [hnames, Finset.card_insert_of_notMem hnew] at hcount
  push_cast at hcount
  rw [add_comm (T.names.card : ℕ∞) 1, ← add_assoc] at hcount
  exact ENat.add_left_injective_of_ne_top (ENat.natCast_ne_top T.names.card) hcount

/-- **`elf_load_from_ramfs`** on a file that passes the first checks. -/
theorem elfLoad_spec (h : KernelInv cr3 k S T) {entries : Ramfs} {name : Option (List UInt8)} {file : RamfsFile}
    (image : ElfImage) (hopen : ramfsOpen entries name = some file) (hvalid : validElfFile file = true) :
    (∃ s', elfLoadFromRamfs entries cr3 name (some image) k.vmm = (false, some image, s') ∧ s'.mem = k.vmm.mem ∧
      Tabled (kernelLayout cr3 S) s' T ∧ OutOfFrames s'.pmm ∧ spare k.vmm.pmm = ∅) ∨
    ∃ p s₃ T₁ ok s' T' frames bytes, Opened cr3 k S T p s₃ T₁ ∧
      (spare s₃.pmm).encard + 1 = (spare k.vmm.pmm).encard ∧
      elfLoadFromRamfs entries cr3 name (some image) k.vmm =
        (ok, some (if ok then ⟨(readElf64Header file.data).entry, p⟩ else image), s') ∧
      Loading (kernelLayout cr3 (insert p S)) s₃ T₁ p s' T' frames bytes ∧
      (((ok = true ↔ ∀ program ∈ loadable (programHeaders file), validProgramHeader file program = true) ∧
          (ok = true → (∀ m, frames m ≠ none ↔ ∃ program ∈ loadable (programHeaders file), program.Touches m) ∧
            bytes = (loadable (programHeaders file)).foldl (fun bytes program => program.overlay file bytes)
    (fun _ => 0)) ∧
          Accounts (kernelLayout cr3 (insert p S)) s₃ T₁ p s' T' frames (plannedPages file (programHeaders file))) ∨
        (OutOfFrames s'.pmm ∧ ∃ j < (plannedPages file (programHeaders file)).length,
          Stopped (kernelLayout cr3 (insert p S)) s₃ T₁ p frames ((plannedPages file (programHeaders file)).take j)
            ((plannedPages file (programHeaders file)).take (j + 1)) ∧
          (ok = true ↔ j + 1 = (plannedPages file (programHeaders file)).length ∧
            FrameLeft (kernelLayout cr3 (insert p S)) s₃ T₁ p ((plannedPages file (programHeaders file)).take j) ∧
            Silent file (programHeaders file)))) := by
  rcases vmmCreateAddressSpace_spec h.tabled with
    ⟨s', he, hx, hm, hout⟩ | ⟨p, s₁, T₁, he, hp0, hnone, hx, hsame, hp, hnames, hzero, hkept⟩
  · refine Or.inl ⟨s', ?_, hm, hx.tabled, hout, ?_⟩
    · simp [elfLoadFromRamfs, hopen, hvalid, he]
    · rw [← hx.spare_eq h.tabled]
      exact hout.spare_eq
  · right
    obtain ⟨hinv, hold, hnew, hbare⟩ := h.share hx hsame hnone hp hnames hzero hx.tabled rfl
    obtain ⟨ok, s', T', frames, bytes, he', hload, hcase⟩ :=
      Loading.loadSegments (kernelLayout_huge (S := insert p S)) file
      (programHeaders file) [] (Loading.start hinv.tabled hp (fun _ => 0))
    refine ⟨p, _, T₁, ok, s', T', frames, bytes,
      ⟨hinv, by rw [he], hx.fresh hp hnone, shareKernelSlot_kept hx hnone hp hkept,
      hold, hnew, hx.mono, hnone, hnames, hbare⟩, ?_, ?_, hload, ?_⟩
    · exact hx.create_count h.tabled hnone hnames
    · simp only [elfLoadFromRamfs, hopen, hvalid, he, if_neg hp0, Bool.not_true, Bool.false_eq_true, if_false]
      rw [he']
      cases ok <;> rfl
    · rcases hcase with ⟨h1, h2, h3⟩ | ⟨h1, h2⟩
      · refine Or.inl ⟨h1, fun hok => ?_, h3 Accounts.start⟩
        obtain ⟨k1, k2⟩ := h2 hok
        exact ⟨fun m => by rw [k1]; simp, k2⟩
      · obtain ⟨j, hj, hstop⟩ := h2 Accounts.start
        exact Or.inr ⟨h1, j, hj, hstop⟩

theorem KernelInv.extend (h : KernelInv cr3 k S T) {s : Vmm α} (hx : Extends (kernelLayout cr3 S) k.vmm T s T') :
    KernelInv cr3 ⟨s, k.spaces⟩ S T' where
  tabled := hx.tabled
  kernel := hx.mono h.kernel
  pdpt := by
    obtain ⟨n, hn⟩ := h.pdpt
    exact ⟨n, hx.mono hn⟩
  alone := h.alone
  spaces hq := ⟨hx.mono (h.spaces hq).1, (h.spaces hq).2⟩

theorem KernelInv.of_tabled (h : KernelInv cr3 k S T) {s : Vmm α} (ht : Tabled (kernelLayout cr3 S) s T) :
    KernelInv cr3 ⟨s, k.spaces⟩ S T := ⟨ht, h.kernel, h.pdpt, h.alone, h.spaces⟩

theorem KernelInv.fewer (h : KernelInv cr3 k S T) {spaces : List UInt64} (hsub : ∀ q ∈ spaces, q ∈ k.spaces) :
    KernelInv cr3 ⟨k.vmm, spaces⟩ S T := ⟨h.tabled, h.kernel, h.pdpt, h.alone, fun hq => h.spaces (hsub _ hq)⟩

theorem Tabled.alloc_fail {L : Layout} {s : Vmm α} (h : Tabled L s T) {pmm : α} (ha : allocPage s.pmm = (0, pmm)) :
    Tabled L { s with pmm } T ∧ OutOfFrames pmm ∧ spare s.pmm = ∅ := by
  have hz : spare s.pmm = ∅ := alloc_zero h.valid (by rw [ha])
  obtain ⟨hv, ⟨-, h2⟩ | ⟨f, hf, -⟩⟩ := alloc h.valid
  · rw [ha] at h2 hv
    exact ⟨(h.pmm hv h2).tabled, ⟨s.pmm, h.valid, ha⟩, hz⟩
  · rw [hz] at hf
    cases hf

def stackFlags : UInt64 := pteUser ||| pteWritable ||| pteNx

/-- **`user_mode_prepare_demo_task`** for a task: it stops for lack of the two frames it needs first,
or maps two pages in a new space. -/
theorem prepareDemo_spec (h : KernelInv cr3 k S T) (programPhys task : UInt64) (u : UserMode) :
    (∃ s' T', userModePrepareDemoTask cr3 programPhys (some task) u k.vmm = (false, some task, u, s') ∧
      KernelInv cr3 ⟨s', k.spaces⟩ S T' ∧ SameLookups T k.vmm.mem s'.mem ∧
      (∀ {n ℓ i}, T.label n = some ℓ → readEntry s'.mem n i = readEntry k.vmm.mem n i) ∧
      (∀ {n ℓ}, T.label n = some ℓ → T'.label n = some ℓ) ∧
      (∀ {ℓ}, ℓ ∈ T'.names → ℓ ∈ T.names ∨ ℓ.path = []) ∧ spare s'.pmm = ∅ ∧ (spare k.vmm.pmm).encard ≤ 1) ∨
    ∃ p s₃ T₁ d u', Opened cr3 k S T p s₃ T₁ ∧ d ≠ 0 ∧ IsFrame d ∧
    (spare s₃.pmm).encard + 2 = (spare k.vmm.pmm).encard ∧
      userModePrepareDemoTask cr3 programPhys (some task) u k.vmm = (true, some p, u',
        vmmMapPage (vmmMapPage s₃ p userCodeAddress (programPhys &&& ~~~(pageSize - 1)) pteUser) p
        userStackAddress d stackFlags) := by
  rcases vmmCreateAddressSpace_spec h.tabled with
    ⟨s₁, he, hx, hm, hout⟩ | ⟨p, s₁, T₁, he, hp0, hnone, hx, hsame, hp, hnames, hzero, hkept⟩
  · left
    have ha : allocPage s₁.pmm = (0, (allocPage s₁.pmm).2) := by
      rw [← alloc_of_spare_eq hx.tabled.valid hout.spare_eq]
    obtain ⟨htab, hout', -⟩ := hx.tabled.alloc_fail ha
    refine ⟨{ s₁ with pmm := (allocPage s₁.pmm).2 }, T, ?_, h.of_tabled htab, ?_, fun _ => by rw [hm], id,
      Or.inl, hout'.spare_eq, ?_⟩
    · simp [userModePrepareDemoTask, he]
    · intro n ℓ is hn hlen
      simp only [hm]
    · have hz : spare k.vmm.pmm = ∅ := hx.spare_eq h.tabled ▸ hout.spare_eq
      simp [hz]
  have hcount : (spare s₁.pmm).encard + 1 = (spare k.vmm.pmm).encard := hx.create_count h.tabled hnone hnames
  cases ha : allocPage s₁.pmm with
  | mk d pmm =>
  by_cases hd : d = 0
  · left
    subst hd
    obtain ⟨htab, hout', hz⟩ := hx.tabled.alloc_fail ha
    refine ⟨{ s₁ with pmm }, T₁, ?_, ?_, hsame, hkept, hx.mono, fun {ℓ} hℓ => ?_, hout'.spare_eq, ?_⟩
    · simp [userModePrepareDemoTask, he, ha, hp0]
    · exact (h.extend hx).of_tabled htab
    · rw [hnames, Finset.mem_insert] at hℓ
      exact hℓ.symm.imp_right fun hc => by rw [hc]; rfl
    · rw [← hcount, hz, Set.encard_empty, zero_add]
  · right
    obtain ⟨htab, -, hdF, -, hdsp, hsp⟩ := hx.tabled.alloc_data ha hd s₁.mem fun _ _ => rfl
    obtain ⟨hinv, hold, hnew, hbare⟩ := h.share hx hsame hnone hp hnames hzero htab rfl
    refine ⟨p, _, T₁, d, ⟨userCodeAddress + (programPhys &&& (pageSize - 1)), userStackAddress + pageSize⟩,
      ⟨hinv, by rw [he], hx.fresh hp hnone, shareKernelSlot_kept hx hnone hp hkept, hold, hnew, hx.mono, hnone,
      hnames, hbare⟩, hd, hdF, ?_, ?_⟩
    · rw [← hcount, ← Set.encard_sdiff_singleton_add_one hdsp, ← hsp, add_assoc]
      rfl
    · simp [userModePrepareDemoTask, he, ha, hp0, hd, stackFlags]

theorem prepareDemo_maps {L : Layout} {s : Vmm α} (h : Tabled L s T) (hp : T.label p = some (.root p))
    (programPhys d : UInt64) :
    ∃ T', Extends L s T (vmmMapPage (vmmMapPage s p userCodeAddress (programPhys &&& ~~~(pageSize - 1)) pteUser)
      p userStackAddress d stackFlags) T' := by
  have hstep {s : Vmm α} {T : TableMap} (h : Tabled L s T) (hp : T.label p = some (.root p)) (v pa flags : UInt64)
      (hflags : flags &&& pteAddrMask = 0) : ∃ T', Extends L s T (vmmMapPage s p v pa flags) T' := by
    rcases vmmMapPage_spec h hp v pa hflags with ⟨-, T', hx, -⟩ | ⟨-, T', hx, -⟩ <;> exact ⟨T', hx⟩
  obtain ⟨T₁, hx₁⟩ := hstep h hp userCodeAddress (programPhys &&& ~~~(pageSize - 1)) pteUser (by decide)
  obtain ⟨T₂, hx₂⟩ := hstep hx₁.tabled (hx₁.mono hp) userStackAddress d stackFlags (by decide)
  exact ⟨T₂, hx₁.trans hx₂⟩

omit [CompletePageAllocator α] in
theorem elfLoad_rejected {entries : Ramfs} {name : Option (List UInt8)} {image : Option ElfImage} (s : Vmm α)
    (h : ¬ ∃ i file, image = some i ∧ ramfsOpen entries name = some file ∧ validElfFile file = true) :
    elfLoadFromRamfs entries cr3 name image s = (false, image, s) := by
  unfold elfLoadFromRamfs
  cases image with
  | none => rfl
  | some i =>
    cases hopen : ramfsOpen entries name with
    | none => rfl
    | some file =>
      have hvalid : validElfFile file = false := Bool.eq_false_iff.mpr fun hc => h ⟨i, file, rfl, hopen, hc⟩
      simp [hvalid]

theorem KernelInv.call (h : KernelInv cr3 k S T) (programPhys : UInt64) (c : KernelCall) :
    ∃ S' T', KernelInv cr3 (k.call cr3 programPhys c) S' T' := by
  cases c with
  | elfLoad entries name image =>
    by_cases hok : ∃ i file, image = some i ∧ ramfsOpen entries name = some file ∧ validElfFile file = true
    swap
    · rw [Kernel.call, elfLoad_rejected k.vmm hok]
      exact ⟨S, T, h⟩
    obtain ⟨i, file, rfl, hopen, hvalid⟩ := hok
    rcases elfLoad_spec h i hopen hvalid with
      ⟨s', he, -, htab, -⟩ | ⟨p, s₃, T₁, ok, s', T', frames, bytes, ho, -, he, hload, -⟩
    · rw [Kernel.call, he]
      exact ⟨S, T, h.of_tabled htab⟩
    · rw [Kernel.call, he]
      refine ⟨insert p S, T', (hload.inv ho.inv).fewer fun q hq => ?_⟩
      cases ok with
      | true => exact hq
      | false => exact List.mem_cons_of_mem _ hq
  | prepareDemo task u =>
    cases task with
    | none => exact ⟨S, T, h⟩
    | some t =>
      rcases prepareDemo_spec h programPhys t u with ⟨s', T', he, hinv, -⟩ | ⟨p, s₃, T₁, d, u', ho, -, -, -, he⟩
      · rw [Kernel.call, he]
        exact ⟨S, T', hinv⟩
      · obtain ⟨T', hx⟩ := prepareDemo_maps ho.inv.tabled ho.root programPhys d
        rw [Kernel.call, he]
        exact ⟨insert p S, T', ho.inv.extend hx⟩

theorem Booted.run (h : Booted cr3 s) {programPhys : UInt64} {calls : List KernelCall}
    (hr : Run (KernelStep cr3 programPhys) ⟨s, [cr3]⟩ calls k) : ∃ S T, KernelInv cr3 k S T := by
  obtain ⟨T, hT, -⟩ := h.inv
  refine hr.invariant (I := fun k => ∃ S T, KernelInv cr3 k S T) (fun k c k' hk hs => ?_) ⟨∅, T, hT⟩
  obtain ⟨S, T, hT⟩ := hk
  rw [hs]
  exact hT.call programPhys _

end

/-! ## Files and frames after boot -/

theorem ten_le_freePages (bytes : Nat → UInt8) : 10 ≤ (kernelPmm bytes 0).freePages.toNat := by
  have hsub : Finset.Ico 1 11 ⊆ (kernelPmm bytes 0).clearPages := fun f hf => by
    have := Finset.mem_Ico.mp hf
    exact (mem_kernelPmm_zero bytes f).mpr (by omega)
  rw [(kernelPmm_spec bytes 0).1.count]
  exact Finset.card_le_card hsub

/-- A file of two segments of one byte each, `0x90` at `first` and `0xC3` at `second`. -/
def twoSegments (first second : UInt64) : RamfsFile where
  data := [(0, 0x10102464C457F), (16, 0x1003E0002), (24, first), (32, 64), (48, 0x38004000000000), (56, 2),
    (64, 0x500000001), (72, 176), (80, first), (96, 1), (104, 1),
    (120, 0x500000001), (128, 177), (136, second), (152, 1), (160, 1), (176, 0xC390)].foldl
      (fun mem entry => mem.store64 entry.1 entry.2) fun _ => 0
  size := 178

def ramfsOf (file : RamfsFile) : Ramfs := fun _ => ⟨fun _ => 0, file, true⟩

theorem ramfsOpen_ramfsOf (file : RamfsFile) : ramfsOpen (ramfsOf file) (some []) = some file := rfl

end KernelOs
