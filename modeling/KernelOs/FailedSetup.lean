import KernelOs.UserMappings

/-!
# Failure and what is left behind

Neither call gives back what it has taken: a PML4 that was created stays allocated
on every return after that, with all frames and tables of the load.
-/

namespace KernelOs
open Lib LawfulPageAllocator CompletePageAllocator Elf64ProgramHeader

/-- The same pages are allocated as in `k`, and every space of `k` translates as before. -/
def Kernel.Untouched (k : Kernel Pmm) (s : Vmm Pmm) : Prop :=
  s.pmm.clearPages = k.vmm.pmm.clearPages ∧ s.pmm.freePages = k.vmm.pmm.freePages ∧
    ∀ q ∈ k.spaces, ∀ v, vmmTranslate s.mem q v = vmmTranslate k.vmm.mem q v

/-- If the call fails, it has left no trace. -/
def KernelCall.NoTrace (cr3 programPhys : UInt64) (k : Kernel Pmm) : KernelCall → Prop
  | .elfLoad entries name image => ∀ image' s, elfLoadFromRamfs entries cr3 name image k.vmm = (false, image', s) →
      image' = image ∧ k.Untouched s
  | .prepareDemo task u =>
    ∀ task' u' s, userModePrepareDemoTask cr3 programPhys task u k.vmm = (false, task', u', s) →
      task' = task ∧ k.Untouched s

/-- When a load succeeds that has passed the first checks, with `free` frames: every header is valid, and the
frames suffice or are missed only where the loop does not notice. -/
def LoadSucceeds (mem : Memory) (cr3 : UInt64) (free : Nat) (file : RamfsFile) : Prop :=
  (∀ program ∈ loadable (programHeaders file), validProgramHeader file program = true) ∧
      framesNeeded mem cr3 (plannedPages file (programHeaders file)) ≤ free ∨
    HidesHole mem cr3 free file

/-- A call that fails before its first frame, for lack of any, or not at all. -/
def KernelCall.Clean (cr3 : UInt64) (s : Vmm Pmm) : KernelCall → Prop
  | .elfLoad entries name image =>
    ∀ i file, image = some i → ramfsOpen entries name = some file → validElfFile file = true →
      s.pmm.freePages.toNat = 0 ∨ LoadSucceeds s.mem cr3 s.pmm.freePages.toNat file
  | .prepareDemo task _ => task = none ∨ s.pmm.freePages.toNat ≠ 1

section
variable {cr3 : UInt64} {k : Kernel Pmm} {S : Finset UInt64} {T : TableMap} {s : Vmm Pmm}

theorem Kernel.Untouched.refl (k : Kernel Pmm) : k.Untouched k.vmm := ⟨rfl, rfl, fun _ _ _ => rfl⟩

theorem KernelInv.untouched (h : KernelInv cr3 k S T) (hv : Valid s.pmm) (hspare : spare s.pmm = spare k.vmm.pmm)
    (hlook : ∀ {q w}, T.label q = some (.root q) → Radix.lookup (slot s.mem) q (path w) =
      Radix.lookup (slot k.vmm.mem) q (path w)) :
    k.Untouched s := by
  have hclear : s.pmm.clearPages = k.vmm.pmm.clearPages := by
    ext f
    rw [← mem_spare_pmm, hspare, mem_spare_pmm]
  refine ⟨hclear, ?_, fun q hq v => ?_⟩
  · rw [← UInt64.toNat_inj, hv.1.count, h.tabled.valid.1.count, hclear]
  · exact translate_congr (hlook (h.spaces hq).1)

theorem Kernel.Untouched.spare_eq (h : k.Untouched s) : spare s.pmm = spare k.vmm.pmm := by
  ext f
  rw [mem_spare_pmm, h.1, mem_spare_pmm]

theorem elfLoad_noTrace_iff (h : KernelInv cr3 k S T) {entries : Ramfs} {name : Option (List UInt8)}
    {file : RamfsFile} (image : ElfImage) (hopen : ramfsOpen entries name = some file)
    (hfile : validElfFile file = true) :
    (∀ image' s, elfLoadFromRamfs entries cr3 name (some image) k.vmm = (false, image', s) →
      image' = some image ∧ k.Untouched s) ↔
      k.vmm.pmm.freePages.toNat = 0 ∨ LoadSucceeds k.vmm.mem cr3 k.vmm.pmm.freePages.toNat file := by
  rcases elfLoad_outcome h (encard_spare_pmm h.tabled.valid.1) image hopen hfile with
    ⟨s', he, hm, hv, hspare, hfree0⟩ | ⟨p, s₃, T₁, ok, s', T', frames, bytes, ho, hpos, he, hload, hcase⟩
  · rw [he]
    refine iff_of_true (fun image' s hr => ?_) (Or.inl hfree0)
    obtain ⟨-, hr⟩ := Prod.mk.inj hr
    obtain ⟨rfl, rfl⟩ := Prod.mk.inj hr
    exact ⟨rfl, h.untouched hv hspare fun _ => by rw [hm]⟩
  -- the frame of the PML4 is gone
  have htrace : ¬ k.Untouched s' := fun hc =>
    (hload.tabled.frame (hload.mono ho.root)).2.2 (hc.spare_eq ▸ ho.taken)
  have hsucceeds : LoadSucceeds k.vmm.mem cr3 k.vmm.pmm.freePages.toNat file ↔ ok = true := by
    unfold LoadSucceeds
    rcases hcase with ⟨henough, hok, -⟩ | ⟨hshort, hok, -⟩
    · rw [hok, and_iff_left henough]
      exact or_iff_left fun hc => absurd hc.2.2 (not_lt.mpr henough)
    · rw [hok]
      exact or_iff_right fun hc => absurd hshort (not_lt.mpr hc.2)
  rw [hsucceeds, or_iff_right (Nat.pos_iff_ne_zero.mp hpos), he]
  cases ok with
  | true => exact iff_of_true (fun image' s hr => by simp at hr) rfl
  | false => exact iff_of_false (fun hall => htrace (hall _ _ rfl).2) (by decide)

theorem prepareDemo_noTrace_iff (h : KernelInv cr3 k S T) (programPhys task : UInt64) (u : UserMode) :
    (∀ task' u' s, userModePrepareDemoTask cr3 programPhys (some task) u k.vmm = (false, task', u', s) →
      task' = some task ∧ k.Untouched s) ↔
      k.vmm.pmm.freePages.toNat ≠ 1 := by
  have hfree := encard_spare_pmm h.tabled.valid.1
  rcases prepareDemo_spec h programPhys task u with
    ⟨s', T', he, hinv, hsame, -, -, -, hz, hle⟩ | ⟨p, s₃, T₁, d, u', ho, -, -, hcount, he⟩
  · rw [hfree] at hle
    have hle' : k.vmm.pmm.freePages.toNat ≤ 1 := by exact_mod_cast hle
    have hnone : k.vmm.pmm.freePages.toNat = 0 ↔ spare k.vmm.pmm = ∅ := by
      rw [← Set.encard_eq_zero, hfree, Nat.cast_eq_zero]
    rw [he]
    constructor
    · intro hall hone
      have hspare := (hall _ _ _ rfl).2.spare_eq
      have := hnone.mpr (hspare ▸ hz)
      omega
    · intro hone task' u' s hr
      obtain ⟨-, htask⟩ := Prod.mk.inj hr
      obtain ⟨rfl, hrest⟩ := Prod.mk.inj htask
      obtain ⟨-, rfl⟩ := Prod.mk.inj hrest
      exact ⟨rfl, h.untouched hinv.tabled.valid (hz.trans (hnone.mp (by omega)).symm) fun hq => hsame hq rfl⟩
  · refine iff_of_true (fun task' u' s hr => ?_) fun hone => ?_
    · rw [he] at hr
      simp at hr
    · rw [hfree, hone] at hcount
      have htwo : (2 : ℕ∞) ≤ 1 := le_add_self.trans_eq hcount
      exact absurd htwo (by decide)

end

section
variable {cr3 programPhys : UInt64} {s : Vmm Pmm} {ops : List KernelOp} {k : Kernel Pmm}

/-- **Failed setup.** After every run a call leaves no trace when it fails exactly if it is a clean one. -/
theorem failed_setup (hboot : Booted cr3 s) (hrun : Run (PageStep cr3 programPhys) ⟨s, [cr3]⟩ ops k)
    (c : KernelCall) :
    c.NoTrace cr3 programPhys k ↔ c.Clean cr3 k.vmm := by
  obtain ⟨S, T, hT⟩ := hboot.identityRun hrun
  cases c with
  | elfLoad entries name image =>
    by_cases hok : ∃ i file, image = some i ∧ ramfsOpen entries name = some file ∧ validElfFile file = true
    swap
    · refine iff_of_true (fun image' s' hr => ?_) fun i file h1 h2 h3 => absurd ⟨i, file, h1, h2, h3⟩ hok
      rw [elfLoad_rejected k.vmm hok] at hr
      obtain ⟨-, hr⟩ := Prod.mk.inj hr
      obtain ⟨rfl, rfl⟩ := Prod.mk.inj hr
      exact ⟨rfl, .refl k⟩
    obtain ⟨i, file, rfl, hopen, hvalid⟩ := hok
    have hiff := elfLoad_noTrace_iff hT.inv i hopen hvalid
    rw [KernelCall.NoTrace, hiff, KernelCall.Clean]
    constructor
    · intro hclean _ file' _ hfile _
      exact Option.some.inj (hopen.symm.trans hfile) ▸ hclean
    · exact fun hclean => hclean i file rfl hopen hvalid
  | prepareDemo task u =>
    cases task with
    | none =>
      refine iff_of_true (fun task' u' s' hr => ?_) (Or.inl rfl)
      obtain ⟨-, htask⟩ := Prod.mk.inj hr
      obtain ⟨rfl, hrest⟩ := Prod.mk.inj htask
      obtain ⟨-, rfl⟩ := Prod.mk.inj hrest
      exact ⟨rfl, .refl k⟩
    | some t =>
      rw [KernelCall.NoTrace, prepareDemo_noTrace_iff hT.inv, KernelCall.Clean, or_iff_right (by simp)]

end

theorem failed_setup_bad_entry :
    (KernelCall.elfLoad (ramfsOf (zeroSegment 0x1000)) (some []) (some ⟨0, 0⟩)).NoTrace 0x105000 0
      ⟨bootVmm (kernelPmm (fun _ => 0) 0), [0x105000]⟩ := by
  have hboot := booted_bootVmm (fun _ => 0) 0
  refine (failed_setup hboot (@Run.nil _ _ (PageStep 0x105000 0) _) _).mpr fun i file _ hopen hvalid => ?_
  obtain rfl := Option.some.inj ((ramfsOpen_ramfsOf _).symm.trans hopen)
  exact absurd hvalid (by decide +kernel)

/-- A second segment below the user addresses makes the load fail when the first one has been mapped. -/
theorem failed_setup_leaks : Booted 0x105000 (bootVmm (kernelPmm (fun _ => 0) 0)) ∧
    ¬ (KernelCall.elfLoad (ramfsOf (twoSegments 0x8000000000 0x1000)) (some []) (some ⟨0, 0⟩)).NoTrace 0x105000 0
      ⟨bootVmm (kernelPmm (fun _ => 0) 0), [0x105000]⟩ := by
  have hboot := booted_bootVmm (fun _ => 0) 0
  have hfree := ten_le_freePages fun _ => 0
  obtain ⟨T, hinv, -⟩ := hboot.inv
  refine ⟨hboot, ?_⟩
  rw [KernelCall.NoTrace, elfLoad_noTrace_iff hinv ⟨0, 0⟩ (ramfsOpen_ramfsOf _) (by decide +kernel), not_or]
  have hbad : ¬ ∀ program ∈ loadable (programHeaders (twoSegments 0x8000000000 0x1000)),
      validProgramHeader (twoSegments 0x8000000000 0x1000) program = true := by decide +kernel
  refine ⟨fun hc => ?_, fun hc => ?_⟩
  · have hzero : (kernelPmm (fun _ => 0) 0).freePages.toNat = 0 := hc
    omega
  · exact hc.elim (fun hc => hbad hc.1) fun hc => hbad hc.1.1

end KernelOs
