import KernelOs.KernelSpaces

/-!
# What a loaded program finds in its memory

The frames that a load maps are zeroed page by page, segment after segment, before
the segment's bytes are copied. A page that two segments touch is mapped twice, and
the second time it starts from zero again.
-/

namespace KernelOs
open Lib LawfulPageAllocator CompletePageAllocator

/-! ## Which requests were made -/

/-- An allocator with a record of what it has returned, the last first. -/
structure Logged (α : Type) where
  pmm : α
  log : List UInt64

instance {α : Type} [PageAllocator α] : PageAllocator (Logged α) where
  allocPage a := ((allocPage a.pmm).1, ⟨(allocPage a.pmm).2, (allocPage a.pmm).1 :: a.log⟩)

instance {α : Type} [PageAllocator α] [CompletePageAllocator α] : CompletePageAllocator (Logged α) where
  Valid a := Valid a.pmm ∧ (0 ∈ a.log → spare a.pmm = ∅)
  spare a := spare a.pmm
  spare_lt h := spare_lt h.1
  alloc := by
    rintro a ⟨hv, hlog⟩
    obtain ⟨hv', ⟨h0, hsp⟩ | ⟨f, hf, he, hsp⟩⟩ := alloc hv
    · refine ⟨⟨hv', fun _ => ?_⟩, Or.inl ⟨h0, hsp⟩⟩
      exact hsp.trans (alloc_zero hv h0)
    · have h0 : 0 ∉ a.log := fun hc => by
        rw [hlog hc] at hf
        cases hf
      refine ⟨⟨hv', fun hc => ?_⟩, Or.inr ⟨f, hf, he, hsp⟩⟩
      rcases List.mem_cons.mp hc with hc | hc
      · have hz : spare a.pmm = ∅ := alloc_zero hv hc.symm
        rw [hz] at hf
        cases hf
      · exact absurd hc h0
  alloc_zero h := alloc_zero h.1

def Vmm.clearLog {α : Type} (s : Vmm (Logged α)) : Vmm (Logged α) := { s with pmm := ⟨s.pmm.pmm, []⟩ }

section
variable {α : Type} [PageAllocator α] [CompletePageAllocator α]

theorem OutOfFrames.mem_log {a : Logged α} (h : OutOfFrames a) : 0 ∈ a.log := by
  obtain ⟨b, -, hb⟩ := h
  obtain ⟨h0, rfl⟩ := Prod.mk.inj hb
  exact List.mem_cons.mpr (Or.inl h0.symm)

theorem KernelInv.clearLog {cr3 : UInt64} {k : Kernel (Logged α)} {S : Finset UInt64} {T : TableMap}
    (h : KernelInv cr3 k S T) :
    KernelInv cr3 ⟨k.vmm.clearLog, k.spaces⟩ S T := by
  have hv : Valid k.vmm.clearLog.pmm := ⟨h.tabled.valid.1, fun hc => by cases hc⟩
  have hx : Extends (kernelLayout cr3 S) k.vmm T k.vmm.clearLog T := h.tabled.pmm hv rfl
  exact h.of_tabled hx.tabled

end

/-! ## Bytes -/

def Elf64ProgramHeader.InMemory (program : Elf64ProgramHeader) (v : Nat) : Prop :=
  program.virtualAddress.toNat ≤ v ∧ v < program.virtualAddress.toNat + program.memorySize.toNat

instance (program : Elf64ProgramHeader) (v : Nat) : Decidable (program.InMemory v) :=
  inferInstanceAs (Decidable (_ ∧ _))

/-- Every byte of a segment that no later one covers is the file's, or zero after the file's part. -/
def HoldsImage (file : RamfsFile) (mem : Memory) (pml4Phys : UInt64) : Prop :=
  ∀ pre program post, loadable (programHeaders file) = pre ++ program :: post →
    ∀ v : UInt64, program.InMemory v.toNat → (∀ later ∈ post, ¬ later.InMemory v.toNat) →
      mem (vmmTranslate mem pml4Phys v).toNat = if program.InFile v.toNat then program.fileByte file v.toNat else 0

/-- A later segment touches no page with a byte of an earlier one that it does not cover, zero bytes apart. -/
def PagesApart (file : RamfsFile) : Prop :=
  ∀ pre program post, loadable (programHeaders file) = pre ++ program :: post →
    ∀ v : UInt64, program.InFile v.toNat → (∀ later ∈ post, ¬ later.InMemory v.toNat) →
      (∃ later ∈ post, later.Touches (v.toNat / 4096)) → program.fileByte file v.toNat = 0

namespace Elf64ProgramHeader
variable {program : Elf64ProgramHeader} {file : RamfsFile} {v : Nat}

theorem InFile.inMemory (h : program.InFile v) (hvalid : validProgramHeader file program = true) :
    program.InMemory v :=
  ⟨h.1, Nat.lt_of_lt_of_le h.2 (Nat.add_le_add_left (valid hvalid).1 _)⟩

theorem InMemory.touches (h : program.InMemory v) (hvalid : validProgramHeader file program = true) :
    program.Touches (v / 4096) := by
  refine ⟨Nat.div_le_div_right h.1, ?_⟩
  rw [firstPage_add hvalid]
  have := h.2
  omega

theorem over_of_inMemory (h : program.InMemory v) (hvalid : validProgramHeader file program = true)
    (bytes : Nat → UInt8) :
    program.overlay file bytes v = if program.InFile v then program.fileByte file v else 0 := by
  unfold overlay
  rw [if_pos (h.touches hvalid)]

end Elf64ProgramHeader

open Elf64ProgramHeader

theorem foldl_over (file : RamfsFile) {v : Nat} : ∀ (programs : List Elf64ProgramHeader) (bytes : Nat → UInt8),
    (∀ program ∈ programs, ¬ program.InFile v) →
    programs.foldl (fun bytes program => program.overlay file bytes) bytes v =
      if ∃ program ∈ programs, program.Touches (v / 4096) then 0 else bytes v
  | [], bytes, _ => by simp
  | program :: programs, bytes, h => by
    rw [List.foldl_cons, foldl_over file programs _ fun q hq => h q (List.mem_cons_of_mem _ hq)]
    simp only [List.mem_cons, exists_eq_or_imp, overlay, h program (List.mem_cons_self ..), if_false]
    by_cases h1 : ∃ q ∈ programs, q.Touches (v / 4096)
    · simp only [h1, or_true, if_true]
    · simp only [h1, or_false, if_false]

section
variable {α : Type} [PageAllocator α] [CompletePageAllocator α] {L : Layout} {s₀ s : Vmm α}
  {T₀ T : TableMap} {p : UInt64} {frames : Nat → Option UInt64} {bytes : Nat → UInt8} {file : RamfsFile}

theorem Loading.holdsImage_iff (h : Loading L s₀ T₀ p s T frames bytes)
    (hvalid : ∀ program ∈ loadable (programHeaders file), validProgramHeader file program = true)
    (hframes : ∀ m, frames m ≠ none ↔ ∃ program ∈ loadable (programHeaders file), program.Touches m)
    (hbytes : bytes = (loadable (programHeaders file)).foldl (fun bytes program => program.overlay file bytes)
      (fun _ => 0)) :
    HoldsImage file s.mem p ↔ PagesApart file := by
  -- what the space holds at an address of a segment that no later segment covers
  have hat {pre post : List Elf64ProgramHeader} {program : Elf64ProgramHeader} {v : UInt64}
      (hsplit : loadable (programHeaders file) = pre ++ program :: post) (hv : program.InMemory v.toNat)
      (hlater : ∀ later ∈ post, ¬ later.InMemory v.toNat) : s.mem (vmmTranslate s.mem p v).toNat =
        if ∃ later ∈ post, later.Touches (v.toNat / 4096) then 0
        else if program.InFile v.toNat then program.fileByte file v.toNat else 0 := by
    have hmem : program ∈ loadable (programHeaders file) := by simp [hsplit]
    cases hf : frames (v.toNat / 4096) with
    | none => exact absurd hf ((hframes _).mpr ⟨program, hmem, hv.touches (hvalid _ hmem)⟩)
    | some d =>
      have hpost (later : Elf64ProgramHeader) (hl : later ∈ post) : ¬ later.InFile v.toNat := fun hc =>
        hlater later hl (hc.inMemory (hvalid later (by simp [hsplit, hl])))
      rw [(h.translate hf).2.2, hbytes, hsplit, List.foldl_append, List.foldl_cons, foldl_over file post _ hpost,
        over_of_inMemory hv (hvalid _ hmem)]
  constructor
  · intro himage pre program post hsplit v hv hlater htouch
    have hmem : program ∈ loadable (programHeaders file) := by simp [hsplit]
    have hin := hv.inMemory (hvalid _ hmem)
    have hbyte := himage pre program post hsplit v hin hlater
    rw [hat hsplit hin hlater, if_pos htouch, if_pos hv] at hbyte
    exact hbyte.symm
  · intro hapart pre program post hsplit v hv hlater
    rw [hat hsplit hv hlater]
    by_cases htouch : ∃ later ∈ post, later.Touches (v.toNat / 4096)
    · rw [if_pos htouch]
      by_cases hin : program.InFile v.toNat
      · rw [if_pos hin, hapart pre program post hsplit v hin hlater htouch]
      · rw [if_neg hin]
    · rw [if_neg htouch]

end

/-! ## Loads in which every request succeeds -/

section
variable {α : Type} [PageAllocator α] [CompletePageAllocator α] {cr3 : UInt64} {k : Kernel α}
  {S : Finset UInt64} {T : TableMap}

/-- Four frames for a page, one for the root and one more are enough for a load to go through. -/
theorem elfLoad_enough (h : KernelInv cr3 k S T) {entries : Ramfs} {name : Option (List UInt8)} {file : RamfsFile}
    (image : ElfImage) (hopen : ramfsOpen entries name = some file) (hfile : validElfFile file = true)
    (hvalid : ∀ program ∈ loadable (programHeaders file), validProgramHeader file program = true)
    (henough : ((4 * (plannedPages file (programHeaders file)).length + 2 : Nat) : ℕ∞) ≤ (spare k.vmm.pmm).encard) :
    ∃ p s₃ T₁ s' T' frames bytes, Loading (kernelLayout cr3 (insert p S)) s₃ T₁ p s' T' frames bytes ∧
      elfLoadFromRamfs entries cr3 name (some image) k.vmm =
      (true, some ⟨(readElf64Header file.data).entry, p⟩, s') ∧
      (∀ m, frames m ≠ none ↔ ∃ program ∈ loadable (programHeaders file), program.Touches m) ∧
      bytes = (loadable (programHeaders file)).foldl (fun bytes program => program.overlay file bytes)
    (fun _ => 0) ∧
      spare s'.pmm ≠ ∅ := by
  rcases elfLoad_spec h image hopen hfile with
    ⟨s', -, -, -, -, hz⟩ | ⟨p, s₃, T₁, ok, s', T', frames, bytes, -, hcount, he, hload, hcase⟩
  · rw [hz, Set.encard_empty, nonpos_iff_eq_zero, Nat.cast_eq_zero] at henough
    omega
  have hlt {pages : List Nat} (hpages : pages.length ≤ (plannedPages file (programHeaders file)).length) :
      (((kernelLayout cr3 (insert p S)).need T₁ p pages : Nat) : ℕ∞) < (spare s₃.pmm).encard + T₁.names.card := by
    have h1 := (kernelLayout cr3 (insert p S)).need_le T₁ p pages
    have h2 : ((4 * (plannedPages file (programHeaders file)).length + 1 : Nat) : ℕ∞) ≤ (spare s₃.pmm).encard := by
      rw [← hcount, show 4 * (plannedPages file (programHeaders file)).length + 2 =
        4 * (plannedPages file (programHeaders file)).length + 1 + 1 from rfl, Nat.cast_add _ 1,
        Nat.cast_one] at henough
      exact (ENat.add_le_add_iff_right ENat.one_ne_top).mp henough
    refine lt_of_lt_of_le ?_ (add_le_add_left h2 (T₁.names.card : ℕ∞))
    rw [← Nat.cast_add, Nat.cast_lt]
    omega
  rcases hcase with ⟨hok, hdone, hacc⟩ | ⟨-, j, hj, hstop, -⟩
  · obtain rfl := hok.mpr hvalid
    obtain ⟨h1, h2⟩ := hdone rfl
    refine ⟨p, s₃, T₁, s', T', frames, bytes, hload, he, h1, h2, fun hz => ?_⟩
    have hc := hacc.count
    rw [hz, Set.encard_empty, zero_add] at hc
    exact (hlt (Nat.le_refl _)).ne hc
  · exact absurd (hstop.short.trans (hlt (by rw [List.length_take]; omega))) (lt_irrefl _)

end

section
variable {cr3 programPhys : UInt64} {s : Vmm (Logged Pmm)} {calls : List KernelCall} {k : Kernel (Logged Pmm)}
  {entries : Ramfs} {name : Option (List UInt8)} {file : RamfsFile} {image : ElfImage}

/-- **The contents of a loaded image**, after any calls: they are right exactly when no later
segment clears a page with bytes of an earlier one. -/
theorem elf_image_contents (hboot : Booted cr3 s) (hrun : Run (KernelStep cr3 programPhys) ⟨s, [cr3]⟩ calls k)
    (hopen : ramfsOpen entries name = some file) {image' : ElfImage} {s' : Vmm (Logged Pmm)}
    (hload : elfLoadFromRamfs entries cr3 name (some image) k.vmm.clearLog = (true, some image', s'))
    (hall : 0 ∉ s'.pmm.log) : HoldsImage file s'.mem image'.pml4Phys ↔ PagesApart file := by
  obtain ⟨S, T, hinv⟩ := hboot.run hrun
  have hvalid : validElfFile file = true := by
    by_contra hc
    rw [elfLoad_rejected _ (by simp [hopen, hc])] at hload
    simp at hload
  rcases elfLoad_spec hinv.clearLog image hopen hvalid with
    ⟨s₁, he, -⟩ | ⟨p, s₃, T₁, ok, s₁, T', frames, bytes, -, -, he, hloaded, hcase⟩
  · rw [he] at hload
    simp at hload
  · rw [he] at hload
    obtain ⟨rfl, hrest⟩ := Prod.mk.inj hload
    obtain ⟨himage, rfl⟩ := Prod.mk.inj hrest
    obtain rfl := Option.some.inj himage
    rcases hcase with ⟨hok, hdone, -⟩ | ⟨hout, -⟩
    · obtain ⟨hframes, hbytes⟩ := hdone rfl
      exact hloaded.holdsImage_iff (hok.mp rfl) hframes hbytes
    · exact absurd hout.mem_log hall

end

theorem spare_bootVmm (pmm : Pmm) : spare (bootVmm (⟨pmm, []⟩ : Logged Pmm)).pmm = spare pmm := rfl

theorem Booted.logged {cr3 : UInt64} {mem : Memory} {pmm : Pmm} (h : Booted cr3 ⟨mem, pmm⟩) :
    Booted cr3 (⟨mem, ⟨pmm, []⟩⟩ : Vmm (Logged Pmm)) :=
  ⟨⟨h.valid, fun hc => by cases hc⟩, h.tables⟩

theorem booted_logged (bytes : Nat → UInt8) (tasks : Nat) :
    Booted 0x105000 (bootVmm (⟨kernelPmm bytes tasks, []⟩ : Logged Pmm)) := by
  unfold bootVmm
  apply Booted.logged
  exact booted_bootVmm bytes tasks

theorem clearLog_bootVmm (pmm : Pmm) : (bootVmm (⟨pmm, []⟩ : Logged Pmm)).clearLog = bootVmm ⟨pmm, []⟩ := rfl

theorem ten_le_spare (bytes : Nat → UInt8) :
    10 ≤ (spare (bootVmm (⟨kernelPmm bytes 0, []⟩ : Logged Pmm)).pmm).encard := by
  rw [spare_bootVmm, encard_spare_pmm (kernelPmm_spec bytes 0).1]
  exact_mod_cast ten_le_freePages bytes

theorem twoSegments_load {cr3 : UInt64} {s : Vmm (Logged Pmm)} (hboot : Booted cr3 s)
    (hspare : 10 ≤ (spare s.pmm).encard) (first second : UInt64)
    (hvalid : validElfFile (twoSegments first second) = true)
    (hall : ∀ program ∈ loadable (programHeaders (twoSegments first second)),
      validProgramHeader (twoSegments first second) program = true)
    (hplan : (plannedPages (twoSegments first second) (programHeaders (twoSegments first second))).length = 2) :
    ∃ image' s', elfLoadFromRamfs (ramfsOf (twoSegments first second)) cr3 (some []) (some ⟨0, 0⟩) s.clearLog =
        (true, some image', s') ∧ 0 ∉ s'.pmm.log ∧
      (HoldsImage (twoSegments first second) s'.mem image'.pml4Phys ↔ PagesApart (twoSegments first second)) := by
  obtain ⟨T, hinv, -⟩ := hboot.inv
  obtain ⟨p, s₃, T₁, s', T', frames, bytes, hload, he, hframes, hbytes, hne⟩ :=
    elfLoad_enough hinv.clearLog ⟨0, 0⟩ (ramfsOpen_ramfsOf _) hvalid hall (by rw [hplan]; exact hspare)
  exact ⟨_, s', he, fun hc => hne (hload.tabled.valid.2 hc), hload.holdsImage_iff hall hframes hbytes⟩

/-- The second segment lies in the page of the first, and clears it. -/
theorem elf_image_contents_shared_page :
    ∃ image' s', elfLoadFromRamfs (ramfsOf (twoSegments 0x40000000 0x40000800)) 0x105000 (some []) (some ⟨0, 0⟩)
        (bootVmm (⟨kernelPmm (fun _ => 0) 0, []⟩ : Logged Pmm)) = (true, some image', s') ∧ 0 ∉ s'.pmm.log ∧
      ¬ HoldsImage (twoSegments 0x40000000 0x40000800) s'.mem image'.pml4Phys := by
  have hheaders : loadable (programHeaders (twoSegments 0x40000000 0x40000800)) =
      [⟨1, 5, 176, 0x40000000, 1, 1⟩, ⟨1, 5, 177, 0x40000800, 1, 1⟩] := by decide +kernel
  obtain ⟨image', s', he, hlog, hiff⟩ := twoSegments_load (booted_logged (fun _ => 0) 0) (ten_le_spare fun _ => 0)
    0x40000000 0x40000800 (by decide +kernel) (by rw [hheaders]; decide +kernel) (by decide +kernel)
  rw [clearLog_bootVmm] at he
  refine ⟨image', s', he, hlog, fun hc => ?_⟩
  have hbyte := hiff.mp hc [] _ _ hheaders 0x40000000 (by decide) (by decide) (by decide)
  exact absurd hbyte (by decide +kernel)

/-- Segments in pages of their own keep their bytes. -/
theorem elf_image_contents_apart :
    ∃ image' s', elfLoadFromRamfs (ramfsOf (twoSegments 0x40000000 0x40001000)) 0x105000 (some []) (some ⟨0, 0⟩)
        (bootVmm (⟨kernelPmm (fun _ => 0) 0, []⟩ : Logged Pmm)) = (true, some image', s') ∧
      HoldsImage (twoSegments 0x40000000 0x40001000) s'.mem image'.pml4Phys := by
  have hheaders : loadable (programHeaders (twoSegments 0x40000000 0x40001000)) =
      [⟨1, 5, 176, 0x40000000, 1, 1⟩, ⟨1, 5, 177, 0x40001000, 1, 1⟩] := by decide +kernel
  obtain ⟨image', s', he, hlog, -⟩ := twoSegments_load (booted_logged (fun _ => 0) 0) (ten_le_spare fun _ => 0)
    0x40000000 0x40001000 (by decide +kernel) (by rw [hheaders]; decide +kernel) (by decide +kernel)
  have himage := (elf_image_contents (booted_logged (fun _ => 0) 0) (@Run.nil _ _ (KernelStep 0x105000 0) _)
    (ramfsOpen_ramfsOf _) he hlog).mpr
  rw [clearLog_bootVmm] at he
  refine ⟨image', s', he, himage ?_⟩
  intro pre program post hsplit v hv _ ⟨later, hl, htouch⟩
  -- only the first segment has a later one, and that lies a page further
  rw [hheaders] at hsplit
  have hlen := congrArg List.length hsplit
  simp only [List.length_cons, List.length_nil, List.length_append] at hlen
  have hpos := List.length_pos_of_mem hl
  obtain rfl := List.length_eq_zero_iff.mp (show pre.length = 0 by omega)
  obtain ⟨rfl, rfl⟩ := List.cons.inj hsplit
  obtain rfl := List.mem_singleton.mp hl
  have h1 : v.toNat < 0x40000000 + 1 := hv.2
  have h2 : 0x40001000 / 4096 ≤ v.toNat / 4096 := htouch.1
  omega

end KernelOs
