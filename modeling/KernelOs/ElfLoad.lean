import KernelOs.ElfLemmas

/-!
# The loop over the program headers

A load works through a plan that the file alone fixes: the pages of its segments, up
to the first header that is not valid. It either carries the plan out, or a request
for a frame fails on the way and nothing more is mapped.
-/

namespace KernelOs
open Lib LawfulPageAllocator CompletePageAllocator

namespace Elf64ProgramHeader

def firstPage (program : Elf64ProgramHeader) : Nat := program.virtualAddress.toNat / 4096

/-- The page at `m` is one that the segment maps. -/
def Touches (program : Elf64ProgramHeader) (m : Nat) : Prop :=
  program.firstPage ≤ m ∧ m < program.firstPage + segmentPages program

instance (program : Elf64ProgramHeader) (m : Nat) : Decidable (program.Touches m) :=
  inferInstanceAs (Decidable (_ ∧ _))

def InFile (program : Elf64ProgramHeader) (v : Nat) : Prop :=
  program.virtualAddress.toNat ≤ v ∧ v < program.virtualAddress.toNat + program.fileSize.toNat

instance (program : Elf64ProgramHeader) (v : Nat) : Decidable (program.InFile v) :=
  inferInstanceAs (Decidable (_ ∧ _))

/-- No byte of the file goes to the last page. -/
def Unbacked (program : Elf64ProgramHeader) : Prop :=
  ∀ v, program.InFile v → v / 4096 + 1 ≠ program.firstPage + segmentPages program

def fileByte (program : Elf64ProgramHeader) (file : RamfsFile) (v : Nat) : UInt8 :=
  file.data (program.offset.toNat + (v - program.virtualAddress.toNat))

/-- The bytes of the space after the segment has been loaded over `bytes`. -/
def overlay (program : Elf64ProgramHeader) (file : RamfsFile) (bytes : Nat → UInt8) (v : Nat) : UInt8 :=
  if program.InFile v then program.fileByte file v else if program.Touches (v / 4096) then 0 else bytes v

variable {program : Elf64ProgramHeader} {file : RamfsFile}

theorem valid (h : validProgramHeader file program = true) :
    program.fileSize.toNat ≤ program.memorySize.toNat ∧
      program.offset.toNat + program.fileSize.toNat ≤ file.size.toNat ∧
      2 ^ 30 ≤ program.virtualAddress.toNat ∧ program.virtualAddress.toNat + program.memorySize.toNat < 2 ^ 47 := by
  simp only [validProgramHeader, Bool.not_eq_true', Bool.or_eq_false_iff, decide_eq_false_iff_not, gt_iff_lt,
    UInt64.lt_iff_toNat_lt, not_lt, Bool.not_eq_false'] at h
  obtain ⟨⟨⟨h1, h2⟩, h3⟩, h4⟩ := h
  rw [toNat_sub_of_toNat_le h2] at h3
  obtain ⟨h5, h6⟩ := validUserRange_iff.mp h4
  exact ⟨h1, by omega, h5, h6⟩

theorem firstPage_add (h : validProgramHeader file program = true) : program.firstPage + segmentPages program =
    (program.virtualAddress.toNat + program.memorySize.toNat + 4095) / 4096 := by
  obtain ⟨-, -, -, h4⟩ := valid h
  have hadd : (program.virtualAddress + program.memorySize).toNat =
      program.virtualAddress.toNat + program.memorySize.toNat := toNat_add_of_lt (by omega)
  rw [firstPage, segmentPages, toNat_alignUp (by rw [hadd]; omega), toNat_alignDown, hadd]
  omega

theorem pages_bound (h : validProgramHeader file program = true) :
    2 ^ 18 ≤ program.firstPage ∧ program.firstPage + segmentPages program ≤ 2 ^ 35 := by
  obtain ⟨-, -, h3, h4⟩ := valid h
  rw [firstPage_add h, firstPage]
  omega

theorem alignDown_eq (h : validProgramHeader file program = true) :
    alignDown program.virtualAddress = pageAddr program.firstPage := by
  have hb := pages_bound h
  rw [← UInt64.toNat_inj, toNat_alignDown, toNat_pageAddr (by omega), firstPage]

end Elf64ProgramHeader

open Elf64ProgramHeader

theorem segmentFlags_user (program : Elf64ProgramHeader) : segmentFlags program &&& pteUser ≠ 0 := by
  unfold segmentFlags
  split <;> decide

theorem segmentFlags_and (program : Elf64ProgramHeader) : segmentFlags program &&& pteAddrMask = 0 := by
  unfold segmentFlags
  split <;> decide

/-- The pages that a load maps, in order, when every request succeeds. -/
def plannedPages (file : RamfsFile) : List Elf64ProgramHeader → List Nat
  | [] => []
  | program :: programs =>
    if program.type ≠ elfProgramHeaderLoad then plannedPages file programs
    else if !validProgramHeader file program then []
    else List.range' program.firstPage (segmentPages program) ++ plannedPages file programs

theorem mem_plannedPages (file : RamfsFile) {m : Nat} : ∀ programs : List Elf64ProgramHeader,
    m ∈ plannedPages file programs → 2 ^ 18 ≤ m ∧ m < 2 ^ 35
  | [], h => by cases h
  | program :: programs, h => by
    rw [plannedPages] at h
    split at h
    · exact mem_plannedPages file programs h
    split at h
    · cases h
    next hvalid =>
      obtain ⟨h1, h2⟩ := pages_bound (by simpa using hvalid)
      rcases List.mem_append.mp h with h | h
      · have := List.mem_range'_1.mp h
        omega
      · exact mem_plannedPages file programs h

def loadable (programs : List Elf64ProgramHeader) : List Elf64ProgramHeader :=
  programs.filter fun program => program.type = elfProgramHeaderLoad

/-- The segment whose pages are planned last. -/
def lastMapped (programs : List Elf64ProgramHeader) : Option Elf64ProgramHeader :=
  ((loadable programs).filter fun program => segmentPages program ≠ 0).getLast?

/-- The loop does not notice if the last planned page has not been mapped. -/
def Silent (file : RamfsFile) (programs : List Elf64ProgramHeader) : Prop :=
  (∀ program ∈ loadable programs, validProgramHeader file program = true) ∧
    ∃ program, lastMapped programs = some program ∧ program.Unbacked

theorem loadable_cons {program : Elf64ProgramHeader} (htype : program.type = elfProgramHeaderLoad)
    (programs : List Elf64ProgramHeader) :
    loadable (program :: programs) = program :: loadable programs := by
  simp [loadable, htype]

theorem loadable_skip {program : Elf64ProgramHeader} (htype : program.type ≠ elfProgramHeaderLoad)
    (programs : List Elf64ProgramHeader) :
    loadable (program :: programs) = loadable programs := by
  simp [loadable, htype]

theorem plannedPages_cons {file : RamfsFile} {program : Elf64ProgramHeader}
    (htype : program.type = elfProgramHeaderLoad) (hvalid : validProgramHeader file program = true)
    (programs : List Elf64ProgramHeader) :
    plannedPages file (program :: programs) =
      List.range' program.firstPage (segmentPages program) ++ plannedPages file programs := by
  rw [plannedPages, if_neg (not_not.mpr htype), if_neg (by simp [hvalid])]

theorem lastMapped_eq_none {programs : List Elf64ProgramHeader} :
    lastMapped programs = none ↔ ∀ program ∈ loadable programs, segmentPages program = 0 := by
  simp [lastMapped]

theorem lastMapped_cons {program : Elf64ProgramHeader} {programs : List Elf64ProgramHeader}
    (htype : program.type = elfProgramHeaderLoad) (hn : segmentPages program ≠ 0) :
    lastMapped (program :: programs) = some ((lastMapped programs).getD program) := by
  simp [lastMapped, loadable, htype, hn, List.getLast?_cons]

theorem plannedPages_of_valid {file : RamfsFile} : ∀ {programs : List Elf64ProgramHeader},
    (∀ program ∈ loadable programs, validProgramHeader file program = true) →
    plannedPages file programs = (loadable programs).flatMap fun program =>
  List.range' program.firstPage (segmentPages program)
  | [], _ => rfl
  | program :: programs, h => by
    by_cases htype : program.type = elfProgramHeaderLoad
    · rw [loadable_cons htype, List.forall_mem_cons] at h
      rw [plannedPages_cons htype h.1, plannedPages_of_valid h.2, loadable_cons htype, List.flatMap_cons]
    · rw [loadable_skip htype] at h
      rw [plannedPages, if_pos htype, plannedPages_of_valid h, loadable_skip htype]

theorem plannedPages_eq_nil {file : RamfsFile} {programs : List Elf64ProgramHeader}
    (h : ∀ program ∈ loadable programs, validProgramHeader file program = true) :
    plannedPages file programs = [] ↔ lastMapped programs = none := by
  rw [plannedPages_of_valid h, lastMapped_eq_none]
  simp

theorem silent_cons {file : RamfsFile} {program : Elf64ProgramHeader} {programs : List Elf64ProgramHeader}
    (htype : program.type = elfProgramHeaderLoad) (hvalid : validProgramHeader file program = true) :
    Silent file (program :: programs) ↔ Silent file programs ∨
      segmentPages program ≠ 0 ∧ program.Unbacked ∧
        ∀ program ∈ loadable programs, validProgramHeader file program = true ∧ segmentPages program = 0 := by
  have hload := loadable_cons htype programs
  have hlast : lastMapped (program :: programs) =
      if segmentPages program = 0 then lastMapped programs else some ((lastMapped programs).getD program) := by
    split
    · next hn => simp [lastMapped, hload, hn]
    · next hn => exact lastMapped_cons htype hn
  have hnone : lastMapped programs = none ↔ ∀ program ∈ loadable programs, segmentPages program = 0 :=
    lastMapped_eq_none
  unfold Silent
  rw [hload, List.forall_mem_cons, hlast]
  by_cases hn : segmentPages program = 0
  · simp [hvalid, hn]
  cases hlast' : lastMapped programs with
  | none =>
    rw [hlast'] at hnone
    simp only [true_iff] at hnone
    simp only [hvalid, hn, if_false, ne_eq, not_false_eq_true, true_and, Option.getD_none, Option.some.injEq,
      exists_eq_left', reduceCtorEq, false_and, exists_false, and_false, false_or]
    rw [and_comm]
    exact and_congr_right fun _ => forall₂_congr fun q hq => (and_iff_left (hnone q hq)).symm
  | some q =>
    rw [hlast'] at hnone
    simp only [reduceCtorEq, false_iff, not_forall] at hnone
    obtain ⟨r, hr, hr0⟩ := hnone
    simp only [hvalid, hn, if_false, ne_eq, not_false_eq_true, true_and, Option.getD_some]
    exact (or_iff_left fun hc => hr0 (hc.2 r hr).2).symm

section
variable {α : Type} [PageAllocator α] [CompletePageAllocator α] {L : Layout} {s₀ s : Vmm α}
  {T₀ T : TableMap} {p : UInt64} {frames : Nat → Option UInt64} {bytes : Nat → UInt8}

theorem Loading.loadSegment (h : Loading L s₀ T₀ p s T frames bytes) (hL : ∀ ℓ, L.huge ℓ → ℓ.path = [0, 0])
    (pages : List Nat) {file : RamfsFile} {program : Elf64ProgramHeader}
    (hvalid : validProgramHeader file program = true) :
    ∃ ok s' T' frames' bytes', KernelOs.loadSegment p file program s = (ok, s') ∧
      Loading L s₀ T₀ p s' T' frames' bytes' ∧
      ((ok = true ∧ (∀ m, frames' m ≠ none ↔ frames m ≠ none ∨ program.Touches m) ∧
        bytes' = program.overlay file bytes ∧
          (Accounts L s₀ T₀ p s T frames pages →
            Accounts L s₀ T₀ p s' T' frames' (pages ++ List.range' program.firstPage (segmentPages program)))) ∨
        (OutOfFrames s'.pmm ∧
          (Accounts L s₀ T₀ p s T frames pages → ∃ j < segmentPages program, Stopped L s₀ T₀ p frames'
            (pages ++ List.range' program.firstPage j) (pages ++ List.range' program.firstPage (j + 1)) ∧
            (ok = true ↔ j + 1 = segmentPages program ∧
              FrameLeft L s₀ T₀ p (pages ++ List.range' program.firstPage j) ∧
              program.Unbacked)))) := by
  obtain ⟨h1, h2, h3, h4⟩ := valid hvalid
  obtain ⟨h5, h6⟩ := pages_bound hvalid
  have hend := firstPage_add hvalid
  have hfirst : program.firstPage = program.virtualAddress.toNat / 4096 := rfl
  have hsize := file.size.toNat_lt
  obtain ⟨ok, s₁, T', frames', bytes₁, he, hload, -, -, hall, hcase⟩ :=
    Loading.mapSegment hL (segmentFlags_and program) (segmentFlags_user program)
      (segmentPages program) program.firstPage pages h h5 h6
  have hmapped : ok = true → ∀ m, program.virtualAddress.toNat / 4096 ≤ m →
      m * 4096 < program.virtualAddress.toNat + program.fileSize.toNat →
      frames' m ≠ none ∨ Radix.lookup (slot s₁.mem) p (path (pageAddr m)) = none :=
    fun hok m k1 k2 => hall hok m k1 (by omega)
  cases ok with
  | false =>
    refine ⟨false, s₁, T', frames', bytes₁, by simp [KernelOs.loadSegment, alignDown_eq hvalid, he], hload, ?_⟩
    rcases hcase with ⟨hok, -⟩ | ⟨hout, hacc⟩
    · cases hok
    · refine Or.inr ⟨hout, fun ha => ?_⟩
      obtain ⟨j, hj, hstop, hiff⟩ := hacc ha
      refine ⟨j, hj, hstop, iff_of_false (by decide) fun hc => ?_⟩
      exact absurd (hiff.mpr ⟨hc.1, hc.2.1⟩) (by decide)
  | true =>
    obtain ⟨ok', mem', bytes', he', hload', hcopied, hb'⟩ :=
      hload.copySegment file.data program.fileSize.toNat program.fileSize
      program.virtualAddress program.offset (Nat.le_refl _) (by omega) (by omega) (hmapped rfl)
    refine ⟨ok', { s₁ with mem := mem' }, T', frames', bytes', ?_, hload', ?_⟩
    · simp [KernelOs.loadSegment, alignDown_eq hvalid, he, he']
    rcases hcase with ⟨-, hsup, hb, hacc⟩ | ⟨hout, hacc⟩
    · have hok : ok' = true := hcopied.mpr fun u k1 k2 =>
        (hsup _).mpr (Or.inr ⟨Nat.div_le_div_right k1, by omega⟩)
      refine Or.inl ⟨hok, hsup, ?_, fun ha => ?_⟩
      · rw [hb' hok, hb]
        rfl
      · obtain ⟨a1, a2, a3⟩ := hacc ha
        exact ⟨a1, a2, a3⟩
    · refine Or.inr ⟨hout, fun ha => ?_⟩
      obtain ⟨j, hj, hstop, hiff⟩ := hacc ha
      obtain ⟨hlast, hleft⟩ := hiff.mp rfl
      refine ⟨j, hj, hstop, ?_⟩
      rw [and_iff_right hlast, and_iff_right hleft, hcopied]
      -- only the last page of the segment is missing
      have hnext : List.range' program.firstPage (j + 1) =
          List.range' program.firstPage j ++ [program.firstPage + j] := by
        rw [List.range'_concat, Nat.one_mul]
      rw [hnext, ← List.append_assoc] at hstop
      have hmissing : frames' (program.firstPage + j) = none := by
        by_contra hc
        exact hstop.not_mem hleft (hstop.support.mp hc)
      constructor
      · intro hall v hv hpage
        refine hall v hv.1 hv.2 ?_
        rwa [show v / 4096 = program.firstPage + j by omega]
      · intro hun u k1 k2
        have hpage := hun u ⟨k1, k2⟩
        have hfirst : program.firstPage ≤ u / 4096 := Nat.div_le_div_right k1
        rw [hstop.support, List.mem_append, List.mem_range'_1]
        exact Or.inr ⟨hfirst, by omega⟩

theorem Loading.loadSegments_out (file : RamfsFile) : ∀ (programs : List Elf64ProgramHeader) {s : Vmm α},
    Loading L s₀ T₀ p s T frames bytes → OutOfFrames s.pmm →
    ∃ ok s', loadSegments p file programs s = (ok, s') ∧ Loading L s₀ T₀ p s' T frames bytes ∧ OutOfFrames s'.pmm ∧
      (ok = true ↔ ∀ program ∈ loadable programs, validProgramHeader file program = true ∧ segmentPages program = 0)
  | [], s, h, hout => ⟨true, s, rfl, h, hout, by simp [loadable]⟩
  | program :: programs, s, h, hout => by
    rw [loadSegments]
    by_cases htype : program.type = elfProgramHeaderLoad
    swap
    · rw [if_pos htype, loadable_skip htype]
      exact h.loadSegments_out file programs hout
    rw [if_neg (not_not.mpr htype), loadable_cons htype, List.forall_mem_cons]
    by_cases hvalid : validProgramHeader file program = true
    swap
    · rw [if_pos (by simpa using hvalid)]
      exact ⟨false, s, rfl, h, hout, by simp [hvalid]⟩
    rw [if_neg (by simp [hvalid])]
    cases hn : segmentPages program with
    | zero =>
      -- no page at all, and then no byte in the file either
      have hend := firstPage_add hvalid
      obtain ⟨h1, -⟩ := valid hvalid
      have hfs : program.fileSize.toNat = 0 := by
        rw [hn, firstPage] at hend
        omega
      have he : KernelOs.loadSegment p file program s = (true, s) := by
        simp [KernelOs.loadSegment, hn, KernelOs.mapSegment, hfs, KernelOs.copySegment]
      simp only [he, Bool.not_true, Bool.false_eq_true, if_false, hvalid, and_self, true_and]
      exact h.loadSegments_out file programs hout
    | succ n =>
      have hzero := alloc_of_spare_eq h.tabled.valid hout.spare_eq
      obtain ⟨hload, -⟩ := h.pmm (Prod.eta _).symm hzero
      refine ⟨false, _, ?_, hload, ⟨s.pmm, h.tabled.valid, by rw [← hzero]⟩, by simp⟩
      simp [KernelOs.loadSegment, hn, KernelOs.mapSegment, hzero]

theorem range'_eq_take {m n j : Nat} (h : j ≤ n) (l : List Nat) :
    List.range' m j = (List.range' m n ++ l).take j := by
  obtain ⟨r, rfl⟩ := Nat.exists_eq_add_of_le h
  rw [← List.range'_append_1, List.append_assoc, List.take_left' List.length_range']

/-- What came of the loop over `programs`: the plan was carried out and the result says whether every header
was valid, or a request has failed and only a part of the plan is mapped. -/
def LoadOutcome (L : Layout) (s₀ : Vmm α) (T₀ : TableMap) (p : UInt64) (file : RamfsFile)
    (programs : List Elf64ProgramHeader) (pages : List Nat) (s : Vmm α) (T : TableMap)
    (frames : Nat → Option UInt64) (bytes : Nat → UInt8) (ok : Bool) (s' : Vmm α) (T' : TableMap)
    (frames' : Nat → Option UInt64) (bytes' : Nat → UInt8) : Prop :=
  ((ok = true ↔ ∀ program ∈ loadable programs, validProgramHeader file program = true) ∧
      (ok = true → (∀ m, frames' m ≠ none ↔ frames m ≠ none ∨ ∃ program ∈ loadable programs, program.Touches m) ∧
        bytes' = (loadable programs).foldl (fun bytes program => program.overlay file bytes) bytes) ∧
      (Accounts L s₀ T₀ p s T frames pages →
      Accounts L s₀ T₀ p s' T' frames' (pages ++ plannedPages file programs))) ∨
    (OutOfFrames s'.pmm ∧
      (Accounts L s₀ T₀ p s T frames pages → ∃ j < (plannedPages file programs).length, Stopped L s₀ T₀ p frames'
        (pages ++ (plannedPages file programs).take j) (pages ++ (plannedPages file programs).take (j + 1)) ∧
        (ok = true ↔ j + 1 = (plannedPages file programs).length ∧
          FrameLeft L s₀ T₀ p (pages ++ (plannedPages file programs).take j) ∧ Silent file programs)))

section
variable {file : RamfsFile} {program : Elf64ProgramHeader} {programs : List Elf64ProgramHeader}
  {pages : List Nat} {s₁ s' : Vmm α} {T₁ T' : TableMap} {frames₁ frames' : Nat → Option UInt64}
  {bytes₁ bytes' : Nat → UInt8} {ok ok' : Bool}

theorem LoadOutcome.skip (htype : program.type ≠ elfProgramHeaderLoad)
    (h : LoadOutcome L s₀ T₀ p file programs pages s T frames bytes ok s' T' frames' bytes') :
    LoadOutcome L s₀ T₀ p file (program :: programs) pages s T frames bytes ok s' T' frames' bytes' := by
  have hsilent : Silent file (program :: programs) ↔ Silent file programs := by
    simp only [Silent, lastMapped, loadable_skip htype]
  unfold LoadOutcome
  rw [plannedPages, if_pos htype, loadable_skip htype, hsilent]
  exact h

theorem LoadOutcome.invalid (htype : program.type = elfProgramHeaderLoad)
    (hvalid : ¬ validProgramHeader file program = true) :
    LoadOutcome L s₀ T₀ p file (program :: programs) pages s T frames bytes false s T frames bytes := by
  refine Or.inl ⟨?_, fun hc => absurd hc (by decide), fun hacc => ?_⟩
  · simp [loadable_cons htype, hvalid]
  · rw [plannedPages, if_neg (not_not.mpr htype), if_pos (by simpa using hvalid), List.append_nil]
    exact hacc

/-- The segment of the first header is loaded, and the loop goes on. -/
theorem LoadOutcome.cons (htype : program.type = elfProgramHeaderLoad)
    (hvalid : validProgramHeader file program = true)
    (hsup : ∀ m, frames₁ m ≠ none ↔ frames m ≠ none ∨ program.Touches m)
    (hb : bytes₁ = program.overlay file bytes) (hacc₁ : Accounts L s₀ T₀ p s T frames pages →
      Accounts L s₀ T₀ p s₁ T₁ frames₁ (pages ++ List.range' program.firstPage (segmentPages program)))
    (h : LoadOutcome L s₀ T₀ p file programs (pages ++ List.range' program.firstPage (segmentPages program)) s₁
      T₁ frames₁ bytes₁
      ok s' T' frames' bytes') :
    LoadOutcome L s₀ T₀ p file (program :: programs) pages s T frames bytes ok s' T' frames' bytes' := by
  unfold LoadOutcome
  rw [plannedPages_cons htype hvalid, loadable_cons htype, ← List.append_assoc]
  rcases h with ⟨hall, hdone, hacc'⟩ | ⟨hout, hacc'⟩
  · refine Or.inl ⟨?_, fun hok' => ?_, fun hacc => hacc' (hacc₁ hacc)⟩
    · rw [hall]
      simp [hvalid]
    obtain ⟨k2, k3⟩ := hdone hok'
    refine ⟨fun m => ?_, ?_⟩
    · rw [k2, hsup]
      simp only [List.mem_cons, exists_eq_or_imp, or_assoc]
    · rw [k3, hb, List.foldl_cons]
  · refine Or.inr ⟨hout, fun hacc => ?_⟩
    obtain ⟨j, hj, hstop, hiff⟩ := hacc' (hacc₁ hacc)
    have hsilent : Silent file (program :: programs) ↔ Silent file programs := by
      rw [silent_cons htype hvalid]
      refine or_iff_left fun hc => ?_
      have hnil :=
        (plannedPages_eq_nil fun q hq => (hc.2.2 q hq).1).mpr (lastMapped_eq_none.mpr fun q hq => (hc.2.2 q hq).2)
      rw [hnil] at hj
      cases hj
    have htake (i : Nat) : (List.range' program.firstPage (segmentPages program) ++ plannedPages file programs).take
        (segmentPages program + i) =
            List.range' program.firstPage (segmentPages program) ++ (plannedPages file programs).take i := by
      rw [List.take_append, List.take_of_length_le (by simp), List.length_range', Nat.add_sub_cancel_left]
    refine ⟨segmentPages program + j, by rw [List.length_append, List.length_range']; omega, ?_⟩
    rw [Nat.add_assoc, htake, htake, ← List.append_assoc, ← List.append_assoc, hsilent, List.length_append,
      List.length_range', Nat.add_left_cancel_iff]
    exact ⟨hstop, hiff⟩

/-- A request for the segment of the first header failed, and the rest of the loop maps nothing. -/
theorem LoadOutcome.stopped (htype : program.type = elfProgramHeaderLoad)
    (hvalid : validProgramHeader file program = true) (hout : OutOfFrames s'.pmm)
    (hacc₁ : Accounts L s₀ T₀ p s T frames pages → ∃ j < segmentPages program, Stopped L s₀ T₀ p frames'
      (pages ++ List.range' program.firstPage j) (pages ++ List.range' program.firstPage (j + 1)) ∧
      (ok = true ↔ j + 1 = segmentPages program ∧
        FrameLeft L s₀ T₀ p (pages ++ List.range' program.firstPage j) ∧ program.Unbacked))
    (hok' : ok' = true ↔ ok = true ∧ ∀ program ∈ loadable programs, validProgramHeader file program = true ∧
      segmentPages program = 0) :
    LoadOutcome L s₀ T₀ p file (program :: programs) pages s T frames bytes ok' s' T' frames' bytes' := by
  refine Or.inr ⟨hout, fun hacc => ?_⟩
  obtain ⟨j, hj, hstop, hiff⟩ := hacc₁ hacc
  rw [plannedPages_cons htype hvalid]
  refine ⟨j, by rw [List.length_append, List.length_range']; omega, ?_⟩
  rw [← range'_eq_take (Nat.le_of_lt hj), ← range'_eq_take hj, hok', hiff, silent_cons htype hvalid,
    List.length_append, List.length_range']
  refine ⟨hstop, ?_⟩
  constructor
  · intro ⟨⟨h1, h2, h3⟩, h4⟩
    have hnil := (plannedPages_eq_nil fun q hq => (h4 q hq).1).mpr (lastMapped_eq_none.mpr fun q hq => (h4 q hq).2)
    rw [hnil]
    exact ⟨h1, h2, Or.inr ⟨by omega, h3, h4⟩⟩
  · intro ⟨h1, h2, h3⟩
    cases h3 with
    | inl h3 =>
      obtain ⟨k1, q, k2, -⟩ := h3
      have hnil : plannedPages file programs = [] := List.length_eq_zero_iff.mp (by omega)
      rw [plannedPages_eq_nil k1, k2] at hnil
      cases hnil
    | inr h3 => exact ⟨⟨by omega, h2, h3.2.1⟩, h3.2.2⟩

end

/-- **The whole loop.** -/
theorem Loading.loadSegments (hL : ∀ ℓ, L.huge ℓ → ℓ.path = [0, 0]) (file : RamfsFile) :
    ∀ (programs : List Elf64ProgramHeader) (pages : List Nat) {s : Vmm α} {T : TableMap}
    {frames : Nat → Option UInt64}
      {bytes : Nat → UInt8}, Loading L s₀ T₀ p s T frames bytes →
    ∃ ok s' T' frames' bytes', KernelOs.loadSegments p file programs s = (ok, s') ∧
    Loading L s₀ T₀ p s' T' frames' bytes' ∧
      LoadOutcome L s₀ T₀ p file programs pages s T frames bytes ok s' T' frames' bytes'
  | [], pages, s, T, frames, bytes, h =>
    ⟨true, s, T, frames, bytes, rfl, h,
      Or.inl ⟨by simp [loadable], by simp [loadable], fun hacc => by simpa [plannedPages] using hacc⟩⟩
  | program :: programs, pages, s, T, frames, bytes, h => by
    by_cases htype : program.type = elfProgramHeaderLoad
    swap
    · obtain ⟨ok, s', T', frames', bytes', he, hload, hcase⟩ := Loading.loadSegments hL file programs pages h
      refine ⟨ok, s', T', frames', bytes', ?_, hload, hcase.skip htype⟩
      rw [KernelOs.loadSegments, if_pos htype]
      exact he
    by_cases hvalid : validProgramHeader file program = true
    swap
    · refine ⟨false, s, T, frames, bytes, ?_, h, .invalid htype hvalid⟩
      rw [KernelOs.loadSegments, if_neg (not_not.mpr htype), if_pos (by simpa using hvalid)]
    have hstep {ok : Bool} {s₁ : Vmm α} (he : KernelOs.loadSegment p file program s = (ok, s₁)) :
        KernelOs.loadSegments p file (program :: programs) s =
          if ok then KernelOs.loadSegments p file programs s₁ else (false, s₁) := by
      rw [KernelOs.loadSegments, if_neg (not_not.mpr htype), if_neg (by simp [hvalid]), he]
      cases ok <;> rfl
    obtain ⟨ok, s₁, T₁, frames₁, bytes₁, he, h₁, ⟨hok, hsup, hb, hacc₁⟩ | ⟨hout, hacc₁⟩⟩ :=
      h.loadSegment hL pages hvalid
    · obtain ⟨ok', s', T', frames', bytes', he', hload, hcase⟩ := Loading.loadSegments hL file programs
        (pages ++ List.range' program.firstPage (segmentPages program)) h₁
      exact ⟨ok', s', T', frames', bytes', by rw [hstep he, if_pos hok, he'], hload,
        hcase.cons htype hvalid hsup hb hacc₁⟩
    · cases ok with
      | false =>
        exact ⟨false, s₁, T₁, frames₁, bytes₁, by rw [hstep he]; rfl, h₁,
          .stopped htype hvalid hout hacc₁ (by simp)⟩
      | true =>
        obtain ⟨ok', s', he', hload, hout', hok'⟩ := h₁.loadSegments_out file programs hout
        exact ⟨ok', s', T₁, frames₁, bytes₁, by rw [hstep he, if_pos rfl, he'], hload,
          .stopped htype hvalid hout' hacc₁ (by rw [hok', and_iff_right rfl])⟩

end

end KernelOs
