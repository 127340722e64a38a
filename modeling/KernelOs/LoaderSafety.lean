import KernelOs.IdentityMap
import KernelOs.LoaderAccesses

/-!
# What a load touches

Whatever the file holds, a load ends, reads nothing beyond the file, computes no
address that wraps, and writes only to pages that it has taken itself.
-/

namespace KernelOs
open Lib LawfulPageAllocator CompletePageAllocator Elf64ProgramHeader Traced

namespace LoaderAccesses

/-- The computation returns `r`, and everything it does is safe. -/
abbrev Safely {β : Type} (size : UInt64) (past : List LoadEvent) (x : Traced LoadEvent β) (r : β) : Prop :=
  Returns (LoadEvent.Safe size) past x r

section
variable {size a b : UInt64} {past : List LoadEvent} {β : Type}

theorem safely_reads {i n : Nat} (r : β) (h : i + n ≤ size.toNat) : Safely size past ⟨r, reads i n⟩ r := by
  refine ⟨rfl, .of_forall fun e he _ => ?_⟩
  obtain ⟨j, hj, rfl⟩ := List.mem_map.mp he
  have := List.mem_range'_1.mp hj
  exact (by omega : j < size.toNat)

theorem safely_add (h : a.toNat + b.toNat < 2 ^ 64) : Safely size past (add a b) (a + b) := .event h

theorem safely_sub (h : b ≤ a) : Safely size past (sub a b) (a - b) := .event h

theorem safely_mul (h : a.toNat * b.toNat < 2 ^ 64) : Safely size past (mul a b) (a * b) := .event h

theorem safely_orElse {x y : Traced LoadEvent Bool} {c d : Bool} (hx : Safely size past x c)
    (hy : c = false → Safely size (past ++ x.trace) y d) : Safely size past (orElse x y) (c || d) := by
  refine hx.bind ?_
  cases c with
  | true => exact .pure true
  | false => exact hy rfl

theorem safely_differs [BEq β] {x : Traced LoadEvent β} {c : β} (value : β) (hx : Safely size past x c) :
    Safely size past (differs x value) (c != value) := hx.bind (.pure _)

theorem safely_alignUp (h : a.toNat + 4096 < 2 ^ 64) : Safely size past (alignUp a) (KernelOs.alignUp a) := by
  refine (safely_add h).bind ((safely_sub ?_).bind (.pure _))
  rw [UInt64.le_iff_toNat_le, toNat_add_of_lt h]
  have h1 : (1 : UInt64).toNat = 1 := rfl
  have h2 : pageSize.toNat = 4096 := rfl
  omega

theorem safely_validUserRange : Safely size past (validUserRange a b) (KernelOs.validUserRange a b) := by
  unfold validUserRange KernelOs.validUserRange
  have hlimit : a ≤ 0xFFFFFFFFFFFFFFFF := by
    rw [UInt64.le_iff_toNat_le]
    exact Nat.le_of_lt_succ a.toNat_lt
  by_cases hmin : a < userAddressMin
  · rw [if_pos hmin, if_pos (Or.inl hmin)]
    exact .pure _
  rw [if_neg hmin]
  refine (safely_sub hlimit).bind ?_
  by_cases hsize : b > 0xFFFFFFFFFFFFFFFF - a
  · rw [if_pos hsize, if_pos (Or.inr hsize)]
    exact .pure _
  rw [if_neg hsize, if_neg (not_or.mpr ⟨hmin, hsize⟩)]
  refine (safely_add ?_).bind (.pure _)
  rw [gt_iff_lt, UInt64.lt_iff_toNat_lt, UInt64.toNat_sub_of_le _ _ hlimit, not_lt] at hsize
  have := a.toNat_lt
  have h64 : (0xFFFFFFFFFFFFFFFF : UInt64).toNat = 2 ^ 64 - 1 := rfl
  omega

end

/-! ## The checks -/

section
variable {file : RamfsFile} {past : List LoadEvent}

theorem safely_wrongIdentification (h : 64 ≤ file.size.toNat) :
    let header := readElf64Header file.data
    Safely file.size past (wrongIdentification file)
      (header.ident 0 != 0x7F || header.ident 1 != 0x45 || header.ident 2 != 0x4C || header.ident 3 != 0x46 ||
        header.ident 4 != 2 || header.ident 5 != 1 || header.machine != 0x3E ||
        header.programHeaderSize.toUInt64 != sizeofElf64ProgramHeader ||
        !KernelOs.validUserRange header.entry 1) := by
  intro header
  have hident (past : List LoadEvent) {i : Nat} (hi : i < 64) (value : UInt8) :
      Safely file.size past (differs (Header.ident file i) value) (header.ident i != value) :=
    safely_differs value (safely_reads _ (by omega))
  simp only [Bool.or_assoc]
  refine safely_orElse (hident _ (by decide) _) fun _ => ?_
  refine safely_orElse (hident _ (by decide) _) fun _ => ?_
  refine safely_orElse (hident _ (by decide) _) fun _ => ?_
  refine safely_orElse (hident _ (by decide) _) fun _ => ?_
  refine safely_orElse (hident _ (by decide) _) fun _ => ?_
  refine safely_orElse (hident _ (by decide) _) fun _ => ?_
  refine safely_orElse (safely_differs _ (safely_reads header.machine (by omega))) fun _ => ?_
  refine safely_orElse ((safely_reads header.programHeaderSize (by omega)).bind (.pure _)) fun _ => ?_
  refine (safely_reads header.entry (by omega)).bind ?_
  exact safely_validUserRange.bind (.pure _)

theorem safely_wrongTable (h : 64 ≤ file.size.toNat) :
    let header := readElf64Header file.data
    Safely file.size past (wrongTable file) (decide (header.programHeaderOffset > file.size) ||
      decide (header.programHeaderCount.toUInt64 * sizeofElf64ProgramHeader >
      file.size - header.programHeaderOffset)) := by
  intro header
  have hoffset (past : List LoadEvent) : Safely file.size past
      (Header.programHeaderOffset file) header.programHeaderOffset :=
    safely_reads _ (by omega)
  refine (safely_reads header.programHeaderCount (by omega)).bind ?_
  refine (safely_mul ?_).bind ?_
  · have := header.programHeaderCount.toNat_lt
    rw [UInt16.toNat_toUInt64, show sizeofElf64ProgramHeader.toNat = 56 from rfl]
    omega
  · refine safely_orElse ((hoffset _).bind (.pure _)) fun hle => ?_
    refine (hoffset _).bind ((safely_sub ?_).bind (.pure _))
    rw [decide_eq_false_iff_not, gt_iff_lt, UInt64.not_lt] at hle
    exact hle

theorem safely_wrongFile : Safely file.size past (wrongFile file) (!validElfFile file) := by
  unfold wrongFile validElfFile
  by_cases hsize : file.size < sizeofElf64Header
  · rw [if_pos hsize, decide_eq_true hsize]
    exact .pure true
  rw [if_neg hsize, decide_eq_false hsize]
  have h64 : 64 ≤ file.size.toNat := by
    rw [UInt64.lt_iff_toNat_lt, not_lt] at hsize
    exact hsize
  simp only [Bool.not_false, Bool.true_and, Bool.not_and, Bool.not_not]
  exact safely_orElse (safely_wrongIdentification h64) fun _ => safely_wrongTable h64

variable {program : UInt64}

theorem safely_fields (h : program.toNat + 56 ≤ file.size.toNat) :
    let header := readProgramHeader file.data program 0
    (∀ past, Safely file.size past (Program.offset file program) header.offset) ∧
      (∀ past, Safely file.size past (Program.virtualAddress file program) header.virtualAddress) ∧
      (∀ past, Safely file.size past (Program.fileSize file program) header.fileSize) ∧
      ∀ past, Safely file.size past (Program.memorySize file program) header.memorySize := by
  refine ⟨fun _ => ?_, fun _ => ?_, fun _ => ?_, fun _ => ?_⟩
  · exact safely_reads _ (by omega)
  · exact safely_reads _ (by omega)
  · exact safely_reads _ (by omega)
  · exact safely_reads _ (by omega)

theorem safely_wrongProgramHeader (h : program.toNat + 56 ≤ file.size.toNat) :
    Safely file.size past (wrongProgramHeader file program)
    (!validProgramHeader file (readProgramHeader file.data program 0)) := by
  obtain ⟨hoffset, haddress, hfileSize, hmemorySize⟩ := safely_fields h
  rw [validProgramHeader, Bool.not_not, Bool.or_assoc, Bool.or_assoc]
  refine safely_orElse ((hfileSize _).bind ((hmemorySize _).bind (.pure _))) fun _ => ?_
  refine safely_orElse ((hoffset _).bind (.pure _)) fun hle => ?_
  refine safely_orElse ((hfileSize _).bind ((hoffset _).bind ((safely_sub ?_).bind (.pure _)))) fun _ => ?_
  · rw [decide_eq_false_iff_not, gt_iff_lt, UInt64.not_lt] at hle
    exact hle
  · exact (haddress _).bind ((hmemorySize _).bind (safely_validUserRange.bind (.pure _)))

end

/-! ## The loops over bytes -/

section
variable {size page : UInt64} {past : List LoadEvent}

theorem safely_zeroMemory (mem : Memory) {d : Nat} (hpage : LoadEvent.takePage page ∈ past) (h0 : page ≠ 0)
    (hd : page.toNat ≤ d) :
    ∀ n : Nat, d + n ≤ page.toNat + 4096 → Safely size past (zeroMemory mem d n) (KernelOs.zeroMemory mem d n) := by
  intro n
  induction n with
  | zero => exact fun _ => .pure _
  | succ n ih =>
    intro hn
    exact (ih (by omega)).bind (.event ⟨page, List.mem_append_left _ hpage, h0, by omega, by omega⟩)

theorem safely_copyMemory (mem : Memory) {file : RamfsFile} {d o : Nat} (hpage : LoadEvent.takePage page ∈ past)
    (h0 : page ≠ 0) (hd : page.toNat ≤ d) : ∀ n : Nat, d + n ≤ page.toNat + 4096 → o + n ≤ file.size.toNat →
      Safely file.size past (copyMemory mem d file o n) (KernelOs.copyMemory mem d file.data o n) := by
  intro n
  induction n with
  | zero => exact fun _ _ => .pure _
  | succ n ih =>
    intro hn ho
    refine (ih (by omega) (by omega)).bind
      ((safely_reads _ (by omega)).bind (.event ⟨page, ?_, h0, by omega, by omega⟩))
    exact List.mem_append_left _ (List.mem_append_left _ hpage)

end

/-! ## The page loop -/

section
variable {α : Type} [PageAllocator α] {size p flags segmentEnd : UInt64} {past : List LoadEvent}

theorem safely_mapSegment (n : Nat) : ∀ (m rounds : Nat) (past : List LoadEvent) (s : Vmm α), n < rounds →
    m + n ≤ 2 ^ 35 →
    segmentEnd.toNat = (m + n) * 4096 →
    Safely size past (mapSegment p flags segmentEnd rounds (pageAddr m) s)
    (some (KernelOs.mapSegment p flags n (pageAddr m) s)) ∧
      ∀ d ∈ segmentFrames p flags n (pageAddr m) s,
        LoadEvent.takePage d ∈ (mapSegment p flags segmentEnd rounds (pageAddr m) s).trace := by
  induction n with
  | zero =>
    intro m rounds past s hrounds hm hend
    obtain ⟨rounds, rfl⟩ := Nat.exists_eq_succ_of_ne_zero (Nat.ne_of_gt hrounds)
    have hnot : ¬ pageAddr m < segmentEnd := by
      rw [UInt64.lt_iff_toNat_lt, toNat_pageAddr (by omega), hend]
      omega
    rw [mapSegment, if_neg hnot]
    exact ⟨.pure _, fun d hd => by cases hd⟩
  | succ n ih =>
    intro m rounds past s hrounds hm hend
    cases rounds with
    | zero => cases hrounds
    | succ rounds =>
    have hlt : pageAddr m < segmentEnd := by
      rw [UInt64.lt_iff_toNat_lt, toNat_pageAddr (by omega), hend]
      omega
    rw [mapSegment, if_pos hlt, KernelOs.mapSegment, segmentFrames]
    cases halloc : allocPage s.pmm with
    | mk d pmm =>
    have htake (past : List LoadEvent) : Safely size past (takePage s.pmm) (d, pmm) := ⟨halloc, trivial, trivial⟩
    by_cases hd : d = 0
    · refine ⟨(htake _).bind ?_, ?_⟩
      · simp only [if_pos hd]
        exact .pure _
      · simp only [if_pos hd, List.not_mem_nil, false_imp_iff, implies_true]
    have hzero (past : List LoadEvent) (hpast : LoadEvent.takePage d ∈ past) : Safely size past
        (zeroMemory s.mem d.toNat 4096) _ :=
      safely_zeroMemory s.mem hpast hd (Nat.le_refl _) 4096 (Nat.le_refl _)
    have hadd (past : List LoadEvent) : Safely size past (add (pageAddr m) pageSize) (pageAddr (m + 1)) := by
      rw [← pageAddr_succ (by omega)]
      refine safely_add ?_
      rw [toNat_pageAddr (by omega), pageSize_toNat]
      omega
    have hmem : LoadEvent.takePage d ∈ (takePage s.pmm).trace := by simp [takePage, halloc]
    have hnext (past : List LoadEvent) :=
      ih (m + 1) rounds past (vmmMapPage ⟨KernelOs.zeroMemory s.mem d.toNat 4096, pmm⟩ p (pageAddr m) d flags)
      (by omega) (by omega) (by rw [hend]; omega)
    refine ⟨(htake _).bind ?_, fun d' hd' => ?_⟩
    · simp only [if_neg hd, pageAddr_succ (show m < 2 ^ 35 by omega)]
      exact (hzero _ (List.mem_append_right _ hmem)).bind ((hadd _).bind (hnext _).1)
    · simp only [if_neg hd, pageAddr_succ (show m < 2 ^ 35 by omega)] at hd'
      cases List.mem_cons.mp hd' with
      | inl hd' =>
        rw [hd']
        exact mem_bind_left hmem
      | inr hd' =>
        refine (htake []).mem_bind ?_
        simp only [if_neg hd]
        exact (hzero _ hmem).mem_bind ((hadd []).mem_bind ((hnext []).2 d' hd'))

end

/-! ## The copy loop -/

/-- The pages that are mapped have been taken in the course of the load. -/
def Held (frames : Nat → Option UInt64) (past : List LoadEvent) : Prop :=
  ∀ m d, frames m = some d → LoadEvent.takePage d ∈ past

theorem Held.append {frames : Nat → Option UInt64} {past : List LoadEvent} (h : Held frames past)
    (trace : List LoadEvent) :
    Held frames (past ++ trace) := fun m d hm => List.mem_append_left _ (h m d hm)

section
variable {α : Type} [PageAllocator α] [CompletePageAllocator α] {L : Layout} {s₀ : Vmm α}
  {T₀ T : TableMap} {p : UInt64} {frames : Nat → Option UInt64}

theorem safely_copySegment (file : RamfsFile) :
    ∀ (fuel rounds : Nat) (past : List LoadEvent) (r v o : UInt64) {s : Vmm α}
    {bytes : Nat → UInt8}, Loading L s₀ T₀ p s T frames bytes → Held frames past → r.toNat ≤ fuel → fuel < rounds →
    v.toNat + r.toNat < 2 ^ 47 → o.toNat + r.toNat ≤ file.size.toNat →
    (∀ m, v.toNat / 4096 ≤ m → m * 4096 < v.toNat + r.toNat →
      frames m ≠ none ∨ Radix.lookup (slot s.mem) p (path (pageAddr m)) = none) →
    Safely file.size past (copySegment p file rounds r v o s.mem)
    (some (KernelOs.copySegment p file.data fuel r v o s.mem))
  | _, 0, _, _, _, _, _, _, _, _, _, hrounds, _, _, _ => absurd hrounds (Nat.not_lt_zero _)
  | 0, rounds + 1, past, r, v, o, s, bytes, h, hheld, hfuel, hrounds, hv, ho, hpages => by
    have hnot : ¬ r > 0 := by
      rw [gt_iff_lt, UInt64.lt_iff_toNat_lt, UInt64.toNat_zero]
      omega
    rw [copySegment, if_neg hnot, KernelOs.copySegment]
    exact .pure _
  | fuel + 1, rounds + 1, past, r, v, o, s, bytes, h, hheld, hfuel, hrounds, hv, ho, hpages => by
    rw [copySegment, KernelOs.copySegment]
    by_cases hr : r = 0
    · subst hr
      rw [if_neg (by decide), if_pos rfl]
      exact .pure _
    have hr0 : 0 < r.toNat := Nat.pos_of_ne_zero fun hc => hr ((eq_zero_iff_toNat r).mpr hc)
    have hpos : r > 0 := by
      rwa [gt_iff_lt, UInt64.lt_iff_toNat_lt, UInt64.toNat_zero]
    rw [if_pos hpos, if_neg hr]
    cases hd : frames (v.toNat / 4096) with
    | none =>
      have hlook := (hpages (v.toNat / 4096) (Nat.le_refl _) (by omega)).resolve_left (by simp [hd])
      rw [path_pageAddr] at hlook
      have htr : vmmTranslate s.mem p v = 0 := by rw [vmmTranslate_eq, hlook]; rfl
      simp only [htr, if_true]
      exact .pure _
    | some d =>
      have hsize := file.size.toNat_lt
      obtain ⟨htr, htr0, -⟩ := h.translate hd
      obtain ⟨hd0, hdF, -⟩ := h.frame hd
      simp only [if_neg htr0]
      refine (safely_sub (and_pageSize_le v).2).bind ?_
      generalize hc : (if r < pageSize - (v &&& (pageSize - 1)) then r else pageSize - (v &&& (pageSize - 1))) = c
      obtain ⟨hc0, hcpage, hcr, hr', hv', ho', hcopy, hpages'⟩ :=
        h.chunk file.data (o := o) hr0 hv (by omega) hd hc hpages
      refine (safely_copyMemory s.mem (hheld.append _ _ d hd) hd0 ?_ c.toNat ?_ ?_).bind ?_
      · omega
      · omega
      · omega
      refine (safely_add (by omega)).bind ((safely_add (by omega)).bind ((safely_sub ?_).bind ?_))
      · rw [UInt64.le_iff_toNat_le]
        exact hcr
      exact safely_copySegment file fuel rounds _ (r - c) (v + c) (o + c) hcopy
        (((((hheld.append _).append _).append _).append _).append _)
        (by omega) (by omega) (by omega) (by omega) hpages'

end

/-! ## The loop over the program headers -/

theorem readProgramHeader_eq {data : Memory} {offset program : UInt64} {i : Nat}
    (h : program.toNat = offset.toNat + 56 * i) :
    readProgramHeader data offset i = readProgramHeader data program 0 := by
  simp only [readProgramHeader, h, Nat.mul_zero, Nat.add_zero]

section
variable {α : Type} [PageAllocator α] [CompletePageAllocator α] {L : Layout} {s₀ s : Vmm α} {T₀ T : TableMap}
  {p program : UInt64} {frames : Nat → Option UInt64} {bytes : Nat → UInt8} {file : RamfsFile} {limit : Nat}
  {past : List LoadEvent}

omit [CompletePageAllocator α] in
theorem safely_segmentFlags (h : program.toNat + 56 ≤ file.size.toNat) :
    Safely file.size past (segmentFlags file program)
    (KernelOs.segmentFlags (readProgramHeader file.data program 0)) := by
  refine (safely_reads (readProgramHeader file.data program 0).flags (by omega)).bind ?_
  unfold KernelOs.segmentFlags
  split
  · exact .pure _
  · exact .pure _

theorem safely_loadSegment (hL : ∀ ℓ, L.huge ℓ → ℓ.path = [0, 0]) (hin : program.toNat + 56 ≤ file.size.toNat)
    (hvalid : validProgramHeader file (readProgramHeader file.data program 0) = true) (hlimit : 2 ^ 47 ≤ limit)
    (h : Loading L s₀ T₀ p s T frames bytes) (hheld : Held frames past) :
    ∃ ok s' T' frames' bytes', KernelOs.loadSegment p file (readProgramHeader file.data program 0) s = (ok, s') ∧
      Loading L s₀ T₀ p s' T' frames' bytes' ∧ Safely file.size past (loadSegment limit p file program s)
    (some (ok, s')) ∧
      Held frames' (past ++ (loadSegment limit p file program s).trace) := by
  obtain ⟨hoffset, haddress, hfileSize, hmemorySize⟩ := safely_fields hin
  have hflags (past : List LoadEvent) : Safely file.size past (segmentFlags file program) _ :=
    safely_segmentFlags hin
  generalize readProgramHeader file.data program 0 = header at *
  obtain ⟨h1, h2, h3, h4⟩ := valid hvalid
  obtain ⟨h5, h6⟩ := pages_bound hvalid
  have hend := firstPage_add hvalid
  have hfirst : header.firstPage = header.virtualAddress.toNat / 4096 := rfl
  have hsize := file.size.toNat_lt
  have hsum : (header.virtualAddress + header.memorySize).toNat =
      header.virtualAddress.toNat + header.memorySize.toNat :=
    toNat_add_of_lt (by omega)
  have hadd (past : List LoadEvent) : Safely file.size past (add header.virtualAddress header.memorySize) _ :=
    safely_add (by omega)
  have halign (past : List LoadEvent) : Safely file.size past
      (alignUp (header.virtualAddress + header.memorySize)) _ :=
    safely_alignUp (by omega)
  have hsegmentEnd : (KernelOs.alignUp (header.virtualAddress + header.memorySize)).toNat =
      (header.firstPage + segmentPages header) * 4096 := by
    rw [toNat_alignUp (by omega), hsum, hend]
  obtain ⟨ok, s₁, T', frames', bytes₁, he, hload, -, hfrom, hall, -⟩ :=
    Loading.mapSegment hL (segmentFlags_and header) (segmentFlags_user header)
      (segmentPages header) header.firstPage [] h h5 h6
  have hmap (past : List LoadEvent) : Safely file.size past (mapSegment p (KernelOs.segmentFlags header)
      (KernelOs.alignUp (header.virtualAddress + header.memorySize)) limit (pageAddr header.firstPage) s) _ ∧ _ :=
    safely_mapSegment (segmentPages header) header.firstPage limit past s (by omega) h6 hsegmentEnd
  rw [he, ← alignDown_eq hvalid] at hmap
  have hmapHeld {past : List LoadEvent} (hheld : Held frames past) : Held frames'
    (past ++ (mapSegment p (KernelOs.segmentFlags header)
      (KernelOs.alignUp (header.virtualAddress + header.memorySize)) limit
          (alignDown header.virtualAddress) s).trace) := by
    intro m d hf
    rw [List.mem_append]
    rw [← alignDown_eq hvalid] at hfrom
    exact (hfrom m d hf).imp (hheld m d) ((hmap []).2 d)
  have hheld' : Held frames' (past ++ (loadSegment limit p file program s).trace) := by
    intro m d hf
    rw [List.mem_append]
    refine (hfrom m d hf).imp (hheld m d) fun hd => ?_
    rw [← alignDown_eq hvalid] at hd
    exact (hflags []).mem_bind
      ((haddress []).mem_bind ((hmemorySize []).mem_bind ((hadd []).mem_bind ((halign []).mem_bind
      (mem_bind_left ((hmap []).2 d hd))))))
  cases ok with
  | false =>
    refine ⟨false, s₁, T', frames', bytes₁, by simp [KernelOs.loadSegment, alignDown_eq hvalid, he],
      hload, ?_, hheld'⟩
    refine (hflags _).bind ((haddress _).bind ((hmemorySize _).bind ((hadd _).bind ((halign _).bind ?_))))
    exact (hmap _).1.bind (.pure _)
  | true =>
    have hpages (m : Nat) (k1 : header.virtualAddress.toNat / 4096 ≤ m)
        (k2 : m * 4096 < header.virtualAddress.toNat + header.fileSize.toNat) :
        frames' m ≠ none ∨ Radix.lookup (slot s₁.mem) p (path (pageAddr m)) = none := hall rfl m k1 (by omega)
    obtain ⟨ok', mem', bytes', he', hload', -⟩ := hload.copySegment file.data header.fileSize.toNat header.fileSize
      header.virtualAddress header.offset (Nat.le_refl _) (by omega) (by omega) hpages
    have hcopy (past : List LoadEvent) (hpast : Held frames' past) :=
      safely_copySegment file header.fileSize.toNat limit past
      header.fileSize header.virtualAddress header.offset hload hpast (Nat.le_refl _) (by omega)
        (by omega) h2 hpages
    rw [he'] at hcopy
    refine ⟨ok', { s₁ with mem := mem' }, T', frames', bytes',
      by simp [KernelOs.loadSegment, alignDown_eq hvalid, he, he'], hload', ?_, hheld'⟩
    refine (hflags _).bind ((haddress _).bind ((hmemorySize _).bind ((hadd _).bind ((halign _).bind ?_))))
    refine (hmap _).1.bind ((hfileSize _).bind ((hoffset _).bind ((hcopy _ ?_).bind (.pure _))))
    refine Held.append (Held.append (hmapHeld ?_) _) _
    exact ((((hheld.append _).append _).append _).append _).append _

theorem safely_loadSegments (hL : ∀ ℓ, L.huge ℓ → ℓ.path = [0, 0]) (hlimit : 2 ^ 47 ≤ limit)
    (h64 : 64 ≤ file.size.toNat) {programs : UInt64}
    (htable : programs.toNat + 56 * (readElf64Header file.data).programHeaderCount.toNat ≤ file.size.toNat) :
    ∀ (n rounds : Nat) (past : List LoadEvent) (index : UInt16) {s : Vmm α} {T : TableMap}
    {frames : Nat → Option UInt64}
      {bytes : Nat → UInt8}, index.toNat + n = (readElf64Header file.data).programHeaderCount.toNat → n < rounds →
      Loading L s₀ T₀ p s T frames bytes → Held frames past →
      Safely file.size past (loadSegments limit p file programs rounds index s)
        (some (KernelOs.loadSegments p file
          ((List.range' index.toNat n).map (readProgramHeader file.data programs)) s)) := by
  generalize hcount : (readElf64Header file.data).programHeaderCount = count at htable ⊢
  have hread (past : List LoadEvent) : Safely file.size past (Header.programHeaderCount file) count := by
    rw [← hcount]
    exact safely_reads _ (by omega)
  have hsize := file.size.toNat_lt
  have hcount16 := count.toNat_lt
  intro n
  induction n with
  | zero =>
    intro rounds past index s T frames bytes hindex hrounds h hheld
    cases rounds with
    | zero => cases hrounds
    | succ rounds =>
    rw [loadSegments]
    refine (hread _).bind ?_
    rw [if_neg (by rw [UInt16.lt_iff_toNat_lt]; omega)]
    exact .pure _
  | succ n ih =>
    intro rounds past index s T frames bytes hindex hrounds h hheld
    cases rounds with
    | zero => cases hrounds
    | succ rounds =>
    have hdistance : (index.toUInt64 * sizeofElf64ProgramHeader).toNat = 56 * index.toNat := by
      rw [UInt64.toNat_mul, UInt16.toNat_toUInt64, show sizeofElf64ProgramHeader.toNat = 56 from rfl]
      omega
    have hprogram : (programs + index.toUInt64 * sizeofElf64ProgramHeader).toNat =
        programs.toNat + 56 * index.toNat := by
      rw [toNat_add_of_lt, hdistance]
      omega
    have hnext : (index + 1).toNat = index.toNat + 1 := by
      rw [UInt16.toNat_add, show (1 : UInt16).toNat = 1 from rfl]
      omega
    have hmul (past : List LoadEvent) : Safely file.size past (mul index.toUInt64 sizeofElf64ProgramHeader) _ :=
      safely_mul (by
      rw [UInt16.toNat_toUInt64, show sizeofElf64ProgramHeader.toNat = 56 from rfl]
      omega)
    have hadd (past : List LoadEvent) : Safely file.size past
        (add programs (index.toUInt64 * sizeofElf64ProgramHeader)) _ :=
      safely_add (by omega)
    rw [loadSegments, List.range'_succ, List.map_cons, readProgramHeader_eq hprogram, KernelOs.loadSegments]
    generalize programs + index.toUInt64 * sizeofElf64ProgramHeader = program at hprogram hadd ⊢
    have hin : program.toNat + 56 ≤ file.size.toNat := by omega
    have htype (past : List LoadEvent) : Safely file.size past (Program.type file program)
        (readProgramHeader file.data program 0).type :=
      safely_reads _ (by omega)
    have hrest (past : List LoadEvent) {s : Vmm α} {T : TableMap} {frames : Nat → Option UInt64}
      {bytes : Nat → UInt8}
        (h : Loading L s₀ T₀ p s T frames bytes) (hheld : Held frames past) :=
      ih rounds past (index + 1) (by omega) (by omega) h hheld
    rw [hnext] at hrest
    refine (hread _).bind ?_
    rw [if_pos (by rw [UInt16.lt_iff_toNat_lt]; omega)]
    refine (hmul _).bind ((hadd _).bind ((htype _).bind ?_))
    have hheld' :=
      (((hheld.append (Header.programHeaderCount file).trace).append
        (mul index.toUInt64 sizeofElf64ProgramHeader).trace).append
      (add programs (index.toUInt64 * sizeofElf64ProgramHeader)).trace).append (Program.type file program).trace
    by_cases hload : (readProgramHeader file.data program 0).type ≠ elfProgramHeaderLoad
    · rw [if_pos hload, if_pos hload]
      exact hrest _ h hheld'
    rw [if_neg hload, if_neg hload]
    refine (safely_wrongProgramHeader hin).bind ?_
    by_cases hvalid : validProgramHeader file (readProgramHeader file.data program 0) = true
    swap
    · rw [if_pos (by simpa using hvalid), if_pos (by simpa using hvalid)]
      exact .pure _
    rw [if_neg (by simp [hvalid]), if_neg (by simp [hvalid])]
    obtain ⟨ok, s', T', frames', bytes', he, h', hsafe, hheld'⟩ :=
      safely_loadSegment hL hin hvalid hlimit h (hheld'.append _)
    refine hsafe.bind ?_
    rw [he]
    cases ok with
    | false => exact .pure _
    | true => exact hrest _ h' hheld'

end

/-! ## The whole load -/

section
variable {α : Type} [PageAllocator α] [CompletePageAllocator α] {cr3 : UInt64} {k : Kernel α}
  {S : Finset UInt64} {T : TableMap}

omit [CompletePageAllocator α] in
theorem validElfFile_table {file : RamfsFile} (h : validElfFile file = true) : 64 ≤ file.size.toNat ∧
    (readElf64Header file.data).programHeaderOffset.toNat +
    56 * (readElf64Header file.data).programHeaderCount.toNat ≤ file.size.toNat := by
  simp only [validElfFile, Bool.and_eq_true, Bool.not_eq_true', Bool.or_eq_false_iff,
    decide_eq_false_iff_not, gt_iff_lt, UInt64.lt_iff_toNat_lt, not_lt] at h
  obtain ⟨⟨h1, -⟩, h2, h3⟩ := h
  have hcount := (readElf64Header file.data).programHeaderCount.toNat_lt
  rw [toNat_sub_of_toNat_le h2, UInt64.toNat_mul, UInt16.toNat_toUInt64,
    show sizeofElf64ProgramHeader.toNat = 56 from rfl] at h3
  exact ⟨h1, by omega⟩

/-- The bytes that belong to the file, none if there is no such file. -/
def fileSize (entries : Ramfs) (name : Option (List UInt8)) : UInt64 :=
  (ramfsOpen entries name).elim 0 RamfsFile.size

theorem safely_elfLoadFromRamfs (h : KernelInv cr3 k S T) (entries : Ramfs) (name : Option (List UInt8))
    (image : Option ElfImage) {limit : Nat} (hlimit : 2 ^ 47 ≤ limit) :
    Safely (fileSize entries name) [] (elfLoadFromRamfs limit entries cr3 name image k.vmm)
      (some (KernelOs.elfLoadFromRamfs entries cr3 name image k.vmm)) := by
  unfold elfLoadFromRamfs KernelOs.elfLoadFromRamfs fileSize
  cases image with
  | none => exact .pure _
  | some i =>
  cases hopen : ramfsOpen entries name with
  | none => exact .pure _
  | some file =>
  dsimp only [Option.elim_some]
  refine safely_wrongFile.bind ?_
  by_cases hvalid : validElfFile file = true
  swap
  · rw [if_pos (by simpa using hvalid), if_pos (by simpa using hvalid)]
    exact .pure _
  simp only [hvalid, Bool.not_true, Bool.false_eq_true, if_false]
  rcases vmmCreateAddressSpace_spec h.tabled with
    ⟨s', he, -⟩ | ⟨p, s₁, T₁, he, hp0, hnone, hx, hsame, hp, hnames, hzero, -⟩
  · simp only [he, if_true]
    exact .pure _
  simp only [he, if_neg hp0]
  obtain ⟨h64, htable⟩ := validElfFile_table hvalid
  obtain ⟨hinv, -⟩ := h.share hx hsame hnone hp hnames hzero hx.tabled rfl
  have hload := Loading.start hinv.tabled hp (fun _ => 0)
  have hprograms (past : List LoadEvent) : Safely file.size past (Header.programHeaderOffset file)
      (readElf64Header file.data).programHeaderOffset := safely_reads _ (by omega)
  have hheaders : programHeaders file =
    (List.range' (0 : UInt16).toNat (readElf64Header file.data).programHeaderCount.toNat).map
      (readProgramHeader file.data (readElf64Header file.data).programHeaderOffset) := by
    rw [programHeaders, List.range_eq_range']
    rfl
  have hcount := (readElf64Header file.data).programHeaderCount.toNat_lt
  have hloop (past : List LoadEvent) := safely_loadSegments (kernelLayout_huge (S := insert p S)) hlimit h64 htable
    (readElf64Header file.data).programHeaderCount.toNat limit past 0 (Nat.zero_add _) (by omega) hload
      (fun _ _ hc => by cases hc)
  rw [← hheaders] at hloop
  refine (hprograms _).bind ((hloop _).bind ?_)
  cases KernelOs.loadSegments p file (programHeaders file) { s₁ with mem := shareKernelSlot s₁.mem cr3 p } with
  | mk ok s' =>
  cases ok with
  | false => exact .pure _
  | true => exact (safely_reads (readElf64Header file.data).entry (by omega)).bind (.pure _)

end

end LoaderAccesses

section
variable {cr3 programPhys : UInt64} {s : Vmm Pmm} {ops : List KernelOp} {k : Kernel Pmm}

/-- **A load is safe**, whatever the file holds: it ends, it reads nothing beyond the file, nothing wraps
that it computes, and it fills only pages that it has taken itself. -/
theorem load_is_safe (hboot : Booted cr3 s) (hrun : Run (PageStep cr3 programPhys) ⟨s, [cr3]⟩ ops k)
    (entries : Ramfs) (name : Option (List UInt8)) (image : Option ElfImage) : ∃ rounds, ∀ limit ≥ rounds,
    let load := LoaderAccesses.elfLoadFromRamfs limit entries cr3 name image k.vmm
    load.val = some (elfLoadFromRamfs entries cr3 name image k.vmm) ∧
      Clean (LoadEvent.Safe (LoaderAccesses.fileSize entries name)) [] load.trace := by
  obtain ⟨S, T, hT⟩ := hboot.identityRun hrun
  refine ⟨2 ^ 47, fun limit hlimit => ?_⟩
  obtain ⟨hval, hclean⟩ := LoaderAccesses.safely_elfLoadFromRamfs hT.inv entries name image hlimit
  exact ⟨hval, hclean⟩

theorem load_is_safe_twoSegments :
    let entries := ramfsOf (twoSegments 0x8000000000 0x8000001000)
    ∃ rounds, ∀ limit ≥ rounds,
      let load :=
        LoaderAccesses.elfLoadFromRamfs limit entries 0x105000 (some []) (some ⟨0, 0⟩)
          (bootVmm (kernelPmm (fun _ => 0) 0))
      load.val =
        some (elfLoadFromRamfs entries 0x105000 (some []) (some ⟨0, 0⟩) (bootVmm (kernelPmm (fun _ => 0) 0))) ∧
        Clean (LoadEvent.Safe (LoaderAccesses.fileSize entries (some []))) [] load.trace :=
  load_is_safe (booted_bootVmm (fun _ => 0) 0) (@Run.nil _ _ (PageStep 0x105000 0) _)
    (ramfsOf (twoSegments 0x8000000000 0x8000001000))
    (some []) (some ⟨0, 0⟩)

end

end KernelOs
