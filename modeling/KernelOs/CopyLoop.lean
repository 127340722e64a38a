import KernelOs.ElfLemmas
import KernelOs.Lib.Traced

/-!
# The copy loop of the loader

The loop of `elf.cpp` that copies a segment, with the file in the same physical memory as the pages
and the tables. Recorded are its calls of `copy_memory`.
-/

namespace KernelOs
open Lib

structure CopyCall where
  destination : UInt64
  source : UInt64
  size : UInt64
  deriving DecidableEq

/-- `copy_memory`, up to `size`. -/
def copyBytes (mem : Memory) (destination source : UInt64) : Nat → Memory
  | 0 => mem
  | n + 1 =>
    let mem := copyBytes mem destination source n
    mem.store8 (destination + UInt64.ofNat n).toNat (mem (source + UInt64.ofNat n).toNat)

def callCopyMemory (mem : Memory) (destination source size : UInt64) : Traced CopyCall Memory :=
  ⟨copyBytes mem destination source size.toNat, [{ destination, source, size }]⟩

/-- `while (bytes_remaining > 0)`, `none` if that takes more rounds than allowed. -/
def copyLoop (pml4Phys : UInt64) :
    Nat → UInt64 → UInt64 → UInt64 → Memory → Traced CopyCall (Option (Bool × Memory))
  | 0, _, _, _, _ => pure none
  | rounds + 1, bytesRemaining, destination, source, mem => do
    if bytesRemaining > 0 then
      let destinationPhys := vmmTranslate mem pml4Phys destination
      if destinationPhys = 0 then pure (some (false, mem))
      else
        let pageRemaining := pageSize - (destination &&& (pageSize - 1))
        let chunkSize := if bytesRemaining < pageRemaining then bytesRemaining else pageRemaining
        let mem ← callCopyMemory mem destinationPhys source chunkSize
        copyLoop pml4Phys rounds (bytesRemaining - chunkSize) (destination + chunkSize) (source + chunkSize) mem
    else pure (some (true, mem))

/-- The frame that `vmm_translate` has for the page of `v`. -/
def frameAt (mem : Memory) (p v : UInt64) : UInt64 := vmmTranslate mem p (alignDown v)

def InFrame (frame : UInt64) (x : Nat) : Prop := frame.toNat ≤ x ∧ x < frame.toNat + 4096

section
variable (mem : Memory) (p virtualAddress fileSize source : UInt64)

/-- The pages of the range have frames of their own, apart from the source. -/
structure CopyTarget : Prop where
  mapped : ∀ i < fileSize.toNat, frameAt mem p (virtualAddress + UInt64.ofNat i) ≠ 0
  distinct : ∀ i < fileSize.toNat, ∀ j < fileSize.toNat,
    frameAt mem p (virtualAddress + UInt64.ofNat i) = frameAt mem p (virtualAddress + UInt64.ofNat j) →
      alignDown (virtualAddress + UInt64.ofNat i) = alignDown (virtualAddress + UInt64.ofNat j)
  source : ∀ i < fileSize.toNat, ∀ j < fileSize.toNat,
    ¬ InFrame (frameAt mem p (virtualAddress + UInt64.ofNat i)) (source + UInt64.ofNat j).toNat

/-- And apart from the entries that the walks to them read. -/
def TablesApart : Prop :=
  ∀ i < fileSize.toNat, ∀ j < fileSize.toNat, ∀ entry ∈ walk mem p (virtualAddress + UInt64.ofNat j),
  ∀ k < 8, ¬ InFrame (frameAt mem p (virtualAddress + UInt64.ofNat i)) (entry.1.toNat + 8 * entry.2.val + k)

/-- The copy in `mem'`, and the calls that made it. -/
structure CopiedExactly (mem' : Memory) (calls : List CopyCall) : Prop where
  translate : ∀ i < fileSize.toNat,
    vmmTranslate mem' p (virtualAddress + UInt64.ofNat i) = vmmTranslate mem p (virtualAddress + UInt64.ofNat i)
  copied : ∀ i < fileSize.toNat,
    mem' (vmmTranslate mem' p (virtualAddress + UInt64.ofNat i)).toNat = mem (source + UInt64.ofNat i).toNat
  others : ∀ x, (∀ i < fileSize.toNat, x ≠ (vmmTranslate mem p (virtualAddress + UInt64.ofNat i)).toNat) →
    mem' x = mem x
  calls : ∀ call ∈ calls, ∃ i < fileSize.toNat,
    (frameAt mem p (virtualAddress + UInt64.ofNat i)).toNat ≤ call.destination.toNat ∧
      call.destination.toNat + call.size.toNat ≤ (frameAt mem p (virtualAddress + UInt64.ofNat i)).toNat + 4096

end

/-! ## Frames -/

variable {mem m : Memory} {p virtualAddress fileSize source v : UInt64} {d : Nat}

theorem slot_leaf {level : Nat} {n e : UInt64} {i : Fin 512} (h : slot mem level n i = .leaf e) :
    e &&& pteAddrMask = e := by
  have hmask (x : UInt64) : x &&& pteAddrMask &&& pteAddrMask = x &&& pteAddrMask := by
    rw [UInt64.and_assoc, UInt64.and_self]
  unfold slot at h
  dsimp only at h
  split at h
  · cases h
  · split at h
    · obtain rfl := Radix.Slot.leaf.inj h
      exact hmask _
    · split at h
      · split at h
        · cases h
        · obtain rfl := Radix.Slot.leaf.inj h
          exact hmask _
      · cases h

/-- The offset into a page of any size, in the parts above and below the bits of a small page. -/
theorem pageOffset_alignDown (v : UInt64) {left : Nat} (h : left < 4) :
    pageOffset v left = pageOffset (alignDown v) left ||| (v &&& 0xFFF) ∧
      pageOffset (alignDown v) left &&& pteAddrMask = pageOffset (alignDown v) left := by
  have hmask : ∀ left < 4, (0xFFF : UInt64) &&& ((1 : UInt64) <<< (12 + 9 * UInt64.ofNat left) - 1) = 0xFFF ∧
      ~~~(pageSize - 1) &&& ((1 : UInt64) <<< (12 + 9 * UInt64.ofNat left) - 1) &&& pteAddrMask =
        ~~~(pageSize - 1) &&& ((1 : UInt64) <<< (12 + 9 * UInt64.ofNat left) - 1) := by decide
  have hparts : (~~~(pageSize - 1) ||| 0xFFF : UInt64) = -1 := by decide
  have hsplit : v = alignDown v ||| (v &&& 0xFFF) := by
    rw [alignDown, UInt64.and_comm v, UInt64.and_comm v, ← or_and_distrib, hparts, UInt64.neg_one_and]
  obtain ⟨h1, h2⟩ := hmask left h
  unfold pageOffset
  constructor
  · calc v &&& ((1 : UInt64) <<< (12 + 9 * UInt64.ofNat left) - 1)
      _ = (alignDown v ||| (v &&& 0xFFF)) &&& ((1 : UInt64) <<< (12 + 9 * UInt64.ofNat left) - 1) := by
        rw [← hsplit]
      _ = _ := by rw [or_and_distrib, UInt64.and_assoc v, h1]
  · rw [alignDown, UInt64.and_assoc v, UInt64.and_assoc v, h2]

/-- A page has one frame, and every address of the page is that far into the frame. -/
theorem frameAt_spec (h : frameAt mem p v ≠ 0) :
    IsFrame (frameAt mem p v) ∧ vmmTranslate mem p v = frameAt mem p v ||| (v &&& 0xFFF) := by
  have hpath : path (alignDown v) = path v := by
    rw [path_eq_iff, ← BitVec.toNat_inj, pageNumber_toNat, pageNumber_toNat, toNat_alignDown]
    omega
  unfold frameAt at h ⊢
  rw [vmmTranslate_eq, hpath] at h ⊢
  rw [vmmTranslate_eq]
  cases hlook : Radix.lookup (slot mem) p (path v) with
  | none =>
    rw [hlook] at h
    exact absurd rfl h
  | some r =>
    obtain ⟨e, rest⟩ := r
    have he : e &&& pteAddrMask = e := Radix.lookup_leaf (P := fun e => e &&& pteAddrMask = e) slot_leaf hlook
    have hrest : rest.length < 4 := Radix.lookup_rest_length hlook
    obtain ⟨h1, h2⟩ := pageOffset_alignDown v hrest
    simp only [Option.elim_some]
    constructor
    · unfold IsFrame
      rw [or_and_distrib, he, h2]
    · rw [h1, UInt64.or_assoc]

theorem toNat_translate (h : frameAt mem p v ≠ 0) :
    (vmmTranslate mem p v).toNat = (frameAt mem p v).toNat + v.toNat % 4096 ∧ (frameAt mem p v).toNat % 4096 = 0 ∧
      (frameAt mem p v).toNat + 4096 ≤ 2 ^ 64 := by
  obtain ⟨hframe, htr⟩ := frameAt_spec h
  obtain ⟨hmod, hlt⟩ := isFrame_iff.mp hframe
  exact ⟨by rw [htr, toNat_frame_or hframe], hmod, by omega⟩

/-- Up to the end of its page a range stays in one frame. -/
theorem translate_add (h : frameAt mem p v ≠ 0) {k : Nat} (hk : v.toNat % 4096 + k < 4096) :
    frameAt mem p (v + UInt64.ofNat k) = frameAt mem p v ∧
      vmmTranslate mem p (v + UInt64.ofNat k) = vmmTranslate mem p v + UInt64.ofNat k := by
  have hofNat : (UInt64.ofNat k).toNat = k := UInt64.toNat_ofNat_of_lt (by rw [UInt64.size]; omega)
  have hv := v.toNat_lt
  have hadd : (v + UInt64.ofNat k).toNat = v.toNat + k := by
    rw [toNat_add_of_lt (by rw [hofNat]; omega), hofNat]
  have hpage : alignDown (v + UInt64.ofNat k) = alignDown v := by
    apply UInt64.toNat_inj.mp
    rw [toNat_alignDown, toNat_alignDown, hadd]
    omega
  have hframe : frameAt mem p (v + UInt64.ofNat k) = frameAt mem p v := congrArg (vmmTranslate mem p) hpage
  obtain ⟨h1, h2, h3⟩ := toNat_translate h
  obtain ⟨h4, -, -⟩ := toNat_translate (v := v + UInt64.ofNat k) (by rwa [hframe])
  refine ⟨hframe, UInt64.toNat_inj.mp ?_⟩
  rw [toNat_add_of_lt (by rw [hofNat]; omega), hofNat, h4, hframe, hadd]
  omega

theorem CopyTarget.inFrame (h : CopyTarget mem p virtualAddress fileSize source) {i : Nat}
    (hi : i < fileSize.toNat) :
    InFrame (frameAt mem p (virtualAddress + UInt64.ofNat i))
    (vmmTranslate mem p (virtualAddress + UInt64.ofNat i)).toNat := by
  obtain ⟨h1, -, -⟩ := toNat_translate (h.mapped i hi)
  unfold InFrame
  omega

/-- Different bytes of the range are different bytes of memory. -/
theorem CopyTarget.inj (h : CopyTarget mem p virtualAddress fileSize source) {i j : Nat}
    (hi : i < fileSize.toNat) (hj : j < fileSize.toNat)
    (he : (vmmTranslate mem p (virtualAddress + UInt64.ofNat i)).toNat =
      (vmmTranslate mem p (virtualAddress + UInt64.ofNat j)).toNat) :
    i = j := by
  obtain ⟨h1, h2, -⟩ := toNat_translate (h.mapped i hi)
  obtain ⟨h3, h4, -⟩ := toNat_translate (h.mapped j hj)
  have hframe : frameAt mem p (virtualAddress + UInt64.ofNat i) =
      frameAt mem p (virtualAddress + UInt64.ofNat j) := by
    apply UInt64.toNat_inj.mp
    omega
  have hpage := congrArg UInt64.toNat (h.distinct i hi j hj hframe)
  rw [toNat_alignDown, toNat_alignDown] at hpage
  rw [hframe] at h1
  have hsum : virtualAddress + UInt64.ofNat i = virtualAddress + UInt64.ofNat j := by
    apply UInt64.toNat_inj.mp
    omega
  have hofNat := congrArg UInt64.toNat ((UInt64.add_right_inj virtualAddress).mp hsum)
  have hlt := fileSize.toNat_lt
  rwa [UInt64.toNat_ofNat', UInt64.toNat_ofNat', Nat.mod_eq_of_lt (by omega), Nat.mod_eq_of_lt (by omega)] at hofNat

/-! ## The invariant of the loop -/

/-- The first `d` bytes are copied, and nothing else has changed. -/
structure Copied (mem : Memory) (p virtualAddress source : UInt64) (d : Nat) (mem' : Memory) : Prop where
  done : ∀ i < d, mem' (vmmTranslate mem p (virtualAddress + UInt64.ofNat i)).toNat =
    mem (source + UInt64.ofNat i).toNat
  rest : ∀ x, (∀ i < d, x ≠ (vmmTranslate mem p (virtualAddress + UInt64.ofNat i)).toNat) → mem' x = mem x

namespace Copied

/-- The source is as it was. -/
theorem source_eq (hm : Copied mem p virtualAddress source d m)
    (h : CopyTarget mem p virtualAddress fileSize source) (hd : d ≤ fileSize.toNat) {j : Nat}
    (hj : j < fileSize.toNat) : m (source + UInt64.ofNat j).toNat = mem (source + UInt64.ofNat j).toNat := by
  apply hm.rest
  intro i hi he
  have hin := h.inFrame (Nat.lt_of_lt_of_le hi hd)
  rw [← he] at hin
  exact h.source i (Nat.lt_of_lt_of_le hi hd) j hj hin

theorem byte (hm : Copied mem p virtualAddress source d m) (h : CopyTarget mem p virtualAddress fileSize source)
    (hd : d < fileSize.toNat) :
    Copied mem p virtualAddress source (d + 1)
      (m.store8 (vmmTranslate mem p (virtualAddress + UInt64.ofNat d)).toNat
        (m (source + UInt64.ofNat d).toNat)) where
  done i hi := by
    by_cases hid : i = d
    · subst hid
      rw [Memory.store8_same]
      exact hm.source_eq h (Nat.le_of_lt hd) hd
    · rw [Memory.store8_of_ne _ _ fun he => hid (h.inj (by omega) hd he)]
      exact hm.done i (by omega)
  rest x hx := by
    rw [Memory.store8_of_ne _ _ (hx d (Nat.lt_succ_self d))]
    exact hm.rest x fun i hi => hx i (Nat.lt_succ_of_lt hi)

/-- Bytes up to the end of a page. -/
theorem bytes (hm : Copied mem p virtualAddress source d m) (h : CopyTarget mem p virtualAddress fileSize source) :
    ∀ k, (virtualAddress + UInt64.ofNat d).toNat % 4096 + k ≤ 4096 → d + k ≤ fileSize.toNat →
      Copied mem p virtualAddress source (d + k)
        (copyBytes m (vmmTranslate mem p (virtualAddress + UInt64.ofNat d)) (source + UInt64.ofNat d) k)
  | 0, _, _ => hm
  | k + 1, hpage, hk => by
    have ih := hm.bytes h k (by omega) (by omega)
    obtain ⟨-, htr⟩ := translate_add (h.mapped d (by omega)) (k := k) (by omega)
    have hadd (a : UInt64) : a + UInt64.ofNat d + UInt64.ofNat k = a + UInt64.ofNat (d + k) := by
      rw [UInt64.ofNat_add, UInt64.add_assoc]
    rw [hadd] at htr
    rw [copyBytes, ← htr, hadd]
    exact ih.byte h (by omega)

/-- The walks to the range are as they were. -/
theorem translate_eq (hm : Copied mem p virtualAddress source d m)
    (h : CopyTarget mem p virtualAddress fileSize source) (htables : TablesApart mem p virtualAddress fileSize)
    (hd : d ≤ fileSize.toNat) {j : Nat} (hj : j < fileSize.toNat) :
    vmmTranslate m p (virtualAddress + UInt64.ofNat j) = vmmTranslate mem p (virtualAddress + UInt64.ofNat j) := by
  rw [vmmTranslate_eq, vmmTranslate_eq, Radix.lookup_congr]
  intro entry hentry level
  have hread : readEntry m entry.1 entry.2 = readEntry mem entry.1 entry.2 := by
    apply Memory.load64_congr
    intro k hk
    apply hm.rest
    intro i hi he
    have hin := h.inFrame (Nat.lt_of_lt_of_le hi hd)
    rw [← he] at hin
    exact htables i (Nat.lt_of_lt_of_le hi hd) j hj entry hentry k hk hin
  unfold slot
  rw [hread]

end Copied

/-! ## Rounds -/

theorem copyLoop_succ {rounds : Nat} {n s c t : UInt64} (hn : n > 0) (ht : vmmTranslate m p v = t) (ht0 : t ≠ 0)
    (hc : (if n < pageSize - (v &&& (pageSize - 1)) then n else pageSize - (v &&& (pageSize - 1))) = c) :
    copyLoop p (rounds + 1) n v s m = ⟨(copyLoop p rounds (n - c) (v + c) (s + c) (copyBytes m t s c.toNat)).val,
      ⟨t, s, c⟩ :: (copyLoop p rounds (n - c) (v + c) (s + c) (copyBytes m t s c.toNat)).trace⟩ := by
  rw [copyLoop, if_pos hn]
  simp only [ht, hc, if_neg ht0]
  rfl

/-- What a round finds, and how its three cursors move together. -/
theorem Copied.round (hm : Copied mem p virtualAddress source d m)
    (h : CopyTarget mem p virtualAddress fileSize source) (htables : TablesApart mem p virtualAddress fileSize)
    {n c : UInt64} (hn : 0 < n.toNat) (hsum : n.toNat + d = fileSize.toNat)
    (hc : (if n < pageSize - ((virtualAddress + UInt64.ofNat d) &&& (pageSize - 1)) then n
      else pageSize - ((virtualAddress + UInt64.ofNat d) &&& (pageSize - 1))) = c) :
    vmmTranslate m p (virtualAddress + UInt64.ofNat d) = vmmTranslate mem p (virtualAddress + UInt64.ofNat d) ∧
      vmmTranslate mem p (virtualAddress + UInt64.ofNat d) ≠ 0 ∧ 0 < c.toNat ∧
      (virtualAddress + UInt64.ofNat d).toNat % 4096 + c.toNat ≤ 4096 ∧
      (n - c).toNat + (d + c.toNat) = fileSize.toNat ∧
      ∀ a : UInt64, a + UInt64.ofNat d + c = a + UInt64.ofNat (d + c.toNat) := by
  have hcn := toNat_chunk hc
  have hcr : c ≤ n := by
    rw [UInt64.le_iff_toNat_le]
    omega
  have hsub : (n - c).toNat = n.toNat - c.toNat := UInt64.toNat_sub_of_le _ _ hcr
  have hmod := Nat.mod_lt (virtualAddress + UInt64.ofNat d).toNat (show 0 < 4096 by decide)
  have hmapped := h.mapped d (by omega)
  refine ⟨hm.translate_eq h htables (by omega) (by omega), fun h0 => hmapped ?_, by omega, by omega,
    by omega, fun a => ?_⟩
  · obtain ⟨htr, -, -⟩ := toNat_translate hmapped
    rw [h0, UInt64.toNat_zero] at htr
    rw [eq_zero_iff_toNat]
    omega
  · rw [UInt64.ofNat_add, UInt64.ofNat_toNat, UInt64.add_assoc]

theorem copyLoop_spec (h : CopyTarget mem p virtualAddress fileSize source)
    (htables : TablesApart mem p virtualAddress fileSize) :
    ∀ (rounds d : Nat) (n : UInt64) (m : Memory), n.toNat + d = fileSize.toNat → n.toNat < rounds →
      Copied mem p virtualAddress source d m → ∃ mem' calls,
        copyLoop p rounds n (virtualAddress + UInt64.ofNat d) (source + UInt64.ofNat d) m =
        ⟨some (true, mem'), calls⟩ ∧
        Copied mem p virtualAddress source fileSize.toNat mem' ∧ ∀ call ∈ calls, ∃ i < fileSize.toNat,
          (frameAt mem p (virtualAddress + UInt64.ofNat i)).toNat ≤ call.destination.toNat ∧
            call.destination.toNat + call.size.toNat ≤
            (frameAt mem p (virtualAddress + UInt64.ofNat i)).toNat + 4096
  | 0, _, _, _, _, hrounds, _ => absurd hrounds (Nat.not_lt_zero _)
  | rounds + 1, d, n, m, hsum, hrounds, hm => by
    by_cases hn : n > 0
    · generalize hc : (if n < pageSize - ((virtualAddress + UInt64.ofNat d) &&& (pageSize - 1)) then n
        else pageSize - ((virtualAddress + UInt64.ofNat d) &&& (pageSize - 1))) = c
      have hn0 : 0 < n.toNat := UInt64.lt_iff_toNat_lt.mp hn
      obtain ⟨ht, ht0, hc0, hpage, hsum', hadd⟩ := hm.round h htables hn0 hsum hc
      have hm' := hm.bytes h c.toNat hpage (by omega)
      obtain ⟨mem', calls, he, hdone, hcalls⟩ :=
        copyLoop_spec h htables rounds (d + c.toNat) (n - c) _ hsum' (by omega) hm'
      refine ⟨mem', ⟨vmmTranslate mem p (virtualAddress + UInt64.ofNat d), source + UInt64.ofNat d, c⟩ :: calls,
        ?_, hdone, fun call hcall => ?_⟩
      · rw [copyLoop_succ hn ht ht0 hc, hadd, hadd, he]
      · cases hcall with
        | head =>
          obtain ⟨htr, -, -⟩ := toNat_translate (h.mapped d (by omega))
          refine ⟨d, by omega, ?_, ?_⟩
          · dsimp only
            omega
          · dsimp only
            omega
        | tail _ hcall => exact hcalls call hcall
    · have hn0 : n.toNat = 0 := Nat.eq_zero_of_not_pos fun hpos => hn (UInt64.lt_iff_toNat_lt.mpr hpos)
      obtain rfl : d = fileSize.toNat := by omega
      refine ⟨m, [], ?_, hm, nofun⟩
      rw [copyLoop, if_neg hn]
      rfl

/-- Two pages of which the first one has the entry `entry`. The other is in frame 0x5000, the tables are in
0x1000 to 0x4000. -/
def twoPages (entry : UInt64) : Memory :=
  let mem := writeEntry (fun x => if x = 0x8008 then 1 else 0) 0x1000 0 0x2007
  let mem := writeEntry mem 0x2000 1 0x3007
  let mem := writeEntry mem 0x3000 0 0x4007
  let mem := writeEntry mem 0x4000 510 entry
  writeEntry mem 0x4000 511 0x5007

theorem copyTarget_twoPages {frame : UInt64}
    (hframe : ∀ i < 9, frameAt mem 0x1000 (0x401FEFF8 + UInt64.ofNat i) = if i < 8 then frame else 0x5000)
    (hf : frame = 0x4000 ∨ frame = 0x6000) : CopyTarget mem 0x1000 0x401FEFF8 9 0x8000 := by
  have hpage : ∀ i < 9, alignDown (0x401FEFF8 + UInt64.ofNat i) = if i < 8 then 0x401FE000 else 0x401FF000 := by
    decide +kernel
  have hsource : ∀ j < 9, (0x8000 + UInt64.ofNat j).toNat = 0x8000 + j := by decide +kernel
  have hne : frame ≠ 0 ∧ frame ≠ 0x5000 ∧ frame.toNat + 4096 ≤ 0x8000 := by
    obtain rfl | rfl := hf
    · decide
    · decide
  obtain ⟨h0, h5, hlow⟩ := hne
  refine ⟨fun i hi => ?_, fun i hi j hj he => ?_, fun i hi j hj hin => ?_⟩
  · rw [hframe i hi]
    split
    · exact h0
    · decide
  · rw [hframe i hi, hframe j hj] at he
    have hside : i < 8 ↔ j < 8 := by
      by_cases hi8 : i < 8
      · by_cases hj8 : j < 8
        · exact iff_of_true hi8 hj8
        · rw [if_pos hi8, if_neg hj8] at he
          exact absurd he h5
      · by_cases hj8 : j < 8
        · rw [if_neg hi8, if_pos hj8] at he
          exact absurd he.symm h5
        · exact iff_of_false hi8 hj8
    rw [hpage i hi, hpage j hj]
    exact if_congr hside rfl rfl
  · rw [hframe i hi, hsource j hj] at hin
    obtain ⟨-, hhigh⟩ := hin
    split at hhigh
    · omega
    · simp only [UInt64.reduceToNat] at hhigh
      omega

/-- **The copy is exact** where the frames hold none of the tables that lead to them. -/
theorem copy_loop_exact (mem : Memory) (p virtualAddress fileSize source : UInt64)
    (h : CopyTarget mem p virtualAddress fileSize source) (htables : TablesApart mem p virtualAddress fileSize)
    (rounds : Nat) (hrounds : fileSize.toNat < rounds) :
    ∃ mem' calls, copyLoop p rounds fileSize virtualAddress source mem = ⟨some (true, mem'), calls⟩ ∧
      CopiedExactly mem p virtualAddress fileSize source mem' calls := by
  have hstart : Copied mem p virtualAddress source 0 mem := ⟨nofun, fun _ _ => rfl⟩
  obtain ⟨mem', calls, he, hdone, hcalls⟩ :=
    copyLoop_spec h htables rounds 0 fileSize mem (Nat.add_zero _) hrounds hstart
  have hzero (a : UInt64) : a + UInt64.ofNat 0 = a := UInt64.add_zero a
  rw [hzero, hzero] at he
  have htranslate {i : Nat} (hi : i < fileSize.toNat) := hdone.translate_eq h htables (Nat.le_refl _) hi
  refine ⟨mem', calls, he, fun i hi => htranslate hi, fun i hi => ?_, hdone.rest, hcalls⟩
  rw [htranslate hi]
  exact hdone.done i hi

/-- With the first page in frame 0x6000. -/
theorem copy_loop_exact_two_pages : ∃ mem' calls,
    copyLoop 0x1000 10 9 0x401FEFF8 0x8000 (twoPages 0x6007) = ⟨some (true, mem'), calls⟩ ∧
      CopiedExactly (twoPages 0x6007) 0x1000 0x401FEFF8 9 0x8000 mem' calls := by
  have hframe : ∀ i < 9, frameAt (twoPages 0x6007) 0x1000 (0x401FEFF8 + UInt64.ofNat i) =
      if i < 8 then 0x6000 else 0x5000 := by
    decide +kernel
  have hwalk : ∀ j < 9, walk (twoPages 0x6007) 0x1000 (0x401FEFF8 + UInt64.ofNat j) =
      [(0x1000, 0), (0x2000, 1), (0x3000, 0), (0x4000, if j < 8 then 510 else 511)] := by
    decide +kernel
  refine copy_loop_exact _ _ _ _ _
    (copyTarget_twoPages hframe (Or.inr rfl)) (fun i hi j hj entry hentry k hk hin => ?_) 10 (by decide)
  rw [hframe i hi] at hin
  rw [hwalk j hj] at hentry
  have hlow : entry.1.toNat + 8 * entry.2.val + k < 0x5000 := by
    have := entry.2.isLt
    have htable : entry.1.toNat ≤ 0x4000 := by
      simp only [List.mem_cons, List.not_mem_nil, or_false] at hentry
      obtain rfl | rfl | rfl | rfl := hentry
      · decide
      · decide
      · decide
      · exact Nat.le_refl _
    omega
  obtain ⟨hin, -⟩ := hin
  split at hin
  · simp only [UInt64.reduceToNat] at hin
    omega
  · simp only [UInt64.reduceToNat] at hin
    omega

/-- Frame 0x4000 is behind the first page, and the page table of both: the first eight bytes go to the entry
of the second page, and the ninth is copied nowhere. -/
theorem copy_loop_overwrites_table : CopyTarget (twoPages 0x4007) 0x1000 0x401FEFF8 9 0x8000 ∧
    ∀ rounds returned mem' calls, copyLoop 0x1000 rounds 9 0x401FEFF8 0x8000 (twoPages 0x4007) =
    ⟨some (returned, mem'), calls⟩ →
      mem' (vmmTranslate mem' 0x1000 (0x401FEFF8 + 8)).toNat ≠ twoPages 0x4007 (0x8000 + 8) ∧
        mem' (vmmTranslate (twoPages 0x4007) 0x1000 (0x401FEFF8 + 8)).toNat ≠ twoPages 0x4007 (0x8000 + 8) := by
  have hframe : ∀ i < 9, frameAt (twoPages 0x4007) 0x1000 (0x401FEFF8 + UInt64.ofNat i) =
      if i < 8 then 0x4000 else 0x5000 := by
    decide +kernel
  have hfirst : vmmTranslate (twoPages 0x4007) 0x1000 0x401FEFF8 = 0x4FF8 := by decide +kernel
  have hsecond : vmmTranslate (copyBytes (twoPages 0x4007) 0x4FF8 0x8000 8) 0x1000 0x401FF000 = 0 := by
    decide +kernel
  refine ⟨copyTarget_twoPages hframe (Or.inl rfl), fun rounds returned mem' calls he => ?_⟩
  match rounds with
  | 0 => cases he
  | 1 =>
    rw [copyLoop_succ (c := 8) (by decide) hfirst (by decide) (by decide)] at he
    cases he
  | rounds + 2 =>
    have hlast : copyLoop 0x1000 (rounds + 1) (9 - 8) (0x401FEFF8 + 8) (0x8000 + 8)
        (copyBytes (twoPages 0x4007) 0x4FF8 0x8000 (8 : UInt64).toNat) =
          ⟨some (false, copyBytes (twoPages 0x4007) 0x4FF8 0x8000 8), []⟩ := by
      rw [copyLoop, if_pos (by decide)]
      exact if_pos hsecond
    rw [copyLoop_succ (c := 8) (by decide) hfirst (by decide) (by decide), hlast] at he
    obtain ⟨-, rfl⟩ := Prod.mk.inj (Option.some.inj (congrArg Traced.val he))
    constructor
    · decide +kernel
    · decide +kernel

/-! ## The loader -/

theorem Copied.copyMemory_eq (hm : Copied mem p virtualAddress source d m)
    (h : CopyTarget mem p virtualAddress fileSize source) {data : Memory} {o : Nat}
    (hdata : ∀ i < fileSize.toNat, data (o + i) = mem (source + UInt64.ofNat i).toNat) :
    ∀ k, (virtualAddress + UInt64.ofNat d).toNat % 4096 + k ≤ 4096 → d + k ≤ fileSize.toNat →
      copyMemory m (vmmTranslate mem p (virtualAddress + UInt64.ofNat d)).toNat data (o + d) k =
        copyBytes m (vmmTranslate mem p (virtualAddress + UInt64.ofNat d)) (source + UInt64.ofNat d) k
  | 0, _, _ => rfl
  | k + 1, hpage, hk => by
    have ih := hm.copyMemory_eq h hdata k (by omega) (by omega)
    have hbytes := hm.bytes h k (by omega) (by omega)
    obtain ⟨htr, hmod, hlt⟩ := toNat_translate (h.mapped d (by omega))
    have hofNat : (UInt64.ofNat k).toNat = k := UInt64.toNat_ofNat_of_lt (by rw [UInt64.size]; omega)
    have hbyte : data (o + d + k) = mem (source + UInt64.ofNat d + UInt64.ofNat k).toNat := by
      rw [Nat.add_assoc, hdata (d + k) (by omega), UInt64.ofNat_add, UInt64.add_assoc]
    have hsource := hbytes.source_eq h (by omega) (j := d + k) (by omega)
    rw [UInt64.ofNat_add, ← UInt64.add_assoc] at hsource
    have hdest : (vmmTranslate mem p (virtualAddress + UInt64.ofNat d) + UInt64.ofNat k).toNat =
        (vmmTranslate mem p (virtualAddress + UInt64.ofNat d)).toNat + k := by
      rw [toNat_add_of_lt (by rw [hofNat]; omega), hofNat]
    rw [copyMemory, copyBytes, ih, hbyte, hdest]
    exact congrArg _ hsource.symm

/-- With the file in an array of its own, the loop of `copySegment` comes to the same memory. -/
theorem copySegment_eq_copyLoop (h : CopyTarget mem p virtualAddress fileSize source)
    (htables : TablesApart mem p virtualAddress fileSize) {data : Memory} {offset : UInt64}
    (hoffset : offset.toNat + fileSize.toNat < 2 ^ 64)
    (hdata : ∀ i < fileSize.toNat, data (offset.toNat + i) = mem (source + UInt64.ofNat i).toNat) :
    ∀ (fuel rounds d : Nat) (n : UInt64) (m : Memory), n.toNat + d = fileSize.toNat → n.toNat ≤ fuel →
      n.toNat < rounds →
      Copied mem p virtualAddress source d m →
        (copyLoop p rounds n (virtualAddress + UInt64.ofNat d) (source + UInt64.ofNat d) m).val =
          some (copySegment p data fuel n (virtualAddress + UInt64.ofNat d) (offset + UInt64.ofNat d) m)
  | fuel, 0, _, _, _, _, _, hrounds, _ => absurd hrounds (Nat.not_lt_zero _)
  | 0, rounds + 1, d, n, m, hsum, hfuel, _, hm => by
    have hn : ¬ n > 0 := fun hpos => by
      have : 0 < n.toNat := UInt64.lt_iff_toNat_lt.mp hpos
      omega
    rw [copyLoop, if_neg hn]
    rfl
  | fuel + 1, rounds + 1, d, n, m, hsum, hfuel, hrounds, hm => by
    by_cases hn : n > 0
    · generalize hc : (if n < pageSize - ((virtualAddress + UInt64.ofNat d) &&& (pageSize - 1)) then n
        else pageSize - ((virtualAddress + UInt64.ofNat d) &&& (pageSize - 1))) = c
      have hn0 : 0 < n.toNat := UInt64.lt_iff_toNat_lt.mp hn
      have hne : n ≠ 0 := fun h0 => by simp [h0] at hn0
      obtain ⟨ht, ht0, hc0, hpage, hsum', hadd⟩ := hm.round h htables hn0 hsum hc
      have hm' := hm.bytes h c.toNat hpage (by omega)
      have ih :=
        copySegment_eq_copyLoop h htables hoffset hdata fuel rounds (d + c.toNat) (n - c) _ hsum' (by omega)
          (by omega) hm'
      have hlt := fileSize.toNat_lt
      have hofNat : (UInt64.ofNat d).toNat = d := UInt64.toNat_ofNat_of_lt (by rw [UInt64.size]; omega)
      have hoff : (offset + UInt64.ofNat d).toNat = offset.toNat + d := by
        rw [toNat_add_of_lt (by rw [hofNat]; omega), hofNat]
      rw [copyLoop_succ hn ht ht0 hc, hadd, hadd, ih, copySegment, if_neg hne]
      simp only [ht, if_neg ht0, hc, hoff, hm.copyMemory_eq h hdata c.toNat hpage (by omega), hadd]
    · have hn0 : n = 0 :=
        (eq_zero_iff_toNat n).mpr (Nat.eq_zero_of_not_pos fun hpos => hn (UInt64.lt_iff_toNat_lt.mpr hpos))
      rw [copyLoop, if_neg hn, copySegment, if_pos hn0]
      rfl

theorem copySegment_exact (h : CopyTarget mem p virtualAddress fileSize source)
    (htables : TablesApart mem p virtualAddress fileSize) {data : Memory} {offset : UInt64}
    (hoffset : offset.toNat + fileSize.toNat < 2 ^ 64)
    (hdata : ∀ i < fileSize.toNat, data (offset.toNat + i) = mem (source + UInt64.ofNat i).toNat) {fuel : Nat}
    (hfuel : fileSize.toNat ≤ fuel) :
    ∃ mem' calls, copySegment p data fuel fileSize virtualAddress offset mem = (true, mem') ∧
      CopiedExactly mem p virtualAddress fileSize source mem' calls := by
  have hzero (a : UInt64) : a + UInt64.ofNat 0 = a := UInt64.add_zero a
  obtain ⟨mem', calls, he, hcopied⟩ :=
    copy_loop_exact mem p virtualAddress fileSize source h htables (fileSize.toNat + 1) (Nat.lt_succ_self _)
  have hsame :=
    copySegment_eq_copyLoop h htables hoffset hdata fuel (fileSize.toNat + 1) 0 fileSize mem
      (Nat.add_zero _) hfuel
    (Nat.lt_succ_self _) ⟨nofun, fun _ _ => rfl⟩
  rw [hzero, hzero, hzero, he] at hsame
  exact ⟨mem', calls, (Option.some.inj hsame).symm, hcopied⟩

section
variable {α : Type} [PageAllocator α] [CompletePageAllocator α] {L : Layout} {s₀ s : Vmm α} {T₀ T : TableMap}
  {frames : Nat → Option UInt64} {bytes : Nat → UInt8}

theorem Loading.frameAt_eq (h : Loading L s₀ T₀ p s T frames bytes) {f : UInt64}
    (hf : frames (v.toNat / 4096) = some f) :
    frameAt s.mem p v = f := by
  have halign := toNat_alignDown v
  obtain ⟨htr, -, -⟩ :=
    h.translate (v := alignDown v) (d := f) (by rw [halign, Nat.mul_div_cancel _ (by decide)]; exact hf)
  apply UInt64.toNat_inj.mp
  rw [frameAt, htr, halign, Nat.mul_mod_left, Nat.add_zero]

theorem Loading.copyTarget (h : Loading L s₀ T₀ p s T frames bytes)
    (hmapped : ∀ i < fileSize.toNat, frames ((virtualAddress + UInt64.ofNat i).toNat / 4096) ≠ none)
    (hsource : ∀ {n f}, frames n = some f → ∀ j < fileSize.toNat, ¬ InFrame f (source + UInt64.ofNat j).toNat) :
    CopyTarget s.mem p virtualAddress fileSize source where
  mapped i hi := by
    obtain ⟨f, hf⟩ := Option.ne_none_iff_exists'.mp (hmapped i hi)
    rw [h.frameAt_eq hf]
    exact (h.frame hf).1
  distinct i hi j hj he := by
    obtain ⟨f, hf⟩ := Option.ne_none_iff_exists'.mp (hmapped i hi)
    obtain ⟨f', hf'⟩ := Option.ne_none_iff_exists'.mp (hmapped j hj)
    rw [h.frameAt_eq hf, h.frameAt_eq hf'] at he
    apply UInt64.toNat_inj.mp
    rw [toNat_alignDown, toNat_alignDown, h.inj hf (he ▸ hf')]
  source i hi j hj := by
    obtain ⟨f, hf⟩ := Option.ne_none_iff_exists'.mp (hmapped i hi)
    rw [h.frameAt_eq hf]
    exact hsource hf j hj

/-- A load copies to frames that it has taken itself, and they are no tables. -/
theorem Loading.tablesApart (h : Loading L s₀ T₀ p s T frames bytes)
    (hmapped : ∀ i < fileSize.toNat, frames ((virtualAddress + UInt64.ofNat i).toNat / 4096) ≠ none) :
    TablesApart s.mem p virtualAddress fileSize := by
  intro i hi j hj entry hentry k hk hin
  obtain ⟨f, hf⟩ := Option.ne_none_iff_exists'.mp (hmapped i hi)
  rw [h.frameAt_eq hf] at hin
  have hlen : (path (virtualAddress + UInt64.ofNat j)).length ≤ (Label.root p).rank + 1 := Nat.le_refl 4
  obtain ⟨ℓ, hlabel, -⟩ := h.tabled.labelled.trail_label (h.mono h.root) hlen hentry
  have hapart := h.tabled.apart hlabel (h.frame hf).2.1 (h.frame hf).2.2.2
  have := entry.2.isLt
  unfold InFrame at hin
  omega

end

end KernelOs
