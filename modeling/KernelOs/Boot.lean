import KernelOs.BootRoutines

/-!
# From the bootloader to `kernel_main`

What `boot.S` does on every processor, and that it leaves the tables from which the kernel starts.
-/

namespace KernelOs
open Lib

section
variable {k : BootImage} {x : Processor} {fetch : Nat → Option (Instr × UInt32)} {P : End → Prop} {c : Cpu32}
  {l : BootLabel} {n : Nat}

/-! ## The way through -/

theorem eventually_call (hk : k.Loaded fetch) (hlinked : k.Linked) (heip : c.eip = k.place l n)
    (hcr0 : c.cr0.toNat.testBit 31 = false) (hesp : c.gpr .esp = k.stackTop) {target : UInt32}
    (hi : (bootCode k l)[n]? = some (.call target))
    (h : ∀ c', BootCalled k (k.place l (n + 1)) c' → BootLeft k.InStack target c c' →
      (∀ r, r ≠ .esp → c'.gpr r = c.gpr r) →
      Eventually (step32 x fetch) P c') : Eventually (step32 x fetch) P c := by
  have hbss := hlinked.bss
  have h4 : (k.stackTop - 4).toNat = k.bss.toNat + 0x7000 - 4 := hlinked.toNat_stackTop_sub (by decide)
  have htop := hlinked.toNat_stackTop
  have hflat : (c.goTo (k.place l (n + 1))).Flat x (2 ^ 32) := Cpu32.flat_of_not_paging hcr0
  have hesp' : (c.goTo (k.place l (n + 1))).gpr .esp = k.stackTop := hesp
  have hpush := hflat.push (Nat.le_refl _) (k.place l (n + 1)) (by rw [hesp', h4]; omega)
  rw [hesp'] at hpush
  have hexec : exec x (c.goTo (k.place l (n + 1))) (.call target) = .next ((((c.goTo (k.place l (n + 1))).withMem
      (c.mem.store32 (k.stackTop - 4).toNat (k.place l (n + 1)))).set .esp (k.stackTop - 4)).goTo target) := by
    have hcall : exec x (c.goTo (k.place l (n + 1))) (.call target) =
        ofOption (((c.goTo (k.place l (n + 1))).push x (k.place l (n + 1))).map fun c => c.goTo target) := rfl
    rw [hcall, hpush]
    rfl
  refine eventually_instr hk heip hcr0 hi hexec (h _ ⟨rfl, Memory.load32_store32 .., hcr0⟩ ?_ fun r hr =>
    Function.update_of_ne hr ..)
  refine ⟨⟨rfl, rfl, rfl, rfl, rfl, rfl, rfl, fun a ha => ?_⟩, rfl⟩
  rw [BootImage.InStack, htop] at ha
  exact Memory.store32_of_lt c.mem _ (by rw [h4]; omega)

/-! ### The descriptors -/

/-- A descriptor that the processor finds. -/
theorem lookup_segments (hlinked : k.Linked) (hflat : c.Flat x (2 ^ 30)) (hbase : c.gdtBase = k.gdt64)
    (hlimit : c.gdtLimit = 23) {i : Nat} (selector : UInt16) (hselector : selector.toNat = 8 * i) (h0 : 0 < i)
    (h3 : i < 3) {raw : UInt64} (hraw : c.mem.load64 (k.gdt64.toNat + 8 * i) = raw) :
    (c.segments x).lookup selector = some (.decode raw) := by
  have hrodata := hlinked.rodata
  have hbss := hlinked.bss
  have haddr : (k.gdt64 + UInt32.ofNat (8 * i)).toNat = k.gdt64.toNat + 8 * i := by
    rw [BootImage.gdt64, UInt32.toNat_add, UInt32.toNat_ofNat_of_lt' (by change 8 * i < 2 ^ 32; omega),
      Nat.mod_eq_of_lt (by omega)]
  have hroom : (k.gdt64 + UInt32.ofNat (8 * i)).toNat + 8 ≤ 2 ^ 30 := by
    rw [haddr, BootImage.gdt64]
    omega
  have hslot : (c.segments x).slot i = raw := by
    change ((c.physical x (c.gdtBase + UInt32.ofNat (8 * i)) 8).map c.mem.load64).getD 0 = _
    rw [hbase, hflat.physical (by decide) (by decide) hroom, Option.map_some, Option.getD_some, haddr, hraw]
  have hlim : (c.segments x).limit = 23 := congrArg UInt16.toNat hlimit
  have hindex : selector.toNat / 8 = i := by omega
  unfold SegmentTable.lookup
  rw [hlim, if_neg (by omega), if_neg (by omega), if_neg (by omega), hindex, hslot]

theorem ljmp_eq (hlookup : (c.segments x).lookup gdt64CodeOffset = some (.decode (gdt64Entries.getD 1 0)))
    {d : Cpu32} (hmark : c.markSegment x gdt64CodeOffset = d) (hlong : d.longMode = true) (target : UInt32) :
    c.ljmp x gdt64CodeOffset target = .stop (.long (d.enter64 x gdt64CodeOffset target) d) := by
  have hfar : (c.segments x).far 0 gdt64CodeOffset = .code := by
    rw [SegmentTable.far, hlookup]
    decide
  have hbit : (Descriptor.decode (gdt64Entries.getD 1 0)).flags.testBit 1 = true := by decide
  rw [Cpu32.ljmp, hfar, hlookup]
  dsimp only
  rw [hmark, hlong, hbit, Bool.and_self, if_pos rfl]

/-- The byte with the accessed bit of a descriptor is marked. -/
theorem markSegment_eq (hlinked : k.Linked) (hflat : c.Flat x (2 ^ 30)) (hbase : c.gdtBase = k.gdt64)
    (selector : UInt16) {p : Nat} (hp : k.gdt64.toNat + (selector.toNat / 8 * 8 + 5) = p)
    (hselector : selector.toNat < 24) :
    c.markSegment x selector = c.withMem (c.mem.store8 p (c.mem p ||| 1)) := by
  have hrodata := hlinked.rodata
  have hbss := hlinked.bss
  have haddr : (k.gdt64 + UInt32.ofNat (selector.toNat / 8 * 8 + 5)).toNat = p := by
    rw [← hp, BootImage.gdt64, UInt32.toNat_add, UInt32.toNat_ofNat_of_lt' (by change _ < 2 ^ 32; omega),
      Nat.mod_eq_of_lt (by omega)]
  have hroom : (k.gdt64 + UInt32.ofNat (selector.toNat / 8 * 8 + 5)).toNat + 1 ≤ 2 ^ 30 := by
    rw [haddr, ← hp, BootImage.gdt64]
    omega
  rw [Cpu32.markSegment, hbase, hflat.physical (by decide) (by decide) hroom, haddr]

/-- What the far jump has done to the descriptors. -/
def marked (k : BootImage) (m : Memory) (a : Nat) : UInt8 := if a = k.gdt64.toNat + 13 then m a ||| 1 else m a

/-- Behind `lgdt` and `ljmp`, for 64-bit code. -/
structure BootJumped (k : BootImage) (x : Processor) (c c' : Cpu32) : Prop extends BootLong k c' where
  gpr : c'.gpr = c.gpr
  eflags : c'.eflags = c.eflags
  cr0 : c'.cr0 = c.cr0
  cr4 : c'.cr4 = c.cr4
  efer : c'.efer = c.efer
  gdtBase : c'.gdtBase = k.gdt64
  data : (c'.segments x).lookup gdt64DataOffset = some (.decode (gdt64Entries.getD 2 0))
  mem : ∀ a, ¬ k.InTables a → c'.mem a = marked k c.mem a

/-- The last step of 32-bit code. -/
theorem ljmp_marked (hlinked : k.Linked) (hx : x.walk = bootWalk) (hc : BootLong k c) (hbase : c.gdtBase = k.gdt64)
    (hlimit : c.gdtLimit = 23) (hgdt : ∀ i < 3, c.mem.load64 (k.gdt64.toNat + 8 * i) = gdt64Entries.getD i 0)
    (target : UInt32) :
    ∃ c', c.ljmp x gdt64CodeOffset target = .stop (.long (c'.enter64 x gdt64CodeOffset target) c') ∧
      BootJumped k x c c' := by
  have hrodata := hlinked.rodata
  have hflat := hc.flat hlinked hx
  have hmark := markSegment_eq (p := k.gdt64.toNat + 13) hlinked hflat hbase gdt64CodeOffset rfl (by decide)
  have hother {a : Nat} (ha : a ≠ k.gdt64.toNat + 13) : c.mem.store8 (k.gdt64.toNat + 13)
      (c.mem (k.gdt64.toNat + 13) ||| 1) a = c.mem a :=
    Memory.store8_of_ne _ _ ha
  have hcode :=
    lookup_segments hlinked hflat hbase hlimit gdt64CodeOffset rfl (by decide) (by decide) (hgdt 1 (by decide))
  generalize hd : c.markSegment x gdt64CodeOffset = d at *
  have hlong : BootLong k d := by
    rw [hmark]
    refine ⟨hc.paging, hc.longMode, hc.cr3, tables_congr hlinked hc.tables fun a ha => hother ?_⟩
    have hin := ha.1
    rw [BootImage.gdt64]
    omega
  have hdata : d.mem.load64 (k.gdt64.toNat + 8 * 2) = gdt64Entries.getD 2 0 := by
    rw [← hgdt 2 (by decide), hmark]
    exact Memory.load64_congr fun i _ => hother (by omega)
  have hlookup : (d.segments x).lookup gdt64DataOffset = some (.decode (gdt64Entries.getD 2 0)) := by
    refine lookup_segments hlinked (hlong.flat hlinked hx) ?_ ?_ gdt64DataOffset rfl (by decide) (by decide) hdata
    · rw [hmark]
      exact hbase
    · rw [hmark]
      exact hlimit
  refine ⟨d, ?_, hlong, ?_, ?_, ?_, ?_, ?_, ?_, hlookup, fun a _ => ?_⟩
  · exact ljmp_eq hcode hd hlong.longMode target
  · rw [hmark]; rfl
  · rw [hmark]; rfl
  · rw [hmark]; rfl
  · rw [hmark]; rfl
  · rw [hmark]; rfl
  · rw [hmark]
    exact hbase
  · rw [hmark, marked]
    by_cases ha : a = k.gdt64.toNat + 13
    · rw [if_pos ha, ha]
      exact Memory.store8_same ..
    · rw [if_neg ha]
      exact hother ha

/-- `lgdt` and `ljmp`. -/
theorem eventually_long (hk : k.Loaded fetch) (hlinked : k.Linked) (hx : x.walk = bootWalk)
    (hmarks : MarksWalks x) (hc : BootLong k c) (heip : c.eip = k.place .start 9)
    (hgdt : ∀ i < 3, c.mem.load64 (k.gdt64.toNat + 8 * i) = gdt64Entries.getD i 0)
    (hlimit : c.mem.loadLe k.gdt64Pointer.toNat 2 = 23)
    (hbase : c.mem.load32 (k.gdt64Pointer.toNat + 2) = k.gdt64)
    (h : ∀ c', BootJumped k x c c' → P (.long (c'.enter64 x gdt64CodeOffset k.longModeStart) c')) :
    Eventually (step32 x fetch) P c := by
  have hrodata := hlinked.rodata
  have hbss := hlinked.bss
  have hpointer := hlinked.toNat_gdt64Pointer
  have hplace {n : Nat} (hn : n < 11) : (k.place .start n).toNat < 2 ^ 30 := by
    have := (hlinked.place .start n hn).2
    omega
  have houtside {a : Nat} (ha : k.rodata.toNat ≤ a ∧ a < k.rodata.toNat + 34) : ¬ k.InTables a := fun hin => by
    have := hin.1
    omega
  obtain ⟨hc₁, hmem₁⟩ := hc.touched hlinked hmarks
  have hflat₁ := hc₁.flat hlinked hx
  have htouched₁ : c.touched x = c.withMem (x.touch c) := Cpu32.touched_of_paging hc.paging
  have hphysical : ((c.touched x).goTo (k.place .start 10)).physical x k.gdt64Pointer 6 =
      some k.gdt64Pointer.toNat :=
    Cpu32.Flat.physical (c := (c.touched x).goTo (k.place .start 10)) hflat₁ (by decide) (by decide) (by omega)
  have hlimit₁ : (c.touched x).mem.loadLe k.gdt64Pointer.toNat 2 = 23 :=
    (Memory.loadLe_congr fun i hi => hmem₁ _ (houtside (by omega))).trans hlimit
  have hbase₁ : (c.touched x).mem.load32 (k.gdt64Pointer.toNat + 2) = k.gdt64 :=
    (Memory.load32_congr fun i hi => hmem₁ _ (houtside (by omega))).trans hbase
  have hlgdt : exec x ((c.touched x).goTo (k.place .start 10)) (.lgdt k.gdt64Pointer) =
      .next (((c.touched x).goTo (k.place .start 10)).withGdt 23 k.gdt64) := by
    rw [exec, hphysical]
    change Outcome.next (((c.touched x).goTo (k.place .start 10)).withGdt
      (UInt16.ofNat ((c.touched x).mem.loadLe k.gdt64Pointer.toNat 2))
        ((c.touched x).mem.load32 (k.gdt64Pointer.toNat + 2))) = _
    rw [hlimit₁, hbase₁]
    rfl
  refine .next ((next_place hk rfl heip (hflat₁ _ (heip ▸ hplace (by decide)))).trans hlgdt) ?_
  rw [htouched₁] at hc₁ hmem₁ ⊢
  generalize hd : ((c.withMem (x.touch c)).goTo (k.place .start 10)).withGdt 23 k.gdt64 = d
  have hlong : BootLong k d := by
    rw [← hd]
    exact ⟨hc.paging, hc.longMode, hc.cr3, hc₁.tables⟩
  have heip' : d.eip = k.place .start 10 := by rw [← hd]; rfl
  obtain ⟨hc₂, hmem₂⟩ := hlong.touched hlinked hmarks
  have htouched₂ : d.touched x = d.withMem (x.touch d) := Cpu32.touched_of_paging hlong.paging
  have hmem {a : Nat} (ha : ¬ k.InTables a) : (d.touched x).mem a = c.mem a := by
    rw [hmem₂ a ha, ← hd]
    exact hmem₁ a ha
  have hgdt₂ : ∀ i < 3, (d.touched x).mem.load64 (k.gdt64.toNat + 8 * i) = gdt64Entries.getD i 0 := fun i hi =>
    (Memory.load64_congr fun n hn => hmem (houtside (by rw [BootImage.gdt64]; omega))).trans (hgdt i hi)
  obtain ⟨c', hjump, hjumped⟩ := ljmp_marked (c := (d.touched x).goTo (k.place .start 11)) hlinked hx
    ⟨hc₂.paging, hc₂.longMode, hc₂.cr3,
      hc₂.tables⟩ (by rw [htouched₂, ← hd]; rfl) (by rw [htouched₂, ← hd]; rfl) hgdt₂ k.longModeStart
  have hflat₂ := hc₂.flat hlinked hx
  refine .stop ((next_place hk rfl heip' (hflat₂ _ (heip' ▸ hplace (by decide)))).trans hjump) (h c' ?_)
  refine { hjumped with gpr := ?_, eflags := ?_, cr0 := ?_, cr4 := ?_, efer := ?_, mem := fun a ha => ?_ }
  · rw [hjumped.gpr, htouched₂, ← hd]; rfl
  · rw [hjumped.eflags, htouched₂, ← hd]; rfl
  · rw [hjumped.cr0, htouched₂, ← hd]; rfl
  · rw [hjumped.cr4, htouched₂, ← hd]; rfl
  · rw [hjumped.efer, htouched₂, ← hd]; rfl
  · have hsame : ((d.touched x).goTo (k.place .start 11)).mem a = c.mem a := hmem ha
    rw [hjumped.mem a ha, marked, marked, hsame]

/-- From the far jump to `kernel_main`. -/
theorem longModeStart_eq {t : Cpu32} {s : Core}
    (hlookup : (t.segments x).lookup gdt64DataOffset = some (.decode (gdt64Entries.getD 2 0)))
    (hcpl : s.cpl = 0) : ∃ gpr, gpr .rdi = s.cpu.gpr .rdi ∧ gpr .rsi = s.cpu.gpr .rsi ∧
      longModeStart k x t s = some
        { cpu :=
            { s.cpu with
              gpr := gpr
              rsp := k.stackTop.toUInt64 - 8
              rip := k.kernelMain
              ss := gdt64DataOffset.toUInt64
              mem := x.touch (t.withMem
                ((t.markSegment x gdt64DataOffset).mem.store64 (k.stackTop.toUInt64 - 8).toNat k.hang)) }
          data := fun _ => gdt64DataOffset } := by
  have hloads : (t.segments x).loads 0 gdt64DataOffset = true := by
    rw [SegmentTable.loads, hlookup]
    decide
  have hstack : (t.segments x).stack 0 gdt64DataOffset = true := by
    rw [SegmentTable.stack, hlookup]
    decide
  refine ⟨_, ?_, ?_, by rw [longModeStart, hcpl, hloads, hstack, Bool.and_self, if_pos rfl]; rfl⟩
  · rfl
  · rfl

end

/-- The first instruction of `kernel_main`: 64-bit code in ring 0 without interrupts, with the two words
that the bootloader has handed over, under the tables from which the kernel starts. The processor has marked
those and the two descriptors that it has loaded. -/
structure EntersKernel (k : BootImage) (c : Cpu32) (core : Core) (control : Cpu32) : Prop where
  rip : core.cpu.rip = k.kernelMain
  magic : (core.cpu.gpr .rdi).toUInt32 = c.gpr .eax
  info : (core.cpu.gpr .rsi).toUInt32 = c.gpr .ebx
  rsp : core.cpu.rsp = k.stackTop.toUInt64 - 8
  back : core.cpu.mem.load64 core.cpu.rsp.toNat = k.hang
  interrupts : core.cpu.interruptFlag = false
  segments : core.cpu.cs = 8 ∧ core.cpu.ss = 16 ∧ ∀ r, core.data r = 16
  cr0 : control.cr0 = c.cr0 ||| 0x80000000
  cr4 : control.cr4 = c.cr4 ||| 0x20
  efer : control.efer = c.efer ||| 0x500
  identity : ∀ v, v.toNat < 2 ^ 48 →
    translation core.cpu.mem control.cr3.toUInt64 v =
    if v.toNat < 2 ^ 30 then some ⟨v, false, true, false⟩ else none
  booted : ∀ bytes tasks, Booted control.cr3.toUInt64 (⟨core.cpu.mem, kernelPmm bytes tasks⟩ : Vmm Pmm)
  accessed : ∀ i ∈ [13, 21], core.cpu.mem (k.gdt64.toNat + i) = c.mem (k.gdt64.toNat + i) ||| 1
  mem : ∀ a, ¬ k.InStack a → ¬ k.InTables a → a ≠ k.gdt64.toNat + 13 → a ≠ k.gdt64.toNat + 21 →
    core.cpu.mem a = c.mem a

/-- Stopped for good, without interrupts and with the reason on the screen. -/
structure BootStopped (k : BootImage) (code : Char) (c c' : Cpu32) : Prop where
  screen : ∀ i < 12, c'.mem (0xB8000 + i) = (errorCells code.toUInt8).getD i 0
  interrupts : c'.eflags.toNat.testBit 9 = false
  paging : c'.paging = false
  mem : ∀ a, ¬ k.InStack a → ¬ (0xB8000 ≤ a ∧ a < 0xB800C) → c'.mem a = c.mem a

section
variable {k : BootImage} {x : Processor} {fetch : Nat → Option (Instr × UInt32)} {c c' d : Cpu32}

/-- Behind the first four instructions. -/
structure BootStarted (k : BootImage) (c d : Cpu32) : Prop where
  eip : d.eip = k.place .start 4
  esp : d.gpr .esp = k.stackTop
  eax : d.gpr .eax = c.gpr .eax
  edi : d.gpr .edi = c.gpr .eax
  esi : d.gpr .esi = c.gpr .ebx
  cr0 : d.cr0 = c.cr0
  cr4 : d.cr4 = c.cr4
  efer : d.efer = c.efer
  eflags : d.eflags = c.eflags
  mem : d.mem = c.mem

theorem BootStarted.stopped (hs : BootStarted k c d) (hc : Handoff k c) {code : Char} {d₁ d₂ : Cpu32}
    (hkept : BootKept k.InStack d d₁) (hcode : (d₁.gpr .eax).toUInt8 = code.toUInt8)
    (hhalted : BootKept (fun a => 0xB8000 ≤ a ∧ a < 0xB800C) d₁ d₂)
    (hcells : ∀ i < 12, d₂.mem (0xB8000 + i) = (errorCells (d₁.gpr .eax).toUInt8).getD i 0) :
    BootStopped k code c d₂ where
  screen i hi := by rw [hcells i hi, hcode]
  interrupts := by rw [hhalted.interrupts, hkept.interrupts, hs.eflags, hc.interrupts]
  paging := by rw [Cpu32.paging, hhalted.cr0, hkept.cr0, hs.cr0, hc.cr0.2]
  mem a ha ha' := by rw [hhalted.mem a ha', hkept.mem a ha, hs.mem]

/-- Where the way from the bootloader ends. -/
inductive BootOutcome (k : BootImage) (x : Processor) (c : Cpu32) : End → Prop
  | noMultiboot {c' : Cpu32} : c.gpr .eax ≠ 0x36d76289 → BootStopped k '0' c c' → BootOutcome k x c (.halted c')
  | noCpuid {c' : Cpu32} : c.gpr .eax = 0x36d76289 → x.writable.toNat.testBit 21 = false → BootStopped k '1' c c' →
      BootOutcome k x c (.halted c')
  | noLongMode {c' : Cpu32} : c.gpr .eax = 0x36d76289 → x.writable.toNat.testBit 21 = true → hasLongMode x = false →
      BootStopped k '2' c c' → BootOutcome k x c (.halted c')
  | kernel {s core : Core} {control : Cpu32} : c.gpr .eax = 0x36d76289 → x.writable.toNat.testBit 21 = true →
      hasLongMode x = true → s.cpu.rip = k.longModeStart.toUInt64 → longModeStart k x control s = some core →
      EntersKernel k c core control → BootOutcome k x c (.long s control)

theorem toUInt32_enter (h : UInt64) (v : UInt32) : (h &&& 0xFFFFFFFF00000000 ||| v.toUInt64).toUInt32 = v := by
  have hv := v.toNat_lt
  refine UInt32.toNat_inj.mp ?_
  rw [UInt64.toNat_toUInt32, UInt64.toNat_or, UInt64.toNat_and, Nat.or_mod_two_pow (n := 32),
    Nat.and_mod_two_pow (n := 32)]
  have hmask : (0xFFFFFFFF00000000 : UInt64).toNat % 2 ^ 32 = 0 := by decide
  rw [hmask, Nat.and_zero, Nat.zero_or, UInt32.toNat_toUInt64, Nat.mod_eq_of_lt hv]

/-- What `long_mode_start` writes: the mark of the data descriptor and the address on the stack. -/
def started (k : BootImage) (m : Memory) : Memory :=
  (m.store8 (k.gdt64.toNat + 21) (m (k.gdt64.toNat + 21) ||| 1)).store64 (k.stackTop.toUInt64 - 8).toNat k.hang

theorem started_of_ne (hlinked : k.Linked) (m : Memory) {a : Nat} (ha : ¬ k.InStack a)
    (hdata : a ≠ k.gdt64.toNat + 21) :
    started k m a = m a := by
  have htop := hlinked.toNat_stackTop
  have hsp := hlinked.toNat_stackTop_sub_eight
  rw [BootImage.InStack] at ha
  rw [started, Memory.store64_of_lt _ _ (by omega), Memory.store8_of_ne _ _ hdata]

theorem started_data (hlinked : k.Linked) (m : Memory) :
    started k m (k.gdt64.toNat + 21) = m (k.gdt64.toNat + 21) ||| 1 := by
  have hrodata := hlinked.rodata
  have hsp := hlinked.toNat_stackTop_sub_eight
  rw [started, Memory.store64_of_lt _ _ (by rw [hsp, BootImage.gdt64]; omega), Memory.store8_same]

theorem started_tables (hlinked : k.Linked) {m : Memory} (h : k.Tables m) : k.Tables (started k m) := by
  have hrodata := hlinked.rodata
  refine tables_congr hlinked h fun a ha => started_of_ne hlinked _ (hlinked.not_inStack ha) ?_
  have hin := ha.1
  rw [BootImage.gdt64]
  omega

theorem BootJumped.mem_started (hjumped : BootJumped k x d c') (hlinked : k.Linked) (hx : x.walk = bootWalk) :
    (c'.markSegment x gdt64DataOffset).mem.store64 (k.stackTop.toUInt64 - 8).toNat k.hang = started k c'.mem := by
  rw [markSegment_eq (p := k.gdt64.toNat + 21) hlinked (hjumped.flat hlinked hx) hjumped.gdtBase gdt64DataOffset rfl
    (by decide)]
  rfl

/-- The tables lie in the range that `kernel_main` reserves. -/
theorem BootImage.Tables.booted {m : Memory} (h : k.Tables m) (hlinked : k.Linked) (bytes : Nat → UInt8)
    (tasks : Nat) : Booted k.pml4Table.toUInt64 (⟨m, kernelPmm bytes tasks⟩ : Vmm Pmm) := by
  obtain ⟨h1, h2, h3⟩ := hlinked.isFrame_tables
  obtain ⟨h12, h13, h23⟩ := hlinked.tables_ne
  refine BootTables.booted bytes tasks h h1 h2 h3 h12 h13 h23 ?_
  have hbss := hlinked.bss
  have hrodata := hlinked.rodata
  have hpdpt := hlinked.toNat_pdptTable
  have hpd := hlinked.toNat_pdTable
  have hplace := hlinked.place .start 0 (Nat.succ_pos _)
  simp only [List.forall_mem_cons, UInt32.toNat_toUInt64, BootImage.pml4Table, List.not_mem_nil, false_implies,
    implies_true, and_true]
  omega

theorem EntersKernel.of_paged (hlinked : k.Linked) (hx : x.walk = bootWalk) (hmarks : MarksWalks x)
    (hc : Handoff k c) (hs : BootStarted k c d) {d₁ d₂ : Cpu32} {back : UInt32} (hkept : BootKept k.InBoot d d₁)
    (hpaged : BootPaged k back d₁ d₂) (hjumped : BootJumped k x d₂ c') :
    ∃ core, longModeStart k x c' (c'.enter64 x gdt64CodeOffset k.longModeStart) = some core ∧
      EntersKernel k c core c' := by
  have hcpl : (c'.enter64 x gdt64CodeOffset k.longModeStart).cpl = 0 := by
    change (gdt64CodeOffset &&& 0xFFFC).toUInt64.toNat % 4 = 0
    decide
  obtain ⟨gpr, hrdi, hrsi, hstart⟩ := longModeStart_eq (k := k) hjumped.data hcpl
  have hrodata := hlinked.rodata
  have hbss := hlinked.bss
  have htop := hlinked.toNat_stackTop
  have hsp := hlinked.toNat_stackTop_sub_eight
  rw [hjumped.mem_started hlinked hx] at hstart
  obtain ⟨htouched, hrest⟩ :=
    touch_tables (c := c'.withMem (started k c'.mem)) hlinked hmarks hjumped.cr3 (started_tables hlinked hjumped.tables)
  -- what the bytes beside the tables come from
  have hbefore {a : Nat} (ha : ¬ k.InStack a) (ha' : ¬ k.InTables a) : d₂.mem a = c.mem a :=
    (hpaged.mem a ha').trans ((hkept.mem a fun h => h.elim ha ha').trans (congrFun hs.mem a))
  have hrodata' {i : Nat} (hi : i < 34) : ¬ k.InStack (k.gdt64.toNat + i) ∧ ¬ k.InTables (k.gdt64.toNat + i) := by
    rw [BootImage.InStack, BootImage.InTables, BootImage.gdt64, htop]
    omega
  obtain ⟨-, hpdpt, hpd⟩ := hlinked.isFrame_tables
  have hpml4 : c'.cr3.toUInt64 = k.pml4Table.toUInt64 := congrArg UInt32.toUInt64 hjumped.cr3
  refine ⟨_, hstart, ?_⟩
  constructor
  case rip => rfl
  case magic =>
    refine (congrArg UInt64.toUInt32 hrdi).trans ((toUInt32_enter ..).trans ?_)
    rw [hjumped.gpr, hpaged.edi, hkept.edi, hs.edi]
  case info =>
    refine (congrArg UInt64.toUInt32 hrsi).trans ((toUInt32_enter ..).trans ?_)
    rw [hjumped.gpr, hpaged.esi, hkept.esi, hs.esi]
  case rsp => rfl
  case back =>
    refine Eq.trans (Memory.load64_congr fun i hi => hrest _ ?_) (Memory.load64_store64 ..)
    rw [BootImage.InTables, hsp]
    omega
  case interrupts =>
    change c'.eflags.toUInt64.toNat.testBit 9 = false
    rw [UInt32.toNat_toUInt64, hjumped.eflags, hpaged.interrupts, hkept.interrupts, hs.eflags, hc.interrupts]
  case segments => exact ⟨rfl, rfl, fun _ => rfl⟩
  case cr0 => rw [hjumped.cr0, hpaged.cr0, hkept.cr0, hs.cr0]
  case cr4 => rw [hjumped.cr4, hpaged.cr4, hkept.cr4, hs.cr4]
  case efer => rw [hjumped.efer, hpaged.efer, hkept.efer, hs.efer]
  case identity =>
    intro v hv
    rw [hpml4]
    exact htouched.translation hpdpt hpd hv
  case booted =>
    intro bytes tasks
    rw [hpml4]
    exact BootImage.Tables.booted htouched hlinked bytes tasks
  case accessed =>
    intro i hi
    simp only [List.mem_cons, List.not_mem_nil, or_false] at hi
    obtain ⟨hstack, htable⟩ := hrodata' (i := i) (by omega)
    refine (hrest _ htable).trans ?_
    rcases hi with rfl | rfl
    · refine (started_of_ne hlinked _ hstack (by omega)).trans ((hjumped.mem _ htable).trans ?_)
      rw [marked, if_pos rfl, hbefore hstack htable]
    · refine (started_data hlinked _).trans ?_
      rw [hjumped.mem _ htable, marked, if_neg (by omega), hbefore hstack htable]
  case mem =>
    intro a ha ha' hcode hdata
    refine (hrest a ha').trans ((started_of_ne hlinked _ ha hdata).trans ((hjumped.mem a ha').trans ?_))
    rw [marked, if_neg hcode, hbefore ha ha']

theorem eventually_started (hk : k.Loaded fetch) (hlinked : k.Linked) (hx : x.walk = bootWalk)
    (hmarks : MarksWalks x) (hc : Handoff k c) (hs : BootStarted k c d) :
    Eventually (step32 x fetch) (BootOutcome k x c) d := by
  have hcr0 {d' : Cpu32} (h : d'.cr0 = d.cr0) : d'.cr0.toNat.testBit 31 = false := by rw [h, hs.cr0, hc.cr0.2]
  have hstack {d₁ d₂ : Cpu32} (h : BootKept (fun _ => False) d₁ d₂) : BootKept k.InStack d₁ d₂ :=
    h.mono fun _ hf => hf.elim
  refine eventually_call hk hlinked hs.eip (hcr0 rfl) hs.esp rfl fun d₁ hcalled₁ hleft₁ hgpr₁ => ?_
  have heax : d₁.gpr .eax = c.gpr .eax := (hgpr₁ .eax (by decide)).trans hs.eax
  refine eventually_checkMultiboot hk hlinked hcalled₁ hleft₁.eip
    (fun hmagic d₂ hleft₂ hesp₂ => ?_) fun hmagic d₂ hleft₂ hcode => ?_
  rotate_left
  · have hkept := hleft₁.toBootKept.trans (hstack hleft₂.toBootKept)
    exact eventually_errorHalt hk hleft₂.eip (hcr0 hkept.cr0) fun d₃ hhalted hcells =>
      .noMultiboot (heax ▸ hmagic) (hs.stopped hc hkept hcode hhalted hcells)
  have hkept₂ := hleft₁.toBootKept.trans (hstack hleft₂.toBootKept)
  refine eventually_call hk hlinked hleft₂.eip (hcr0 hkept₂.cr0) hesp₂ rfl fun d₃ hcalled₃ hleft₃ _ => ?_
  have hkept₃ := hkept₂.trans hleft₃.toBootKept
  refine eventually_checkCpuid hk hlinked hcalled₃ hleft₃.eip
    (fun hcpuid d₄ hleft₄ hesp₄ => ?_) fun hcpuid d₄ hleft₄ hcode => ?_
  rotate_left
  · have hkept := hkept₃.trans hleft₄.toBootKept
    exact eventually_errorHalt hk hleft₄.eip (hcr0 hkept.cr0) fun d₅ hhalted hcells =>
      .noCpuid (heax ▸ hmagic) hcpuid (hs.stopped hc hkept hcode hhalted hcells)
  have hkept₄ := hkept₃.trans hleft₄.toBootKept
  refine eventually_call hk hlinked hleft₄.eip (hcr0 hkept₄.cr0) hesp₄ rfl fun d₅ hcalled₅ hleft₅ _ => ?_
  have hkept₅ := hkept₄.trans hleft₅.toBootKept
  refine eventually_checkLongMode hk hlinked hcalled₅ hleft₅.eip
    (fun hlong d₆ hleft₆ hesp₆ => ?_) fun hlong d₆ hleft₆ hcode => ?_
  rotate_left
  · have hkept := hkept₅.trans (hstack hleft₆.toBootKept)
    exact eventually_errorHalt hk hleft₆.eip (hcr0 hkept.cr0) fun d₇ hhalted hcells =>
      .noLongMode (heax ▸ hmagic) hcpuid hlong (hs.stopped hc hkept hcode hhalted hcells)
  have hkept₆ := hkept₅.trans (hstack hleft₆.toBootKept)
  refine eventually_call hk hlinked hleft₆.eip (hcr0 hkept₆.cr0) hesp₆ rfl fun d₇ hcalled₇ hleft₇ _ => ?_
  have hkept₇ := hkept₆.trans hleft₇.toBootKept
  have hzero : ∀ a, k.InTables a → d₇.mem a = 0 := by
    intro a ha
    rw [hkept₇.mem a fun h => hlinked.not_inStack ha h, hs.mem]
    exact hc.bss a ha
  refine eventually_setupPageTables hk hlinked hcalled₇ hleft₇.eip hzero fun d₈ hleft₈ hesp₈ htables => ?_
  have hkept₈ : BootKept k.InBoot d d₈ := (hkept₇.mono fun _ => .inl).trans (hleft₈.toBootKept.mono fun _ => .inr)
  refine eventually_call hk hlinked hleft₈.eip (hcr0 hkept₈.cr0) hesp₈ rfl fun d₉ hcalled₉ hleft₉ _ => ?_
  have hkept₉ := hkept₈.trans (hleft₉.toBootKept.mono fun _ => .inl)
  have htables₉ := htables.congr hlinked fun a ha => hleft₉.mem a (hlinked.not_inStack ha)
  have hprotected : d₉.cr0.toNat.testBit 0 = true := by rw [hkept₉.cr0, hs.cr0, hc.cr0.1]
  refine eventually_enablePaging hk hlinked hx hmarks hcalled₉ hleft₉.eip hprotected htables₉ fun d₁₀ hpaged => ?_
  have hlongMode : d₁₀.longMode = true := by
    rw [Cpu32.longMode, hpaged.efer, UInt64.toNat_or, Nat.testBit_or,
      show (0x500 : UInt64).toNat.testBit 10 = true by decide, Bool.or_true]
  have hpaging : d₁₀.paging = true := by
    rw [Cpu32.paging, hpaged.cr0]
    exact testBit_or (by decide)
  have hrodata {a : Nat} (ha : k.rodata.toNat ≤ a ∧ a < k.rodata.toNat + 34) : d₁₀.mem a = c.mem a := by
    have hout := hlinked.not_inBoot ha
    rw [hpaged.mem a fun hin => hout (Or.inr hin), hkept₉.mem a hout, hs.mem]
  have hpointer := hlinked.toNat_gdt64Pointer
  refine eventually_long hk hlinked hx hmarks ⟨hpaging, hlongMode, hpaged.cr3,
    hpaged.tables⟩ hpaged.eip ?_ ?_ ?_ fun c' hjumped => ?_
  · intro i hi
    rw [← hc.gdt64 i hi]
    exact Memory.load64_congr fun n hn => hrodata (by rw [BootImage.gdt64]; omega)
  · rw [← hc.limit]
    exact Memory.loadLe_congr fun n hn => hrodata (by omega)
  · rw [← hc.base]
    exact Memory.load32_congr fun n hn => hrodata (by omega)
  · obtain ⟨core, hstart, henters⟩ := EntersKernel.of_paged hlinked hx hmarks hc hs hkept₉ hpaged hjumped
    exact .kernel (heax ▸ hmagic) hcpuid hlong rfl hstart henters

end

/-! ## An image -/

def bootLabels : List BootLabel :=
  [.start, .checkMultiboot, .noMultiboot, .checkCpuid, .noCpuid, .checkLongMode, .noLongMode, .setupPageTables,
  .mapPdLoop, .enablePaging, .errorHalt]

def bootPlaces (k : BootImage) : List (BootLabel × Nat) :=
  bootLabels.flatMap fun l => (List.range (bootCode k l).length).map fun n => (l, n)

/-- The instruction whose place this is. -/
def bootFetch (k : BootImage) (a : Nat) : Option (Instr × UInt32) :=
  ((bootPlaces k).find? fun p => (k.place p.1 p.2).toNat == a).bind fun p =>
    (bootCode k p.1)[p.2]?.map fun i => (i, k.place p.1 (p.2 + 1) - k.place p.1 p.2)

theorem mem_bootPlaces {k : BootImage} {l : BootLabel} {n : Nat} (hn : n < (bootCode k l).length) :
    (l, n) ∈ bootPlaces k := by
  have hl : l ∈ bootLabels := by cases l <;> decide
  exact List.mem_flatMap.mpr ⟨l, hl, List.mem_map.mpr ⟨n, List.mem_range.mpr hn, rfl⟩⟩

/-- Enough is that no two instructions have the same place. -/
theorem loaded_bootFetch {k : BootImage}
    (h : ∀ p ∈ bootPlaces k, ∀ q ∈ bootPlaces k, k.place p.1 p.2 = k.place q.1 q.2 → p = q) :
    k.Loaded (bootFetch k) := by
  intro l n i hi
  have hmem := mem_bootPlaces (List.getElem?_eq_some_iff.mp hi).1
  have hfind : (bootPlaces k).find? (fun p => (k.place p.1 p.2).toNat == (k.place l n).toNat) = some (l, n) := by
    cases hfound : (bootPlaces k).find? fun p => (k.place p.1 p.2).toNat == (k.place l n).toNat with
    | none => exact absurd (beq_self_eq_true _) (List.find?_eq_none.mp hfound (l, n) hmem)
    | some p =>
      have hsame := List.find?_some hfound
      rw [h p (List.mem_of_find?_eq_some hfound) (l, n) hmem (UInt32.toNat_inj.mp (beq_iff_eq.mp hsame))]
  rw [bootFetch, hfind, Option.bind_some, hi, Option.map_some]

/-- How long the instructions are. -/
def bootLengths : BootLabel → List Nat
  | .start => [2, 2, 5, 2, 5, 5, 5, 5, 5, 7, 7]
  | .checkMultiboot => [5, 2, 1]
  | .noMultiboot => [2, 5]
  | .checkCpuid => [1, 1, 2, 5, 1, 1, 1, 1, 1, 1, 2, 2, 1]
  | .noCpuid => [2, 5]
  | .checkLongMode => [5, 2, 5, 2, 5, 2, 6, 2, 1]
  | .noLongMode => [2, 2]
  | .setupPageTables => [5, 3, 5, 5, 3, 5, 5]
  | .mapPdLoop => [5, 2, 5, 7, 1, 6, 2, 1]
  | .enablePaging => [5, 3, 3, 3, 3, 5, 2, 5, 2, 3, 5, 3, 1]
  | .errorHalt => [10, 10, 10, 5, 1]

def demoBootImage : BootImage where
  place l n :=
    UInt32.ofNat
      (((bootLabels.takeWhile (· != l)).flatMap bootLengths ++ (bootLengths l).take n).foldl (· + ·) 0x101000)
  rodata := 0x104000
  bss := 0x106000
  longModeStart := 0x101200
  kernelMain := 0x102000
  hang := 0x101230

theorem demoBootImage_linked : demoBootImage.Linked where
  place := by
    have hall : ∀ p ∈ bootPlaces demoBootImage, 0x100000 ≤ (demoBootImage.place p.1 p.2).toNat ∧
        (demoBootImage.place p.1 p.2).toNat < demoBootImage.rodata.toNat := by decide +kernel
    exact fun l n hn => hall (l, n) (mem_bootPlaces hn)
  falls := by decide +kernel
  rodata := by decide
  bss := by decide
  aligned := by decide

theorem demoBootImage_loaded : demoBootImage.Loaded (bootFetch demoBootImage) :=
  loaded_bootFetch (by decide +kernel)

def demoProcessor : Processor where
  writable := 0x277FD7
  cpuid leaf r :=
    if leaf = 0x80000000 then (if r = .eax then 0x80000008 else 0)
    else if leaf = 0x80000001 then (if r = .edx then 0x2193FBFD else 0)
    else 0
  other _ _ := 0
  high _ := 0
  walk := bootWalk
  touch c a :=
    if (walk c.mem c.cr3.toUInt64 c.eip.toUInt64).any fun place =>
        readEntry c.mem place.1 place.2 &&& ptePresent != 0 && a == place.1.toNat + 8 * place.2.val then
      c.mem a ||| 0x60 &&& 0x60
    else c.mem a

theorem demoProcessor_marks : MarksWalks demoProcessor := fun c a => by
  change (if _ then _ else _) = _ ∨ _
  by_cases hany : (walk c.mem c.cr3.toUInt64 c.eip.toUInt64).any fun place =>
      readEntry c.mem place.1 place.2 &&& ptePresent != 0 && a == place.1.toNat + 8 * place.2.val
  · obtain ⟨place, hplace, hmarked⟩ := List.any_eq_true.mp hany
    obtain ⟨hpresent, ha⟩ := Bool.and_eq_true_iff.mp hmarked
    exact Or.inr ⟨_, place, hplace, bne_iff_ne.mp hpresent, beq_iff_eq.mp ha, 0x60, if_pos hany⟩
  · exact Or.inl (if_neg hany)

/-- `gdt64` and what `lgdt` reads. -/
def demoRodata : List UInt8 :=
  [0, 0, 0, 0, 0, 0, 0, 0, 0, 0, 0, 0, 0, 0x98, 0x20, 0, 0, 0, 0, 0, 0, 0x92, 0, 0, 23, 0, 0, 0x40, 0x10,
    0, 0, 0, 0, 0]

def demoCpu32 : Cpu32 where
  gpr
    | .eax => 0x36d76289
    | .ebx => 0x10000
    | _ => 0
  eip := demoBootImage.entry .start
  eflags := 2
  cr0 := 0x11
  cr3 := 0
  cr4 := 0
  efer := 0
  gdtLimit := 0
  gdtBase := 0
  cs := 8
  ss := 16
  data _ := 16
  mem a := if 0x104000 ≤ a then demoRodata.getD (a - 0x104000) 0 else 0

theorem demoCpu32_handoff : Handoff demoBootImage demoCpu32 where
  eip := rfl
  cr0 := by decide
  interrupts := by decide
  gdt64 := by decide +kernel
  limit := by decide +kernel
  base := by decide +kernel
  bss a ha := by
    have hlow : 0x106000 ≤ a := ha.1
    change (if 0x104000 ≤ a then demoRodata.getD (a - 0x104000) 0 else 0) = 0
    have hlength : demoRodata.length ≤ a - 0x104000 := by
      change 34 ≤ _
      omega
    rw [if_pos (by omega), List.getD, List.getElem?_eq_none hlength, Option.getD_none]

section
variable {k : BootImage} {x : Processor} {fetch : Nat → Option (Instr × UInt32)} {c : Cpu32}

theorem boot_reaches_kernel (hk : k.Loaded fetch) (hlinked : k.Linked) (hx : x.walk = bootWalk)
    (hmarks : MarksWalks x) (hc : Handoff k c) :
    ∃ n e, BootOutcome k x c e ∧ ∀ m ≥ n, stopsIn (step32 x fetch) m c = some e := by
  refine Eventually.stopsIn ?_
  refine eventually_instr hk hc.eip hc.cr0.2 rfl rfl ?_
  refine eventually_instr hk rfl hc.cr0.2 rfl rfl ?_
  refine eventually_instr hk rfl hc.cr0.2 rfl rfl ?_
  refine eventually_instr hk rfl hc.cr0.2 rfl rfl ?_
  exact eventually_started hk hlinked hx hmarks hc ⟨rfl, rfl, rfl, rfl, rfl, rfl, rfl, rfl, rfl, rfl⟩

end

theorem boot_reaches_kernel_demo : ∃ n s core control,
    (∀ m ≥ n, stopsIn (step32 demoProcessor (bootFetch demoBootImage)) m demoCpu32 = some (.long s control)) ∧
      longModeStart demoBootImage demoProcessor control s = some core ∧
      EntersKernel demoBootImage demoCpu32 core control := by
  obtain ⟨n, e, he, hstops⟩ :=
    boot_reaches_kernel demoBootImage_loaded demoBootImage_linked (x := demoProcessor) rfl demoProcessor_marks
    demoCpu32_handoff
  cases he with
  | noMultiboot hmagic => exact absurd rfl hmagic
  | noCpuid _ hcpuid => exact absurd hcpuid (by decide)
  | noLongMode _ _ hlong => exact absurd hlong (by decide)
  | kernel _ _ _ _ hstart henters => exact ⟨n, _, _, _, hstops, hstart, henters⟩

end KernelOs
