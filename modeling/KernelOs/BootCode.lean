import KernelOs.Lib.Protected
import KernelOs.HardwareWalk
import KernelOs.KernelSpaces

/-!
# `boot.S`

The way from the bootloader to `kernel_main`, instruction by instruction.
-/

namespace KernelOs
open Lib

inductive BootLabel where
  | start
  | checkMultiboot
  | noMultiboot
  | checkCpuid
  | noCpuid
  | checkLongMode
  | noLongMode
  | setupPageTables
  | mapPdLoop
  | enablePaging
  | errorHalt
  deriving DecidableEq

/-- Where the linker puts the code, the two sections with data and what 64-bit code calls. -/
structure BootImage where
  /-- The `n`th instruction behind a label. -/
  place : BootLabel → Nat → UInt32
  rodata : UInt32
  bss : UInt32
  longModeStart : UInt32
  kernelMain : UInt64
  hang : UInt64

namespace BootImage

variable (k : BootImage)

def entry (l : BootLabel) : UInt32 := k.place l 0

def pml4Table : UInt32 := k.bss

@[irreducible] def pdptTable : UInt32 := k.bss + 0x1000

@[irreducible] def pdTable : UInt32 := k.bss + 0x2000

@[irreducible] def stackTop : UInt32 := k.bss + 0x7000

def gdt64 : UInt32 := k.rodata

@[irreducible] def gdt64Pointer : UInt32 := k.rodata + 24

end BootImage

def gdt64CodeOffset : UInt16 := 8

def gdt64DataOffset : UInt16 := 16

/-- `1 << i` -/
def bitAt (i : UInt64) : UInt64 := 1 <<< i

/-- The three descriptors. -/
def gdt64Entries : List UInt64 :=
  [0, bitAt 43 ||| bitAt 44 ||| bitAt 47 ||| bitAt 53, bitAt 44 ||| bitAt 47 ||| bitAt 41]

section
variable (k : BootImage)

def bootCode : BootLabel → List Instr
  | .start => [
    .mov .eax .edi,
    .mov .ebx .esi,
    .movImm k.stackTop .esp,
    .mov .esp .ebp,
    .call (k.entry .checkMultiboot),
    .call (k.entry .checkCpuid),
    .call (k.entry .checkLongMode),
    .call (k.entry .setupPageTables),
    .call (k.entry .enablePaging),
    .lgdt k.gdt64Pointer,
    .ljmp gdt64CodeOffset k.longModeStart]
  | .checkMultiboot => [
    .cmpImm 0x36d76289 .eax,
    .jumpIf .notEqual (k.entry .noMultiboot),
    .ret]
  | .noMultiboot => [
    .movAl '0'.toUInt8,
    .jump (k.entry .errorHalt)]
  | .checkCpuid => [
    .pushfl,
    .pop .eax,
    .mov .eax .ecx,
    .xorImm (bitAt 21).toUInt32 .eax,
    .push .eax,
    .popfl,
    .pushfl,
    .pop .eax,
    .push .ecx,
    .popfl,
    .cmp .ecx .eax,
    .jumpIf .equal (k.entry .noCpuid),
    .ret]
  | .noCpuid => [
    .movAl '1'.toUInt8,
    .jump (k.entry .errorHalt)]
  | .checkLongMode => [
    .movImm 0x80000000 .eax,
    .cpuid,
    .cmpImm 0x80000001 .eax,
    .jumpIf .below (k.entry .noLongMode),
    .movImm 0x80000001 .eax,
    .cpuid,
    .testImm (bitAt 29).toUInt32 .edx,
    .jumpIf .equal (k.entry .noLongMode),
    .ret]
  | .noLongMode => [
    .movAl '2'.toUInt8,
    .jump (k.entry .errorHalt)]
  | .setupPageTables => [
    .movImm k.pdptTable .eax,
    .orImm 0b11 .eax,
    .store .eax k.pml4Table,
    .movImm k.pdTable .eax,
    .orImm 0b11 .eax,
    .store .eax k.pdptTable,
    .movImm 0 .ecx]
  | .mapPdLoop => [
    .movImm 0x200000 .eax,
    .mul .ecx,
    .orImm 0b10000011 .eax,
    .storeScaled .eax k.pdTable .ecx,
    .inc .ecx,
    .cmpImm 512 .ecx,
    .jumpIf .notEqual (k.entry .mapPdLoop),
    .ret]
  | .enablePaging => [
    .movImm k.pml4Table .eax,
    .writeControl .eax .cr3,
    .readControl .cr4 .eax,
    .orImm (bitAt 5).toUInt32 .eax,
    .writeControl .eax .cr4,
    .movImm 0xC0000080 .ecx,
    .rdmsr,
    .orImm (bitAt 8).toUInt32 .eax,
    .wrmsr,
    .readControl .cr0 .eax,
    .orImm (bitAt 31).toUInt32 .eax,
    .writeControl .eax .cr0,
    .ret]
  | .errorHalt => [
    .storeImm 0x4f524f45 0xb8000,
    .storeImm 0x4f3a4f52 0xb8004,
    .storeImm 0x4f204f20 0xb8008,
    .storeAl 0xb800a,
    .hlt]

/-- Up to the first instruction of `kernel_main`, with the segments of `gdt64` and the control registers of
`control`, which has the memory of `s`. -/
def longModeStart (x : Processor) (control : Cpu32) (s : Core) : Option Core :=
  let t := control.segments x
  if t.loads s.cpl gdt64DataOffset && t.stack s.cpl gdt64DataOffset then
    let rax := s.cpu.gpr .rax &&& 0xFFFFFFFFFFFF0000 ||| gdt64DataOffset.toUInt64
    let rsp := k.stackTop.toUInt64
    let gpr := Function.update (Function.update s.cpu.gpr .rax rax) .rbp rsp
    let mem := (control.markSegment x gdt64DataOffset).mem
    let cpu := { s.cpu with gpr, rsp, ss := gdt64DataOffset.toUInt64, mem }.call k.kernelMain k.hang
    some { cpu := { cpu with mem := x.touch (control.withMem cpu.mem) }, data := fun _ => gdt64DataOffset }
  else none

end

/-- Whether long mode is there, as `cpuid` tells. -/
def hasLongMode (x : Processor) : Bool :=
  decide (0x80000001 ≤ x.cpuid 0x80000000 .eax) && (x.cpuid 0x80000001 .edx &&& 0x20000000 != 0)

/-- The processor's own walk. -/
def bootWalk (mem : Memory) (cr3 v : UInt64) : Option Nat := (translation mem cr3 v).map fun t => t.phys.toNat

/-- The processor sets the accessed and dirty bits of entries that walks find present, and changes nothing
else of its own accord. -/
def MarksWalks (x : Processor) : Prop :=
  ∀ c : Cpu32, ∀ a, x.touch c a = c.mem a ∨ ∃ v, ∃ place ∈ walk c.mem c.cr3.toUInt64 v,
    readEntry c.mem place.1 place.2 &&& ptePresent ≠ 0 ∧ a = place.1.toNat + 8 * place.2.val ∧
      ∃ bits, x.touch c a = c.mem a ||| bits &&& 0x60

/-! ## Where everything lies -/

namespace BootImage

/-- Above 1 MiB and below the bitmap of `kernel_main`, in the order of `linker.ld`. -/
structure Linked (k : BootImage) : Prop where
  place : ∀ l n, n < (bootCode k l).length → 0x100000 ≤ (k.place l n).toNat ∧ (k.place l n).toNat < k.rodata.toNat
  falls : k.place .setupPageTables (bootCode k .setupPageTables).length = k.entry .mapPdLoop
  rodata : k.rodata.toNat + 34 ≤ k.bss.toNat
  bss : k.bss.toNat + 0x7000 ≤ 0x200000
  aligned : k.bss.toNat % 4096 = 0

/-- An instruction ends where the next one starts. -/
def Loaded (k : BootImage) (fetch : Nat → Option (Instr × UInt32)) : Prop :=
  ∀ l n i, (bootCode k l)[n]? = some i → fetch (k.place l n).toNat = some (i, k.place l (n + 1) - k.place l n)

def InTables (k : BootImage) (a : Nat) : Prop := k.bss.toNat ≤ a ∧ a < k.bss.toNat + 0x3000

/-- The part of the boot stack that is used. -/
def InStack (k : BootImage) (a : Nat) : Prop := k.stackTop.toNat - 8 ≤ a ∧ a < k.stackTop.toNat

def InBoot (k : BootImage) (a : Nat) : Prop := k.InStack a ∨ k.InTables a

end BootImage

/-- What the bootloader leaves: protected mode without paging and interrupts, and the image in memory. -/
structure Handoff (k : BootImage) (c : Cpu32) : Prop where
  eip : c.eip = k.entry .start
  cr0 : c.cr0.toNat.testBit 0 = true ∧ c.cr0.toNat.testBit 31 = false
  interrupts : c.eflags.toNat.testBit 9 = false
  gdt64 : ∀ i < 3, c.mem.load64 (k.gdt64.toNat + 8 * i) = gdt64Entries.getD i 0
  limit : c.mem.loadLe k.gdt64Pointer.toNat 2 = 23
  base : c.mem.load32 (k.gdt64Pointer.toNat + 2) = k.gdt64
  bss : ∀ a, k.InTables a → c.mem a = 0

end KernelOs
