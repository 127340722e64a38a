import KernelOs.Ramfs
import KernelOs.Vmm

/-!
# Loading programs

`elf.cpp` and the part of `user_mode.cpp` that builds an address space. Both start
from `vmm_create_address_space`, copy slot 0 of the PML4 in CR3, and then map pages
of their own.
-/

namespace KernelOs
open Lib

def userAddressMin : UInt64 := 0x40000000

def elfProgramHeaderLoad : UInt32 := 1
def elfFlagWritable : UInt32 := (1 : UInt32) <<< 1

/-- The fields of the file header that the loader reads. -/
structure Elf64Header where
  ident : Nat → UInt8
  machine : UInt16
  entry : UInt64
  programHeaderOffset : UInt64
  programHeaderSize : UInt16
  programHeaderCount : UInt16

def readElf64Header (data : Memory) : Elf64Header where
  ident := data
  machine := UInt16.ofNat (data.loadLe 18 2)
  entry := data.load64 24
  programHeaderOffset := data.load64 32
  programHeaderSize := UInt16.ofNat (data.loadLe 54 2)
  programHeaderCount := UInt16.ofNat (data.loadLe 56 2)

structure Elf64ProgramHeader where
  type : UInt32
  flags : UInt32
  offset : UInt64
  virtualAddress : UInt64
  fileSize : UInt64
  memorySize : UInt64
  deriving DecidableEq

def sizeofElf64Header : UInt64 := 64
def sizeofElf64ProgramHeader : UInt64 := 56

/-- `programs[index]`, the table lying at `offset` in the file. -/
def readProgramHeader (data : Memory) (offset : UInt64) (index : Nat) : Elf64ProgramHeader :=
  let a := offset.toNat + 56 * index
  { type := UInt32.ofNat (data.loadLe a 4)
    flags := UInt32.ofNat (data.loadLe (a + 4) 4)
    offset := data.load64 (a + 8)
    virtualAddress := data.load64 (a + 16)
    fileSize := data.load64 (a + 32)
    memorySize := data.load64 (a + 40) }

def alignDown (value : UInt64) : UInt64 := value &&& ~~~(pageSize - 1)

def alignUp (value : UInt64) : UInt64 := (value + pageSize - 1) &&& ~~~(pageSize - 1)

def zeroMemory (mem : Memory) (destination : Nat) : Nat → Memory
  | 0 => mem
  | n + 1 => (zeroMemory mem destination n).store8 (destination + n) 0

/-- Copies from the bytes of `source` at `offset` on. -/
def copyMemory (mem : Memory) (destination : Nat) (source : Memory) (offset : Nat) : Nat → Memory
  | 0 => mem
  | n + 1 => (copyMemory mem destination source offset n).store8 (destination + n) (source (offset + n))

def validUserRange (address size : UInt64) : Bool :=
  if address < userAddressMin ∨ size > 0xFFFFFFFFFFFFFFFF - address then false
  else address + size < 0x0000800000000000

structure ElfImage where
  entryPoint : UInt64
  pml4Phys : UInt64
  deriving DecidableEq

variable {α : Type} [PageAllocator α]

/-- The page loop of a segment: `n` pages left, at `address`. -/
def mapSegment (pml4Phys flags : UInt64) : Nat → UInt64 → Vmm α → Bool × Vmm α
  | 0, _, s => (true, s)
  | n + 1, address, s =>
    let (pagePhys, pmm) := allocPage s.pmm
    if pagePhys = 0 then (false, { s with pmm })
    else
      mapSegment pml4Phys flags n (address + pageSize)
        (vmmMapPage { mem := zeroMemory s.mem pagePhys.toNat 4096, pmm } pml4Phys address pagePhys flags)

/-- The copy loop of a segment, in chunks that end with a page. Every round copies something, so
`fuel` rounds are enough for that many bytes. -/
def copySegment (pml4Phys : UInt64) (data : Memory) : Nat → UInt64 → UInt64 → UInt64 → Memory → Bool × Memory
  | 0, _, _, _, mem => (true, mem)
  | fuel + 1, bytesRemaining, destination, source, mem =>
    if bytesRemaining = 0 then (true, mem)
    else
      let destinationPhys := vmmTranslate mem pml4Phys destination
      if destinationPhys = 0 then (false, mem)
      else
        let pageRemaining := pageSize - (destination &&& (pageSize - 1))
        let chunkSize := if bytesRemaining < pageRemaining then bytesRemaining else pageRemaining
        copySegment pml4Phys data fuel (bytesRemaining - chunkSize) (destination + chunkSize) (source + chunkSize)
          (copyMemory mem destinationPhys.toNat data source.toNat chunkSize.toNat)

def validProgramHeader (file : RamfsFile) (program : Elf64ProgramHeader) : Bool :=
  !(program.fileSize > program.memorySize || program.offset > file.size ||
    program.fileSize > file.size - program.offset || !validUserRange program.virtualAddress program.memorySize)

def segmentFlags (program : Elf64ProgramHeader) : UInt64 :=
  if program.flags &&& elfFlagWritable ≠ 0 then pteUser ||| pteWritable else pteUser

/-- The pages of a segment. Both ends are page-aligned. -/
def segmentPages (program : Elf64ProgramHeader) : Nat :=
  ((alignUp (program.virtualAddress + program.memorySize)).toNat - (alignDown program.virtualAddress).toNat) / 4096

def loadSegment (pml4Phys : UInt64) (file : RamfsFile) (program : Elf64ProgramHeader) (s : Vmm α) : Bool × Vmm α :=
  let (mapped, s) :=
    mapSegment pml4Phys (segmentFlags program) (segmentPages program) (alignDown program.virtualAddress) s
  if !mapped then (false, s)
  else
    let (copied, mem) :=
      copySegment pml4Phys file.data program.fileSize.toNat program.fileSize program.virtualAddress
        program.offset s.mem
    (copied, { s with mem })

/-- The loop over the program headers. -/
def loadSegments (pml4Phys : UInt64) (file : RamfsFile) : List Elf64ProgramHeader → Vmm α → Bool × Vmm α
  | [], s => (true, s)
  | program :: programs, s =>
    if program.type ≠ elfProgramHeaderLoad then loadSegments pml4Phys file programs s
    else if !validProgramHeader file program then (false, s)
    else
      let (loaded, s) := loadSegment pml4Phys file program s
      if !loaded then (false, s) else loadSegments pml4Phys file programs s

def programHeaders (file : RamfsFile) : List Elf64ProgramHeader :=
  let header := readElf64Header file.data
  (List.range header.programHeaderCount.toNat).map (readProgramHeader file.data header.programHeaderOffset)

/-- The checks made before anything is allocated. -/
def validElfFile (file : RamfsFile) : Bool :=
  let header := readElf64Header file.data
  let programHeadersSize := header.programHeaderCount.toUInt64 * sizeofElf64ProgramHeader
  !(file.size < sizeofElf64Header) &&
  !(header.ident 0 != 0x7F || header.ident 1 != 0x45 || header.ident 2 != 0x4C || header.ident 3 != 0x46 ||
    header.ident 4 != 2 || header.ident 5 != 1 || header.machine != 0x3E ||
    header.programHeaderSize.toUInt64 != sizeofElf64ProgramHeader || !validUserRange header.entry 1) &&
  !(header.programHeaderOffset > file.size || programHeadersSize > file.size - header.programHeaderOffset)

/-- `user_pml4->entries[0] = kernel_pml4->entries[0]`, with the PML4 in CR3. -/
def shareKernelSlot (mem : Memory) (cr3 userPml4 : UInt64) : Memory :=
  writeEntry mem userPml4 0 (readEntry mem cr3 0)

/-- The result, and `*image` and the machine afterwards. -/
def elfLoadFromRamfs (entries : Ramfs) (cr3 : UInt64) (name : Option (List UInt8)) (image : Option ElfImage)
    (s : Vmm α) : Bool × Option ElfImage × Vmm α :=
  match image, ramfsOpen entries name with
  | some _, some file =>
    if !validElfFile file then (false, image, s)
    else
      let (pml4Phys, s) := vmmCreateAddressSpace s
      if pml4Phys = 0 then (false, image, s)
      else
        let (loaded, s) :=
          loadSegments pml4Phys file (programHeaders file) { s with mem := shareKernelSlot s.mem cr3 pml4Phys }
        if !loaded then (false, image, s)
        else (true, some { entryPoint := (readElf64Header file.data).entry, pml4Phys }, s)
  | _, _ => (false, image, s)

/-! ## The ring-3 demo task -/

def userCodeAddress : UInt64 := 0x0000004000000000
def userStackAddress : UInt64 := userCodeAddress + pageSize

/-- `demo_entry_address` and `demo_stack_top`. -/
structure UserMode where
  demoEntryAddress : UInt64
  demoStackTop : UInt64

/-- `task` is the task's `pml4_phys`, `none` for a null pointer; `programPhys` is where `user_program_start`
lies. -/
def userModePrepareDemoTask (cr3 programPhys : UInt64) (task : Option UInt64) (u : UserMode) (s : Vmm α) :
    Bool × Option UInt64 × UserMode × Vmm α :=
  match task with
  | none => (false, task, u, s)
  | some _ =>
    let (pml4Phys, s) := vmmCreateAddressSpace s
    let (userStackPhys, pmm) := allocPage s.pmm
    let s := { s with pmm }
    if pml4Phys = 0 ∨ userStackPhys = 0 then (false, task, u, s)
    else
      let s := { s with mem := shareKernelSlot s.mem cr3 pml4Phys }
      let programPage := programPhys &&& ~~~(pageSize - 1)
      let programOffset := programPhys &&& (pageSize - 1)
      let s := vmmMapPage s pml4Phys userCodeAddress programPage pteUser
      let s := vmmMapPage s pml4Phys userStackAddress userStackPhys (pteUser ||| pteWritable ||| pteNx)
      (true, some pml4Phys,
        { demoEntryAddress := userCodeAddress + programOffset, demoStackTop := userStackAddress + pageSize }, s)

end KernelOs
