import KernelOs.Elf
import KernelOs.Lib.Traced

/-!
# What a load reads, computes and writes

`elf.cpp` once more, with its loops as they stand there, each with a limit on its
rounds, and with every byte of the file that is read, every 64-bit sum, difference
and product, every page requested and every byte written.
-/

namespace KernelOs
open Lib

inductive LoadEvent where
  | read (index : Nat)
  | add (a b : UInt64)
  | sub (a b : UInt64)
  | mul (a b : UInt64)
  | takePage (page : UInt64)
  | write (address : Nat)
  deriving DecidableEq

/-- Only bytes of the file are read, nothing wraps, and writes stay within pages that the load has taken. -/
def LoadEvent.Safe (size : UInt64) (past : List LoadEvent) : LoadEvent → Prop
  | .read index => index < size.toNat
  | .add a b => a.toNat + b.toNat < 2 ^ 64
  | .sub a b => b ≤ a
  | .mul a b => a.toNat * b.toNat < 2 ^ 64
  | .takePage _ => True
  | .write address =>
    ∃ page, LoadEvent.takePage page ∈ past ∧ page ≠ 0 ∧ page.toNat ≤ address ∧ address < page.toNat + 4096

namespace LoaderAccesses

def add (a b : UInt64) : Traced LoadEvent UInt64 := ⟨a + b, [.add a b]⟩

def sub (a b : UInt64) : Traced LoadEvent UInt64 := ⟨a - b, [.sub a b]⟩

def mul (a b : UInt64) : Traced LoadEvent UInt64 := ⟨a * b, [.mul a b]⟩

def reads (a n : Nat) : List LoadEvent := (List.range' a n).map .read

section
variable (file : RamfsFile) (a : Nat)

def load8 : Traced LoadEvent UInt8 := ⟨file.data a, reads a 1⟩

def load16 : Traced LoadEvent UInt16 := ⟨UInt16.ofNat (file.data.loadLe a 2), reads a 2⟩

def load32 : Traced LoadEvent UInt32 := ⟨UInt32.ofNat (file.data.loadLe a 4), reads a 4⟩

def load64 : Traced LoadEvent UInt64 := ⟨file.data.load64 a, reads a 8⟩

end

/-! ## The fields of the headers -/

namespace Header
variable (file : RamfsFile)

def ident (index : Nat) : Traced LoadEvent UInt8 := load8 file index
def machine : Traced LoadEvent UInt16 := load16 file 18
def entry : Traced LoadEvent UInt64 := load64 file 24
def programHeaderOffset : Traced LoadEvent UInt64 := load64 file 32
def programHeaderSize : Traced LoadEvent UInt16 := load16 file 54
def programHeaderCount : Traced LoadEvent UInt16 := load16 file 56

end Header

-- `program` is where the program header lies in the file
namespace Program
variable (file : RamfsFile) (program : UInt64)

def type : Traced LoadEvent UInt32 := load32 file program.toNat
def flags : Traced LoadEvent UInt32 := load32 file (program.toNat + 4)
def offset : Traced LoadEvent UInt64 := load64 file (program.toNat + 8)
def virtualAddress : Traced LoadEvent UInt64 := load64 file (program.toNat + 16)
def fileSize : Traced LoadEvent UInt64 := load64 file (program.toNat + 32)
def memorySize : Traced LoadEvent UInt64 := load64 file (program.toNat + 40)

end Program

/-! ## Checks -/

def alignUp (value : UInt64) : Traced LoadEvent UInt64 := do
  let value ← add value pageSize
  let value ← sub value 1
  pure (value &&& ~~~(pageSize - 1))

def validUserRange (address size : UInt64) : Traced LoadEvent Bool := do
  if address < userAddressMin then pure false
  else
    let limit ← sub 0xFFFFFFFFFFFFFFFF address
    if size > limit then pure false
    else
      let last ← add address size
      pure (last < 0x0000800000000000)

/-- A check that fails when `first` does or, after that, `second`. -/
def orElse (first second : Traced LoadEvent Bool) : Traced LoadEvent Bool := do
  if ← first then pure true else second

def differs {β : Type} [BEq β] (field : Traced LoadEvent β) (value : β) : Traced LoadEvent Bool := do
  pure ((← field) != value)

def wrongIdentification (file : RamfsFile) : Traced LoadEvent Bool :=
  orElse (differs (Header.ident file 0) 0x7F) <| orElse (differs (Header.ident file 1) 0x45) <|
  orElse (differs (Header.ident file 2) 0x4C) <| orElse (differs (Header.ident file 3) 0x46) <|
  orElse (differs (Header.ident file 4) 2) <| orElse (differs (Header.ident file 5) 1) <|
  orElse (differs (Header.machine file) 0x3E) <|
  orElse (do pure ((← Header.programHeaderSize file).toUInt64 != sizeofElf64ProgramHeader)) <| do
    let entry ← Header.entry file
    pure (!(← validUserRange entry 1))

def wrongTable (file : RamfsFile) : Traced LoadEvent Bool := do
  let count ← Header.programHeaderCount file
  let programHeadersSize ← mul count.toUInt64 sizeofElf64ProgramHeader
  orElse (do pure (decide ((← Header.programHeaderOffset file) > file.size))) <| do
    let programHeaderOffset ← Header.programHeaderOffset file
    let rest ← sub file.size programHeaderOffset
    pure (decide (programHeadersSize > rest))

/-- What the load returns `false` for before it takes anything. -/
def wrongFile (file : RamfsFile) : Traced LoadEvent Bool := do
  if file.size < sizeofElf64Header then pure true
  else orElse (wrongIdentification file) (wrongTable file)

def wrongProgramHeader (file : RamfsFile) (program : UInt64) : Traced LoadEvent Bool :=
  orElse (do
    let fileSize ← Program.fileSize file program
    let memorySize ← Program.memorySize file program
    pure (decide (fileSize > memorySize))) <|
  orElse (do pure (decide ((← Program.offset file program) > file.size))) <|
  orElse (do
    let fileSize ← Program.fileSize file program
    let offset ← Program.offset file program
    let rest ← sub file.size offset
    pure (decide (fileSize > rest))) <| do
  let virtualAddress ← Program.virtualAddress file program
  let memorySize ← Program.memorySize file program
  pure (!(← validUserRange virtualAddress memorySize))

/-! ## Loops -/

def zeroMemory (mem : Memory) (destination : Nat) : Nat → Traced LoadEvent Memory
  | 0 => pure mem
  | n + 1 => do
    let mem ← zeroMemory mem destination n
    ⟨mem.store8 (destination + n) 0, [.write (destination + n)]⟩

def copyMemory (mem : Memory) (destination : Nat) (file : RamfsFile) (offset : Nat) : Nat → Traced LoadEvent Memory
  | 0 => pure mem
  | n + 1 => do
    let mem ← copyMemory mem destination file offset n
    let byte ← load8 file (offset + n)
    ⟨mem.store8 (destination + n) byte, [.write (destination + n)]⟩

variable {α : Type} [PageAllocator α]

def takePage (pmm : α) : Traced LoadEvent (UInt64 × α) := ⟨allocPage pmm, [.takePage (allocPage pmm).1]⟩

/-- `for (address = …; address < segment_end; address += PAGE_SIZE)`, `none` if that takes more rounds than
allowed. -/
def mapSegment (pml4Phys flags segmentEnd : UInt64) :
    Nat → UInt64 → Vmm α → Traced LoadEvent (Option (Bool × Vmm α))
  | 0, _, _ => pure none
  | rounds + 1, address, s => do
    if address < segmentEnd then
      let (pagePhys, pmm) ← takePage s.pmm
      if pagePhys = 0 then pure (some (false, { s with pmm }))
      else
        let mem ← zeroMemory s.mem pagePhys.toNat 4096
        let next ← add address pageSize
        mapSegment pml4Phys flags segmentEnd rounds next (vmmMapPage { mem, pmm } pml4Phys address pagePhys flags)
    else pure (some (true, s))

/-- `while (bytes_remaining > 0)`. -/
def copySegment (pml4Phys : UInt64) (file : RamfsFile) :
    Nat → UInt64 → UInt64 → UInt64 → Memory → Traced LoadEvent (Option (Bool × Memory))
  | 0, _, _, _, _ => pure none
  | rounds + 1, bytesRemaining, destination, source, mem => do
    if bytesRemaining > 0 then
      let destinationPhys := vmmTranslate mem pml4Phys destination
      if destinationPhys = 0 then pure (some (false, mem))
      else
        let pageRemaining ← sub pageSize (destination &&& (pageSize - 1))
        let chunkSize := if bytesRemaining < pageRemaining then bytesRemaining else pageRemaining
        let mem ← copyMemory mem destinationPhys.toNat file source.toNat chunkSize.toNat
        let destination ← add destination chunkSize
        let source ← add source chunkSize
        let bytesRemaining ← sub bytesRemaining chunkSize
        copySegment pml4Phys file rounds bytesRemaining destination source mem
    else pure (some (true, mem))

def segmentFlags (file : RamfsFile) (program : UInt64) : Traced LoadEvent UInt64 := do
  if (← Program.flags file program) &&& elfFlagWritable ≠ 0 then pure (pteUser ||| pteWritable) else pure pteUser

def loadSegment (rounds : Nat) (pml4Phys : UInt64) (file : RamfsFile) (program : UInt64) (s : Vmm α) :
    Traced LoadEvent (Option (Bool × Vmm α)) := do
  let flags ← segmentFlags file program
  let virtualAddress ← Program.virtualAddress file program
  let memorySize ← Program.memorySize file program
  let segmentEnd ← add virtualAddress memorySize
  let segmentEnd ← alignUp segmentEnd
  match ← mapSegment pml4Phys flags segmentEnd rounds (alignDown virtualAddress) s with
  | none => pure none
  | some (false, s) => pure (some (false, s))
  | some (true, s) =>
    let fileSize ← Program.fileSize file program
    let offset ← Program.offset file program
    match ← copySegment pml4Phys file rounds fileSize virtualAddress offset s.mem with
    | none => pure none
    | some (copied, mem) => pure (some (copied, { s with mem }))

/-- `for (index = 0; index < header->program_header_count; index++)`, the table lying at `programs`. -/
def loadSegments (limit : Nat) (pml4Phys : UInt64) (file : RamfsFile) (programs : UInt64) :
    Nat → UInt16 → Vmm α → Traced LoadEvent (Option (Bool × Vmm α))
  | 0, _, _ => pure none
  | rounds + 1, index, s => do
    if index < (← Header.programHeaderCount file) then
      let distance ← mul index.toUInt64 sizeofElf64ProgramHeader
      let program ← add programs distance
      if (← Program.type file program) ≠ elfProgramHeaderLoad then
        loadSegments limit pml4Phys file programs rounds (index + 1) s
      else if ← wrongProgramHeader file program then pure (some (false, s))
      else
        match ← loadSegment limit pml4Phys file program s with
        | none => pure none
        | some (false, s) => pure (some (false, s))
        | some (true, s) => loadSegments limit pml4Phys file programs rounds (index + 1) s
    else pure (some (true, s))

/-- `elf_load_from_ramfs`, with `limit` rounds for each of its loops. -/
def elfLoadFromRamfs (limit : Nat) (entries : Ramfs) (cr3 : UInt64) (name : Option (List UInt8))
    (image : Option ElfImage) (s : Vmm α) : Traced LoadEvent (Option (Bool × Option ElfImage × Vmm α)) :=
  match image, ramfsOpen entries name with
  | some _, some file => do
    if ← wrongFile file then pure (some (false, image, s))
    else
      let (pml4Phys, s) := vmmCreateAddressSpace s
      if pml4Phys = 0 then pure (some (false, image, s))
      else
        let programs ← Header.programHeaderOffset file
        match ← loadSegments limit pml4Phys file programs limit 0
            { s with mem := shareKernelSlot s.mem cr3 pml4Phys } with
        | none => pure none
        | some (false, s) => pure (some (false, image, s))
        | some (true, s) =>
          let entryPoint ← Header.entry file
          pure (some (true, some { entryPoint, pml4Phys }, s))
  | _, _ => pure (some (false, image, s))

end LoaderAccesses

end KernelOs
