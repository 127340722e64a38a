import KernelOs.Lib.Memory
import KernelOs.Pmm

/-!
# The virtual memory manager

`vmm.cpp`: four levels of tables in physical memory, reached by physical address.
Table frames come from `pmm_alloc_page`; nothing else of the allocator is used,
so the code is written over any type with that operation.
-/

namespace KernelOs
open Lib

class PageAllocator (α : Type) where
  allocPage : α → UInt64 × α

export PageAllocator (allocPage)

instance : PageAllocator Pmm := ⟨pmmAllocPage⟩

def ptePresent : UInt64 := (1 : UInt64) <<< 0
def pteWritable : UInt64 := (1 : UInt64) <<< 1
def pteUser : UInt64 := (1 : UInt64) <<< 2
def pteHuge : UInt64 := (1 : UInt64) <<< 7
def pteNx : UInt64 := (1 : UInt64) <<< 63
def pteAddrMask : UInt64 := 0x000FFFFFFFFFF000

/-- What the memory manager works on: physical memory and the page allocator. -/
structure Vmm (α : Type) where
  mem : Memory
  pmm : α

instance tableSize_neZero : NeZero (512 : Nat) := ⟨by decide⟩

/-- `(v >> shift) & 0x1FF`, an index into the 512 entries of a table. -/
def tableIndex (v shift : UInt64) : Fin 512 :=
  ⟨((v >>> shift) &&& 0x1FF).toNat, Nat.lt_succ_of_le (by rw [UInt64.toNat_and]; exact Nat.and_le_right)⟩

structure VAddrIndices where
  pml4I : Fin 512
  pdptI : Fin 512
  pdI : Fin 512
  ptI : Fin 512
  deriving DecidableEq

def splitVaddr (v : UInt64) : VAddrIndices where
  pml4I := tableIndex v 39
  pdptI := tableIndex v 30
  pdI := tableIndex v 21
  ptI := tableIndex v 12

/-- `table->entries[index]`. -/
def readEntry (mem : Memory) (table : UInt64) (index : Fin 512) : UInt64 := mem.load64 (table.toNat + 8 * index.val)

def writeEntry (mem : Memory) (table : UInt64) (index : Fin 512) (entry : UInt64) : Memory :=
  mem.store64 (table.toNat + 8 * index.val) entry

/-- `for (i = 0; i < n; i++) table->entries[i] = 0`. -/
def zeroEntries (mem : Memory) (table : UInt64) : Nat → Memory
  | 0 => mem
  | n + 1 => (zeroEntries mem table n).store64 (table.toNat + 8 * n) 0

def zeroTable (mem : Memory) (table : UInt64) : Memory := zeroEntries mem table 512

variable {α : Type} [PageAllocator α]

/-- The next table's address, 0 for `nullptr`. -/
def getOrCreateTable (s : Vmm α) (table : UInt64) (index : Fin 512) (flags : UInt64) : UInt64 × Vmm α :=
  let entry := readEntry s.mem table index
  if entry &&& ptePresent = 0 then
    let (newTablePhys, pmm) := allocPage s.pmm
    if newTablePhys = 0 then (0, { s with pmm })
    else
      let mem := zeroTable s.mem newTablePhys
      let entry := (newTablePhys &&& pteAddrMask) ||| ptePresent ||| pteWritable ||| (flags &&& pteUser)
      (entry &&& pteAddrMask, { mem := writeEntry mem table index entry, pmm })
  else if entry &&& pteHuge ≠ 0 then (0, s)
  else if flags &&& pteUser ≠ 0 then
    let entry := entry ||| pteUser
    (entry &&& pteAddrMask, { s with mem := writeEntry s.mem table index entry })
  else (entry &&& pteAddrMask, s)

/-- Successive `get_or_create_table` calls from `table` down, up to the first `nullptr`. -/
def createTables (s : Vmm α) (table : UInt64) (flags : UInt64) : List (Fin 512) → UInt64 × Vmm α
  | [] => (table, s)
  | i :: is =>
    let (next, s) := getOrCreateTable s table i flags
    if next = 0 then (0, s) else createTables s next flags is

def vmmCreateAddressSpace (s : Vmm α) : UInt64 × Vmm α :=
  let (pml4Phys, pmm) := allocPage s.pmm
  if pml4Phys = 0 then (0, { s with pmm }) else (pml4Phys, { mem := zeroTable s.mem pml4Phys, pmm })

/-- The page table that `vmm_map_page` writes to, 0 when it returns before. -/
def mapTables (s : Vmm α) (pml4Phys virtAddr flags : UInt64) : UInt64 × Vmm α :=
  let idx := splitVaddr virtAddr
  createTables s pml4Phys (flags &&& pteUser) [idx.pml4I, idx.pdptI, idx.pdI]

def vmmMapPage (s : Vmm α) (pml4Phys virtAddr physAddr flags : UInt64) : Vmm α :=
  let (pt, s) := mapTables s pml4Phys virtAddr flags
  if pt = 0 then s
  else
    { s with
      mem := writeEntry s.mem pt (splitVaddr virtAddr).ptI ((physAddr &&& pteAddrMask) ||| flags ||| ptePresent) }

omit [PageAllocator α] in
def vmmUnmapPage (s : Vmm α) (pml4Phys virtAddr : UInt64) : Vmm α :=
  let idx := splitVaddr virtAddr
  let e1 := readEntry s.mem pml4Phys idx.pml4I
  if e1 &&& ptePresent = 0 then s
  else if e1 &&& pteHuge ≠ 0 then s
  else
    let e2 := readEntry s.mem (e1 &&& pteAddrMask) idx.pdptI
    if e2 &&& ptePresent = 0 then s
    else if e2 &&& pteHuge ≠ 0 then s
    else
      let e3 := readEntry s.mem (e2 &&& pteAddrMask) idx.pdI
      if e3 &&& ptePresent = 0 then s
      else if e3 &&& pteHuge ≠ 0 then s
      else { s with mem := writeEntry s.mem (e3 &&& pteAddrMask) idx.ptI 0 }

def vmmTranslate (mem : Memory) (pml4Phys virtAddr : UInt64) : UInt64 :=
  let idx := splitVaddr virtAddr
  let e1 := readEntry mem pml4Phys idx.pml4I
  if e1 &&& ptePresent = 0 then 0
  else if e1 &&& pteHuge ≠ 0 then 0
  else
    let e2 := readEntry mem (e1 &&& pteAddrMask) idx.pdptI
    if e2 &&& ptePresent = 0 then 0
    else if e2 &&& pteHuge ≠ 0 then (e2 &&& pteAddrMask) ||| (virtAddr &&& ((1 : UInt64) <<< 30 - 1))
    else
      let e3 := readEntry mem (e2 &&& pteAddrMask) idx.pdI
      if e3 &&& ptePresent = 0 then 0
      else if e3 &&& pteHuge ≠ 0 then (e3 &&& pteAddrMask) ||| (virtAddr &&& ((1 : UInt64) <<< 21 - 1))
      else
        let e4 := readEntry mem (e3 &&& pteAddrMask) idx.ptI
        if e4 &&& ptePresent = 0 then 0 else (e4 &&& pteAddrMask) ||| (virtAddr &&& 0xFFF)

end KernelOs
