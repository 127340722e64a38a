import KernelOs.Lib.Bitmap

/-!
# The physical memory manager

`pmm.cpp`: a bitmap with one bit for each 4 KiB page (set: taken), the number of
free pages, and the position where the next single-page search starts. All
counters are the source's 64-bit words and wrap as they do there.
-/

namespace KernelOs

def pageSize : UInt64 := 4096

def uintptrMax : UInt64 := 0xFFFFFFFFFFFFFFFF

/-- The allocator's variables. `bitmap i` is the byte at `bitmap_addr + i`. -/
structure Pmm where
  bitmap : Nat → UInt8
  totalPages : UInt64
  freePages : UInt64
  searchHint : UInt64

namespace Pmm

/-- `1u << (bit % 8)`, cut to the byte it is combined with. -/
def bitMask (bit : UInt64) : UInt8 := ((1 : UInt32) <<< (bit % 8).toUInt32).toUInt8

def setBit (s : Pmm) (bit : UInt64) : Pmm :=
  { s with bitmap := fun i => if i = (bit / 8).toNat then s.bitmap i ||| bitMask bit else s.bitmap i }

def clearBit (s : Pmm) (bit : UInt64) : Pmm :=
  { s with bitmap := fun i => if i = (bit / 8).toNat then s.bitmap i &&& ~~~bitMask bit else s.bitmap i }

def testBit (s : Pmm) (bit : UInt64) : Bool := (s.bitmap (bit / 8).toNat &&& bitMask bit) != 0

end Pmm

/-- The loop of `pmm_mark_reserved`: `n` rounds from `page` on. -/
def markLoop : Nat → UInt64 → Pmm → Pmm
  | 0, _, s => s
  | n + 1, page, s =>
    markLoop n (page + 1)
      (if !s.testBit page then { s.setBit page with freePages := s.freePages - 1 } else s)

def pmmMarkReserved (s : Pmm) (baseAddr lengthBytes : UInt64) : Pmm :=
  if lengthBytes = 0 ∨ baseAddr ≥ s.totalPages * pageSize then s
  else
    let startPage := baseAddr / pageSize
    let lastByte := lengthBytes - 1
    let endPage :=
      if lastByte > uintptrMax - baseAddr then s.totalPages else (baseAddr + lastByte) / pageSize + 1
    markLoop (min endPage.toNat s.totalPages.toNat - startPage.toNat) startPage s

/-- `pmm_init` over the bytes that lie at `bitmap_addr` when it is called. -/
def pmmInit (bytes : Nat → UInt8) (bitmapAddr pageCount : UInt64) : Pmm :=
  let bitmapBytes := (pageCount + 7) / 8
  let s : Pmm :=
    { bitmap := fun i => if i < bitmapBytes.toNat then 0 else bytes i
      totalPages := pageCount
      freePages := pageCount
      searchHint := 0 }
  pmmMarkReserved (pmmMarkReserved s bitmapAddr bitmapBytes) 0 pageSize

/-- The loop of `pmm_alloc_page`: `n` rounds left, at offset `i` from the hint. -/
def allocScan : Nat → UInt64 → Pmm → UInt64 × Pmm
  | 0, _, s => (0, s)
  | n + 1, i, s =>
    let page := (s.searchHint + i) % s.totalPages
    if !s.testBit page then
      (page * pageSize, { s.setBit page with freePages := s.freePages - 1, searchHint := page + 1 })
    else allocScan n (i + 1) s

def pmmAllocPage (s : Pmm) : UInt64 × Pmm := allocScan s.totalPages.toNat 0 s

def setBits : Nat → UInt64 → Pmm → Pmm
  | 0, _, s => s
  | n + 1, page, s => setBits n (page + 1) (s.setBit page)

/-- The loop of `pmm_alloc_pages`: `n` rounds left, at `page`, with the current run. -/
def runScan (count : UInt64) : Nat → UInt64 → UInt64 → UInt64 → Pmm → UInt64 × Pmm
  | 0, _, _, _, s => (0, s)
  | n + 1, page, runStart, runLength, s =>
    if s.testBit page then runScan count n (page + 1) runStart 0 s
    else
      let runStart := if runLength = 0 then page else runStart
      let runLength := runLength + 1
      if runLength ≠ count then runScan count n (page + 1) runStart runLength s
      else
        (runStart * pageSize,
          { setBits ((runStart + count).toNat - runStart.toNat) runStart s with
            freePages := s.freePages - count
            searchHint := runStart + count })

def pmmAllocPages (s : Pmm) (count : UInt64) : UInt64 × Pmm :=
  if count = 0 ∨ count > s.totalPages then (0, s)
  else runScan count s.totalPages.toNat 0 0 0 s

def pmmFreePage (s : Pmm) (physAddr : UInt64) : Pmm :=
  let page := physAddr / pageSize
  if physAddr % pageSize ≠ 0 ∨ page = 0 ∨ page ≥ s.totalPages then s
  else if s.testBit page then { s.clearBit page with freePages := s.freePages + 1 } else s

def freeLoop : Nat → UInt64 → Pmm → Pmm
  | 0, _, s => s
  | n + 1, page, s =>
    freeLoop n (page + 1)
      (if s.testBit page then { s.clearBit page with freePages := s.freePages + 1 } else s)

def pmmFreePages (s : Pmm) (physAddr count : UInt64) : Pmm :=
  if count = 0 ∨ physAddr % pageSize ≠ 0 ∨ physAddr = 0 then s
  else
    let startPage := physAddr / pageSize
    if startPage ≥ s.totalPages ∨ count > s.totalPages - startPage then s
    else freeLoop ((startPage + count).toNat - startPage.toNat) startPage s

end KernelOs
