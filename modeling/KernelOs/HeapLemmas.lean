import KernelOs.Heap
import KernelOs.Lib.Chain
import Mathlib.Tactic.Ring

/-!
# The heap as a list of blocks

`Laid` relates the bytes of `heap_area` to a list of blocks that tiles it, and `Rep`
adds what the calls keep of the sizes. Every operation of the source is matched with
one on block lists: `allocBlocks` for `kmalloc`, `freeBlocks` for `kfree` and
`coalesce` for `coalesce_free_blocks`. The one step all of them take is
`Laid.replace`: some neighbouring blocks are rewritten inside the bytes they cover.
-/

namespace KernelOs
open Lib

structure Block where
  addr : Nat
  size : Nat
  free : Bool
  deriving DecidableEq, Repr

namespace Block

def data (b : Block) : Nat := b.addr + 24

def fin (b : Block) : Nat := b.addr + 24 + b.size

end Block

/-! ## Tilings -/

def Tiles : Nat → List Block → Nat → Prop
  | lo, [], hi => lo = hi
  | lo, b :: bs, hi => b.addr = lo ∧ Tiles b.fin bs hi

namespace Tiles

variable {lo hi : Nat} {b : Block} {bs cs : List Block}

@[simp] theorem nil_iff : Tiles lo [] hi ↔ lo = hi := Iff.rfl

@[simp] theorem cons_iff : Tiles lo (b :: bs) hi ↔ b.addr = lo ∧ Tiles b.fin bs hi := Iff.rfl

theorem append_iff : Tiles lo (bs ++ cs) hi ↔ ∃ mid, Tiles lo bs mid ∧ Tiles mid cs hi := by
  induction bs generalizing lo with
  | nil => simp
  | cons b bs ih => simp only [List.cons_append, cons_iff, ih]; tauto

theorem le (h : Tiles lo bs hi) : lo ≤ hi := by
  induction bs generalizing lo with
  | nil => exact Nat.le_of_eq h
  | cons b bs ih =>
    have := ih h.2
    have h1 := h.1
    unfold Block.fin at this
    omega

theorem bounds (h : Tiles lo bs hi) (hb : b ∈ bs) : lo ≤ b.addr ∧ b.fin ≤ hi := by
  obtain ⟨l₁, l₂, rfl⟩ := List.append_of_mem hb
  obtain ⟨mid, h1, h2, h3⟩ := append_iff.mp h
  have := h1.le
  have := h3.le
  omega

theorem apart (h : Tiles lo bs hi) : bs.Pairwise fun b c => b.fin ≤ c.addr := by
  induction bs generalizing lo with
  | nil => exact List.Pairwise.nil
  | cons b bs ih => exact List.pairwise_cons.mpr ⟨fun c hc => (h.2.bounds hc).1, ih h.2⟩

theorem fin_unique {hi' : Nat} (h : Tiles lo bs hi) (h' : Tiles lo bs hi') : hi = hi' := by
  induction bs generalizing lo with
  | nil => exact h.symm.trans h'
  | cons b bs ih => exact ih h.2 h'.2

end Tiles

theorem apart_of_mem {bs : List Block} (hp : bs.Pairwise fun b c => b.fin ≤ c.addr) {b c : Block} (hb : b ∈ bs)
    (hc : c ∈ bs) (hne : b ≠ c) : b.fin ≤ c.addr ∨ c.fin ≤ b.addr := by
  induction bs with
  | nil => cases hb
  | cons d l ih =>
    rw [List.pairwise_cons] at hp
    rcases List.mem_cons.mp hb with rfl | h1
    · rcases List.mem_cons.mp hc with rfl | h2
      · exact absurd rfl hne
      · exact Or.inl (hp.1 c h2)
    · rcases List.mem_cons.mp hc with rfl | h2
      · exact Or.inr (hp.1 b h1)
      · exact ih hp.2 h1 h2

theorem used_ne_free {b d : Block} (hd : d.free = false) (hb : b.free = true) : d ≠ b := by
  intro he
  rw [he, hb] at hd
  cases hd

theorem mem_of_ne {pre bs : List Block} {b d : Block} (h : d ∈ pre ++ b :: bs) (hne : d ≠ b) : d ∈ pre ∨ d ∈ bs :=
  (List.mem_append.mp h).imp_right fun h => (List.mem_cons.mp h).resolve_left hne

/-! ## The operations on block lists -/

/-- What `split_block` and the marking of the block make of a free block. -/
def splitList (b : Block) (n : Nat) : List Block :=
  if b.size < n + 32 then [⟨b.addr, b.size, false⟩]
  else [⟨b.addr, n, false⟩, ⟨b.addr + 24 + n, b.size - n - 24, true⟩]

/-- First fit for `n` bytes, a multiple of 8: the payload address and the new list. -/
def allocBlocks (n : Nat) : List Block → Option (Nat × List Block)
  | [] => none
  | b :: bs =>
    if b.free = true ∧ n ≤ b.size then some (b.data, splitList b n ++ bs)
    else (allocBlocks n bs).map fun r => (r.1, b :: r.2)

def coalesce : List Block → List Block
  | b :: c :: bs =>
    if b.free = true ∧ c.free = true then coalesce (⟨b.addr, b.size + (24 + c.size), true⟩ :: bs)
    else b :: coalesce (c :: bs)
  | bs => bs
termination_by bs => bs.length

def markFree (a : Nat) (bs : List Block) : List Block :=
  bs.map fun b => if b.data = a then { b with free := true } else b

def freeBlocks (a : Nat) (bs : List Block) : List Block :=
  if a ∈ bs.map Block.data then coalesce (markFree a bs) else bs

def Sized (bs : List Block) : Prop := ∀ b ∈ bs, 0 < b.size ∧ b.size % 8 = 0

theorem Sized.of_cons {b : Block} {bs : List Block} (h : Sized (b :: bs)) : Sized bs :=
  fun c hc => h c (List.mem_cons_of_mem _ hc)

theorem splitList_tiles (b : Block) (n : Nat) : Tiles b.addr (splitList b n) b.fin := by
  unfold splitList
  split
  · exact ⟨rfl, rfl⟩
  · refine ⟨rfl, rfl, ?_⟩
    show b.addr + 24 + n + 24 + (b.size - n - 24) = b.addr + 24 + b.size
    omega

theorem splitList_sized {b : Block} {n : Nat} (hb : 0 < b.size ∧ b.size % 8 = 0) (h0 : 0 < n) (h8 : n % 8 = 0) :
    Sized (splitList b n) := by
  unfold splitList Sized
  split
  · simpa using hb
  · intro c hc
    simp only [List.mem_cons, List.not_mem_nil, or_false] at hc
    rcases hc with rfl | rfl
    · exact ⟨h0, h8⟩
    · show 0 < b.size - n - 24 ∧ (b.size - n - 24) % 8 = 0
      omega

theorem mem_coalesce_used : ∀ (bs : List Block) (d : Block), d.free = false → (d ∈ coalesce bs ↔ d ∈ bs)
  | [], _, _ => by rw [coalesce]; simp
  | [b], _, _ => by rw [coalesce]; simp
  | b :: c :: bs, d, hd => by
    rw [coalesce]
    split
    · rename_i hbc
      rw [mem_coalesce_used _ d hd]
      have h1 : d ≠ b := used_ne_free hd hbc.1
      have h2 : d ≠ c := used_ne_free hd hbc.2
      have h3 : d ≠ ⟨b.addr, b.size + (24 + c.size), true⟩ := used_ne_free hd rfl
      simp [h1, h2, h3]
    · rw [List.mem_cons, mem_coalesce_used (c :: bs) d hd, ← List.mem_cons]
termination_by bs => bs.length

theorem Sized.coalesce : ∀ {bs : List Block}, Sized bs → Sized (KernelOs.coalesce bs)
  | [], h => by rw [KernelOs.coalesce]; exact h; simp
  | [b], h => by rw [KernelOs.coalesce]; exact h; simp
  | b :: c :: bs, h => by
    have hb := h b (List.mem_cons_self ..)
    have hc := h c (by simp)
    rw [KernelOs.coalesce]
    split
    · refine Sized.coalesce fun d hd => ?_
      rcases List.mem_cons.mp hd with rfl | hd
      · show 0 < b.size + (24 + c.size) ∧ (b.size + (24 + c.size)) % 8 = 0
        omega
      · exact h d (by simp [hd])
    · intro d hd
      rcases List.mem_cons.mp hd with rfl | hd
      · exact hb
      · exact h.of_cons.coalesce d hd
termination_by bs => bs.length

theorem mem_markFree_used (a : Nat) (bs : List Block) {d : Block} (hd : d.free = false) :
    d ∈ markFree a bs ↔ d ∈ bs ∧ d.data ≠ a := by
  simp only [markFree, List.mem_map]
  constructor
  · rintro ⟨b, hb, rfl⟩
    split at hd
    · cases hd
    · rename_i hne
      rw [if_neg hne]
      exact ⟨hb, hne⟩
  · rintro ⟨hm, hne⟩
    exact ⟨d, hm, if_neg hne⟩

/-! ## The bytes that represent a block list -/

def ptrOf (v : UInt64) : Option Nat := if v = 0 then none else some v.toNat

theorem ptrOf_eq_some {v : UInt64} {a : Nat} : ptrOf v = some a ↔ v.toNat = a ∧ v ≠ 0 := by
  unfold ptrOf
  split
  · rename_i h; simp [h]
  · rename_i h; simp [h]

theorem ptrOf_eq_none {v : UInt64} : ptrOf v = none ↔ v = 0 := by
  unfold ptrOf
  split
  · rename_i h; simp [h]
  · rename_i h; simp [h]

def link (m : Memory) (a : Nat) : Option Nat := ptrOf (m.load64 (a + 16))

/-- The header of `b`, its link left out. -/
def Header (m : Memory) (b : Block) : Prop := (m.load64 b.addr).toNat = b.size ∧ (m (b.addr + 8) != 0) = b.free

theorem link_congr {m m' : Memory} {a : Nat} (h : ∀ x, a ≤ x → x < a + 24 → m' x = m x) : link m' a = link m a := by
  rw [link, link, Memory.load64_congr fun i hi => h _ (by omega) (by omega)]

theorem Header.congr {m m' : Memory} {b : Block} (hb : Header m b)
    (h : ∀ x, b.addr ≤ x → x < b.addr + 24 → m' x = m x) :
    Header m' b :=
  ⟨by rw [Memory.load64_congr fun i hi => h _ (by omega) (by omega)]; exact hb.1,
    by rw [h _ (by omega) (by omega)]; exact hb.2⟩

/-- The headers of `bs`, which tiles `heap_area`, are in place and linked, whatever the sizes. -/
structure Laid (area : HeapArea) (h : Heap) (bs : List Block) : Prop where
  chain : Seg (link h.mem) (ptrOf h.firstBlock) (bs.map Block.addr) none
  headers : ∀ b ∈ bs, Header h.mem b
  tiles : Tiles area.base.toNat bs (area.base.toNat + 65536)

structure Rep (area : HeapArea) (h : Heap) (bs : List Block) : Prop where
  chain : Seg (link h.mem) (ptrOf h.firstBlock) (bs.map Block.addr) none
  headers : ∀ b ∈ bs, Header h.mem b
  tiles : Tiles area.base.toNat bs (area.base.toNat + 65536)
  sized : Sized bs
  started : h.initialized = true

def KeepsUsed (bs : List Block) (h h' : Heap) : Prop :=
  ∀ b ∈ bs, b.free = false → ∀ x, b.data ≤ x → x < b.fin → h'.mem x = h.mem x

section
variable {area : HeapArea} {h h' : Heap} {pre post bs : List Block} {b c : Block} {p : UInt64} {lo hi n : Nat}

theorem Rep.laid (hr : Rep area h bs) : Laid area h bs := ⟨hr.chain, hr.headers, hr.tiles⟩

/-- **Rewriting neighbouring blocks.** If `h'` differs from `h` only in the bytes
of `mid`, and these now hold the headers of `mid'`, then the whole list is
laid out with `mid'` in the place of `mid`. -/
theorem Laid.replace (mid mid' : List Block) {q : Option Nat} (hl : Laid area h (pre ++ (mid ++ post)))
    (hm : Tiles lo mid hi) (hm' : Tiles lo mid' hi) (hne : mid ≠ [])
    (hs : Seg (link h.mem) (some lo) (mid.map Block.addr) q)
    (hs' : Seg (link h'.mem) (some lo) (mid'.map Block.addr) q) (hh : ∀ b ∈ mid', Header h'.mem b)
    (hmem : ∀ x, x < lo ∨ hi ≤ x → h'.mem x = h.mem x) (hf : h'.firstBlock = h.firstBlock) :
    Laid area h' (pre ++ (mid' ++ post)) := by
  obtain ⟨c₁, t1, t23⟩ := Tiles.append_iff.mp hl.tiles
  obtain ⟨c₂, t2, t3⟩ := Tiles.append_iff.mp t23
  have hlo : c₁ = lo := by
    cases mid with
    | nil => exact absurd rfl hne
    | cons b mid => exact t2.1.symm.trans hm.1
  subst hlo
  have hhi : c₂ = hi := t2.fin_unique hm
  subst hhi
  have hpre : ∀ b ∈ pre, ∀ x, b.addr ≤ x → x < b.addr + 24 → h'.mem x = h.mem x := fun b hb x h1 h2 => by
    have := (t1.bounds hb).2
    exact hmem x (Or.inl (by unfold Block.fin at this; omega))
  have hpost : ∀ b ∈ post, ∀ x, b.addr ≤ x → x < b.addr + 24 → h'.mem x = h.mem x := fun b hb x h1 h2 =>
    hmem x (Or.inr (Nat.le_trans (t3.bounds hb).1 h1))
  refine ⟨?_, ?_, Tiles.append_iff.mpr ⟨_, t1, Tiles.append_iff.mpr ⟨_, hm', t3⟩⟩⟩
  · have hchain := hl.chain
    rw [List.map_append, List.map_append] at hchain ⊢
    obtain ⟨r₁, s1, s23⟩ := Seg.append_iff.mp hchain
    obtain ⟨r₂, s2, s3⟩ := Seg.append_iff.mp s23
    have hr1 : r₁ = some c₁ := by
      cases mid with
      | nil => exact absurd rfl hne
      | cons b mid => exact s2.1.trans (congrArg some hm.1)
    subst hr1
    have hr2 : r₂ = q := Seg.end_unique s2 hs
    subst hr2
    have hlink : ∀ l : List Block, (∀ b ∈ l, ∀ x, b.addr ≤ x → x < b.addr + 24 → h'.mem x = h.mem x) →
        ∀ a ∈ l.map Block.addr, link h'.mem a = link h.mem a := by
      intro l hl a ha
      obtain ⟨b, hb, rfl⟩ := List.mem_map.mp ha
      exact link_congr (hl b hb)
    rw [hf]
    exact Seg.append_iff.mpr ⟨_, s1.congr (hlink pre hpre),
      Seg.append_iff.mpr ⟨_, hs', s3.congr (hlink post hpost)⟩⟩
  · intro b hb
    rcases List.mem_append.mp hb with hb1 | hb1
    · exact (hl.headers b (List.mem_append_left _ hb1)).congr (hpre b hb1)
    · rcases List.mem_append.mp hb1 with hb2 | hb2
      · exact hh b hb2
      · exact (hl.headers b (by simp [hb2])).congr (hpost b hb2)

theorem Rep.replace (mid mid' : List Block) {q : Option Nat} (hr : Rep area h (pre ++ (mid ++ post)))
    (hm : Tiles lo mid hi) (hm' : Tiles lo mid' hi) (hne : mid ≠ [])
    (hs : Seg (link h.mem) (some lo) (mid.map Block.addr) q)
    (hs' : Seg (link h'.mem) (some lo) (mid'.map Block.addr) q) (hh : ∀ b ∈ mid', Header h'.mem b)
    (hz : Sized mid') (hmem : ∀ x, x < lo ∨ hi ≤ x → h'.mem x = h.mem x) (hf : h'.firstBlock = h.firstBlock)
    (hi' : h'.initialized = h.initialized) : Rep area h' (pre ++ (mid' ++ post)) := by
  obtain ⟨hchain, hheaders, htiles⟩ := hr.laid.replace mid mid' hm hm' hne hs hs' hh hmem hf
  refine ⟨hchain, hheaders, htiles, fun b hb => ?_, hi'.trans hr.started⟩
  rcases List.mem_append.mp hb with hb1 | hb1
  · exact hr.sized b (List.mem_append_left _ hb1)
  · rcases List.mem_append.mp hb1 with hb2 | hb2
    · exact hz b hb2
    · exact hr.sized b (by simp [hb2])

theorem Laid.bounds (hl : Laid area h bs) (hb : b ∈ bs) :
    0 < b.addr ∧ b.fin < 2 ^ 64 ∧ b.size ≤ 65512 := by
  obtain ⟨h1, h2⟩ := hl.tiles.bounds hb
  have := area.pos
  have := area.fits
  unfold Block.fin at h2 ⊢
  omega

theorem Seg.head_ptr {m : Memory} {q : Option Nat} (hs : Seg (link m) (ptrOf p) ((b :: bs).map Block.addr) q) :
    p.toNat = b.addr ∧ p ≠ 0 ∧ Seg (link m) (link m b.addr) (bs.map Block.addr) q :=
  ⟨(ptrOf_eq_some.mp hs.1).1, (ptrOf_eq_some.mp hs.1).2, hs.2⟩

/-! ## Reading and writing headers -/

theorem size_eq (hp : p.toNat = b.addr) (hh : Header h.mem b) : (h.size p).toNat = b.size := by
  rw [Heap.size, hp]; exact hh.1

theorem free_eq (hp : p.toNat = b.addr) (hh : Header h.mem b) : h.free p = b.free := by
  rw [Heap.free, hp]; exact hh.2

theorem next_eq (hp : p.toNat = b.addr) : ptrOf (h.next p) = link h.mem b.addr := by
  rw [Heap.next, hp]; rfl

theorem header_of (hp : p.toNat = b.addr) (hsize : (h.size p).toNat = b.size) (hfree : h.free p = b.free) :
    Header h.mem b := by
  rw [Heap.size, hp] at hsize
  rw [Heap.free, hp] at hfree
  exact ⟨hsize, hfree⟩

theorem data_eq (hp : p.toNat = b.addr) (hfin : b.fin < 2 ^ 64) : (p + blockHeaderSize).toNat = b.data := by
  have h24 : blockHeaderSize.toNat = 24 := rfl
  unfold Block.fin at hfin
  rw [UInt64.toNat_add, hp, h24, Block.data]
  omega

theorem Laid.payload_apart (hl : Laid area h bs) (hc : c ∈ bs) (hb : b ∈ bs) (hne : c ≠ b) {x : Nat}
    (h1 : c.data ≤ x) (h2 : x < c.fin) :
    x < b.addr ∨ b.fin ≤ x := by
  have := apart_of_mem hl.tiles.apart hc hb hne
  unfold Block.data at h1
  omega

end

namespace Heap

variable (h : Heap) (p v : UInt64) (f : Bool)

@[simp] theorem size_setSize : (h.setSize p v).size p = v := Memory.load64_store64 ..

@[simp] theorem size_setFree : (h.setFree p f).size p = h.size p := Memory.load64_store8_of_disjoint _ _ (by omega)

@[simp] theorem size_setNext : (h.setNext p v).size p = h.size p := Memory.load64_store64_of_disjoint _ _ (by omega)

@[simp] theorem free_setSize : (h.setSize p v).free p = h.free p :=
  congrArg (· != 0) (Memory.store64_of_lt _ _ (by omega))

@[simp] theorem free_setFree : (h.setFree p f).free p = f := by
  show (Memory.store8 _ (p.toNat + 8) _ (p.toNat + 8) != 0) = f
  rw [Memory.store8_same]
  cases f with
  | false => rfl
  | true => rfl

@[simp] theorem free_setNext : (h.setNext p v).free p = h.free p :=
  congrArg (· != 0) (Memory.store64_of_lt _ _ (by omega))

@[simp] theorem next_setSize : (h.setSize p v).next p = h.next p := Memory.load64_store64_of_disjoint _ _ (by omega)

@[simp] theorem next_setFree : (h.setFree p f).next p = h.next p := Memory.load64_store8_of_disjoint _ _ (by omega)

@[simp] theorem next_setNext : (h.setNext p v).next p = v := Memory.load64_store64 ..

variable {h p v f} {x : Nat}

/-- Outside the header nothing is written. -/
theorem setSize_mem (hx : x < p.toNat ∨ p.toNat + 24 ≤ x) : (h.setSize p v).mem x = h.mem x :=
  Memory.store64_of_lt _ _ (by omega)

theorem setFree_mem (hx : x < p.toNat ∨ p.toNat + 24 ≤ x) : (h.setFree p f).mem x = h.mem x :=
  Memory.store8_of_ne _ _ (by omega)

theorem setNext_mem (hx : x < p.toNat ∨ p.toNat + 24 ≤ x) : (h.setNext p v).mem x = h.mem x :=
  Memory.store64_of_lt _ _ (by omega)

theorem next_congr {h' : Heap} (hmem : ∀ x, p.toNat ≤ x → x < p.toNat + 24 → h'.mem x = h.mem x) :
    h'.next p = h.next p :=
  Memory.load64_congr fun i hi => hmem _ (by omega) (by omega)

end Heap

section
variable {area : HeapArea} {h h' : Heap} {pre post bs : List Block} {b c : Block} {p : UInt64} {lo hi n : Nat}

theorem setFree_spec (hp : p.toNat = b.addr) (hh : Header h.mem b) (f : Bool) :
    Header (h.setFree p f).mem { b with free := f } ∧ link (h.setFree p f).mem b.addr = link h.mem b.addr ∧
      ∀ x, x < b.addr ∨ b.addr + 24 ≤ x → (h.setFree p f).mem x = h.mem x := by
  refine ⟨header_of hp (by rw [Heap.size_setFree, size_eq hp hh]) (Heap.free_setFree ..), ?_,
    fun x hx => Heap.setFree_mem (hp ▸ hx)⟩
  rw [← next_eq hp, ← next_eq hp, Heap.next_setFree]

/-! ## Splitting -/

/-- The header of the rest that is cut off, and of the block, which is rewritten after it. -/
theorem splitBlock_cut {size : UInt64} (hp : p.toNat = b.addr) (hh : Header h.mem b) (hfin : b.fin < 2 ^ 64)
    (hsize : (size + blockHeaderSize + heapAlignment).toNat = size.toNat + 32) (hroom : size.toNat + 32 ≤ b.size) :
    let h' := (splitBlock h p size).setFree p false
    Header h'.mem ⟨b.addr, size.toNat, false⟩ ∧
      Header h'.mem ⟨b.addr + 24 + size.toNat, b.size - size.toNat - 24, true⟩ ∧
      link h'.mem b.addr = some (b.addr + 24 + size.toNat) ∧
      link h'.mem (b.addr + 24 + size.toNat) = link h.mem b.addr ∧
      (∀ x, x < b.addr ∨ b.fin ≤ x → h'.mem x = h.mem x) ∧ h'.firstBlock = h.firstBlock ∧
      h'.initialized = h.initialized := by
  intro h'
  have h24 : blockHeaderSize.toNat = 24 := rfl
  have hsz := size_eq hp hh
  unfold Block.fin at hfin ⊢
  generalize hq' : p + blockHeaderSize + size = q
  have hq : q.toNat = b.addr + 24 + size.toNat := by
    rw [← hq', UInt64.toNat_add, UInt64.toNat_add, hp, h24]
    omega
  have hq0 : q ≠ 0 := fun h0 => by
    rw [h0, UInt64.toNat_zero] at hq
    omega
  have hrest : (h.size p - size - blockHeaderSize).toNat = b.size - size.toNat - 24 := by
    have h1 : (h.size p - size).toNat = b.size - size.toNat := by
      rw [UInt64.toNat_sub_of_le _ _ (UInt64.le_iff_toNat_le.mpr (by omega)), hsz]
    rw [UInt64.toNat_sub_of_le _ _ (UInt64.le_iff_toNat_le.mpr (by omega)), h1, h24]
  have hcut : ¬ h.size p < size + blockHeaderSize + heapAlignment := by
    rw [UInt64.lt_iff_toNat_lt, hsz, hsize]
    omega
  -- first the header of the rest
  generalize hr : (h.setSize q (h.size p - size - blockHeaderSize)).setFree q true = r
  have hrmem : ∀ x, x < q.toNat ∨ q.toNat + 24 ≤ x → r.mem x = h.mem x := fun x hx => by
    rw [← hr, Heap.setFree_mem hx, Heap.setSize_mem hx]
  have hrnext : r.next p = h.next p := Heap.next_congr fun x h1 h2 => hrmem x (by omega)
  have hh' : h' = (((r.setNext q (r.next p)).setSize p size).setNext p q).setFree p false := by
    simp only [h', splitBlock]
    rw [if_neg hcut, hq', hr]
  have hrhead : Header (r.setNext q (r.next p)).mem ⟨b.addr + 24 + size.toNat, b.size - size.toNat - 24, true⟩ := by
    refine header_of hq ?_ ?_
    · rw [Heap.size_setNext, ← hr, Heap.size_setFree, Heap.size_setSize, hrest]
    · rw [Heap.free_setNext, ← hr, Heap.free_setFree]
  -- then that of the block itself
  have hmem : ∀ x, x < b.addr ∨ b.addr + 24 ≤ x → h'.mem x = (r.setNext q (r.next p)).mem x := fun x hx => by
    rw [← hp] at hx
    rw [hh', Heap.setFree_mem hx, Heap.setNext_mem hx, Heap.setSize_mem hx]
  have hqmem : ∀ x, q.toNat ≤ x → x < q.toNat + 24 → h'.mem x = (r.setNext q (r.next p)).mem x :=
    fun x h1 _ => hmem x (by omega)
  refine ⟨header_of hp ?_ ?_, hrhead.congr (by rw [← hq]; exact hqmem), ?_, ?_, fun x hx => ?_, ?_, ?_⟩
  · rw [hh', Heap.size_setFree, Heap.size_setNext, Heap.size_setSize]
  · rw [hh', Heap.free_setFree]
  · rw [← next_eq hp, hh', Heap.next_setFree, Heap.next_setNext]
    exact ptrOf_eq_some.mpr ⟨hq, hq0⟩
  · rw [← hq, link_congr hqmem, ← next_eq hp, ← hrnext]
    exact congrArg ptrOf (Heap.next_setNext ..)
  · rw [hmem x (by omega), Heap.setNext_mem (by omega), hrmem x (by omega)]
  · rw [hh', ← hr]
    rfl
  · rw [hh', ← hr]
    rfl

theorem splitBlock_spec {size : UInt64} (hp : p.toNat = b.addr) (hh : Header h.mem b) (hfin : b.fin < 2 ^ 64)
    (hbig : b.size ≤ 65512) (hn : size.toNat ≤ b.size) :
    let h' := (splitBlock h p size).setFree p false
    (∀ c ∈ splitList b size.toNat, Header h'.mem c) ∧
      Seg (link h'.mem) (some b.addr) ((splitList b size.toNat).map Block.addr) (link h.mem b.addr) ∧
      (∀ x, x < b.addr ∨ b.fin ≤ x → h'.mem x = h.mem x) ∧ h'.firstBlock = h.firstBlock ∧
      h'.initialized = h.initialized := by
  intro h'
  have hsum : (size + blockHeaderSize + heapAlignment).toNat = size.toNat + 32 := by
    have h24 : blockHeaderSize.toNat = 24 := rfl
    have h8 : heapAlignment.toNat = 8 := rfl
    rw [UInt64.toNat_add, UInt64.toNat_add, h24, h8]
    omega
  by_cases hsmall : b.size < size.toNat + 32
  · have hkeep : h.size p < size + blockHeaderSize + heapAlignment := by
      rwa [UInt64.lt_iff_toNat_lt, size_eq hp hh, hsum]
    have hh' : h' = h.setFree p false := by
      simp only [h', splitBlock]
      rw [if_pos hkeep]
    obtain ⟨k1, k2, k3⟩ := setFree_spec hp hh false
    rw [splitList, if_pos hsmall, hh']
    refine ⟨by simpa using k1, ⟨rfl, k2⟩, fun x hx => k3 x ?_, rfl, rfl⟩
    unfold Block.fin at hx
    omega
  · obtain ⟨k1, k2, k3, k4, k5, k6⟩ := splitBlock_cut hp hh hfin hsum (Nat.le_of_not_lt hsmall)
    rw [splitList, if_neg hsmall]
    refine ⟨fun c hc => ?_, ⟨rfl, k3, k4⟩, k5, k6⟩
    simp only [List.mem_cons, List.not_mem_nil, or_false] at hc
    rcases hc with rfl | rfl
    · exact k1
    · exact k2

/-! ## Allocation -/

/-- The result of the first-fit walk from the blocks `bs` on, the blocks `pre` being behind it. -/
theorem kmallocLoop_spec {size : UInt64} (h0 : 0 < size.toNat) (h8 : size.toNat % 8 = 0) :
    ∀ (n : Nat) (bs pre : List Block) (p : UInt64), Rep area h (pre ++ bs) →
      Seg (link h.mem) (ptrOf p) (bs.map Block.addr) none → bs.length < n →
      (kmallocLoop size n p h = some (0, h) ∧ allocBlocks size.toNat bs = none) ∨
        ∃ q h' bs', kmallocLoop size n p h = some (q, h') ∧ allocBlocks size.toNat bs = some (q.toNat, bs') ∧
          Rep area h' (pre ++ bs') ∧ KeepsUsed (pre ++ bs) h h' := by
  intro n
  induction n with
  | zero => intro _ _ _ _ _ hlt; exact absurd hlt (Nat.not_lt_zero _)
  | succ n ih =>
  intro bs pre p hr hs hlt
  cases bs with
  | nil =>
    have hp : p = 0 := ptrOf_eq_none.mp hs
    exact Or.inl ⟨by rw [kmallocLoop, if_pos hp], rfl⟩
  | cons b bs =>
    obtain ⟨hp, hp0, hs'⟩ := Seg.head_ptr hs
    have hh := hr.headers b (by simp)
    obtain ⟨_, hfin, hbig⟩ := hr.laid.bounds (b := b) (by simp)
    have hsz := hr.sized b (by simp)
    have hcond : (h.free p && h.size p ≥ size) = true ↔ b.free = true ∧ size.toNat ≤ b.size := by
      rw [Bool.and_eq_true, decide_eq_true_eq, free_eq hp hh, ge_iff_le, UInt64.le_iff_toNat_le, size_eq hp hh]
    rw [kmallocLoop, if_neg hp0, allocBlocks]
    by_cases hfit : b.free = true ∧ size.toNat ≤ b.size
    · rw [if_pos (hcond.mpr hfit), if_pos hfit]
      obtain ⟨k1, k2, k3, k4, k5⟩ := splitBlock_spec hp hh hfin hbig hfit.2
      have hdata := data_eq hp hfin
      refine Or.inr ⟨_, _, splitList b size.toNat ++ bs, rfl, by rw [hdata], ?_, ?_⟩
      · exact Rep.replace [b] (splitList b size.toNat) hr ⟨rfl, rfl⟩ (splitList_tiles b _)
          (by simp) ⟨rfl, rfl⟩ k2 k1
          (splitList_sized hsz h0 h8) k3 k4 k5
      · intro c hc hu x h1 h2
        exact k3 x (hr.laid.payload_apart hc (by simp) (used_ne_free hu hfit.1) h1 h2)
    · rw [if_neg fun hc => hfit (hcond.mp hc), if_neg hfit]
      have hs2 : Seg (link h.mem) (ptrOf (h.next p)) (bs.map Block.addr) none := by rw [next_eq hp]; exact hs'
      have hr2 : Rep area h ((pre ++ [b]) ++ bs) := by simpa using hr
      rcases ih bs (pre ++ [b]) (h.next p) hr2 hs2 (by simpa using hlt) with
        ⟨k1, k2⟩ | ⟨q, h', bs', k1, k2, k3, k4⟩
      · exact Or.inl ⟨k1, by rw [k2]; rfl⟩
      · exact Or.inr ⟨q, h', b :: bs', k1, by rw [k2]; rfl, by simpa using k3, by simpa using k4⟩

/-! ## Coalescing -/

theorem merge_spec {next : UInt64} (hl : Laid area h (pre ++ b :: c :: bs)) (hp : p.toNat = b.addr)
    (hq : next.toNat = c.addr) (hb : b.free = true) :
    let h' := (h.setSize p (h.size p + (blockHeaderSize + h.size next))).setNext p
      ((h.setSize p (h.size p + (blockHeaderSize + h.size next))).next next)
    Laid area h' (pre ++ ⟨b.addr, b.size + (24 + c.size), true⟩ :: bs) ∧
      (∀ x, x < b.addr ∨ b.addr + 24 ≤ x → h'.mem x = h.mem x) ∧
      Seg (link h'.mem) (ptrOf p)
      ((⟨b.addr, b.size + (24 + c.size), true⟩ :: bs : List Block).map Block.addr) none := by
  intro h'
  obtain ⟨hbpos, hbfin, hbbig⟩ := hl.bounds (b := b) (by simp)
  obtain ⟨_, hcfin, hcbig⟩ := hl.bounds (b := c) (by simp)
  have hhb := hl.headers b (by simp)
  have hhc := hl.headers c (by simp)
  obtain ⟨m, _, t2⟩ := Tiles.append_iff.mp hl.tiles
  obtain ⟨rfl, tc, t3⟩ := t2
  have h24 : blockHeaderSize.toNat = 24 := rfl
  have hcaddr : c.addr = b.addr + 24 + b.size := tc
  have hsum : (h.size p + (blockHeaderSize + h.size next)).toNat = b.size + (24 + c.size) := by
    rw [UInt64.toNat_add, UInt64.toNat_add, size_eq hp hhb, size_eq hq hhc, h24]
    omega
  have hnext : (h.setSize p (h.size p + (blockHeaderSize + h.size next))).next next = h.next next :=
    Heap.next_congr fun x h1 h2 => Heap.setSize_mem (by omega)
  have hout : ∀ x, x < b.addr ∨ b.addr + 24 ≤ x → h'.mem x = h.mem x := fun x hx => by
    rw [← hp] at hx
    exact (Heap.setNext_mem hx).trans (Heap.setSize_mem hx)
  have hlink : link h'.mem b.addr = link h.mem c.addr := by
    rw [← next_eq hp, ← next_eq hq, ← hnext]
    exact congrArg ptrOf (Heap.next_setNext ..)
  have hhead : Header h'.mem ⟨b.addr, b.size + (24 + c.size), true⟩ := by
    refine header_of hp ?_ ?_
    · rw [Heap.size_setNext, Heap.size_setSize, hsum]
    · rw [Heap.free_setNext, Heap.free_setSize, free_eq hp hhb, hb]
  have hchain := hl.chain
  rw [List.map_append] at hchain
  obtain ⟨r, _, s2⟩ := Seg.append_iff.mp hchain
  have hl' : Laid area h' (pre ++ ([⟨b.addr, b.size + (24 + c.size), true⟩] ++ bs)) := by
    refine hl.replace [b, c] [⟨b.addr, b.size + (24 + c.size), true⟩] ⟨rfl, tc, rfl⟩
      ⟨rfl, ?_⟩ (by simp) ⟨rfl, s2.2.1, rfl⟩ ⟨rfl, hlink⟩ ?_ ?_ rfl
    · show b.addr + 24 + (b.size + (24 + c.size)) = c.addr + 24 + c.size
      omega
    · intro d hd
      rw [List.mem_singleton.mp hd]
      exact hhead
    · intro x hx
      refine hout x ?_
      unfold Block.fin at hx
      omega
  refine ⟨hl', hout, ptrOf_eq_some.mpr ⟨hp, fun h0 => ?_⟩, ?_⟩
  · rw [h0] at hp
    simp at hp
    omega
  · show Seg (link h'.mem) (link h'.mem b.addr) (bs.map Block.addr) none
    have hchain' := hl'.chain
    rw [List.map_append] at hchain'
    obtain ⟨r', _, s2'⟩ := Seg.append_iff.mp hchain'
    exact s2'.2

theorem coalesceLoop_spec : ∀ (n : Nat) (bs pre : List Block) (p : UInt64) (h : Heap), Laid area h (pre ++ bs) →
    Seg (link h.mem) (ptrOf p) (bs.map Block.addr) none → bs.length < n →
    ∃ h', coalesceLoop n p h = some h' ∧ Laid area h' (pre ++ coalesce bs) ∧ KeepsUsed (pre ++ bs) h h' ∧
    h'.initialized = h.initialized := by
  intro n
  induction n with
  | zero => intro _ _ _ _ _ _ hlt; exact absurd hlt (Nat.not_lt_zero _)
  | succ n ih =>
  intro bs pre p h hl hs hlt
  match bs, hl, hs, hlt with
  | [], hl, hs, _ =>
    have hp : p = 0 := ptrOf_eq_none.mp hs
    exact ⟨h, by rw [coalesceLoop, if_pos (Or.inl hp)], by rw [coalesce]; exact hl; simp,
      fun _ _ _ _ _ _ => rfl, rfl⟩
  | [b], hl, hs, _ =>
    obtain ⟨hp, _, hs'⟩ := Seg.head_ptr hs
    have hn : h.next p = 0 := by
      rw [← ptrOf_eq_none, next_eq hp]
      exact hs'
    exact ⟨h, by rw [coalesceLoop, if_pos (Or.inr hn)], by rw [coalesce]; exact hl; simp,
      fun _ _ _ _ _ _ => rfl, rfl⟩
  | b :: c :: bs, hl, hs, hlt =>
    obtain ⟨hp, hp0, hs'⟩ := Seg.head_ptr hs
    have hs2 : Seg (link h.mem) (ptrOf (h.next p)) ((c :: bs).map Block.addr) none := by rw [next_eq hp]; exact hs'
    obtain ⟨hq, hq0, _⟩ := Seg.head_ptr hs2
    have hhb := hl.headers b (by simp)
    have hhc := hl.headers c (by simp)
    obtain ⟨_, hbfin, hbbig⟩ := hl.bounds (b := b) (by simp)
    obtain ⟨m, _, _, tc, _⟩ := Tiles.append_iff.mp hl.tiles
    -- blocks that follow one another in a tiling are adjacent
    have hadj : blocksAreAdjacent h p (h.next p) = true := by
      rw [blocksAreAdjacent, beq_iff_eq]
      apply UInt64.toNat_inj.mp
      have h24 : blockHeaderSize.toNat = 24 := rfl
      unfold Block.fin at tc hbfin
      rw [UInt64.toNat_add, UInt64.toNat_add, size_eq hp hhb, hp, hq, h24, tc]
      omega
    rw [coalesceLoop, if_neg (by simp [hp0, hq0])]
    simp only [free_eq hp hhb, free_eq hq hhc, hadj, Bool.and_true, Bool.and_eq_true]
    rw [coalesce]
    by_cases hbc : b.free = true ∧ c.free = true
    · rw [if_pos hbc, if_pos hbc]
      obtain ⟨k1, k2, k3⟩ := merge_spec hl hp hq hbc.1
      obtain ⟨h', e1, e2, e3, e4⟩ := ih (⟨b.addr, b.size + (24 + c.size), true⟩ :: bs) pre p _ k1 k3
        (by simpa using hlt)
      refine ⟨h', e1, e2, fun d hd hu x h1 h2 => ?_, e4⟩
      have hdb := used_ne_free hu hbc.1
      have hdc := used_ne_free hu hbc.2
      have hd' : d ∈ pre ++ ⟨b.addr, b.size + (24 + c.size), true⟩ :: bs := by
        rcases mem_of_ne hd hdb with h3 | h3
        · exact List.mem_append_left _ h3
        · exact List.mem_append_right _ (List.mem_cons_of_mem _ ((List.mem_cons.mp h3).resolve_left hdc))
      rw [e3 d hd' hu x h1 h2]
      have hout := hl.payload_apart hd (show b ∈ pre ++ b :: c :: bs by simp) hdb h1 h2
      unfold Block.fin at hout
      exact k2 x (by omega)
    · rw [if_neg hbc, if_neg hbc]
      have hl2 : Laid area h ((pre ++ [b]) ++ (c :: bs)) := by simpa using hl
      obtain ⟨h', e1, e2, e3, e4⟩ := ih (c :: bs) (pre ++ [b]) (h.next p) h hl2 hs2 (by simpa using hlt)
      exact ⟨h', e1, by simpa using e2, by simpa using e3, e4⟩

theorem Laid.length_lt (hl : Laid area h bs) : bs.length < heapFuel := by
  have hlen : ∀ (bs : List Block) {lo hi : Nat}, Tiles lo bs hi → lo + 24 * bs.length ≤ hi := by
    intro bs
    induction bs with
    | nil => intro lo hi ht; simpa using Nat.le_of_eq ht
    | cons b bs ih =>
      intro lo hi ht
      have := ih ht.2
      have h1 := ht.1
      unfold Block.fin at this
      simp only [List.length_cons]
      omega
  have := hlen bs hl.tiles
  unfold heapFuel
  omega

theorem coalesceFreeBlocks_laid (hl : Laid area h bs) :
    ∃ h', coalesceFreeBlocks h = some h' ∧ Laid area h' (coalesce bs) ∧ KeepsUsed bs h h' ∧
      h'.initialized = h.initialized :=
  coalesceLoop_spec heapFuel bs [] h.firstBlock h hl hl.chain hl.length_lt

theorem coalesceFreeBlocks_spec (hr : Rep area h bs) :
    ∃ h', coalesceFreeBlocks h = some h' ∧ Rep area h' (coalesce bs) ∧ KeepsUsed bs h h' := by
  obtain ⟨h', h1, ⟨hchain, hheaders, htiles⟩, h3, h4⟩ := coalesceFreeBlocks_laid hr.laid
  exact ⟨h', h1, ⟨hchain, hheaders, htiles, hr.sized.coalesce, h4.trans hr.started⟩, h3⟩

/-! ## Freeing -/

theorem markFree_of_not_mem {a : Nat} (hn : a ∉ bs.map Block.data) : markFree a bs = bs := by
  unfold markFree
  conv => rhs; rw [← List.map_id bs]
  refine List.map_congr_left fun b hb => if_neg fun h => hn ?_
  exact List.mem_map.mpr ⟨b, hb, h⟩

theorem kfreeLoop_spec {address : UInt64} : ∀ (n : Nat) (bs pre : List Block) (p : UInt64), Rep area h (pre ++ bs) →
    Seg (link h.mem) (ptrOf p) (bs.map Block.addr) none → bs.length < n → address.toNat ∉ pre.map Block.data →
    ∃ h', kfreeLoop address n p h = some h' ∧ Rep area h' (freeBlocks address.toNat (pre ++ bs)) ∧
      KeepsUsed ((pre ++ bs).filter fun b => b.data ≠ address.toNat) h h' := by
  intro n
  induction n with
  | zero => intro _ _ _ _ _ hlt; exact absurd hlt (Nat.not_lt_zero _)
  | succ n ih =>
  intro bs pre p hr hs hlt hpre
  cases bs with
  | nil =>
    have hp : p = 0 := ptrOf_eq_none.mp hs
    refine ⟨h, by rw [kfreeLoop, if_pos hp], ?_, fun _ _ _ _ _ _ => rfl⟩
    rw [freeBlocks, if_neg (by simpa using hpre)]
    exact hr
  | cons b bs =>
    obtain ⟨hp, hp0, hs'⟩ := Seg.head_ptr hs
    have hh := hr.headers b (by simp)
    obtain ⟨_, hfin, _⟩ := hr.laid.bounds (b := b) (by simp)
    have hdata := data_eq hp hfin
    rw [kfreeLoop, if_neg hp0]
    by_cases hfound : p + blockHeaderSize = address
    · rw [if_pos hfound]
      have ha : address.toNat = b.data := by rw [← hfound, hdata]
      obtain ⟨k1, k2, k3⟩ := setFree_spec hp hh true
      -- no other block has this payload address
      have hpost : address.toNat ∉ bs.map Block.data := fun hm => by
        obtain ⟨c, hc, hca⟩ := List.mem_map.mp hm
        obtain ⟨m, _, _, t⟩ := Tiles.append_iff.mp hr.tiles
        have h1 := (t.bounds hc).1
        rw [ha] at hca
        unfold Block.data at hca
        unfold Block.fin at h1
        omega
      have hmark : markFree address.toNat (pre ++ b :: bs) = pre ++ ({ b with free := true } :: bs) := by
        have h1 := markFree_of_not_mem hpre
        have h2 := markFree_of_not_mem hpost
        unfold markFree at h1 h2 ⊢
        rw [List.map_append, h1, List.map_cons, h2, if_pos ha.symm]
      have hr' : Rep area (h.setFree p true) (pre ++ ([{ b with free := true }] ++ bs)) := by
        refine Rep.replace [b] [{ b with free := true }] hr ⟨rfl, rfl⟩ ⟨rfl, rfl⟩ (by simp) ⟨rfl, rfl⟩ ⟨rfl,
          k2⟩ ?_ ?_ ?_ rfl rfl
        · intro d hd
          rw [List.mem_singleton.mp hd]
          exact k1
        · intro d hd
          rw [List.mem_singleton.mp hd]
          exact hr.sized b (by simp)
        · intro x hx
          refine k3 x ?_
          unfold Block.fin at hx
          omega
      obtain ⟨h', e1, e2, e3⟩ := coalesceFreeBlocks_spec hr'
      refine ⟨h', e1, ?_, fun d hd hu x h1 h2 => ?_⟩
      · rw [freeBlocks, if_pos (by simp [ha]), hmark]
        exact e2
      · obtain ⟨hd1, hd2⟩ := List.mem_filter.mp hd
        have hdb : d ≠ b := by rintro rfl; simp [ha] at hd2
        have hd' : d ∈ pre ++ ([{ b with free := true }] ++ bs) := by
          rcases mem_of_ne hd1 hdb with h3 | h3
          · exact List.mem_append_left _ h3
          · exact List.mem_append_right _ (List.mem_cons_of_mem _ h3)
        rw [e3 d hd' hu x h1 h2]
        have hout := hr.laid.payload_apart hd1 (show b ∈ pre ++ b :: bs by simp) hdb h1 h2
        unfold Block.fin at hout
        exact k3 x (by omega)
    · rw [if_neg hfound]
      have hne : address.toNat ≠ b.data := fun he => hfound (UInt64.toNat_inj.mp (hdata.trans he.symm))
      have hs2 : Seg (link h.mem) (ptrOf (h.next p)) (bs.map Block.addr) none := by rw [next_eq hp]; exact hs'
      have hr2 : Rep area h ((pre ++ [b]) ++ bs) := by simpa using hr
      obtain ⟨h', e1, e2, e3⟩ := ih bs (pre ++ [b]) (h.next p) hr2 hs2 (by simpa using hlt) (by
        rw [List.map_append, List.mem_append, not_or]
        exact ⟨hpre, by simpa using hne⟩)
      exact ⟨h', e1, by simpa using e2, by simpa using e3⟩

/-! ## The calls -/

def roundUp (n : Nat) : Nat := (n + 7) / 8 * 8

theorem heapAlignUp_toNat {size : UInt64} (hs : size.toNat ≤ 65512) :
    (heapAlignUp size).toNat = roundUp size.toNat := by
  have h8 : heapAlignment.toNat = 8 := rfl
  have hsum : (size + heapAlignment - 1).toNat = size.toNat + 7 := by
    have h1 : (size + heapAlignment).toNat = size.toNat + 8 := by rw [UInt64.toNat_add, h8]; omega
    rw [UInt64.toNat_sub_of_le _ _ (UInt64.le_iff_toNat_le.mpr (by rw [h1]; show 1 ≤ _; omega)), h1]
    rfl
  have hmask : (~~~(heapAlignment - 1)).toNat = 2 ^ 64 - 2 ^ 3 := rfl
  rw [heapAlignUp, UInt64.toNat_and, hsum, hmask, roundUp]
  -- clearing the low three bits
  have hlt : size.toNat + 7 < 2 ^ 64 := by omega
  generalize size.toNat + 7 = x at hlt
  have hx := Nat.div_add_mod x 8
  have : x &&& (2 ^ 64 - 2 ^ 3) = x / 8 * 8 := by
    apply Nat.eq_of_testBit_eq
    intro i
    rw [Nat.testBit_and, show 2 ^ 64 - 2 ^ 3 = (2 ^ 61 - 1) * 2 ^ 3 by decide,
      show x / 8 * 8 = x / 2 ^ 3 * 2 ^ 3 by
        rfl, Nat.testBit_mul_two_pow, Nat.testBit_mul_two_pow, Nat.testBit_div_two_pow,
          Nat.testBit_two_pow_sub_one]
    by_cases h3 : 3 ≤ i
    · simp only [h3, decide_true, Bool.true_and, Nat.sub_add_cancel h3]
      by_cases h64 : i < 64
      · simp [show i - 3 < 61 by omega]
      · rw [Nat.testBit_lt_two_pow (Nat.lt_of_lt_of_le hlt (Nat.pow_le_pow_right (by decide) (by omega)))]
        rfl
    · simp [h3]
  rw [this]

theorem kmalloc_spec (hr : Rep area h bs) (size : UInt64) :
    (kmalloc area h size = some (0, h) ∧
        (size = 0 ∨ 65512 < size.toNat ∨ allocBlocks (roundUp size.toNat) bs = none)) ∨
      ∃ q h' bs', kmalloc area h size = some (q, h') ∧ 0 < size.toNat ∧ size.toNat ≤ 65512 ∧
        allocBlocks (roundUp size.toNat) bs = some (q.toNat, bs') ∧ Rep area h' bs' ∧ KeepsUsed bs h h' := by
  have hmax : (heapSize - blockHeaderSize).toNat = 65512 := rfl
  unfold kmalloc
  by_cases h0 : size = 0
  · exact Or.inl ⟨by rw [if_pos (Or.inl h0)], Or.inl h0⟩
  by_cases hbig : size > heapSize - blockHeaderSize
  · refine Or.inl ⟨by rw [if_pos (Or.inr hbig)], Or.inr (Or.inl ?_)⟩
    rwa [gt_iff_lt, UInt64.lt_iff_toNat_lt, hmax] at hbig
  · rw [if_neg (by simp [h0, hbig])]
    rw [gt_iff_lt, UInt64.not_lt, UInt64.le_iff_toNat_le, hmax] at hbig
    have hpos : 0 < size.toNat := Nat.pos_of_ne_zero fun h1 => h0 (UInt64.toNat_inj.mp h1)
    have hup := heapAlignUp_toNat hbig
    have hu0 : 0 < (heapAlignUp size).toNat := by rw [hup, roundUp]; omega
    have hu8 : (heapAlignUp size).toNat % 8 = 0 := by rw [hup, roundUp]; omega
    simp only [hr.started, if_true]
    rcases kmallocLoop_spec hu0 hu8 heapFuel bs [] h.firstBlock hr hr.chain hr.laid.length_lt with
      ⟨k1, k2⟩ | ⟨q, h', bs', k1, k2, k3, k4⟩
    · exact Or.inl ⟨k1, Or.inr (Or.inr (hup ▸ k2))⟩
    · exact Or.inr ⟨q, h', bs', k1, hpos, hbig, hup ▸ k2, k3, k4⟩

theorem kfree_spec (hr : Rep area h bs) (pointer : UInt64) :
    ∃ h', kfree h pointer = some h' ∧ Rep area h' (freeBlocks pointer.toNat bs) ∧
      KeepsUsed (bs.filter fun b => b.data ≠ pointer.toNat) h h' := by
  unfold kfree
  split
  · rename_i h0
    refine ⟨h, rfl, ?_, fun _ _ _ _ _ _ => rfl⟩
    rw [freeBlocks, if_neg]
    · exact hr
    · intro hm
      obtain ⟨b, _, hb⟩ := List.mem_map.mp hm
      rw [h0] at hb
      unfold Block.data at hb
      simp at hb
  · exact kfreeLoop_spec heapFuel bs [] h.firstBlock hr hr.chain hr.laid.length_lt (by simp)

def initialBlocks (area : HeapArea) : List Block := [⟨area.base.toNat, 65512, true⟩]

theorem heapInit_spec (area : HeapArea) (h : Heap) : Rep area (heapInit area h) (initialBlocks area) := by
  have h0 := area.pos
  let s : Heap := { h with firstBlock := area.base }
  have hhead : Header
    (((s.setSize area.base (heapSize - blockHeaderSize)).setFree area.base true).setNext area.base 0).mem
      ⟨area.base.toNat, 65512, true⟩ := by
    refine header_of (p := area.base) rfl ?_ ?_
    · rw [Heap.size_setNext, Heap.size_setFree, Heap.size_setSize]
      rfl
    · rw [Heap.free_setNext, Heap.free_setFree]
  refine ⟨⟨?_, ?_⟩, ?_, ⟨rfl, ?_⟩, ?_, rfl⟩
  · refine ptrOf_eq_some.mpr ⟨rfl, fun hz => ?_⟩
    have : area.base = 0 := hz
    rw [this] at h0
    simp at h0
  · exact congrArg ptrOf (Heap.next_setNext ..)
  · intro b hb
    rw [List.mem_singleton.mp hb]
    exact hhead
  · show area.base.toNat + 24 + 65512 = area.base.toNat + 65536
    omega
  · intro b hb
    rw [List.mem_singleton.mp hb]
    simp

end

end KernelOs
