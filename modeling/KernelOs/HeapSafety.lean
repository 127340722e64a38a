import KernelOs.HeapLemmas
import KernelOs.Lib.Run

/-!
# Memory safety of the heap

A client of the heap remembers the pointers it was given and has not freed, each
with the size it asked for. It may pass any argument to `kmalloc` and `kfree`,
and may write the bytes it was given.
-/

namespace KernelOs
open Lib

inductive HeapOp where
  | kmalloc (size : UInt64)
  | kfree (pointer : UInt64)
  | write (address : Nat) (byte : UInt8)
  deriving Repr, DecidableEq

/-- The heap with the pointers handed out and not yet freed. -/
structure HeapClient where
  heap : Heap
  live : List (Nat × Nat)

inductive HeapStep (area : HeapArea) : HeapClient → HeapOp → HeapClient → Prop
  | kmalloc {c : HeapClient} {size p : UInt64} {h' : Heap} : kmalloc area c.heap size = some (p, h') →
      HeapStep area c (.kmalloc size) ⟨h', if p = 0 then c.live else (p.toNat, size.toNat) :: c.live⟩
  | kfree {c : HeapClient} {pointer : UInt64} {h' : Heap} : kfree c.heap pointer = some h' →
      HeapStep area c (.kfree pointer) ⟨h', c.live.filter fun r => r.1 ≠ pointer.toNat⟩
  | write {c : HeapClient} {address : Nat} {byte : UInt8} :
      (∃ r ∈ c.live, r.1 ≤ address ∧ address < r.1 + r.2) →
      HeapStep area c (.write address byte) ⟨{ c.heap with mem := c.heap.mem.store8 address byte }, c.live⟩

theorem step_granted {area : HeapArea} {c : HeapClient} {size p : UInt64} {h' : Heap}
    (hk : kmalloc area c.heap size = some (p, h')) (hp : p ≠ 0) :
    HeapStep area c (.kmalloc size) ⟨h', (p.toNat, size.toNat) :: c.live⟩ := by
  have := HeapStep.kmalloc hk
  rwa [if_neg hp] at this

/-! ## First fit, position by position -/

theorem allocBlocks_eq_some {n a : Nat} {bs bs' : List Block} (h : allocBlocks n bs = some (a, bs')) :
    ∃ pre b post, bs = pre ++ b :: post ∧ (∀ c ∈ pre, ¬ (c.free = true ∧ n ≤ c.size)) ∧ b.free = true ∧ n ≤ b.size ∧
      a = b.data ∧ bs' = pre ++ splitList b n ++ post := by
  induction bs generalizing bs' with
  | nil => cases h
  | cons b bs ih =>
    rw [allocBlocks] at h
    split at h
    · rename_i hfit
      obtain ⟨rfl, rfl⟩ := Prod.mk.inj (Option.some.inj h)
      exact ⟨[], b, bs, rfl, by simp, hfit.1, hfit.2, rfl, rfl⟩
    · rename_i hfit
      cases hrec : allocBlocks n bs with
      | none => rw [hrec] at h; cases h
      | some r =>
        rw [hrec] at h
        obtain ⟨rfl, rfl⟩ := Prod.mk.inj (Option.some.inj h)
        obtain ⟨pre, d, post, h1, h2, h3, h4, h5, h6⟩ := ih hrec
        refine ⟨b :: pre, d, post, by rw [h1]; rfl, fun c hc => ?_, h3, h4, h5, by rw [h6]; rfl⟩
        rcases List.mem_cons.mp hc with rfl | hc
        · exact hfit
        · exact h2 c hc

theorem splitList_head (b : Block) {n : Nat} (hn : n ≤ b.size) :
    ∃ c ∈ splitList b n, c.free = false ∧ c.data = b.data ∧ n ≤ c.size := by
  unfold splitList
  split
  · exact ⟨_, List.mem_cons_self .., rfl, rfl, hn⟩
  · exact ⟨_, List.mem_cons_self .., rfl, rfl, Nat.le_refl _⟩

theorem Tiles.aligned {lo hi : Nat} {bs : List Block} (h : Tiles lo bs hi) (hz : Sized bs) (hlo : lo % 8 = 0) :
    ∀ b ∈ bs, b.addr % 8 = 0 := by
  induction bs generalizing lo with
  | nil => intro b hb; cases hb
  | cons b bs ih =>
    have hb := hz b (List.mem_cons_self ..)
    have h1 := h.1
    intro c hc
    rcases List.mem_cons.mp hc with rfl | hc
    · omega
    · exact ih h.2 hz.of_cons (by unfold Block.fin; omega) c hc

theorem Tiles.data_inj {lo hi : Nat} {bs : List Block} (h : Tiles lo bs hi) {b c : Block}
    (hb : b ∈ bs) (hc : c ∈ bs) (he : b.data = c.data) : b = c := by
  by_contra hne
  have := apart_of_mem h.apart hb hc hne
  unfold Block.data at he
  unfold Block.fin at this
  omega

/-! ## The invariant -/

namespace HeapClient

/-- Every live pointer is the payload of a used block that has room for it. -/
structure Inv (area : HeapArea) (c : HeapClient) (bs : List Block) : Prop where
  rep : Rep area c.heap bs
  backed : ∀ r ∈ c.live, ∃ b ∈ bs, b.free = false ∧ b.data = r.1 ∧ r.2 ≤ b.size
  distinct : (c.live.map Prod.fst).Nodup

variable {area : HeapArea} {c c' : HeapClient} {bs : List Block}

theorem inv_init (area : HeapArea) (h : Heap) : Inv area ⟨heapInit area h, []⟩ (initialBlocks area) :=
  ⟨heapInit_spec area h, by simp, by simp⟩

theorem inv_kmalloc (hi : Inv area c bs) {size p : UInt64} {h' : Heap}
    (hk : kmalloc area c.heap size = some (p, h')) :
    ∃ bs', Inv area ⟨h', if p = 0 then c.live else (p.toNat, size.toNat) :: c.live⟩ bs' := by
  rcases kmalloc_spec hi.rep size with ⟨h1, _⟩ | ⟨q, h'', bs', h1, hpos, hle, h2, h3, _⟩
  · rw [h1] at hk
    obtain ⟨rfl, rfl⟩ := Prod.mk.inj (Option.some.inj hk)
    exact ⟨bs, hi⟩
  · rw [h1] at hk
    obtain ⟨rfl, rfl⟩ := Prod.mk.inj (Option.some.inj hk)
    obtain ⟨pre, b, post, rfl, _, hfree, hn, ha, rfl⟩ := allocBlocks_eq_some h2
    have hq : q ≠ 0 := fun h0 => by
      rw [h0] at ha
      unfold Block.data at ha
      simp at ha
    rw [if_neg hq]
    refine ⟨_, h3, fun r hr => ?_, List.nodup_cons.mpr ⟨fun hm => ?_, hi.distinct⟩⟩
    · rcases List.mem_cons.mp hr with rfl | hr
      · obtain ⟨d, hd, hu, hdata, hsize⟩ := splitList_head b hn
        refine ⟨d, by simp [hd], hu, hdata.trans ha.symm, Nat.le_trans ?_ hsize⟩
        show size.toNat ≤ roundUp size.toNat
        unfold roundUp
        omega
      · -- an older block is used, so it is not the free one that was taken
        obtain ⟨d, hd, hu, hdata, hsize⟩ := hi.backed r hr
        refine ⟨d, ?_, hu, hdata, hsize⟩
        rcases mem_of_ne hd (used_ne_free hu hfree) with h | h
        · simp [h]
        · simp [h]
    · obtain ⟨r, hr, hrq⟩ := List.mem_map.mp hm
      obtain ⟨d, hd, hu, hdata, _⟩ := hi.backed r hr
      have : d = b := hi.rep.tiles.data_inj hd (by simp) (by rw [hdata, hrq]; exact ha)
      rw [this, hfree] at hu
      cases hu

theorem inv_kfree (hi : Inv area c bs) {pointer : UInt64} {h' : Heap} (hk : kfree c.heap pointer = some h') :
    ∃ bs', Inv area ⟨h', c.live.filter fun r => r.1 ≠ pointer.toNat⟩ bs' := by
  obtain ⟨h'', h1, h2, _⟩ := kfree_spec hi.rep pointer
  rw [h1] at hk
  obtain rfl := Option.some.inj hk
  refine ⟨_, h2, fun r hr => ?_, (hi.distinct.sublist (List.Sublist.map _ List.filter_sublist))⟩
  obtain ⟨hr1, hr2⟩ := List.mem_filter.mp hr
  obtain ⟨d, hd, hu, hdata, hsize⟩ := hi.backed r hr1
  refine ⟨d, ?_, hu, hdata, hsize⟩
  unfold freeBlocks
  split
  · rw [mem_coalesce_used _ d hu, mem_markFree_used _ _ hu]
    exact ⟨hd, by rw [hdata]; simpa using hr2⟩
  · exact hd

theorem inv_write (hi : Inv area c bs) {address : Nat} {byte : UInt8}
    (hown : ∃ r ∈ c.live, r.1 ≤ address ∧ address < r.1 + r.2) :
    Inv area ⟨{ c.heap with mem := c.heap.mem.store8 address byte }, c.live⟩ bs := by
  obtain ⟨r, hr, h1, h2⟩ := hown
  obtain ⟨d, hd, _, hdata, hsize⟩ := hi.backed r hr
  -- the byte lies in the payload of a block, so no header has it
  have hmem : ∀ b ∈ bs, ∀ x, b.addr ≤ x → x < b.addr + 24 → c.heap.mem.store8 address byte x = c.heap.mem x := by
    intro b hb x hx1 hx2
    refine Memory.store8_of_ne _ _ fun he => ?_
    by_cases hbd : b = d
    · subst hbd
      unfold Block.data at hdata
      omega
    · have := apart_of_mem hi.rep.tiles.apart hb hd hbd
      unfold Block.fin at this
      unfold Block.data at hdata
      omega
  refine ⟨⟨hi.rep.chain.congr fun a ha => ?_, fun b hb => (hi.rep.headers b hb).congr (hmem b hb), hi.rep.tiles,
    hi.rep.sized, hi.rep.started⟩, hi.backed, hi.distinct⟩
  obtain ⟨b, hb, rfl⟩ := List.mem_map.mp ha
  exact link_congr (hmem b hb)

theorem inv_step {op : HeapOp} (hi : ∃ bs, Inv area c bs) (hs : HeapStep area c op c') : ∃ bs, Inv area c' bs := by
  obtain ⟨bs, hi⟩ := hi
  cases hs with
  | kmalloc hk => exact inv_kmalloc hi hk
  | kfree hk => exact inv_kfree hi hk
  | write hown => exact ⟨bs, inv_write hi hown⟩

theorem inv_run {h : Heap} {ops : List HeapOp} (hr : Run (HeapStep area) ⟨heapInit area h, []⟩ ops c) :
    ∃ bs, Inv area c bs :=
  hr.invariant (I := fun c => ∃ bs, Inv area c bs) (fun _ _ _ hi hs => inv_step hi hs) ⟨_, inv_init area h⟩

theorem allocBlocks_cons_fit {b : Block} {bs : List Block} {n : Nat} (hb : b.free = true) (hn : n ≤ b.size) :
    allocBlocks n (b :: bs) = some (b.data, splitList b n ++ bs) := by
  rw [allocBlocks, if_pos ⟨hb, hn⟩]

theorem allocBlocks_cons_used {b : Block} {bs : List Block} {n : Nat} (hb : b.free = false) :
    allocBlocks n (b :: bs) = (allocBlocks n bs).map fun r => (r.1, b :: r.2) := by
  rw [allocBlocks, if_neg (by simp [hb])]

theorem kmalloc_of_alloc {h : Heap} {a : Nat} {bs' : List Block} (hr : Rep area h bs) (size : UInt64)
    (h0 : size ≠ 0) (hle : size.toNat ≤ 65512) (ha : allocBlocks (roundUp size.toNat) bs = some (a, bs')) :
    ∃ p h', kmalloc area h size = some (p, h') ∧ p.toNat = a ∧ Rep area h' bs' := by
  rcases kmalloc_spec hr size with ⟨-, hnone⟩ | ⟨p, h', bs'', hk, -, -, h2, hrep, -⟩
  · rcases hnone with hz | hbig | hnone
    · exact absurd hz h0
    · omega
    · rw [ha] at hnone
      cases hnone
  · rw [ha] at h2
    obtain ⟨hp, rfl⟩ := Prod.mk.inj (Option.some.inj h2)
    exact ⟨p, h', hk, hp.symm, hrep⟩

/-- A run with two live pointers, for the examples. -/
theorem run_two_blocks (area : HeapArea) (h : Heap) :
    ∃ ops c, Run (HeapStep area) ⟨heapInit area h, []⟩ ops c ∧
      c.live = [(area.base.toNat + 56, 16), (area.base.toNat + 24, 5)] := by
  obtain ⟨p₁, h₁, k₁, hp₁, hrep₁⟩ := kmalloc_of_alloc (heapInit_spec area h) 5 (by decide) (by decide)
    (allocBlocks_cons_fit rfl (show roundUp 5 ≤ 65512 by decide))
  obtain ⟨p₂, h₂, k₂, hp₂, -⟩ := kmalloc_of_alloc hrep₁ 16 (by decide) (by decide)
    ((allocBlocks_cons_used rfl).trans (congrArg _ (allocBlocks_cons_fit rfl (show roundUp 16 ≤ 65480 by decide))))
  have hne {p : UInt64} {a : Nat} (hp : p.toNat = a + 24) : p ≠ 0 := by
    rintro rfl
    cases hp
  have s₁ := step_granted (c := ⟨heapInit area h, []⟩) k₁ (hne hp₁)
  have s₂ := step_granted (c := ⟨h₁, [(p₁.toNat, 5)]⟩) k₂ (hne hp₂)
  refine ⟨_, _, (Run.single s₁).snoc s₂, ?_⟩
  rw [hp₁, hp₂]
  rfl

/-- **Memory safety of the heap.** After any run the block list tiles `heap_area`,
every live pointer is eight-byte aligned with its bytes inside the payload of a
used block, live ranges overlap neither one another nor a header, and every
further call returns. -/
theorem heap_safety (area : HeapArea) (h : Heap) (ops : List HeapOp) (c : HeapClient)
    (hr : Run (HeapStep area) ⟨heapInit area h, []⟩ ops c) :
    (∃ bs, Rep area c.heap bs ∧
      (∀ r ∈ c.live, r.1 % 8 = 0 ∧ area.base.toNat ≤ r.1 ∧ r.1 + r.2 ≤ area.base.toNat + 65536 ∧
        ∃ b ∈ bs, b.free = false ∧ b.data = r.1 ∧ r.1 + r.2 ≤ b.fin) ∧
      (∀ r ∈ c.live, ∀ b ∈ bs, r.1 + r.2 ≤ b.addr ∨ b.data ≤ r.1)) ∧
    (c.live.Pairwise fun r s => r.1 + r.2 ≤ s.1 ∨ s.1 + s.2 ≤ r.1) ∧
    (∀ size, (kmalloc area c.heap size).isSome) ∧ ∀ pointer, (kfree c.heap pointer).isSome := by
  obtain ⟨bs, hi⟩ := inv_run hr
  refine ⟨⟨bs, hi.rep, fun r hr => ?_, fun r hr b hb => ?_⟩, ?_, fun size => ?_, fun pointer => ?_⟩
  · obtain ⟨b, hb, hu, hdata, hsize⟩ := hi.backed r hr
    have hal := hi.rep.tiles.aligned hi.rep.sized area.aligned b hb
    obtain ⟨h1, h2⟩ := hi.rep.tiles.bounds hb
    have hfin : r.1 + r.2 ≤ b.fin := by unfold Block.data at hdata; unfold Block.fin; omega
    refine ⟨?_, ?_, Nat.le_trans hfin h2, b, hb, hu, hdata, hfin⟩
    · unfold Block.data at hdata; omega
    · unfold Block.data at hdata; omega
  · obtain ⟨d, hd, _, hdata, hsize⟩ := hi.backed r hr
    by_cases hbd : b = d
    · exact Or.inr (by rw [hbd, hdata])
    · have := apart_of_mem hi.rep.tiles.apart hb hd hbd
      unfold Block.data at hdata ⊢
      unfold Block.fin at this
      omega
  · refine List.Pairwise.imp_of_mem (fun {r s} hr hs hne => ?_) (List.pairwise_map.mp hi.distinct)
    obtain ⟨b, hb, _, hdb, hsb⟩ := hi.backed r hr
    obtain ⟨d, hd, _, hdd, hsd⟩ := hi.backed s hs
    have hbd : b ≠ d := by rintro rfl; exact hne (hdb.symm.trans hdd)
    have := apart_of_mem hi.rep.tiles.apart hb hd hbd
    unfold Block.data at hdb hdd
    unfold Block.fin at this
    omega
  · rcases kmalloc_spec hi.rep size with ⟨h1, _⟩ | ⟨_, _, _, h1, _⟩ <;> simp [h1]
  · obtain ⟨h', h1, _⟩ := kfree_spec hi.rep pointer
    simp [h1]

theorem heap_safety_two_live :
    ∃ c : HeapClient, c.live = [(0x110038, 16), (0x110018, 5)] ∧
      c.live.Pairwise fun r s => r.1 + r.2 ≤ s.1 ∨ s.1 + s.2 ≤ r.1 := by
  let area : HeapArea := ⟨0x110000, by decide, by decide, by decide⟩
  let h : Heap := ⟨fun _ => 0, 0, false⟩
  obtain ⟨ops, c, hrun, hlive⟩ := run_two_blocks area h
  exact ⟨c, hlive, (heap_safety area h ops c hrun).2.1⟩

end HeapClient

end KernelOs
