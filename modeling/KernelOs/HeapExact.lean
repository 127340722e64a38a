import KernelOs.HeapHistory

/-!
# Free space

The results of `kmalloc` and `kfree` in terms of the bytes of `heap_area` that no used block covers.
Since free neighbours are always merged, a stretch of such bytes is one free block.
-/

namespace KernelOs
open Lib

def Covered (bs : List Block) (x : Nat) : Prop := ∃ b ∈ bs, b.free = false ∧ b.addr ≤ x ∧ x < b.fin

/-- A maximal range of `[lo, hi)` that no used block covers, headers counted as part of their blocks. -/
structure Stretch (bs : List Block) (lo hi first last : Nat) : Prop where
  nonempty : first < last
  inside : lo ≤ first ∧ last ≤ hi
  free : ∀ x, first ≤ x → x < last → ¬ Covered bs x
  left : first = lo ∨ Covered bs (first - 1)
  right : last = hi ∨ Covered bs last

section
variable {lo hi first last x : Nat} {b c : Block} {bs : List Block}

/-! ## The blocks of a tiling -/

theorem Block.addr_lt_fin (b : Block) : b.addr < b.fin := by
  unfold Block.fin
  omega

theorem Tiles.exists_block (h : Tiles lo bs hi) (hlo : lo ≤ x) (hhi : x < hi) :
    ∃ b ∈ bs, b.addr ≤ x ∧ x < b.fin := by
  induction bs generalizing lo with
  | nil =>
    have := Tiles.nil_iff.mp h
    omega
  | cons b bs ih =>
    obtain ⟨haddr, htail⟩ := h
    by_cases hx : x < b.fin
    · exact ⟨b, List.mem_cons_self .., by omega, hx⟩
    · obtain ⟨c, hc, hcx⟩ := ih htail (by omega)
      exact ⟨c, List.mem_cons_of_mem _ hc, hcx⟩

theorem Tiles.eq_of_common (h : Tiles lo bs hi) (hb : b ∈ bs) (hc : c ∈ bs) (hbx : b.addr ≤ x ∧ x < b.fin)
    (hcx : c.addr ≤ x ∧ x < c.fin) :
    b = c := by
  by_contra hne
  have := apart_of_mem h.apart hb hc hne
  omega

/-- A block that reaches up to the end of another one and goes on starts there. -/
theorem Tiles.addr_eq_fin (h : Tiles lo bs hi) (hb : b ∈ bs) (hc : c ∈ bs) (hne : c ≠ b) (hlt : b.addr < c.fin)
    (hle : c.addr ≤ b.fin) :
    c.addr = b.fin := by
  have := apart_of_mem h.apart hc hb hne
  omega

theorem Tiles.not_covered (h : Tiles lo bs hi) (hb : b ∈ bs) (hfree : b.free = true)
    (hx : b.addr ≤ x ∧ x < b.fin) : ¬ Covered bs x := by
  rintro ⟨c, hc, hused, hcx⟩
  rw [h.eq_of_common hb hc hx hcx, hused] at hfree
  cases hfree

theorem Merged.adjacent (h : Tiles lo bs hi) (hm : Merged bs) (hb : b ∈ bs) (hc : c ∈ bs) (hbc : c.addr = b.fin) :
    ¬ (b.free = true ∧ c.free = true) := by
  induction bs generalizing lo with
  | nil => cases hb
  | cons d ds ih =>
    have hbfin := b.addr_lt_fin
    obtain ⟨-, htail⟩ := h
    have hafter {e : Block} (he : e ∈ ds) : d.fin ≤ e.addr := (htail.bounds he).1
    have hd := d.addr_lt_fin
    rcases List.mem_cons.mp hb with rfl | hb
    · have hcds : c ∈ ds := (List.mem_cons.mp hc).resolve_left fun he => by
        rw [he] at hbc
        omega
      cases ds with
      | nil => cases hcds
      | cons e es =>
        have he : e.addr = b.fin := htail.1
        have hefin := e.addr_lt_fin
        obtain rfl : c = e := (List.mem_cons.mp hcds).resolve_right fun hces => by
          have := (htail.2.bounds hces).1
          omega
        exact (List.isChain_cons_cons.mp hm).1
    · have hcds : c ∈ ds := (List.mem_cons.mp hc).resolve_left fun he => by
        have := hafter hb
        rw [he] at hbc
        omega
      exact ih htail (List.isChain_cons.mp hm).2 hb hcds

/-! ## Stretches are free blocks -/

theorem Block.stretch (h : Tiles lo bs hi) (hm : Merged bs) (hb : b ∈ bs) (hfree : b.free = true) :
    Stretch bs lo hi b.addr b.fin := by
  obtain ⟨hlo, hhi⟩ := h.bounds hb
  have hlen := b.addr_lt_fin
  refine ⟨hlen, ⟨hlo, hhi⟩, fun x h1 h2 => h.not_covered hb hfree ⟨h1, h2⟩, ?_, ?_⟩
  · by_cases hfirst : b.addr = lo
    · exact Or.inl hfirst
    · obtain ⟨c, hc, h1, h2⟩ := h.exists_block (x := b.addr - 1) (by omega) (by omega)
      have hne : b ≠ c := by rintro rfl; omega
      have hused : c.free = false := by
        simpa [hfree] using hm.adjacent h hc hb (h.addr_eq_fin hc hb hne (by omega) (by omega))
      exact Or.inr ⟨c, hc, hused, h1, h2⟩
  · by_cases hlast : b.fin = hi
    · exact Or.inl hlast
    · obtain ⟨c, hc, h1, h2⟩ := h.exists_block (x := b.fin) (by omega) (by omega)
      have hne : c ≠ b := by rintro rfl; omega
      have hused : c.free = false := by
        simpa [hfree] using hm.adjacent h hb hc (h.addr_eq_fin hb hc hne (by omega) h1)
      exact Or.inr ⟨c, hc, hused, h1, h2⟩

/-- **A stretch is one free block**, where free neighbours are merged. -/
theorem Stretch.exists_block (h : Stretch bs lo hi first last) (ht : Tiles lo bs hi) (hm : Merged bs) :
    ∃ b ∈ bs, b.free = true ∧ b.addr = first ∧ b.fin = last := by
  obtain ⟨hne, ⟨hlo, hhi⟩, hfree, hleft, hright⟩ := h
  -- a block that holds a byte of the stretch is free
  have hblock {x : Nat} (h1 : first ≤ x) (h2 : x < last) : ∃ b ∈ bs, b.free = true ∧ b.addr ≤ x ∧ x < b.fin := by
    obtain ⟨b, hb, hbx⟩ := ht.exists_block (x := x) (by omega) (by omega)
    refine ⟨b, hb, ?_, hbx⟩
    by_contra hused
    exact hfree x h1 h2 ⟨b, hb, by simpa using hused, hbx⟩
  obtain ⟨b, hb, hbfree, hb1, hb2⟩ := hblock (Nat.le_refl first) hne
  obtain ⟨hblo, hbhi⟩ := ht.bounds hb
  have hfirst : b.addr = first := by
    by_contra hcontra
    rcases hleft with hleft | hleft
    · omega
    · exact ht.not_covered hb hbfree ⟨by omega, by omega⟩ hleft
  refine ⟨b, hb, hbfree, hfirst, ?_⟩
  rcases Nat.lt_trichotomy b.fin last with hlt | heq | hgt
  · -- the next block would be free as well
    obtain ⟨c, hc, hcfree, hc1, hc2⟩ := hblock (x := b.fin) (by omega) hlt
    have hne : c ≠ b := by rintro rfl; omega
    exact absurd ⟨hbfree, hcfree⟩ (hm.adjacent ht hb hc (ht.addr_eq_fin hb hc hne (by omega) hc1))
  · exact heq
  · rcases hright with hright | hright
    · omega
    · exact absurd hright (ht.not_covered hb hbfree ⟨by omega, hgt⟩)

theorem coalesce_of_merged : ∀ {bs : List Block}, Merged bs → coalesce bs = bs
  | [], _ => by rw [coalesce]; simp
  | [b], _ => by rw [coalesce]; simp
  | b :: c :: bs, h => by
    obtain ⟨h1, h2⟩ := List.isChain_cons_cons.mp h
    rw [coalesce, if_neg h1, coalesce_of_merged h2]

theorem freeBlocks_of_not_used (hm : Merged bs) {a : Nat} (h : ∀ b ∈ bs, b.free = false → b.data ≠ a) :
    freeBlocks a bs = bs := by
  unfold freeBlocks
  split
  · have hmark : markFree a bs = bs := by
      unfold markFree
      conv => rhs; rw [← List.map_id bs]
      refine List.map_congr_left fun b hb => ?_
      split
      · next hdata =>
        cases b with
        | mk addr size free =>
        cases free with
        | true => rfl
        | false => exact absurd hdata (h _ hb rfl)
      · rfl
    rw [hmark, coalesce_of_merged hm]
  · rfl

theorem ptrOf_inj {u v : UInt64} (h : ptrOf u = ptrOf v) : u = v := by
  by_cases hv : v = 0
  · rw [hv, ptrOf_eq_none.mpr rfl] at h
    rw [hv, ptrOf_eq_none.mp h]
  · obtain ⟨hu, -⟩ := ptrOf_eq_some.mp (h.trans (ptrOf_eq_some.mpr ⟨rfl, hv⟩))
    exact UInt64.toNat_inj.mp hu

/-- Two heaps with one block list agree on every field of every header. -/
theorem Rep.same_headers {area : HeapArea} {h h' : Heap} (hr : Rep area h bs) (hr' : Rep area h' bs) :
    h'.firstBlock = h.firstBlock ∧
      ∀ b ∈ bs, ∀ p :
    UInt64, p.toNat = b.addr → h'.size p = h.size p ∧ h'.free p = h.free p ∧ h'.next p = h.next p := by
  refine ⟨ptrOf_inj (hr'.chain.start_unique hr.chain), fun b hb p hp => ?_⟩
  have hh := hr.headers b hb
  have hh' := hr'.headers b hb
  refine ⟨UInt64.toNat_inj.mp ((size_eq hp hh').trans (size_eq hp hh).symm),
    (free_eq hp hh').trans (free_eq hp hh).symm, ptrOf_inj ?_⟩
  rw [next_eq hp, next_eq hp]
  exact hr'.chain.next_eq hr.chain (List.mem_map_of_mem hb)

theorem allocBlocks_eq_none {n : Nat} : allocBlocks n bs = none ↔ ∀ b ∈ bs, ¬ (b.free = true ∧ n ≤ b.size) := by
  induction bs with
  | nil => simp [allocBlocks]
  | cons b bs ih =>
    rw [allocBlocks, List.forall_mem_cons, ← ih]
    split
    · next hfit => simp [hfit]
    · next hfit => simp [hfit]

theorem mem_alloc_used {pre post : List Block} {d : Block} {n : Nat} (hb : b.free = true) (hd : d.free = false) :
    d ∈ pre ++ splitList b n ++ post ↔ d ∈ pre ++ b :: post ∨ d ∈ splitList b n := by
  have hne := used_ne_free hd hb
  simp only [List.mem_append, List.mem_cons, hne, false_or]
  tauto

end

/-! ## Runs -/

namespace HeapClient

variable {area : HeapArea} {c : HeapClient} {bs : List Block}

/-- What `kmalloc(size)` leaves when it takes the stretch `[first, last)`: one more used block, at its start. -/
structure Granted (area : HeapArea) (bs : List Block) (h h' : Heap) (size first : Nat) : Prop where
  list : ∃ bs' d, Rep area h' bs' ∧ d.free = false ∧ d.addr = first ∧ roundUp size ≤ d.size ∧
    ∀ e : Block, e.free = false → (e ∈ bs' ↔ e ∈ bs ∨ e = d)
  bytes : KeepsUsed bs h h'

theorem kmalloc_fails (hi : Exact area c bs) {n : Nat} :
    allocBlocks n bs = none ↔
      ∀ first last, Stretch bs area.base.toNat (area.base.toNat + 65536) first last → last - first < 24 + n := by
  rw [allocBlocks_eq_none]
  constructor
  · intro hnone first last hs
    obtain ⟨b, hb, hfree, rfl, rfl⟩ := hs.exists_block hi.inv.rep.tiles hi.merged
    have hfit := hnone b hb
    simp only [hfree, true_and] at hfit
    unfold Block.fin
    omega
  · rintro hshort b hb ⟨hfree, hfit⟩
    have hlen := hshort _ _ (b.stretch hi.inv.rep.tiles hi.merged hb hfree)
    unfold Block.fin at hlen
    omega

theorem kmalloc_granted (hi : Exact area c bs) {size p : UInt64} {h' : Heap} {bs' : List Block}
    (hrep : Rep area h' bs') (hkeep : KeepsUsed bs c.heap h')
    (ha : allocBlocks (roundUp size.toNat) bs = some (p.toNat, bs')) :
    ∃ first last, Stretch bs area.base.toNat (area.base.toNat + 65536) first last ∧
      24 + roundUp size.toNat ≤ last - first ∧
      (∀ first' last', Stretch bs area.base.toNat (area.base.toNat + 65536) first' last' →
        24 + roundUp size.toNat ≤ last' - first' → first ≤ first') ∧
      p.toNat = first + 24 ∧ Granted area bs c.heap h' size.toNat first := by
  obtain ⟨pre, b, post, rfl, hpre, hfree, hfit, hp, rfl⟩ := allocBlocks_eq_some ha
  have ht := hi.inv.rep.tiles
  have hmem : b ∈ pre ++ b :: post := by simp
  refine ⟨b.addr, b.fin, b.stretch ht hi.merged hmem hfree, by unfold Block.fin; omega, ?_, hp, ?_, hkeep⟩
  · intro first' last' hs hlong
    obtain ⟨d, hd, hdfree, rfl, rfl⟩ := hs.exists_block ht hi.merged
    unfold Block.fin at hlong
    rcases List.mem_append.mp hd with hd | hd
    · -- the blocks before the one taken are too small
      exact absurd ⟨hdfree, by omega⟩ (hpre d hd)
    · obtain ⟨mid, -, hright⟩ := Tiles.append_iff.mp ht
      rw [hright.1]
      exact (hright.bounds hd).1
  · obtain ⟨d, hd, hused, hdata, hsize⟩ := splitList_head b hfit
    refine ⟨_, d, hrep, hused, by unfold Block.data at hdata; omega, hsize, fun e he => ?_⟩
    rw [mem_alloc_used hfree he]
    refine or_congr_right ⟨fun hes => ?_, fun hed => hed ▸ hd⟩
    have hb := splitList_tiles b (roundUp size.toNat)
    exact hb.data_inj hes hd ((used_splitList he hes).trans hdata.symm)

/-- **First fit in terms of free bytes.** -/
theorem kmalloc_exact {area : HeapArea} {h : Heap} {ops : List HeapOp} {c : HeapClient}
    (hr : Run (HeapStep area) ⟨heapInit area h, []⟩ ops c) :
    ∃ bs, Rep area c.heap bs ∧ ∀ size : UInt64, 0 < size.toNat → size.toNat ≤ 65512 →
      ∃ p h', kmalloc area c.heap size = some (p, h') ∧
        (p = 0 ↔ ∀ first last, Stretch bs area.base.toNat (area.base.toNat + 65536) first last →
          last - first < 24 + roundUp size.toNat) ∧
        (p = 0 → h' = c.heap) ∧
        (p ≠ 0 → ∃ first last, Stretch bs area.base.toNat (area.base.toNat + 65536) first last ∧
          24 + roundUp size.toNat ≤ last - first ∧
          (∀ first' last', Stretch bs area.base.toNat (area.base.toNat + 65536) first' last' →
            24 + roundUp size.toNat ≤ last' - first' → first ≤ first') ∧
          p.toNat = first + 24 ∧ Granted area bs c.heap h' size.toNat first) := by
  obtain ⟨bs, hi⟩ := exact_run hr
  refine ⟨bs, hi.inv.rep, fun size hpos hle => ?_⟩
  rcases kmalloc_spec hi.inv.rep size with ⟨h1, hnone⟩ | ⟨q, h', bs', h1, -, -, h2, h3, h4⟩
  · have hfail : allocBlocks (roundUp size.toNat) bs = none := by
      rcases hnone with rfl | hbig | hfail
      · cases hpos
      · omega
      · exact hfail
    exact ⟨0, c.heap, h1, ⟨fun _ => (kmalloc_fails hi).mp hfail, fun _ => rfl⟩, fun _ => rfl,
      fun hne => absurd rfl hne⟩
  · have hgrant := kmalloc_granted hi h3 h4 h2
    obtain ⟨first, last, hs, hlong, -, hq, -⟩ := hgrant
    have hne : q ≠ 0 := by
      rintro rfl
      cases hq
    refine ⟨q, h', h1, ⟨fun h0 => absurd h0 hne, fun hshort => ?_⟩, fun h0 => absurd h0 hne,
      fun _ => kmalloc_granted hi h3 h4 h2⟩
    have := hshort first last hs
    omega

theorem kmalloc_exact_after_two :
    let area : HeapArea := ⟨0x110000, by decide, by decide, by decide⟩
    ∃ c : HeapClient, c.live = [(0x110038, 16), (0x110018, 5)] ∧
        ∃ p h', kmalloc area c.heap 65400 = some (p, h') ∧ (p = 0 → h' = c.heap) := by
  intro area
  obtain ⟨ops, c, hrun, hlive⟩ := run_two_blocks area ⟨fun _ => 0, 0, false⟩
  obtain ⟨bs, -, hall⟩ := kmalloc_exact hrun
  obtain ⟨p, h', hk, -, hnull, -⟩ := hall 65400 (by decide) (by decide)
  exact ⟨c, hlive, p, h', hk, hnull⟩

/-- **Invalid frees are harmless.** -/
theorem kfree_of_not_used {area : HeapArea} {h : Heap} {ops : List HeapOp} {c : HeapClient}
    (hr : Run (HeapStep area) ⟨heapInit area h, []⟩ ops c) :
    ∃ bs, Rep area c.heap bs ∧ ∀ pointer : UInt64, (∀ b ∈ bs, b.free = false → b.data ≠ pointer.toNat) →
      ∃ h', kfree c.heap pointer = some h' ∧ Rep area h' bs ∧ h'.firstBlock = c.heap.firstBlock ∧
        ∀ b ∈ bs, ∀ p : UInt64, p.toNat = b.addr →
          h'.size p = c.heap.size p ∧ h'.free p = c.heap.free p ∧ h'.next p = c.heap.next p := by
  obtain ⟨bs, hi⟩ := exact_run hr
  refine ⟨bs, hi.inv.rep, fun pointer hnot => ?_⟩
  obtain ⟨h', hk, hrep, -⟩ := kfree_spec hi.inv.rep pointer
  rw [freeBlocks_of_not_used hi.merged hnot] at hrep
  exact ⟨h', hk, hrep, hi.inv.rep.same_headers hrep⟩

theorem kfree_of_not_used_interior :
    ∃ c : HeapClient, c.live = [(0x110038, 16), (0x110018, 5)] ∧
      ∃ h', kfree c.heap 0x110020 = some h' ∧ h'.firstBlock = c.heap.firstBlock := by
  let area : HeapArea := ⟨0x110000, by decide, by decide, by decide⟩
  obtain ⟨ops, c, hrun, hlive⟩ := run_two_blocks area ⟨fun _ => 0, 0, false⟩
  obtain ⟨bs, hrep, hall⟩ := kfree_of_not_used hrun
  obtain ⟨bs', hi⟩ := exact_run hrun
  obtain rfl := hrep.unique hi.inv.rep
  obtain ⟨h', hk, -, hfirst, -⟩ := hall 0x110020 fun b hb hused hdata => by
    obtain ⟨r, hr, hrb⟩ := hi.used b hb hused
    rw [hlive] at hr
    simp only [List.mem_cons, List.not_mem_nil, or_false] at hr
    rw [← hrb] at hdata
    rcases hr with rfl | rfl
    · cases hdata
    · cases hdata
  exact ⟨c, hlive, h', hk, hfirst⟩

end HeapClient

end KernelOs
