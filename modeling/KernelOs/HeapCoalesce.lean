import KernelOs.HeapExact
import Mathlib.Data.List.DropRight

/-!
# Coalescing any tiling

`coalesce_free_blocks` on a list that tiles `heap_area` in any way: free neighbours, blocks of
any size. Each maximal run of free blocks becomes one, and the rest stays where it is.
-/

namespace KernelOs
open Lib

/-- A maximal run of neighbouring free blocks. -/
structure FreeRun (bs run : List Block) : Prop where
  nonempty : run ≠ []
  free : ∀ b ∈ run, b.free = true
  maximal : ∃ pre post, bs = pre ++ run ++ post ∧
    (∀ b ∈ pre.getLast?, b.free = false) ∧ ∀ b ∈ post.head?, b.free = false

section
variable {lo hi : Nat} {b c : Block} {bs cs run : List Block}

theorem exists_freeRun (hb : b ∈ bs) (hfree : b.free = true) : ∃ run, FreeRun bs run ∧ b ∈ run := by
  obtain ⟨l₁, l₂, rfl⟩ := List.append_of_mem hb
  refine ⟨l₁.rtakeWhile Block.free ++ b :: l₂.takeWhile Block.free,
    ⟨by simp, fun c hc => ?_, l₁.rdropWhile Block.free, l₂.dropWhile Block.free, ?_, fun c hc => ?_,
    fun c hc => ?_⟩, by simp⟩
  · rcases List.mem_append.mp hc with hc | hc
    · exact List.mem_rtakeWhile_imp hc
    · rcases List.mem_cons.mp hc with rfl | hc
      · exact hfree
      · exact List.mem_takeWhile_imp hc
  · conv =>
      lhs
      rw [← List.rdropWhile_append_rtakeWhile (p := Block.free) (l := l₁),
        ← List.takeWhile_append_dropWhile (p := Block.free) (l := l₂)]
    simp only [List.append_assoc, List.cons_append]
  · have hne : l₁.rdropWhile Block.free ≠ [] := by
      rintro h0
      rw [h0] at hc
      cases hc
    rw [List.getLast?_eq_some_getLast hne] at hc
    obtain rfl := Option.some.inj hc
    simpa using List.rdropWhile_last_not (p := Block.free) (l := l₁) hne
  · have := List.head?_dropWhile_not Block.free l₂
    rw [Option.mem_def.mp hc] at this
    exact this

/-! ## The list -/

theorem coalesce_append :
    ∀ (bs cs : List Block), (∀ b ∈ bs.getLast?, ∀ c ∈ cs.head?, b.free = true → c.free = false) →
    coalesce (bs ++ cs) = coalesce bs ++ coalesce cs
  | [], cs, _ => by rw [List.nil_append, show coalesce [] = [] by rw [coalesce]; simp, List.nil_append]
  | [b], [], _ => by rw [List.append_nil, show coalesce [] = [] by rw [coalesce]; simp, List.append_nil]
  | [b], c :: cs, h => by
    have hbc : ¬ (b.free = true ∧ c.free = true) := fun hbc => by
      have := h b rfl c rfl hbc.1
      rw [hbc.2] at this
      cases this
    rw [List.singleton_append, coalesce, if_neg hbc, show coalesce [b] = [b] by rw [coalesce]; simp]
    rfl
  | b :: c :: bs, cs, h => by
    rw [List.cons_append, List.cons_append, coalesce, coalesce]
    split
    · next hbc =>
      refine coalesce_append (⟨b.addr, b.size + (24 + c.size), true⟩ :: bs) cs fun d hd e he hfree => ?_
      cases bs with
      | nil => exact h c rfl e he hbc.2
      | cons b' bs => exact h d (by simpa using hd) e he hfree
    · rw [← List.cons_append, coalesce_append (c :: bs) cs fun d hd => h d (by simpa using hd), List.cons_append]
termination_by bs _ => bs.length

theorem coalesce_free : ∀ {lo hi : Nat} {b : Block} {bs : List Block}, (∀ c ∈ b :: bs, c.free = true) →
    Tiles lo (b :: bs) hi →
    coalesce (b :: bs) = [⟨lo, hi - lo - 24, true⟩]
  | lo, hi, b, [], hfree, ht => by
    have hb := hfree b (List.mem_cons_self ..)
    obtain ⟨rfl, rfl⟩ := ht
    rw [show coalesce [b] = [b] by rw [coalesce]; simp]
    cases b
    simp_all [Block.fin]
    omega
  | lo, hi, b, c :: bs, hfree, ht => by
    obtain ⟨rfl, hc, hrest⟩ := ht
    rw [coalesce, if_pos ⟨hfree b (by simp), hfree c (by simp)⟩]
    refine coalesce_free (fun d hd => ?_) ⟨rfl, ?_⟩
    · rcases List.mem_cons.mp hd with rfl | hd
      · rfl
      · exact hfree d (by simp [hd])
    · -- the merged block ends where the second one did
      have hfin : Block.fin ⟨b.addr, b.size + (24 + c.size), true⟩ = c.fin := by
        unfold Block.fin at hc ⊢
        show b.addr + 24 + (b.size + (24 + c.size)) = c.addr + 24 + c.size
        omega
      rwa [hfin]
termination_by _ _ _ bs => bs.length

theorem FreeRun.mem_coalesce (hr : FreeRun bs run) (ht : Tiles lo run hi) :
    ⟨lo, hi - lo - 24, true⟩ ∈ coalesce bs := by
  obtain ⟨hne, hfree, pre, post, rfl, hpre, hpost⟩ := hr
  obtain ⟨b, run, rfl⟩ := List.exists_cons_of_ne_nil hne
  have hright : ∀ c ∈ (pre ++ b :: run).getLast?, ∀ d ∈ post.head?, c.free = true → d.free = false :=
    fun _ _ d hd _ => hpost d hd
  have hleft : ∀ c ∈ pre.getLast?, ∀ d ∈ (b :: run).head?, c.free = true →
      d.free = false := fun c hc _ _ hcfree => by
    rw [hpre c hc] at hcfree
    cases hcfree
  rw [coalesce_append _ _ hright, coalesce_append _ _ hleft, coalesce_free hfree ht]
  simp

/-- The free blocks of the result are the maximal runs of the input, with the bytes they cover. -/
theorem mem_coalesce_free (h : Tiles lo bs hi) (h' : Tiles lo (coalesce bs) hi) (hfree : b.free = true) :
    b ∈ coalesce bs ↔ ∃ run, FreeRun bs run ∧ Tiles b.addr run b.fin := by
  constructor
  · intro hb
    have hlen := b.addr_lt_fin
    obtain ⟨hblo, hbhi⟩ := h'.bounds hb
    obtain ⟨c, hc, hcx⟩ := h.exists_block (x := b.addr) hblo (by omega)
    -- a used block is in the result as it is
    have hcfree : c.free = true := by
      by_contra hused
      rw [Bool.not_eq_true] at hused
      rw [h'.eq_of_common hb ((mem_coalesce_used bs c hused).mpr hc) ⟨Nat.le_refl _, hlen⟩ hcx, hused] at hfree
      cases hfree
    obtain ⟨run, hr, hcr⟩ := exists_freeRun hc hcfree
    obtain ⟨pre, post, hbs, -, -⟩ := hr.maximal
    rw [hbs, List.append_assoc] at h
    obtain ⟨mid, -, h⟩ := Tiles.append_iff.mp h
    obtain ⟨mid', hrun, -⟩ := Tiles.append_iff.mp h
    obtain ⟨hc1, hc2⟩ := hrun.bounds hcr
    have hfin : Block.fin ⟨mid, mid' - mid - 24, true⟩ = mid' := by
      unfold Block.fin at hc2 ⊢
      show mid + 24 + (mid' - mid - 24) = mid'
      omega
    have hbd := h'.eq_of_common hb (hr.mem_coalesce hrun) ⟨Nat.le_refl _, hlen⟩ ⟨Nat.le_trans hc1 hcx.1,
      by rw [hfin]; omega⟩
    refine ⟨run, hr, ?_⟩
    rw [hbd, hfin]
    exact hrun
  · rintro ⟨run, hr, ht⟩
    have hmem := hr.mem_coalesce ht
    have hsize : b.fin - b.addr - 24 = b.size := by
      unfold Block.fin
      omega
    rwa [hsize, ← hfree] at hmem

end

/-! ## The loop on a merged list -/

theorem coalesceLoop_merged {area : HeapArea} {h : Heap} :
    ∀ (n : Nat) (bs pre : List Block) (p : UInt64), Laid area h (pre ++ bs) →
    Seg (link h.mem) (ptrOf p) (bs.map Block.addr) none → Merged bs → bs.length < n →
    coalesceLoop n p h = some h := by
  intro n
  induction n with
  | zero => intro _ _ _ _ _ _ hlt; exact absurd hlt (Nat.not_lt_zero _)
  | succ n ih =>
  intro bs pre p hl hs hm hlt
  match bs, hl, hs, hm, hlt with
  | [], _, hs, _, _ => rw [coalesceLoop, if_pos (Or.inl (ptrOf_eq_none.mp hs))]
  | [b], _, hs, _, _ =>
    obtain ⟨hp, -, hs'⟩ := Seg.head_ptr hs
    rw [coalesceLoop, if_pos (Or.inr ?_)]
    rw [← ptrOf_eq_none, next_eq hp]
    exact hs'
  | b :: c :: bs, hl, hs, hm, hlt =>
    obtain ⟨hp, hp0, hs'⟩ := Seg.head_ptr hs
    rw [← next_eq hp] at hs'
    obtain ⟨hq, hq0, -⟩ := Seg.head_ptr hs'
    obtain ⟨hbc, hm'⟩ := List.isChain_cons_cons.mp hm
    have hstay : ¬ (h.free p && h.free (h.next p) && blocksAreAdjacent h p (h.next p)) = true := by
      rw [free_eq hp (hl.headers b (by simp)), free_eq hq (hl.headers c (by simp))]
      simp only [Bool.and_eq_true]
      exact fun hall => hbc hall.1
    rw [coalesceLoop, if_neg (by simp [hp0, hq0])]
    simp only [if_neg hstay]
    exact ih (c :: bs) (pre ++ [b]) (h.next p) (by simpa using hl) hs' hm' (by simpa using hlt)

/-- **Coalescing normalises any tiling.** -/
theorem coalesceFreeBlocks_normalises {area : HeapArea} {h : Heap} {bs : List Block} (hl : Laid area h bs) :
    ∃ h' bs', coalesceFreeBlocks h = some h' ∧ Laid area h' bs' ∧
      (∀ b : Block, b.free = false → (b ∈ bs' ↔ b ∈ bs)) ∧
      (∀ b : Block, b.free = true → (b ∈ bs' ↔ ∃ run, FreeRun bs run ∧ Tiles b.addr run b.fin)) ∧
      KeepsUsed bs h h' ∧
      coalesceFreeBlocks h' = some h' := by
  obtain ⟨h', h1, h2, h3, -⟩ := coalesceFreeBlocks_laid hl
  refine ⟨h', coalesce bs, h1, h2, fun b => mem_coalesce_used bs b,
    fun b hb => mem_coalesce_free hl.tiles h2.tiles hb, h3, ?_⟩
  exact coalesceLoop_merged heapFuel (coalesce bs) [] h'.firstBlock h2 h2.chain (merged_coalesce bs) h2.length_lt

/-- A free block of 16 bytes, one of none and a used rest: the first two become one of 40 bytes. -/
theorem coalesceFreeBlocks_normalises_two_free :
    let area : HeapArea := ⟨0x110000, by decide, by decide, by decide⟩
    let h := heapInit area ⟨fun _ => 0, 0, false⟩
    let h := ((h.setSize 0x110000 16).setNext 0x110000 0x110028).setSize 0x110028 0
    let h := ((h.setFree 0x110028 true).setNext 0x110028 0x110040).setSize 0x110040 65448
    ∃ h' bs', coalesceFreeBlocks h = some h' ∧ Laid area h' bs' ∧ ⟨0x110000, 40, true⟩ ∈ bs' ∧
      ⟨0x110040, 65448, false⟩ ∈ bs' ∧
      coalesceFreeBlocks h' = some h' := by
  intro area h h h
  have hl : Laid area h [⟨0x110000, 16, true⟩, ⟨0x110028, 0, true⟩, ⟨0x110040, 65448, false⟩] := by
    have hend : link h.mem 0x110040 = none := by decide +kernel
    have hfin : Block.fin ⟨0x110040, 65448, false⟩ = area.base.toNat + 65536 := by decide +kernel
    refine ⟨⟨by decide +kernel, by decide +kernel, by decide +kernel, hend⟩, fun b hb => ?_, by decide +kernel,
      by decide +kernel, by decide +kernel, hfin⟩
    simp only [List.mem_cons, List.not_mem_nil, or_false] at hb
    rcases hb with rfl | rfl | rfl
    · exact ⟨by decide +kernel, by decide +kernel⟩
    · exact ⟨by decide +kernel, by decide +kernel⟩
    · exact ⟨by decide +kernel, by decide +kernel⟩
  obtain ⟨h', bs', h1, h2, hused, hfree, -, hagain⟩ := coalesceFreeBlocks_normalises hl
  refine ⟨h', bs', h1, h2,
    (hfree _ rfl).mpr ⟨[⟨0x110000, 16, true⟩, ⟨0x110028, 0, true⟩], ⟨by simp, by simp, [], _, rfl, ?_, ?_⟩, ?_⟩,
    (hused _ rfl).mpr (by simp), hagain⟩
  · simp
  · simp
  · simp [Block.fin]

end KernelOs
