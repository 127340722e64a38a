import KernelOs.HeapSafety
import Mathlib.Data.List.Chain

/-!
# The heap forgets its history

Neighbouring free blocks are always merged. A list that is merged and tiles `heap_area` has one
free block in each gap between used ones, so the used blocks determine it.
-/

namespace KernelOs
open Lib

def Merged (bs : List Block) : Prop := bs.IsChain fun b c => ¬ (b.free = true ∧ c.free = true)

def SameUsed (bs bs' : List Block) : Prop := ∀ b : Block, b.free = false → (b ∈ bs ↔ b ∈ bs')

/-! ## Merged lists -/

theorem coalesce_head : ∀ (b : Block) (bs : List Block), ∃ d cs, coalesce (b :: bs) = d :: cs ∧ d.free = b.free
  | b, [] => ⟨b, [], by rw [coalesce]; simp, rfl⟩
  | b, c :: bs => by
    rw [coalesce]
    split
    · next h =>
      obtain ⟨d, cs, he, hd⟩ := coalesce_head ⟨b.addr, b.size + (24 + c.size), true⟩ bs
      exact ⟨d, cs, he, hd.trans h.1.symm⟩
    · exact ⟨b, _, rfl, rfl⟩
termination_by _ bs => bs.length

theorem merged_coalesce : ∀ bs : List Block, Merged (coalesce bs)
  | [] => by rw [coalesce]; exact List.isChain_nil; simp
  | [b] => by rw [coalesce]; exact List.isChain_singleton b; simp
  | b :: c :: bs => by
    rw [coalesce]
    split
    · exact merged_coalesce (⟨b.addr, b.size + (24 + c.size), true⟩ :: bs)
    · next h =>
      have hrest := merged_coalesce (c :: bs)
      obtain ⟨d, cs, he, hd⟩ := coalesce_head c bs
      unfold Merged at hrest ⊢
      rw [he] at hrest ⊢
      rw [List.isChain_cons_cons, hd]
      exact ⟨h, hrest⟩
termination_by bs => bs.length

theorem merged_freeBlocks {bs : List Block} (h : Merged bs) (a : Nat) : Merged (freeBlocks a bs) := by
  unfold freeBlocks
  split
  · exact merged_coalesce _
  · exact h

/-- The block that is taken starts with a used one, and what is left of it was free before. -/
theorem merged_alloc {pre post : List Block} {b : Block} (h : Merged (pre ++ b :: post))
    (hb : b.free = true) (n : Nat) :
    Merged (pre ++ splitList b n ++ post) := by
  unfold Merged at h ⊢
  rw [List.isChain_append] at h
  obtain ⟨hpre, hpost, -⟩ := h
  rw [List.append_assoc, List.isChain_append]
  unfold splitList
  split
  · refine ⟨hpre, ?_, fun x _ y hy => ?_⟩
    · rw [List.singleton_append, List.isChain_cons]
      exact ⟨by simp, (List.isChain_cons.mp hpost).2⟩
    · obtain rfl := Option.some.inj hy
      simp
  · refine ⟨hpre, ?_, fun x _ y hy => ?_⟩
    · rw [List.cons_append, List.singleton_append, List.isChain_cons_cons, List.isChain_cons]
      refine ⟨by simp, fun y hy hc => ?_, (List.isChain_cons.mp hpost).2⟩
      exact (List.isChain_cons.mp hpost).1 y hy ⟨hb, hc.2⟩
    · obtain rfl := Option.some.inj hy
      simp

/-! ## The used blocks determine the list -/

theorem Tiles.lt_addr {lo hi : Nat} {b d : Block} {bs : List Block} (h : Tiles lo (b :: bs) hi) (hd : d ∈ bs) :
    b.addr < d.addr := by
  have := (h.2.bounds hd).1
  unfold Block.fin at this
  omega

theorem first_free_le {lo hi : Nat} {b b' : Block} {bs bs' : List Block} (h : Tiles lo (b :: bs) hi)
    (h' : Tiles lo (b' :: bs') hi) (hm : Merged (b :: bs)) (hb : b.free = true) (hb' : b'.free = true)
    (hu : SameUsed (b :: bs) (b' :: bs')) : b'.fin ≤ b.fin := by
  cases bs with
  | nil =>
    have hend : b.fin = hi := h.2
    rw [hend]
    exact h'.2.le
  | cons c bs =>
    have hc : c.free = false := by
      have := (List.isChain_cons_cons.mp hm).1
      simpa [hb] using this
    have hmem := (hu c hc).mp (by simp)
    have hne := used_ne_free hc hb'
    have hle := (h'.2.bounds ((List.mem_cons.mp hmem).resolve_left hne)).1
    rwa [show c.addr = b.fin from h.2.1] at hle

theorem first_used_eq {lo hi : Nat} {b b' : Block} {bs bs' : List Block} (h : Tiles lo (b :: bs) hi)
    (h' : Tiles lo (b' :: bs') hi) (hb : b.free = false) (hu : SameUsed (b :: bs) (b' :: bs')) : b = b' := by
  have hmem := (hu b hb).mp (List.mem_cons_self ..)
  refine (List.mem_cons.mp hmem).resolve_right fun hin => ?_
  have hlt := h'.lt_addr hin
  rw [h.1, h'.1] at hlt
  exact Nat.lt_irrefl lo hlt

theorem SameUsed.symm {bs bs' : List Block} (h : SameUsed bs bs') : SameUsed bs' bs := fun b hb => (h b hb).symm

theorem merged_unique : ∀ {lo hi : Nat} {bs bs' : List Block}, Tiles lo bs hi → Tiles lo bs' hi →
    Merged bs → Merged bs' →
    SameUsed bs bs' → bs = bs'
  | _, _, [], [], _, _, _, _, _ => rfl
  | lo, hi, [], b :: bs, h, h', _, _, _ => by
    have hle := (h'.bounds (List.mem_cons_self ..)).2
    have := h'.1
    unfold Block.fin at hle
    rw [← show lo = hi from h] at hle
    omega
  | lo, hi, b :: bs, [], h, h', _, _, _ => by
    have hle := (h.bounds (List.mem_cons_self ..)).2
    have := h.1
    unfold Block.fin at hle
    rw [← show lo = hi from h'] at hle
    omega
  | lo, hi, b :: bs, b' :: bs', h, h', hm, hm', hu => by
    have hfirst : b = b' := by
      cases hb : b.free with
      | false => exact first_used_eq h h' hb hu
      | true =>
        cases hb' : b'.free with
        | false => exact (first_used_eq h' h hb' hu.symm).symm
        | true =>
          have h1 := first_free_le h h' hm hb hb' hu
          have h2 := first_free_le h' h hm' hb' hb hu.symm
          have haddr : b.addr = b'.addr := h.1.trans h'.1.symm
          have hsize : b.size = b'.size := by
            unfold Block.fin at h1 h2
            omega
          cases b
          cases b'
          simp_all
    subst hfirst
    have htail : SameUsed bs bs' := fun d hd => by
      have hdu := hu d hd
      rw [List.mem_cons, List.mem_cons] at hdu
      by_cases hdb : d = b
      · subst hdb
        exact ⟨fun hc => absurd (h.lt_addr hc) (Nat.lt_irrefl _),
          fun hc => absurd (h'.lt_addr hc) (Nat.lt_irrefl _)⟩
      · simpa [hdb] using hdu
    rw [merged_unique h.2 h'.2 (List.isChain_cons.mp hm).2 (List.isChain_cons.mp hm').2 htail]

theorem Rep.unique {area : HeapArea} {h : Heap} {bs bs' : List Block} (hr : Rep area h bs)
    (hr' : Rep area h bs') : bs = bs' := by
  have haddr := hr.chain.unique hr'.chain
  have hsame : ∀ {bs bs' : List Block}, bs.map Block.addr = bs'.map Block.addr → (∀ b ∈ bs, Header h.mem b) →
      (∀ b ∈ bs', Header h.mem b) → bs = bs' := by
    intro bs
    induction bs with
    | nil =>
      intro bs' he _ _
      exact (List.map_eq_nil_iff.mp he.symm).symm
    | cons b bs ih =>
      intro bs' he hb hb'
      cases bs' with
      | nil => cases he
      | cons b' bs' =>
        obtain ⟨h1, h2⟩ := List.cons.inj he
        obtain ⟨k1, k2⟩ := hb b (List.mem_cons_self ..)
        obtain ⟨l1, l2⟩ := hb' b' (List.mem_cons_self ..)
        rw [h1] at k1 k2
        have hbb : b = b' := by
          cases b
          cases b'
          simp_all
        rw [hbb, ih h2 (fun c hc => hb c (List.mem_cons_of_mem _ hc)) fun c hc => hb' c (List.mem_cons_of_mem _ hc)]
  exact hsame haddr hr.headers hr'.headers

/-! ## Allocation and freeing -/

theorem used_freeBlocks (a : Nat) (bs : List Block) {d : Block} (hd : d.free = false) :
    d ∈ freeBlocks a bs ↔ d ∈ bs ∧ d.data ≠ a := by
  unfold freeBlocks
  split
  · rw [mem_coalesce_used _ d hd, mem_markFree_used a bs hd]
  · next hn =>
    refine ⟨fun h => ⟨h, fun ha => hn (List.mem_map.mpr ⟨d, h, ha⟩)⟩, And.left⟩

theorem used_splitList {b d : Block} {n : Nat} (hd : d.free = false) (h : d ∈ splitList b n) : d.data = b.data := by
  unfold splitList at h
  split at h
  · rw [List.mem_singleton.mp h]
    rfl
  · rcases List.mem_cons.mp h with rfl | h
    · rfl
    · rw [List.mem_singleton.mp h] at hd
      cases hd

theorem used_alloc_free {lo hi : Nat} {pre post : List Block} {b : Block} (h : Tiles lo (pre ++ b :: post) hi)
    (hb : b.free = true) (n : Nat) :
    SameUsed (freeBlocks b.data (pre ++ splitList b n ++ post)) (pre ++ b :: post) := by
  intro d hd
  rw [used_freeBlocks _ _ hd]
  have hne := used_ne_free hd hb
  simp only [List.mem_append, List.mem_cons]
  constructor
  · rintro ⟨(h1 | h1) | h1, hdata⟩
    · exact Or.inl h1
    · exact absurd (used_splitList hd h1) hdata
    · exact Or.inr (Or.inr h1)
  · intro hmem
    have hin : d ∈ pre ++ b :: post := by simpa using hmem
    refine ⟨?_, fun hdata => hne (h.data_inj hin (by simp) hdata)⟩
    rcases hmem with h1 | h1 | h1
    · exact Or.inl (Or.inl h1)
    · exact absurd h1 hne
    · exact Or.inr h1

/-! ## Runs -/

namespace HeapClient

/-- Between any two calls: the list is merged, and its used blocks are those of the live pointers. -/
structure Exact (area : HeapArea) (c : HeapClient) (bs : List Block) : Prop where
  inv : Inv area c bs
  merged : Merged bs
  used : ∀ b ∈ bs, b.free = false → ∃ r ∈ c.live, r.1 = b.data

variable {area : HeapArea} {c c' : HeapClient} {bs : List Block}

theorem exact_init (area : HeapArea) (h : Heap) : Exact area ⟨heapInit area h, []⟩ (initialBlocks area) where
  inv := inv_init area h
  merged := List.isChain_singleton _
  used b hb hu := by
    rw [List.mem_singleton.mp hb] at hu
    cases hu

theorem exact_kmalloc (hi : Exact area c bs) {size p : UInt64} {h' : Heap}
    (hk : kmalloc area c.heap size = some (p, h')) :
    ∃ bs', Exact area ⟨h', if p = 0 then c.live else (p.toNat, size.toNat) :: c.live⟩ bs' := by
  obtain ⟨bs', hinv⟩ := inv_kmalloc hi.inv hk
  suffices h : Merged bs' ∧ ∀ b ∈ bs', b.free = false → ∃ r ∈ if p = 0 then c.live
    else (p.toNat, size.toNat) :: c.live, r.1 = b.data from
    ⟨bs', hinv, h.1, h.2⟩
  rcases kmalloc_spec hi.inv.rep size with ⟨h1, -⟩ | ⟨q, h'', bs'', h1, -, -, h2, h3, -⟩
  · rw [h1] at hk
    obtain ⟨rfl, rfl⟩ := Prod.mk.inj (Option.some.inj hk)
    obtain rfl := hinv.rep.unique hi.inv.rep
    exact ⟨hi.merged, hi.used⟩
  · rw [h1] at hk
    obtain ⟨rfl, rfl⟩ := Prod.mk.inj (Option.some.inj hk)
    obtain rfl := hinv.rep.unique h3
    obtain ⟨pre, b, post, rfl, -, hfree, -, ha, rfl⟩ := allocBlocks_eq_some h2
    have hq : q ≠ 0 := by
      rintro rfl
      unfold Block.data at ha
      simp at ha
    refine ⟨merged_alloc hi.merged hfree _, fun d hd hu => ?_⟩
    simp only [if_neg hq, List.mem_cons, exists_eq_or_imp]
    simp only [List.mem_append] at hd
    rcases hd with (hd | hd) | hd
    · exact Or.inr (hi.used d (by simp [hd]) hu)
    · exact Or.inl (ha.trans (used_splitList hu hd).symm)
    · exact Or.inr (hi.used d (by simp [hd]) hu)

theorem exact_kfree (hi : Exact area c bs) {pointer : UInt64} {h' : Heap} (hk : kfree c.heap pointer = some h') :
    Exact area ⟨h', c.live.filter fun r => r.1 ≠ pointer.toNat⟩ (freeBlocks pointer.toNat bs) := by
  obtain ⟨bs', hinv⟩ := inv_kfree hi.inv hk
  obtain ⟨h'', h1, h2, -⟩ := kfree_spec hi.inv.rep pointer
  rw [h1] at hk
  obtain rfl := Option.some.inj hk
  obtain rfl := hinv.rep.unique h2
  refine ⟨hinv, merged_freeBlocks hi.merged _, fun d hd hu => ?_⟩
  obtain ⟨hd, hne⟩ := (used_freeBlocks _ _ hu).mp hd
  obtain ⟨r, hr, hrd⟩ := hi.used d hd hu
  exact ⟨r, List.mem_filter.mpr ⟨hr, by simpa [hrd] using hne⟩, hrd⟩

theorem exact_step {op : HeapOp} (hi : ∃ bs, Exact area c bs) (hs : HeapStep area c op c') :
    ∃ bs, Exact area c' bs := by
  obtain ⟨bs, hi⟩ := hi
  cases hs with
  | kmalloc hk => exact exact_kmalloc hi hk
  | kfree hk => exact ⟨_, exact_kfree hi hk⟩
  | write hown => exact ⟨bs, inv_write hi.inv hown, hi.merged, hi.used⟩

theorem exact_run {h : Heap} {ops : List HeapOp} (hr : Run (HeapStep area) ⟨heapInit area h, []⟩ ops c) :
    ∃ bs, Exact area c bs :=
  hr.invariant (I := fun c => ∃ bs, Exact area c bs) (fun _ _ _ hi hs => exact_step hi hs) ⟨_, exact_init area h⟩

theorem Exact.initial (hi : Exact area c bs) (hlive : c.live = []) : bs = initialBlocks area := by
  refine merged_unique hi.inv.rep.tiles (heapInit_spec area c.heap).tiles hi.merged
    (List.isChain_singleton _) fun d hd => ?_
  constructor
  · intro hmem
    obtain ⟨r, hr, -⟩ := hi.used d hmem hd
    rw [hlive] at hr
    cases hr
  · intro hmem
    rw [List.mem_singleton.mp hmem] at hd
    cases hd

theorem exact_kfrees (pointers : List UInt64) : ∀ {c : HeapClient} {bs : List Block}, Exact area c bs →
    ∃ h' live bs', pointers.foldlM kfree c.heap = some h' ∧ Exact area ⟨h', live⟩ bs' ∧
      ∀ r, r ∈ live ↔ r ∈ c.live ∧ ∀ p ∈ pointers, r.1 ≠ p.toNat := by
  induction pointers with
  | nil =>
    intro c bs hi
    exact ⟨c.heap, c.live, bs, rfl, hi, by simp⟩
  | cons p pointers ih =>
    intro c bs hi
    obtain ⟨h₁, hk, -⟩ := kfree_spec hi.inv.rep p
    obtain ⟨h', live, bs', he, hi', hlive⟩ := ih (exact_kfree hi hk)
    refine ⟨h', live, bs', ?_, hi', fun r => ?_⟩
    · rw [List.foldlM_cons, hk]
      exact he
    · rw [hlive]
      simp [and_assoc]

/-- **History independence.** After any run the list is merged and determined by its used blocks; freeing what
was just allocated brings the list back, and freeing every live pointer, in any order, the initial one. -/
theorem heap_history_independent {area : HeapArea} {h : Heap} {ops : List HeapOp} {c : HeapClient}
    (hr : Run (HeapStep area) ⟨heapInit area h, []⟩ ops c) :
    ∃ bs, Rep area c.heap bs ∧ (∀ bs', Rep area c.heap bs' → bs' = bs) ∧ Merged bs ∧
      (∀ {h' : Heap} {ops' : List HeapOp} {c' : HeapClient} {bs' : List Block},
        Run (HeapStep area) ⟨heapInit area h', []⟩ ops' c' → Rep area c'.heap bs' → SameUsed bs bs' → bs' = bs) ∧
      (∀ {size p : UInt64} {h₁ : Heap}, kmalloc area c.heap size = some (p, h₁) → p ≠ 0 →
        ∃ h₂, kfree h₁ p = some h₂ ∧ Rep area h₂ bs) ∧
      ∀ pointers : List UInt64, (∀ r ∈ c.live, ∃ p ∈ pointers, p.toNat = r.1) →
        ∃ h', pointers.foldlM kfree c.heap = some h' ∧ Rep area h' (initialBlocks area) := by
  obtain ⟨bs, hi⟩ := exact_run hr
  refine ⟨bs, hi.inv.rep, fun bs' hr' => hr'.unique hi.inv.rep, hi.merged, ?_, ?_, fun pointers hall => ?_⟩
  · intro h' ops' c' bs' hrun hrep hu
    obtain ⟨bs'', hi'⟩ := exact_run hrun
    obtain rfl := hrep.unique hi'.inv.rep
    exact (merged_unique hi.inv.rep.tiles hrep.tiles hi.merged hi'.merged hu).symm
  · intro size p h₁ hk hp
    rcases kmalloc_spec hi.inv.rep size with ⟨h1, -⟩ | ⟨q, h', bs', h1, -, -, h2, h3, -⟩
    · rw [h1] at hk
      exact absurd (Prod.mk.inj (Option.some.inj hk)).1.symm hp
    · rw [h1] at hk
      obtain ⟨rfl, rfl⟩ := Prod.mk.inj (Option.some.inj hk)
      obtain ⟨h₂, hf, hrep, -⟩ := kfree_spec h3 q
      refine ⟨h₂, hf, ?_⟩
      obtain ⟨pre, b, post, rfl, -, hfree, -, ha, rfl⟩ := allocBlocks_eq_some h2
      rw [ha] at hrep
      have hsame :=
        merged_unique hrep.tiles hi.inv.rep.tiles (merged_freeBlocks (merged_alloc hi.merged hfree _) _) hi.merged
        (used_alloc_free hi.inv.rep.tiles hfree _)
      rwa [hsame] at hrep
  · obtain ⟨h', live, bs', he, hi', hlive⟩ := exact_kfrees pointers hi
    refine ⟨h', he, ?_⟩
    have hnil : live = [] := by
      refine List.eq_nil_iff_forall_not_mem.mpr fun r hmem => ?_
      obtain ⟨hr, hne⟩ := (hlive r).mp hmem
      obtain ⟨p, hp, hpr⟩ := hall r hr
      exact hne p hp hpr.symm
    rw [← hi'.initial hnil]
    exact hi'.inv.rep

theorem heap_history_independent_two_blocks :
    let area : HeapArea := ⟨0x110000, by decide, by decide, by decide⟩
    ∃ c : HeapClient, c.live = [(0x110038, 16), (0x110018, 5)] ∧
      ∃ h', [(0x110018 : UInt64), 0x110038].foldlM kfree c.heap = some h' ∧ Rep area h' (initialBlocks area) := by
  intro area
  obtain ⟨ops, c, hrun, hlive⟩ := run_two_blocks area ⟨fun _ => 0, 0, false⟩
  obtain ⟨bs, -, -, -, -, -, hfree⟩ := heap_history_independent hrun
  refine ⟨c, hlive, hfree _ fun r hr => ?_⟩
  rw [hlive] at hr
  rcases List.mem_cons.mp hr with rfl | hr
  · exact ⟨0x110038, by simp, rfl⟩
  · rw [List.mem_singleton.mp hr]
    exact ⟨0x110018, by simp, rfl⟩

end HeapClient

end KernelOs
