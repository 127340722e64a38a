import KernelOs.Isolation
import KernelOs.IdentityMap
import KernelOs.ElfContents

/-!
# Success and what is mapped

`vmm_map_page` has no result. Its callers see that a table is missing by the next
request for a frame, which fails as well, or by the copy that finds no page. Neither
happens when it is the last page that could not be mapped and no byte of the file
goes there.
-/

namespace KernelOs
open Lib LawfulPageAllocator CompletePageAllocator

/-- Ring 3 reaches the page of `v`: four levels, and every entry is present and open to user mode. -/
def UserMapped (mem : Memory) (p v : UInt64) : Prop :=
  (walk mem p v).length = 4 ∧ ∀ e ∈ entriesAt mem (walk mem p v), e &&& ptePresent ≠ 0 ∧ e &&& pteUser ≠ 0

/-- The tables that `pages` of a new space need and that do not exist: those of slot 0 are the kernel's. -/
def missingTables (mem : Memory) (cr3 : UInt64) (pages : List Nat) : Finset (List (Fin 512)) :=
  (pages.toFinset.biUnion pageTablePaths).filter fun is =>
    is.head? = some 0 → Radix.follow (slot mem) 3 cr3 is = none

/-- The frames for a new space with `pages`: the PML4, the pages and their tables. -/
def framesNeeded (mem : Memory) (cr3 : UInt64) (pages : List Nat) : Nat :=
  1 + pages.length + (missingTables mem cr3 pages).card

/-! ## Pages that ring 3 reaches -/

section
variable {α : Type} [PageAllocator α] [LawfulPageAllocator α] {L : Layout} {s : Vmm α} {T : TableMap}
  {mem : Memory} {p v w : UInt64}

theorem UserPage.mapped (hu : UserPage s.mem p v) (h : Tabled L s T) (hp : T.label p = some (.root p)) :
    UserMapped s.mem p v := by
  obtain ⟨flags, hflags, pt, hf, hpresent, hbits, huser⟩ := hu
  have hlen : (tableWalk s.mem p v).length = 3 := Radix.trail_length hf
  have hleaf := hbits pteUser (by simp)
  refine ⟨by rw [walk_of_follow hf, List.length_append, hlen]; rfl, ?_⟩
  rw [walk_of_follow hf, entriesAt, List.map_append]
  intro e he
  cases List.mem_append.mp he with
  | inl he =>
    obtain ⟨x, hx, rfl⟩ := List.mem_map.mp he
    exact ⟨h.place_present (ℓ := .root p) hp hf x hx, huser hflags _ (List.mem_map_of_mem hx)⟩
  | inr he =>
    obtain rfl := List.mem_singleton.mp he
    exact ⟨hpresent, by rw [hleaf]; exact hflags⟩

omit [PageAllocator α] [LawfulPageAllocator α] in
theorem UserMapped.lookup_ne_none (h : UserMapped mem p v) : Radix.lookup (slot mem) p (path v) ≠ none := by
  obtain ⟨hlen, hentries⟩ := h
  cases hf : Radix.follow (slot mem) 3 p (tablePath v) with
  | none =>
    have hle : (Radix.trail (slot mem) 3 p (tablePath v)).length ≤ (tablePath v).length := Radix.trail_length_le ..
    rw [walk, path, Radix.trail_of_none hf] at hlen
    rw [hlen] at hle
    exact absurd hle (by simp [tablePath])
  | some pt =>
    have hpresent := (hentries (readEntry mem pt (splitVaddr v).ptI) (by simp [walk_of_follow hf, entriesAt])).1
    rw [path, Radix.lookup_of_follow hf]
    simp [slot, hpresent]

omit [PageAllocator α] [LawfulPageAllocator α] in
theorem userMapped_pageAddr : UserMapped mem p (pageAddr (v.toNat / 4096)) ↔ UserMapped mem p v := by
  simp only [UserMapped, walk, path_pageAddr]

end

/-! ## Counting tables -/

section
variable {α : Type} [PageAllocator α] [CompletePageAllocator α] {cr3 p : UInt64} {k : Kernel α}
  {S : Finset UInt64} {T T₁ : TableMap} {s₃ : Vmm α} {pages : List Nat} {free : Nat}

theorem kernelLayout_next_kernel {is : List (Fin 512)} (i : Fin 512) :
    (kernelLayout cr3 S).next ⟨cr3, is⟩ i = ⟨cr3, is ++ [i]⟩ := by
  unfold Layout.next
  split
  · next hc =>
    obtain ⟨rfl, rfl⟩ : is = [] ∧ i = 0 := hc
    simp [kernelLayout]
  · rfl

theorem kernelLayout_foldl_kernel (is : List (Fin 512)) :
    is.foldl (kernelLayout cr3 S).next (.root cr3) = ⟨cr3, is⟩ := by
  induction is using List.reverseRecOn with
  | nil => rfl
  | append_singleton is i ih =>
    rw [List.foldl_append, ih, List.foldl_cons, List.foldl_nil, kernelLayout_next_kernel]

theorem KernelInv.follow_of_label (h : KernelInv cr3 k S T) {is : List (Fin 512)}
    (hlen : is.length ≤ 3) {n : UInt64} (hn : T.label n = some ⟨cr3, is⟩) :
    Radix.follow (slot k.vmm.mem) 3 cr3 is = some n := by
  induction is using List.reverseRecOn generalizing n with
  | nil =>
    obtain rfl := h.tabled.root hn
    rfl
  | append_singleton is i ih =>
    rw [List.length_append, List.length_singleton] at hlen
    obtain ⟨m, hm⟩ := h.tabled.parent hn
    have hrank : Label.rank ⟨cr3, is⟩ = 3 - is.length := rfl
    have hlink := h.tabled.linked hm (by omega) ((kernelLayout_next_kernel i).symm ▸ hn)
    rw [Radix.follow_snoc, ih (by omega) hm]
    rw [hrank] at hlink
    simp [hlink]

theorem KernelInv.follow_eq_none_iff (h : KernelInv cr3 k S T) {is : List (Fin 512)} (hlen : is.length ≤ 3) :
    Radix.follow (slot k.vmm.mem) 3 cr3 is = none ↔ ⟨cr3, is⟩ ∉ T.names := by
  rw [T.mem_names]
  constructor
  · rintro hnone ⟨n, hn⟩
    rw [h.follow_of_label hlen hn] at hnone
    cases hnone
  · intro hnot
    cases hf : Radix.follow (slot k.vmm.mem) 3 cr3 is with
    | none => rfl
    | some n =>
      have hlab := (h.tabled.labelled.follow_label (ℓ := .root cr3) h.kernel hf).1
      rw [kernelLayout_foldl_kernel] at hlab
      exact absurd ⟨n, hlab⟩ hnot

def tableOf (cr3 p : UInt64) (is : List (Fin 512)) : Label := if is.head? = some 0 then ⟨cr3, is⟩ else ⟨p, is⟩

theorem tableOf_path (is : List (Fin 512)) : (tableOf cr3 p is).path = is := by
  unfold tableOf
  split <;> rfl

theorem names_eq_image {m : Nat} (hm : m < 2 ^ 35) (hp : p ∈ S) :
    (kernelLayout cr3 S).names (.root p) (tablePath (pageAddr m)) = (pageTablePaths m).image (tableOf cr3 p) := by
  by_cases hhigh : highPage m
  · have h0 : (splitVaddr (pageAddr m)).pml4I ≠ 0 := fun hc => (pml4I_eq_zero_iff hm).mp hc hhigh
    rw [names_high hm hhigh]
    simp [pageTablePaths, tableOf, h0]
  · have h0 := (pml4I_eq_zero_iff hm).mpr hhigh
    rw [names_low h0 (Or.inl hp)]
    simp [pageTablePaths, tableOf, h0]

theorem tablesOf_eq_image (hpages : ∀ m ∈ pages, m < 2 ^ 35) (hp : p ∈ S) :
    (kernelLayout cr3 S).tablesOf p pages = (pages.toFinset.biUnion pageTablePaths).image (tableOf cr3 p) := by
  rw [Layout.tablesOf, Finset.biUnion_image]
  exact Finset.biUnion_congr rfl fun m hm => names_eq_image (hpages m (List.mem_toFinset.mp hm)) hp

theorem Opened.tableOf_mem_iff (h : KernelInv cr3 k S T) (ho : Opened cr3 k S T p s₃ T₁) {is : List (Fin 512)}
    (hlen : is.length ≤ 3) (hne : is ≠ []) :
    tableOf cr3 p is ∈ T₁.names ↔ ¬ (is.head? = some 0 → Radix.follow (slot k.vmm.mem) 3 cr3 is = none) := by
  have hroot (o : UInt64) : (⟨o, is⟩ : Label) ≠ .root p := fun hc => hne (Label.mk.inj hc).2
  unfold tableOf
  by_cases h0 : is.head? = some 0
  · rw [if_pos h0, ho.names, Finset.mem_insert, or_iff_right (hroot cr3), h.follow_eq_none_iff hlen]
    simp [h0]
  · rw [if_neg h0]
    simp only [h0, false_implies, not_true, iff_false]
    exact fun hc => hroot p (ho.bare hc rfl)

/-- **The new tables** of the pages are the missing ones. -/
theorem Opened.card_tables (h : KernelInv cr3 k S T) (ho : Opened cr3 k S T p s₃ T₁)
    (hpages : ∀ m ∈ pages, m < 2 ^ 35) :
    (T₁.names ∪ (kernelLayout cr3 (insert p S)).tablesOf p pages).card =
      T₁.names.card + (missingTables k.vmm.mem cr3 pages).card := by
  have hnew : (kernelLayout cr3 (insert p S)).tablesOf p pages \ T₁.names =
      (missingTables k.vmm.mem cr3 pages).image (tableOf cr3 p) := by
    have hmissing {is : List (Fin 512)} (his : is ∈ pages.toFinset.biUnion pageTablePaths) : tableOf cr3 p
      is ∉ T₁.names ↔
        (is.head? = some 0 → Radix.follow (slot k.vmm.mem) 3 cr3 is = none) := by
      obtain ⟨m, -, hm⟩ := Finset.mem_biUnion.mp his
      obtain ⟨hlen, hne⟩ : is.length ≤ 3 ∧ is ≠ [] := by
        simp only [pageTablePaths, Finset.mem_insert, Finset.mem_singleton] at hm
        rcases hm with rfl | rfl | rfl <;> simp
      rw [ho.tableOf_mem_iff h hlen hne, not_not]
    rw [tablesOf_eq_image hpages (Finset.mem_insert_self ..), missingTables]
    ext ℓ
    simp only [Finset.mem_sdiff, Finset.mem_image, Finset.mem_filter]
    constructor
    · rintro ⟨⟨is, his, rfl⟩, hnot⟩
      exact ⟨is, ⟨his, (hmissing his).mp hnot⟩, rfl⟩
    · rintro ⟨is, ⟨his, hnone⟩, rfl⟩
      exact ⟨⟨is, his, rfl⟩, (hmissing his).mpr hnone⟩
  have hinj : Function.Injective (tableOf cr3 p) := fun a b hab => by
    rw [← @tableOf_path cr3 p a, hab, tableOf_path]
  rw [Finset.union_comm, ← Finset.card_sdiff_add_card, hnew, Finset.card_image_of_injective _ hinj, Nat.add_comm]

theorem Opened.need_eq (h : KernelInv cr3 k S T) (ho : Opened cr3 k S T p s₃ T₁)
    (hpages : ∀ m ∈ pages, m < 2 ^ 35) :
    (kernelLayout cr3 (insert p S)).need T₁ p pages + 1 = T₁.names.card + framesNeeded k.vmm.mem cr3 pages := by
  rw [Layout.need, ho.card_tables h hpages, framesNeeded]
  omega

theorem encard_left {rest spare : Set Nat} {free taken : Nat} (n : Nat) (hfree : spare.encard = free)
    (hcount : rest.encard + taken = spare.encard) :
    taken ≤ free ∧ rest.encard + n = ((free - taken + n : Nat) : ℕ∞) := by
  rw [hfree] at hcount
  have hfinite : rest.encard ≠ ⊤ := by
    intro hc
    rw [hc] at hcount
    exact ENat.natCast_ne_top free hcount.symm
  obtain ⟨r, hr⟩ := ENat.ne_top_iff_exists.mp hfinite
  rw [← hr] at hcount ⊢
  have hcount' : r + taken = free := by exact_mod_cast hcount
  refine ⟨by omega, ?_⟩
  rw [← hcount', Nat.add_sub_cancel]
  norm_cast

theorem Opened.left_eq (T₁ : TableMap) (hfree : (spare k.vmm.pmm).encard = free)
    (hcount : (spare s₃.pmm).encard + 1 = (spare k.vmm.pmm).encard) :
    0 < free ∧ (spare s₃.pmm).encard + T₁.names.card = ((free - 1 + T₁.names.card : Nat) : ℕ∞) :=
  encard_left T₁.names.card hfree (by exact_mod_cast hcount)

theorem Opened.frameLeft_iff (h : KernelInv cr3 k S T) (ho : Opened cr3 k S T p s₃ T₁)
    (hfree : (spare k.vmm.pmm).encard = free) (hcount : (spare s₃.pmm).encard + 1 = (spare k.vmm.pmm).encard)
    (hpages : ∀ m ∈ pages, m < 2 ^ 35) :
    FrameLeft (kernelLayout cr3 (insert p S)) s₃ T₁ p pages ↔ framesNeeded k.vmm.mem cr3 pages < free := by
  obtain ⟨hpos, hleft⟩ := Opened.left_eq T₁ hfree hcount
  have hneed := ho.need_eq h hpages
  rw [FrameLeft, hleft, Nat.cast_lt]
  omega

theorem Opened.short_iff (h : KernelInv cr3 k S T) (ho : Opened cr3 k S T p s₃ T₁)
    (hfree : (spare k.vmm.pmm).encard = free) (hcount : (spare s₃.pmm).encard + 1 = (spare k.vmm.pmm).encard)
    (hpages : ∀ m ∈ pages, m < 2 ^ 35) :
    (spare s₃.pmm).encard + T₁.names.card < (kernelLayout cr3 (insert p S)).need T₁ p pages ↔
      free < framesNeeded k.vmm.mem cr3 pages := by
  obtain ⟨hpos, hleft⟩ := Opened.left_eq T₁ hfree hcount
  have hneed := ho.need_eq h hpages
  rw [hleft, Nat.cast_lt]
  omega

/-! ## How a load ends -/

/-- The frames suffice for all planned pages but the last and for that page itself, not for its tables;
and the loop does not notice. -/
def HidesHole (mem : Memory) (cr3 : UInt64) (free : Nat) (file : RamfsFile) : Prop :=
  let plan := plannedPages file (programHeaders file)
  Silent file (programHeaders file) ∧ framesNeeded mem cr3 plan.dropLast < free ∧ free < framesNeeded mem cr3 plan

/-- **The ends of a load** that has got its PML4: the frames sufficed, or the last page may be missing. -/
theorem Opened.outcome (h : KernelInv cr3 k S T) (ho : Opened cr3 k S T p s₃ T₁)
    (hfree : (spare k.vmm.pmm).encard = free) (hcount : (spare s₃.pmm).encard + 1 = (spare k.vmm.pmm).encard)
    {file : RamfsFile} {ok : Bool} {s' : Vmm α} {T' : TableMap} {frames : Nat → Option UInt64}
    {bytes : Nat → UInt8} {plan : List Nat} (hplan : plannedPages file (programHeaders file) = plan)
    (hload : Loading (kernelLayout cr3 (insert p S)) s₃ T₁ p s' T' frames bytes) {j : Nat}
    (hj : j < plan.length)
    (hstop : Stopped (kernelLayout cr3 (insert p S)) s₃ T₁ p frames (plan.take j) (plan.take (j + 1)))
    (hiff : ok = true ↔ j + 1 = plan.length ∧ FrameLeft (kernelLayout cr3 (insert p S)) s₃ T₁ p (plan.take j) ∧
      Silent file (programHeaders file)) :
    free < framesNeeded k.vmm.mem cr3 plan ∧ (ok = true ↔ HidesHole k.vmm.mem cr3 free file) ∧
      (ok = true → ∃ m, plan = plan.dropLast ++ [m] ∧ (∀ m', frames m' ≠ none ↔ m' ∈ plan.dropLast) ∧
        Radix.lookup (slot s'.mem) p (path (pageAddr m)) = none) := by
  have hpages : ∀ m ∈ plan, 2 ^ 18 ≤ m ∧ m < 2 ^ 35 := fun m hm => mem_plannedPages file _ (hplan ▸ hm)
  have hbound {l : List Nat} (hl : l ⊆ plan) : ∀ m ∈ l, m < 2 ^ 35 := fun m hm => (hpages m (hl hm)).2
  have hdrop : plan.dropLast = plan.take (plan.length - 1) := List.dropLast_eq_take
  have hmono {l₁ l₂ : List Nat} (hpre : l₁ <+: l₂) : (kernelLayout cr3 (insert p S)).need T₁ p l₁ ≤
      (kernelLayout cr3 (insert p S)).need T₁ p l₂ := by
    obtain ⟨l, rfl⟩ := hpre
    exact Layout.need_append_le _ _ _ _ _
  refine ⟨?_, ?_, fun hok => ?_⟩
  · rw [← ho.short_iff h hfree hcount (hbound (List.Subset.refl _))]
    exact hstop.short.trans_le (Nat.cast_le.mpr (hmono (List.take_prefix _ _)))
  · simp only [HidesHole, hplan]
    rw [hiff, ← ho.frameLeft_iff h hfree hcount (hbound (List.dropLast_subset _)),
      ← ho.short_iff h hfree hcount (hbound (List.Subset.refl _))]
    constructor
    · rintro ⟨h1, h2, h3⟩
      have hlast : plan.dropLast = plan.take j := by rw [hdrop, ← h1, Nat.add_sub_cancel]
      refine ⟨h3, hlast ▸ h2, ?_⟩
      have hshort := hstop.short
      rwa [h1, List.take_length] at hshort
    · rintro ⟨h3, h4, h5⟩
      -- had the load stopped earlier, the frames would not have been enough for the others
      have h1 : j + 1 = plan.length := by
        by_contra hne
        have hpre : plan.take (j + 1) <+: plan.dropLast := by
          rw [hdrop]
          exact List.take_prefix_take_left (by omega)
        exact absurd (hstop.short.trans_le (Nat.cast_le.mpr (hmono hpre))) h4.not_gt
      have hlast : plan.dropLast = plan.take j := by rw [hdrop, ← h1, Nat.add_sub_cancel]
      exact ⟨h1, hlast ▸ h4, h3⟩
  · obtain ⟨h1, hleft, -⟩ := hiff.mp hok
    have hlast : plan.dropLast = plan.take j := by rw [hdrop, ← h1, Nat.add_sub_cancel]
    have hsplit : plan.take (j + 1) = plan.take j ++ [plan[j]] := List.take_succ_eq_append_getElem hj
    have hall : plan = plan.take j ++ [plan[j]] := by rw [← hsplit, h1, List.take_length]
    have hm := hpages plan[j] (List.getElem_mem hj)
    rw [hsplit] at hstop
    refine ⟨plan[j], hlast ▸ hall, fun m' => by rw [hstop.support, hlast], ?_⟩
    have hmissing := hstop.missing hleft
    have hnone : Radix.lookup (slot s₃.mem) p (path (pageAddr plan[j])) = none :=
      ho.inv.tabled.lookup_eq_none (tablePath (pageAddr plan[j])) ho.root rfl (user_plain kernelLayout_huge hm)
        fun hsub => hmissing (hsub.trans Finset.subset_union_left)
    rw [← hnone]
    refine hload.others ho.root fun m' hm' hsame => ?_
    have hmem := hstop.support.mp hm'
    have hm'' := hpages m' (List.mem_of_mem_take hmem)
    rw [samePage_pageAddr hm''.2 hm.2] at hsame
    exact hstop.not_mem hleft (hsame ▸ hmem)

/-- **How a load ends**, on a file that passes the first checks. -/
theorem elfLoad_outcome (h : KernelInv cr3 k S T) (hfree : (spare k.vmm.pmm).encard = free) {entries : Ramfs}
    {name : Option (List UInt8)} {file : RamfsFile} (image : ElfImage) (hopen : ramfsOpen entries name = some file)
    (hvalid : validElfFile file = true) :
    (∃ s', elfLoadFromRamfs entries cr3 name (some image) k.vmm = (false, some image, s') ∧ s'.mem = k.vmm.mem ∧
      Valid s'.pmm ∧ spare s'.pmm = spare k.vmm.pmm ∧ free = 0) ∨
    ∃ p s₃ T₁ ok s' T' frames bytes, Opened cr3 k S T p s₃ T₁ ∧ 0 < free ∧
      elfLoadFromRamfs entries cr3 name (some image) k.vmm =
        (ok, some (if ok then ⟨(readElf64Header file.data).entry, p⟩ else image), s') ∧
      Loading (kernelLayout cr3 (insert p S)) s₃ T₁ p s' T' frames bytes ∧
      ((framesNeeded k.vmm.mem cr3 (plannedPages file (programHeaders file)) ≤ free ∧
          (ok = true ↔ ∀ program ∈ loadable (programHeaders file), validProgramHeader file program = true) ∧
          (ok = true → ∀ m, frames m ≠ none ↔ ∃ program ∈ loadable (programHeaders file), program.Touches m)) ∨
        (free < framesNeeded k.vmm.mem cr3 (plannedPages file (programHeaders file)) ∧
          (ok = true ↔ HidesHole k.vmm.mem cr3 free file) ∧
          (ok = true → ∃ m, plannedPages file (programHeaders file) =
            (plannedPages file (programHeaders file)).dropLast ++ [m] ∧
            (∀ m', frames m' ≠ none ↔ m' ∈ (plannedPages file (programHeaders file)).dropLast) ∧
            Radix.lookup (slot s'.mem) p (path (pageAddr m)) = none))) := by
  rcases elfLoad_spec h image hopen hvalid with
    ⟨s', he, hm, htab, hout, hz⟩ | ⟨p, s₃, T₁, ok, s', T', frames, bytes, ho, hcount, he, hload, hcase⟩
  · refine Or.inl ⟨s', he, hm, htab.valid, hout.spare_eq.trans hz.symm, ?_⟩
    rw [hz, Set.encard_empty] at hfree
    exact_mod_cast hfree.symm
  · obtain ⟨hpos, -⟩ := Opened.left_eq T₁ hfree hcount
    refine Or.inr ⟨p, s₃, T₁, ok, s', T', frames, bytes, ho, hpos, he, hload, ?_⟩
    rcases hcase with ⟨hok, hdone, hacc⟩ | ⟨-, j, hj, hstop, hiff⟩
    · refine Or.inl ⟨?_, hok, fun h1 => (hdone h1).1⟩
      rw [← not_lt, ← ho.short_iff h hfree hcount fun m hm => (mem_plannedPages file _ hm).2, not_lt, ← hacc.count]
      exact le_add_self
    · exact Or.inr (ho.outcome h hfree hcount rfl hload hj hstop hiff)

end

/-! ## The page that may be missing -/

namespace Elf64ProgramHeader
variable {program : Elf64ProgramHeader} {file : RamfsFile} {m : Nat}

theorem exists_inMemory_last (hvalid : validProgramHeader file program = true) (hsize : 0 < program.memorySize)
    (hm : m + 1 = program.firstPage + segmentPages program) : ∃ v :
    UInt64, program.InMemory v.toNat ∧ v.toNat / 4096 = m := by
  obtain ⟨-, -, -, hend⟩ := valid hvalid
  have hlast := firstPage_add hvalid
  have hpos : 0 < program.memorySize.toNat := hsize
  rw [← hm] at hlast
  have hv : (UInt64.ofNat (program.virtualAddress.toNat + program.memorySize.toNat - 1)).toNat =
      program.virtualAddress.toNat + program.memorySize.toNat - 1 :=
        UInt64.toNat_ofNat_of_lt' (by simp only [UInt64.size]; omega)
  refine ⟨UInt64.ofNat (program.virtualAddress.toNat + program.memorySize.toNat - 1), ⟨?_, ?_⟩, ?_⟩ <;> omega

end Elf64ProgramHeader

open Elf64ProgramHeader

theorem plannedPages_lastMapped {file : RamfsFile} {programs : List Elf64ProgramHeader}
    {program : Elf64ProgramHeader} {m : Nat}
    (hvalid : ∀ program ∈ loadable programs, validProgramHeader file program = true)
    (hlast : lastMapped programs = some program)
    (hplan : plannedPages file programs = (plannedPages file programs).dropLast ++ [m]) :
    m + 1 = program.firstPage + segmentPages program ∧ program ∈ loadable programs ∧
      ∀ q ∈ loadable programs, q ≠ program → ∀ m', q.Touches m' → m' ∈ (plannedPages file programs).dropLast := by
  obtain ⟨before, hbefore⟩ := List.getLast?_eq_some_iff.mp hlast
  have hmem {q : Elf64ProgramHeader} : q ∈ before ++ [program] ↔ q ∈ loadable programs ∧ segmentPages q ≠ 0 := by
    rw [← hbefore, List.mem_filter, decide_eq_true_iff]
  obtain ⟨hprogram, hn⟩ := hmem.mp (List.mem_append_right _ (List.mem_singleton_self program))
  -- segments without a page do not count
  have hflat : plannedPages file programs =
      (before ++ [program]).flatMap fun program => List.range' program.firstPage (segmentPages program) := by
    rw [plannedPages_of_valid hvalid, ← hbefore]
    induction loadable programs with
    | nil => rfl
    | cons q rest ih =>
      by_cases hq : segmentPages q = 0
      · rw [List.flatMap_cons, hq, List.range'_zero, List.nil_append, ih, List.filter_cons_of_neg (by simp [hq])]
      · rw [List.flatMap_cons, ih, List.filter_cons_of_pos (by simp [hq]), List.flatMap_cons]
  obtain ⟨n, hn'⟩ := Nat.exists_eq_succ_of_ne_zero hn
  have hsplit : plannedPages file programs =
      ((before.flatMap fun program => List.range' program.firstPage (segmentPages program)) ++
      List.range' program.firstPage n) ++
        [program.firstPage + n] := by
    rw [hflat, List.flatMap_append, List.flatMap_singleton, hn', List.range'_concat, Nat.one_mul, List.append_assoc]
  have hdrop := congrArg List.dropLast hsplit
  rw [List.dropLast_concat] at hdrop
  rw [hsplit, List.dropLast_concat] at hplan
  obtain ⟨-, hm⟩ := List.append_inj' hplan rfl
  refine ⟨by rw [← List.singleton_inj.mp hm, hn']; omega, hprogram, fun q hq hne m' htouch => ?_⟩
  have hq' : q ∈ before ++ [program] := hmem.mpr ⟨hq, by unfold Elf64ProgramHeader.Touches at htouch; omega⟩
  have hq'' : q ∈ before := (List.mem_append.mp hq').resolve_right fun hc => hne (List.mem_singleton.mp hc)
  rw [hdrop]
  refine List.mem_append_left _ (List.mem_flatMap.mpr ⟨q, hq'', List.mem_range'_1.mpr htouch⟩)

/-! ## The calls -/

section
variable {α : Type} [PageAllocator α] [CompletePageAllocator α] {cr3 p : UInt64} {k : Kernel α}
  {S : Finset UInt64} {T T₁ T' : TableMap} {s₃ s' : Vmm α} {frames : Nat → Option UInt64} {bytes : Nat → UInt8}
  {file : RamfsFile}

theorem Loading.userMapped {L : Layout} (h : Loading L s₃ T₁ p s' T' frames bytes) {v : UInt64}
    (hv : frames (v.toNat / 4096) ≠ none) :
    UserMapped s'.mem p v := by
  cases hf : frames (v.toNat / 4096) with
  | none => exact absurd hf hv
  | some d => exact userMapped_pageAddr.mp ((h.reached hf).mapped h.tabled (h.mono h.root))

def SegmentsMapped (file : RamfsFile) (mem : Memory) (pml4Phys : UInt64) : Prop :=
  ∀ program ∈ loadable (programHeaders file), ∀ v : UInt64, program.InMemory v.toNat → UserMapped mem pml4Phys v

/-- A load that does not notice leaves the hole in the last segment. -/
theorem Loading.segmentsMapped_iff {L : Layout} (h : Loading L s₃ T₁ p s' T' frames bytes)
    (hsilent : Silent file (programHeaders file)) {m : Nat}
    (hplan : plannedPages file (programHeaders file) = (plannedPages file (programHeaders file)).dropLast ++
      [m]) (hframes : ∀ m', frames m' ≠ none ↔ m' ∈ (plannedPages file (programHeaders file)).dropLast)
    (hnone : Radix.lookup (slot s'.mem) p (path (pageAddr m)) = none) :
    SegmentsMapped file s'.mem p ↔ ∀ program, lastMapped (programHeaders file) = some program →
      program.memorySize = 0 := by
  obtain ⟨hvalid, program, hlast, -⟩ := hsilent
  obtain ⟨hm, hprogram, hothers⟩ := plannedPages_lastMapped hvalid hlast hplan
  constructor
  · intro hall q hq
    obtain rfl := Option.some.inj (hlast.symm.trans hq)
    by_contra hsize
    obtain ⟨v, hv, hpage⟩ := exists_inMemory_last (hvalid _ hprogram) (UInt64.pos_iff_ne_zero.mpr hsize) hm
    have hlook := (hall _ hprogram v hv).lookup_ne_none
    rw [← path_pageAddr, hpage] at hlook
    exact hlook hnone
  · intro hzero q hq v hv
    refine h.userMapped ((hframes _).mpr (hothers q hq ?_ _ (hv.touches (hvalid q hq))))
    rintro rfl
    have hsize := hv.2
    rw [hzero q hlast, UInt64.toNat_zero] at hsize
    exact absurd hv.1 (by omega)

/-- **`elf_load_from_ramfs`**: success means mapped, unless the load hides a hole. -/
theorem elfLoad_mapped_iff (h : KernelInv cr3 k S T) {free : Nat} (hfree : (spare k.vmm.pmm).encard = free)
    {entries : Ramfs} {name : Option (List UInt8)} (image : ElfImage)
    (hopen : ramfsOpen entries name = some file) (hfile : validElfFile file = true) :
    (∀ image' s', elfLoadFromRamfs entries cr3 name (some image) k.vmm = (true, some image', s') →
      SegmentsMapped file s'.mem image'.pml4Phys) ↔
      ¬ (HidesHole k.vmm.mem cr3 free file ∧ ∃ program, lastMapped (programHeaders file) = some program ∧
        0 < program.memorySize) := by
  rcases elfLoad_outcome h hfree image hopen hfile with
    ⟨s', he, -, -, -, hfree0⟩ | ⟨p, s₃, T₁, ok, s', T', frames, bytes, ho, -, he, hload, hcase⟩
  · refine iff_of_true (fun image' s'' hr => ?_) fun hc => ?_
    · rw [he] at hr
      simp at hr
    · have := hc.1.2.1
      omega
  rw [he]
  rcases hcase with ⟨henough, hok, hdone⟩ | ⟨-, hok, hdone⟩
  · refine iff_of_true (fun image' s'' hr => ?_) fun hc => ?_
    · obtain ⟨rfl, hr⟩ := Prod.mk.inj hr
      obtain ⟨himage, rfl⟩ := Prod.mk.inj hr
      obtain rfl := Option.some.inj himage
      intro program hprogram v hv
      exact hload.userMapped ((hdone rfl _).mpr ⟨program, hprogram, hv.touches (hok.mp rfl program hprogram)⟩)
    · have := hc.1.2.2
      omega
  · cases ok with
    | false =>
      refine iff_of_true (fun image' s'' hr => by simp at hr) fun hc => ?_
      exact absurd (hok.mpr hc.1) (by decide)
    | true =>
      have hhole := hok.mp rfl
      obtain ⟨m, hplan, hframes, hnone⟩ := hdone rfl
      have hcond : ¬ (HidesHole k.vmm.mem cr3 free file ∧
          ∃ program, lastMapped (programHeaders file) = some program ∧ 0 < program.memorySize) ↔
          ∀ program, lastMapped (programHeaders file) = some program → program.memorySize = 0 := by
        simp [hhole, UInt64.pos_iff_ne_zero]
      rw [hcond, ← hload.segmentsMapped_iff hhole.1 hplan hframes hnone]
      simp only [if_true]
      constructor
      · intro hall
        exact hall ⟨(readElf64Header file.data).entry, p⟩ s' rfl
      · intro hmapped image' s'' hr
        obtain ⟨-, hr⟩ := Prod.mk.inj hr
        obtain ⟨himage, rfl⟩ := Prod.mk.inj hr
        exact Option.some.inj himage ▸ hmapped

def demoPages : List Nat := [2 ^ 26, 2 ^ 26 + 1]

/-- **`user_mode_prepare_demo_task`**: success means mapped, unless the frames suffice for the PML4 and the
stack page and not for the tables. -/
theorem prepareDemo_mapped_iff (h : KernelInv cr3 k S T) {free : Nat} (hfree : (spare k.vmm.pmm).encard = free)
    (programPhys task : UInt64) (u : UserMode) :
    (∀ p u' s', userModePrepareDemoTask cr3 programPhys (some task) u k.vmm = (true, some p, u', s') →
      UserMapped s'.mem p userCodeAddress ∧ UserMapped s'.mem p userStackAddress) ↔
      ¬ (2 ≤ free ∧ free < 2 + (missingTables k.vmm.mem cr3 demoPages).card) := by
  rcases prepareDemo_spec h programPhys task u with
    ⟨s', T', he, -, -, -, -, -, -, hle⟩ | ⟨p, s₃, T₁, d, u', ho, -, -, hcount, he⟩
  · rw [hfree] at hle
    have hle' : free ≤ 1 := by exact_mod_cast hle
    refine iff_of_true (fun p u' s'' hr => ?_) fun hc => by omega
    rw [he] at hr
    simp at hr
  obtain ⟨htwo, hleft⟩ :=
    encard_left T₁.names.card hfree (show (spare s₃.pmm).encard + (2 : Nat) = _ by exact_mod_cast hcount)
  have htables : (kernelLayout cr3 (insert p S)).names (.root p) (tablePath (pageAddr (2 ^ 26 + 1))) =
      (kernelLayout cr3 (insert p S)).names (.root p) (tablePath (pageAddr (2 ^ 26))) := by
    rw [show tablePath (pageAddr (2 ^ 26 + 1)) = tablePath (pageAddr (2 ^ 26)) by decide]
  have hcard : (T₁.names ∪ (kernelLayout cr3 (insert p S)).names (.root p) (tablePath (pageAddr (2 ^ 26)))).card =
      T₁.names.card + (missingTables k.vmm.mem cr3 demoPages).card := by
    have hdemo : (kernelLayout cr3 (insert p S)).tablesOf p demoPages =
        (kernelLayout cr3 (insert p S)).names (.root p) (tablePath (pageAddr (2 ^ 26))) := by
      rw [show demoPages = [2 ^ 26] ++ [2 ^ 26 + 1] from rfl, Layout.tablesOf_append, htables, Layout.tablesOf,
        List.toFinset_cons, List.toFinset_nil, insert_empty_eq, Finset.singleton_biUnion, Finset.union_self]
    have hbound : ∀ m ∈ demoPages, m < 2 ^ 35 := by decide
    rw [← ho.card_tables h hbound, hdemo]
  rw [userCodeAddress_eq, userStackAddress_eq] at he ⊢
  have hfirst :=
    vmmMapPage_granted ho.inv.tabled ho.root (pageAddr (2 ^ 26)) (programPhys &&& ~~~(pageSize - 1)) pteUser
  obtain ⟨T₂, hx₂, hcode⟩ :=
    ho.inv.tabled.map_user ho.root kernelLayout_huge (show 2 ^ 18 ≤ 2 ^ 26 ∧ 2 ^ 26 < 2 ^ 35 by decide)
    (programPhys &&& ~~~(pageSize - 1)) (show pteUser &&& pteAddrMask = 0 by decide)
  generalize hs₄ : vmmMapPage s₃ p (pageAddr (2 ^ 26)) (programPhys &&& ~~~(pageSize - 1)) pteUser =
    s₄ at he hx₂ hcode hfirst
  have hp₂ := hx₂.mono ho.root
  have hsecond := vmmMapPage_granted hx₂.tabled hp₂ (pageAddr (2 ^ 26 + 1)) d stackFlags
  obtain ⟨T₃, hx₃, hstack⟩ := hx₂.tabled.map_user hp₂ kernelLayout_huge
    (show 2 ^ 18 ≤ 2 ^ 26 + 1 ∧ 2 ^ 26 + 1 < 2 ^ 35 by decide) d (show stackFlags &&& pteAddrMask = 0 by decide)
  generalize hs₅ : vmmMapPage s₄ p (pageAddr (2 ^ 26 + 1)) d stackFlags = s₅ at he hx₃ hstack hsecond
  have hother : ¬ (kernelLayout cr3 (insert p S)).SamePage p (pageAddr (2 ^ 26 + 1)) p (pageAddr (2 ^ 26)) := by
    rw [samePage_pageAddr (by decide) (by decide)]
    decide
  rcases hcode with ⟨-, -, -, -, -, hnone, hshort⟩ | ⟨h0, hnames, henough, -⟩
  · -- the code page is not mapped, and the second call does not map it either
    refine iff_of_false (fun hall => ?_) (not_not.mpr ⟨htwo, ?_⟩)
    · refine (hall p u' s₅ he).1.lookup_ne_none ?_
      rcases hstack with ⟨-, hsame, -⟩ | ⟨-, -, -, hset⟩
      · exact (hsame hp₂ rfl).trans hnone
      · rw [hset hp₂, if_neg hother, hnone]
    · rw [hleft, hcard, Nat.cast_lt] at hshort
      omega
  · have hsub : (kernelLayout cr3 (insert p S)).names (.root p) (tablePath (pageAddr (2 ^ 26 + 1))) ⊆ T₃.names := by
      intro ℓ hℓ
      rw [htables] at hℓ
      obtain ⟨n, hn⟩ := T₂.mem_names.mp (hnames ▸ Finset.mem_union_right _ hℓ)
      exact T₃.mem_names.mpr ⟨n, hx₃.mono hn⟩
    have h0' : (mapTables s₄ p (pageAddr (2 ^ 26 + 1)) stackFlags).1 ≠ 0 := by
      rcases hstack with ⟨-, -, -, -, hmiss, -⟩ | ⟨h0', -⟩
      · exact absurd hsub hmiss
      · exact h0'
    refine iff_of_true (fun p' u'' s'' hr => ?_) fun hc => ?_
    · rw [he] at hr
      obtain ⟨-, hr⟩ := Prod.mk.inj hr
      obtain ⟨hp', hr⟩ := Prod.mk.inj hr
      obtain ⟨-, rfl⟩ := Prod.mk.inj hr
      obtain rfl := Option.some.inj hp'
      have hp₃ := hx₃.mono hp₂
      have hcodePage : UserPage s₄.mem p (pageAddr (2 ^ 26)) := ⟨pteUser, by decide, hfirst.2.2 h0⟩
      obtain ⟨flags, hflags, hgranted⟩ := hcodePage
      refine ⟨UserPage.mapped ⟨flags, hflags, hsecond.2.1 hp₂ (Or.inr hother) hgranted⟩ hx₃.tabled hp₃,
        UserPage.mapped ⟨stackFlags, by decide, hsecond.2.2 h0'⟩ hx₃.tabled hp₃⟩
    · rw [hleft, hcard, Nat.cast_le] at henough
      omega

end

/-- If the call succeeds, everything it was to map is mapped. -/
def KernelCall.MapsAll (cr3 programPhys : UInt64) (s : Vmm Pmm) : KernelCall → Prop
  | .elfLoad entries name image => ∀ file image' s', ramfsOpen entries name = some file →
      elfLoadFromRamfs entries cr3 name image s = (true, some image', s') →
      SegmentsMapped file s'.mem image'.pml4Phys
  | .prepareDemo task u => ∀ p u' s', userModePrepareDemoTask cr3 programPhys task u s = (true, some p, u', s') →
      UserMapped s'.mem p userCodeAddress ∧ UserMapped s'.mem p userStackAddress

/-- The frames suffice for the pages themselves (for all but one with their tables, in a load) and not for all
tables, and in a load the last page belongs to a segment that is not empty. -/
def KernelCall.HidesHole (cr3 : UInt64) (s : Vmm Pmm) : KernelCall → Prop
  | .elfLoad entries name image =>
    ∃ i file program, image = some i ∧ ramfsOpen entries name = some file ∧ validElfFile file = true ∧
      KernelOs.HidesHole s.mem cr3 s.pmm.freePages.toNat file ∧
      lastMapped (programHeaders file) = some program ∧ 0 < program.memorySize
  | .prepareDemo task _ => task ≠ none ∧ 2 ≤ s.pmm.freePages.toNat ∧
      s.pmm.freePages.toNat < 2 + (missingTables s.mem cr3 demoPages).card

section
variable {cr3 programPhys : UInt64} {s : Vmm Pmm} {ops : List KernelOp} {k : Kernel Pmm}

/-- **Success means mapped**, in every state and for every call, exactly if the call hides no hole. -/
theorem success_means_mapped (hboot : Booted cr3 s) (hrun : Run (PageStep cr3 programPhys) ⟨s, [cr3]⟩ ops k)
    (c : KernelCall) :
    c.MapsAll cr3 programPhys k.vmm ↔ ¬ c.HidesHole cr3 k.vmm := by
  obtain ⟨S, T, hT⟩ := hboot.identityRun hrun
  have hfree := encard_spare_pmm hT.inv.tabled.valid.1
  cases c with
  | elfLoad entries name image =>
    by_cases hok : ∃ i file, image = some i ∧ ramfsOpen entries name = some file ∧ validElfFile file = true
    swap
    · refine iff_of_true (fun file image' s' _ hr => ?_) fun ⟨i, file, _, h1, h2, h3, _⟩ =>
        hok ⟨i, file, h1, h2, h3⟩
      rw [elfLoad_rejected k.vmm hok] at hr
      simp at hr
    obtain ⟨i, file, rfl, hopen, hvalid⟩ := hok
    have hiff := elfLoad_mapped_iff hT.inv hfree i hopen hvalid
    simp only [KernelCall.MapsAll, KernelCall.HidesHole, hopen, Option.some.injEq, exists_and_left,
      exists_eq_left', hvalid, true_and]
    rw [← hiff]
    constructor
    · exact fun hall image' s' hr => hall file image' s' rfl hr
    · rintro hall file' image' s' rfl hr
      exact hall image' s' hr
  | prepareDemo task u =>
    cases task with
    | none =>
      refine iff_of_true (fun p u' s' hr => ?_) fun hc => hc.1 rfl
      simp [userModePrepareDemoTask] at hr
    | some t =>
      have hiff := prepareDemo_mapped_iff hT.inv hfree programPhys t u
      simp only [KernelCall.MapsAll, KernelCall.HidesHole, ne_eq, reduceCtorEq, not_false_eq_true, true_and]
      exact hiff

end

theorem card_pageTablePaths (m : Nat) : (pageTablePaths m).card ≤ 3 := Finset.card_le_three

theorem framesNeeded_le (mem : Memory) (cr3 : UInt64) (pages : List Nat) :
    framesNeeded mem cr3 pages ≤ 1 + 4 * pages.length := by
  have h1 : (pages.toFinset.biUnion pageTablePaths).card ≤ pages.toFinset.card * 3 :=
    Finset.card_biUnion_le_card_mul _ _ _ fun m _ => card_pageTablePaths m
  have h2 := List.toFinset_card_le pages
  have h3 : (missingTables mem cr3 pages).card ≤ (pages.toFinset.biUnion pageTablePaths).card :=
    Finset.card_filter_le _ _
  unfold framesNeeded
  omega

theorem success_means_mapped_high : highLoad.MapsAll 0x105000 0 (bootVmm (kernelPmm (fun _ => 0) 0)) := by
  have hboot := booted_bootVmm (fun _ => 0) 0
  have hfree := ten_le_freePages fun _ => 0
  refine (success_means_mapped hboot (@Run.nil _ _ (PageStep 0x105000 0) _) highLoad).mpr ?_
  rintro ⟨i, file, program, -, hopen, -, ⟨-, -, hshort⟩, -⟩
  obtain rfl := Option.some.inj ((ramfsOpen_ramfsOf _).symm.trans hopen)
  have hplan : (plannedPages (twoSegments 0x8000000000 0x8000001000)
      (programHeaders (twoSegments 0x8000000000 0x8000001000))).length = 2 := by
    decide +kernel
  have hneed := framesNeeded_le (bootVmm (kernelPmm (fun _ => 0) 0)).mem 0x105000
    (plannedPages (twoSegments 0x8000000000 0x8000001000) (programHeaders (twoSegments 0x8000000000 0x8000001000)))
  rw [hplan] at hneed
  exact absurd (hshort.trans_le (hneed.trans (by decide))) (not_lt.mpr hfree)

/-- The allocator of `kernel_main` when only the pages 1 and 2 are left. -/
def scarcePmm : Pmm := pmmMarkReserved (kernelPmm (fun _ => 0) 0) 0x3000 0x8000000

theorem mem_scarcePmm {f : Nat} : f ∈ scarcePmm.clearPages ↔ f = 1 ∨ f = 2 := by
  obtain ⟨-, -, -, h⟩ := pmmMarkReserved_spec (kernelPmm_spec (fun _ => 0) 0).1 0x3000 0x8000000
  rw [scarcePmm, h, Finset.mem_filter, mem_kernelPmm_zero]
  simp only [Touches, UInt64.reduceToNat]
  omega

theorem scarcePmm_ok : scarcePmm.Ok ∧ scarcePmm.totalPages = (kernelPmm (fun _ => 0) 0).totalPages := by
  obtain ⟨hok, htotal, -⟩ := pmmMarkReserved_spec (kernelPmm_spec (fun _ => 0) 0).1 0x3000 0x8000000
  exact ⟨hok, htotal⟩

theorem freePages_scarcePmm : scarcePmm.freePages.toNat = 2 := by
  have hpages : scarcePmm.clearPages = {1, 2} := by
    ext f
    rw [mem_scarcePmm, Finset.mem_insert, Finset.mem_singleton]
  rw [scarcePmm_ok.1.count, hpages]
  rfl

theorem Booted.fewer {α : Type} [PageAllocator α] [LawfulPageAllocator α] {cr3 : UInt64} {mem : Memory}
    {pmm pmm' : α} (h : Booted cr3 ⟨mem, pmm⟩) (hv : Valid pmm') (hspare : spare pmm' ⊆ spare pmm) :
    Booted cr3 ⟨mem, pmm'⟩ := by
  obtain ⟨-, pdpt, pd, h1, h2, h3, hframe, hboot⟩ := h
  exact ⟨hv, pdpt, pd, h1, h2, h3,
    fun n hn => ⟨(hframe n hn).1, (hframe n hn).2.1, fun hc => (hframe n hn).2.2 (hspare hc)⟩, hboot⟩

theorem booted_scarcePmm : Booted 0x105000 (bootVmm scarcePmm) := by
  have hboot := booted_bootVmm (fun _ => 0) 0
  have hsub : spare scarcePmm ⊆ spare (kernelPmm (fun _ => 0) 0) := fun f hf => by
    have := mem_scarcePmm.mp hf
    exact mem_spare_pmm.mpr ((mem_kernelPmm_zero _ f).mpr (by omega))
  have hpages : scarcePmm.totalPages.toNat ≤ 2 ^ 40 := by
    rw [scarcePmm_ok.2, (kernelPmm_spec _ 0).2.1]
    decide
  have hv : Valid scarcePmm := ⟨scarcePmm_ok.1, fun hc => by simpa using mem_scarcePmm.mp hc, hpages⟩
  unfold bootVmm at hboot ⊢
  exact hboot.fewer hv hsub

/-- A program with one segment of one byte, zero and not in the file. -/
def zeroSegment (address : UInt64) : RamfsFile where
  data := [(0, 0x10102464C457F), (16, 0x1003E0002), (24, address), (32, 64), (48, 0x38004000000000), (56, 1),
    (64, 0x600000001), (72, 120), (80, address), (96, 0), (104, 1)].foldl
    (fun mem entry => mem.store64 entry.1 entry.2) fun _ => 0
  size := 120

theorem zeroSegment_headers :
    loadable (programHeaders (zeroSegment 0x8000000000)) = [⟨1, 6, 120, 0x8000000000, 0, 1⟩] := by
  decide +kernel

/-- With two frames left, both calls succeed, and neither has mapped its page. -/
theorem success_hides_hole : Booted 0x105000 (bootVmm scarcePmm) ∧
    (∃ image' s', elfLoadFromRamfs (ramfsOf (zeroSegment 0x8000000000)) 0x105000 (some []) (some ⟨0, 0⟩)
      (bootVmm scarcePmm) =
      (true, some image', s') ∧ ¬ SegmentsMapped (zeroSegment 0x8000000000) s'.mem image'.pml4Phys) ∧
    ∃ p u' s', userModePrepareDemoTask 0x105000 0 (some 0) ⟨0, 0⟩ (bootVmm scarcePmm) = (true, some p, u', s') ∧
      ¬ (UserMapped s'.mem p userCodeAddress ∧ UserMapped s'.mem p userStackAddress) := by
  obtain ⟨T, hinv, hnames⟩ := booted_scarcePmm.inv
  have hfree : (spare (bootVmm scarcePmm).pmm).encard = (2 : Nat) := by
    rw [encard_spare_pmm booted_scarcePmm.valid.1]
    exact congrArg _ freePages_scarcePmm
  refine ⟨booted_scarcePmm, ?_, ?_⟩
  · have hlast : lastMapped (programHeaders (zeroSegment 0x8000000000)) = some ⟨1, 6, 120, 0x8000000000, 0, 1⟩ := by
      rw [lastMapped, zeroSegment_headers]
      decide +kernel
    have hplan : plannedPages (zeroSegment 0x8000000000) (programHeaders (zeroSegment 0x8000000000)) =
      [2 ^ 27] := by decide +kernel
    have hsilent : Silent (zeroSegment 0x8000000000) (programHeaders (zeroSegment 0x8000000000)) := by
      refine ⟨by rw [zeroSegment_headers]; decide +kernel, _, hlast, fun v hv => ?_⟩
      exact absurd hv.2 (not_lt.mpr hv.1)
    have hhole (mem : Memory) : HidesHole mem 0x105000 2 (zeroSegment 0x8000000000) := by
      unfold HidesHole
      rw [hplan]
      refine ⟨hsilent, by simp [framesNeeded, missingTables], ?_⟩
      have hmem : [1] ∈ missingTables mem 0x105000 [2 ^ 27] :=
        Finset.mem_filter.mpr ⟨Finset.mem_biUnion.mpr ⟨2 ^ 27, by simp, by decide +kernel⟩, by simp⟩
      have hpos := Finset.card_pos.mpr ⟨_, hmem⟩
      simp only [framesNeeded, List.length_singleton]
      omega
    have hnot := (elfLoad_mapped_iff hinv hfree ⟨0, 0⟩ (ramfsOpen_ramfsOf _) (by decide +kernel)).not.mpr
      (not_not.mpr ⟨hhole _, _, hlast, by decide⟩)
    simpa only [not_forall, exists_prop] using hnot
  · have hnot := (prepareDemo_mapped_iff hinv hfree 0 0 ⟨0, 0⟩).not.mpr (not_not.mpr ⟨Nat.le_refl 2, ?_⟩)
    · simpa only [not_forall, exists_prop] using hnot
    · have hnone : Radix.follow (slot (bootVmm scarcePmm).mem) 3 0x105000 [0, 256] = none :=
        (hinv.follow_eq_none_iff (by decide)).mpr (by simp [hnames, Label.root])
      have hmem : [0, 256] ∈ missingTables (bootVmm scarcePmm).mem 0x105000 demoPages :=
        Finset.mem_filter.mpr ⟨Finset.mem_biUnion.mpr ⟨2 ^ 26, by simp [demoPages], by decide +kernel⟩,
          fun _ => hnone⟩
      have hpos := Finset.card_pos.mpr ⟨_, hmem⟩
      exact Nat.lt_add_of_pos_right hpos

end KernelOs
