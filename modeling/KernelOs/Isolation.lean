import KernelOs.KernelSpaces
import Mathlib.Data.List.TakeWhile

/-!
# Isolation of address spaces

Slot 0 of a PML4 covers the addresses below 512 GiB, and every space has the kernel's
slot 0: a page mapped there is mapped for all of them. Whether a call gets that far
is a matter of the frames that are left.
-/

namespace KernelOs
open Lib LawfulPageAllocator CompletePageAllocator

def highPage (m : Nat) : Bool := 2 ^ 27 ≤ m

def pageTablePaths (m : Nat) : Finset (List (Fin 512)) :=
  let idx := splitVaddr (pageAddr m)
  {[idx.pml4I], [idx.pml4I, idx.pdptI], [idx.pml4I, idx.pdptI, idx.pdI]}

/-- The frames that a load has taken once it has mapped `pages`, none of them in slot 0:
the PML4, the pages and their tables. -/
def framesFor (pages : List Nat) : Nat := 1 + pages.length + (pages.toFinset.biUnion pageTablePaths).card

/-- With `free` frames a load of `pages` maps none in slot 0: there is none, or the frames do not
suffice for the first of them with a page directory and a page table. -/
def StaysHigh (free : Nat) (pages : List Nat) : Prop :=
  (∀ m ∈ pages, highPage m) ∨ free < framesFor (pages.takeWhile highPage) + 3

/-- A call that leaves slot 0 alone, with `free` frames left. -/
def KernelCall.Apart (free : Nat) : KernelCall → Prop
  | .elfLoad entries name image =>
    ∀ i file, image = some i → ramfsOpen entries name = some file → validElfFile file = true →
      StaysHigh free (plannedPages file (programHeaders file))
  | .prepareDemo task _ => task = none ∨ free < 4

section
variable {α : Type} [PageAllocator α] [CompletePageAllocator α] {cr3 p q : UInt64} {S : Finset UInt64} {m : Nat}

theorem pml4I_pageAddr (hm : m < 2 ^ 35) : ((splitVaddr (pageAddr m)).pml4I : Nat) = m / 2 ^ 27 := by
  rw [splitVaddr, tableIndex_val (by decide), toNat_pageAddr (by omega)]
  simp only [UInt64.reduceToNat]
  omega

theorem pdptI_pageAddr (hm : m < 2 ^ 35) : ((splitVaddr (pageAddr m)).pdptI : Nat) = m / 2 ^ 18 % 512 := by
  rw [splitVaddr, tableIndex_val (by decide), toNat_pageAddr (by omega)]
  simp only [UInt64.reduceToNat]
  omega

theorem pml4I_eq_zero_iff (hm : m < 2 ^ 35) : (splitVaddr (pageAddr m)).pml4I = 0 ↔ ¬ highPage m := by
  rw [← Fin.val_inj, pml4I_pageAddr hm, highPage, decide_eq_true_iff]
  simp

theorem pdptI_ne_zero (hm : 2 ^ 18 ≤ m ∧ m < 2 ^ 35) (hlow : ¬ highPage m) :
    (splitVaddr (pageAddr m)).pdptI ≠ 0 := by
  have hlow' : m < 2 ^ 27 := by simpa [highPage] using hlow
  intro hc
  have := pdptI_pageAddr hm.2
  rw [hc] at this
  simp at this
  omega

/-! ## Counting frames -/

theorem names_high (hm : m < 2 ^ 35) (hhigh : highPage m) :
    (kernelLayout cr3 S).names (.root p) (tablePath (pageAddr m)) = (pageTablePaths m).image (Label.mk p) := by
  have h0 : (splitVaddr (pageAddr m)).pml4I ≠ 0 := fun hc => (pml4I_eq_zero_iff hm).mp hc hhigh
  simp only [tablePath, Layout.names, kernelLayout_next_root h0, pageTablePaths, Finset.image_insert,
    Finset.image_singleton]
  rw [Layout.next_of_ne, Layout.next_of_ne]
  · rfl
  · simp
  · simp

theorem names_low {w : UInt64} (hw : (splitVaddr w).pml4I = 0) (hp : p ∈ S ∨ p = cr3) :
    (kernelLayout cr3 S).names (.root p) (tablePath w) =
      {⟨cr3, [0]⟩, ⟨cr3, [0, (splitVaddr w).pdptI]⟩, ⟨cr3, [0, (splitVaddr w).pdptI, (splitVaddr w).pdI]⟩} := by
  simp only [tablePath, Layout.names, hw, kernelLayout_next_zero hp]
  rw [Layout.next_of_ne, Layout.next_of_ne]
  · rfl
  · simp
  · simp

theorem Layout.need_append_le (L : Layout) (T₀ : TableMap) (p : UInt64) (pages l : List Nat) :
    L.need T₀ p pages ≤ L.need T₀ p (pages ++ l) := by
  have hsub : L.tablesOf p pages ⊆ L.tablesOf p (pages ++ l) := by
    unfold Layout.tablesOf
    rw [List.toFinset_append]
    exact Finset.biUnion_subset_biUnion_of_subset_left _ Finset.subset_union_left
  have hcard := Finset.card_le_card (Finset.union_subset_union (Finset.Subset.refl T₀.names) hsub)
  unfold Layout.need
  rw [List.length_append]
  omega

variable {T T₁ T' : TableMap} {pages : List Nat}

theorem tablesOf_high (hpages : ∀ m ∈ pages, m < 2 ^ 35 ∧ highPage m) :
    (kernelLayout cr3 S).tablesOf p pages = (pages.toFinset.biUnion pageTablePaths).image (Label.mk p) := by
  rw [Layout.tablesOf, Finset.biUnion_image]
  refine Finset.biUnion_congr rfl fun m hm => ?_
  obtain ⟨h1, h2⟩ := hpages m (List.mem_toFinset.mp hm)
  exact names_high h1 h2

theorem need_high (hbare : ∀ ℓ ∈ T₁.names, ℓ.owner = p → ℓ = .root p)
    (hpages : ∀ m ∈ pages, m < 2 ^ 35 ∧ highPage m) :
    (kernelLayout cr3 S).need T₁ p pages + 1 = T₁.names.card + framesFor pages := by
  have hdisj : Disjoint T₁.names ((kernelLayout cr3 S).tablesOf p pages) := by
    rw [tablesOf_high hpages, Finset.disjoint_left]
    intro ℓ hℓ hc
    obtain ⟨is, his, rfl⟩ := Finset.mem_image.mp hc
    obtain ⟨m, -, his⟩ := Finset.mem_biUnion.mp his
    rw [(Label.mk.inj (hbare _ hℓ rfl)).2] at his
    simp [pageTablePaths] at his
  rw [Layout.need, Finset.card_union_of_disjoint hdisj, tablesOf_high hpages,
    Finset.card_image_of_injective _ fun a b h => (Label.mk.inj h).2, framesFor]
  omega

def kernelTables (cr3 : UInt64) : Finset Label := {⟨cr3, [0, 0]⟩, ⟨cr3, [0]⟩, .root cr3}

theorem card_union_low {N : Finset Label} (h0 : ⟨cr3, [0]⟩ ∈ N)
    (hkernel : ∀ ℓ ∈ N, ℓ.owner = cr3 → ℓ ∈ kernelTables cr3) (hp : p ∈ S) (hm : 2 ^ 18 ≤ m ∧ m < 2 ^ 35)
    (hlow : ¬ highPage m) :
    (N ∪ (kernelLayout cr3 S).names (.root p) (tablePath (pageAddr m))).card = N.card + 2 := by
  have hnew (is : List (Fin 512)) (his : (⟨cr3, is⟩ : Label) ∉ kernelTables cr3) : ⟨cr3, is⟩ ∉ N :=
    fun hc => his (hkernel _ hc rfl)
  have h1 := hnew [0, (splitVaddr (pageAddr m)).pdptI] (by simp [kernelTables, Label.root, pdptI_ne_zero hm hlow])
  have h2 :=
    hnew [0, (splitVaddr (pageAddr m)).pdptI, (splitVaddr (pageAddr m)).pdI] (by simp [kernelTables, Label.root])
  rw [names_low ((pml4I_eq_zero_iff hm.2).mpr hlow) (Or.inl hp), Finset.union_insert, Finset.union_insert,
    Finset.union_singleton, Finset.insert_eq_of_mem (by simp [h0]), Finset.card_insert_of_notMem,
    Finset.card_insert_of_notMem h2]
  rw [Finset.mem_insert, not_or]
  exact ⟨by simp, h1⟩

theorem need_low (hbare : ∀ ℓ ∈ T₁.names, ℓ.owner = p → ℓ = .root p) (h0 : ⟨cr3, [0]⟩ ∈ T₁.names)
    (hkernel : ∀ ℓ ∈ T₁.names, ℓ.owner = cr3 → ℓ ∈ kernelTables cr3) (hp : p ∈ S) (hpk : p ≠ cr3)
    (hpages : ∀ m ∈ pages, m < 2 ^ 35 ∧ highPage m) (hm : 2 ^ 18 ≤ m ∧ m < 2 ^ 35) (hlow : ¬ highPage m) :
    (kernelLayout cr3 S).need T₁ p (pages ++ [m]) + 1 = T₁.names.card + (framesFor pages + 3) := by
  have hhigh : (kernelLayout cr3 S).need T₁ p pages + 1 = _ := need_high hbare hpages
  have hN : ∀ ℓ ∈ T₁.names ∪ (kernelLayout cr3 S).tablesOf p pages, ℓ.owner = cr3 → ℓ ∈ kernelTables cr3 := by
    intro ℓ hℓ hown
    cases Finset.mem_union.mp hℓ with
    | inl hℓ => exact hkernel ℓ hℓ hown
    | inr hℓ =>
      rw [tablesOf_high hpages] at hℓ
      obtain ⟨is, -, rfl⟩ := Finset.mem_image.mp hℓ
      exact absurd hown hpk
  have hcard := card_union_low (Finset.mem_union_left _ h0) hN hp hm hlow
  rw [Layout.need] at hhigh ⊢
  rw [Layout.tablesOf_append, ← Finset.union_assoc, hcard, List.length_append, List.length_singleton]
  omega

theorem exists_first_low (h : ¬ ∀ m ∈ pages, highPage m) :
    ∃ m post, pages = pages.takeWhile highPage ++ m :: post ∧ ¬ highPage m := by
  cases hd : pages.dropWhile highPage with
  | nil => exact absurd (List.dropWhile_eq_nil_iff.mp hd) h
  | cons m post =>
    have hm := List.head?_dropWhile_not highPage pages
    rw [hd, List.head?_cons] at hm
    exact ⟨m, post, by rw [← hd, List.takeWhile_append_dropWhile], by simpa using hm⟩

/-! ## A load -/

/-- No page of slot 0 is mapped but the kernel's own first GiB. -/
structure Unshared (cr3 : UInt64) (k : Kernel α) (T : TableMap) : Prop where
  kernel : cr3 ∈ k.spaces
  lookup : ∀ {w}, (splitVaddr w).pml4I = 0 → (splitVaddr w).pdptI ≠ 0 →
    Radix.lookup (slot k.vmm.mem) cr3 (path w) = none
  tables : (∀ ℓ ∈ T.names, ℓ.owner = cr3 → ℓ ∈ kernelTables cr3) ∨ spare k.vmm.pmm = ∅

variable {k : Kernel α} {s₃ s' : Vmm α} {frames : Nat → Option UInt64} {bytes : Nat → UInt8} {free : Nat}

theorem KernelInv.root_ne (h : KernelInv cr3 k S T) (hp : T.label p = none) : p ≠ cr3 := by
  rintro rfl
  rw [h.kernel] at hp
  cases hp

theorem Opened.kernelTables (h : KernelInv cr3 k S T) (hu : Unshared cr3 k T) (ho : Opened cr3 k S T p s₃ T₁)
    (hne : spare k.vmm.pmm ≠ ∅) : ∀ ℓ ∈ T₁.names, ℓ.owner = cr3 → ℓ ∈ kernelTables cr3 := by
  intro ℓ hℓ hown
  cases hu.tables with
  | inr hz => exact absurd hz hne
  | inl htab =>
    rw [ho.names, Finset.mem_insert] at hℓ
    cases hℓ with
    | inl hℓ =>
      rw [hℓ] at hown
      exact absurd hown (h.root_ne ho.fresh)
    | inr hℓ => exact htab ℓ hℓ hown

/-- **How far a load gets** with the frames that are left. -/
theorem Opened.high_iff (h : KernelInv cr3 k S T) (hu : Unshared cr3 k T) (ho : Opened cr3 k S T p s₃ T₁)
    (hfree : (spare k.vmm.pmm).encard = free) (hcount : (spare s₃.pmm).encard + 1 = (spare k.vmm.pmm).encard)
    (hpages : ∀ m ∈ pages, 2 ^ 18 ≤ m ∧ m < 2 ^ 35)
    (hcase : Accounts (kernelLayout cr3 (insert p S)) s₃ T₁ p s' T' frames pages ∨ ∃ j < pages.length,
      Stopped (kernelLayout cr3 (insert p S)) s₃ T₁ p frames (pages.take j) (pages.take (j + 1))) :
    (∀ m, frames m ≠ none → highPage m) ↔ StaysHigh free pages := by
  obtain ⟨n, hn⟩ := ENat.ne_top_iff_exists.mp (show (spare s₃.pmm).encard ≠ ⊤ by
    intro hc
    rw [hc, hfree] at hcount
    exact ENat.natCast_ne_top free hcount.symm)
  have hfree' : free = n + 1 := by
    rw [hfree, ← hn] at hcount
    exact_mod_cast hcount.symm
  have hne : spare k.vmm.pmm ≠ ∅ := by
    intro hc
    rw [hc, Set.encard_empty, ← hn] at hcount
    exact absurd hcount (by norm_cast)
  by_cases hall : ∀ m ∈ pages, highPage m
  · refine iff_of_true (fun m hm => hall m ?_) (Or.inl hall)
    cases hcase with
    | inl hacc => exact hacc.support.mp hm
    | inr hstop =>
      obtain ⟨j, -, hstop⟩ := hstop
      exact List.mem_of_mem_take (hstop.support.mp hm)
  obtain ⟨m, post, hsplit, hlow⟩ := exists_first_low hall
  rw [← List.singleton_append, ← List.append_assoc] at hsplit
  generalize hpre : pages.takeWhile highPage = pre at hsplit
  have hhigh : ∀ m ∈ pre, m < 2 ^ 35 ∧ highPage m := by
    intro m hm
    rw [← hpre] at hm
    exact ⟨(hpages m ((List.takeWhile_prefix _).subset hm)).2, List.mem_takeWhile_imp hm⟩
  have hmem : m ∈ pages := by simp [hsplit]
  obtain ⟨n₀, hn₀⟩ := ho.inv.pdpt
  have hneed :=
    need_low (fun _ => ho.bare) (T₁.mem_names.mpr ⟨n₀, hn₀⟩) (ho.kernelTables h hu hne)
      (Finset.mem_insert_self p S)
    (h.root_ne ho.fresh) hhigh (hpages m hmem) hlow
  have hstays : StaysHigh free pages ↔ n + T₁.names.card < (kernelLayout cr3 (insert p S)).need T₁ p
      (pre ++ [m]) := by
    unfold StaysHigh
    rw [or_iff_right hall, hpre]
    omega
  rw [hstays]
  -- `m` is mapped if and only if there are frames enough for it
  have happend := (kernelLayout cr3 (insert p S)).need_append_le T₁ p
  cases hcase with
  | inl hacc =>
    have hle : (kernelLayout cr3 (insert p S)).need T₁ p pages ≤ n + T₁.names.card := by
      have hc := hacc.count
      rw [← hn] at hc
      exact_mod_cast le_add_self.trans_eq hc
    have := happend (pre ++ [m]) post
    rw [← hsplit] at this
    exact iff_of_false (fun hc => hlow (hc m (hacc.support.mpr hmem))) (by omega)
  | inr hstop =>
    obtain ⟨j, -, hstop⟩ := hstop
    have henough := hstop.enough
    have hshort := hstop.short
    rw [← hn] at henough hshort
    norm_cast at henough hshort
    have htake (i : Nat) : pages.take i = (pre ++ [m]).take i ++ post.take (i - (pre ++ [m]).length) := by
      rw [hsplit, List.take_append]
    by_cases hj : j ≤ pre.length
    · refine iff_of_true (fun m' hm' => ?_) ?_
      · have hm' := hstop.support.mp hm'
        rw [htake, List.take_append_of_le_length hj, List.length_append,
          show j - (pre.length + [m].length) = 0 by omega, List.take_zero, List.append_nil] at hm'
        exact (hhigh m' (List.mem_of_mem_take hm')).2
      · have := happend ((pre ++ [m]).take (j + 1)) ((pre ++ [m]).drop (j + 1))
        rw [List.take_append_drop] at this
        rw [htake, List.length_append, List.length_singleton, show j + 1 - (pre.length + 1) = 0 by omega,
          List.take_zero, List.append_nil] at hshort
        omega
    · have hfront : pages.take j = pre ++ [m] ++ post.take (j - (pre ++ [m]).length) := by
        rw [htake, List.take_of_length_le (by rw [List.length_append, List.length_singleton]; omega)]
      rw [hfront] at henough
      have := happend (pre ++ [m]) (post.take (j - (pre ++ [m]).length))
      refine iff_of_false (fun hc => hlow (hc m (hstop.support.mpr ?_))) (by omega)
      rw [hfront]
      simp

theorem Opened.isolated (ho : Opened cr3 k S T p s₃ T₁)
    (hload : Loading (kernelLayout cr3 (insert p S)) s₃ T₁ p s' T' frames bytes)
    (hhigh : ∀ m, frames m ≠ none → highPage m) (hq : T.label q = some (.root q)) {w : UInt64} :
    Radix.lookup (slot s'.mem) q (path w) = Radix.lookup (slot k.vmm.mem) q (path w) := by
  rw [← ho.old hq]
  refine hload.others (ho.mono hq) fun m hm hsame => ?_
  cases hf : frames m with
  | none => exact hm hf
  | some d =>
    have h0 : (splitVaddr (pageAddr m)).pml4I ≠ 0 :=
      fun hc => (pml4I_eq_zero_iff (hload.user hf).2).mp hc (hhigh m hm)
    have hown := hsame.2
    rw [kernelLayout_next_root h0, kernelLayout_next_root h0] at hown
    have hpq : p = q := hown
    rw [← hpq, ho.fresh] at hq
    cases hq

theorem KernelInv.lookup_shared (h : KernelInv cr3 k S T) (hp : T.label p = some (.root p))
    (hpS : p ∈ S) {w : UInt64} (hw : (splitVaddr w).pml4I = 0) :
    Radix.lookup (slot k.vmm.mem) p (path w) = Radix.lookup (slot k.vmm.mem) cr3 (path w) := by
  obtain ⟨n, hn⟩ := h.pdpt
  have hslot {q : UInt64} (hq : T.label q = some (.root q)) (hqS : q ∈ S ∨ q = cr3) : slot k.vmm.mem 3 q 0 =
      .node n :=
    h.tabled.linked hq (by simp) (by rw [kernelLayout_next_zero hqS]; exact hn)
  rw [path, tablePath, hw, List.cons_append, Radix.lookup_cons, Radix.lookup_cons]
  simp only [List.length_append, List.length_cons, List.length_nil, Nat.reduceAdd, hslot hp (Or.inl hpS),
    hslot h.kernel (Or.inr rfl)]

theorem translate_congr {mem mem' : Memory} {p q v : UInt64}
    (h : Radix.lookup (slot mem) p (path v) = Radix.lookup (slot mem') q (path v)) :
    vmmTranslate mem p v = vmmTranslate mem' q v := by
  rw [vmmTranslate_eq, vmmTranslate_eq, h]

theorem translate_of_lookup_eq_none {mem : Memory} {p v : UInt64} (h : Radix.lookup (slot mem) p (path v) = none) :
    vmmTranslate mem p v = 0 := by
  rw [vmmTranslate_eq, h]
  rfl

theorem Opened.leak (hu : Unshared cr3 k T) (ho : Opened cr3 k S T p s₃ T₁)
    (hload : Loading (kernelLayout cr3 (insert p S)) s₃ T₁ p s' T' frames bytes) (hm : frames m ≠ none)
    (hlow : ¬ highPage m) :
    vmmTranslate s'.mem cr3 (pageAddr m) ≠ vmmTranslate k.vmm.mem cr3 (pageAddr m) := by
  cases hf : frames m with
  | none => exact absurd hf hm
  | some d =>
    have huser := hload.user hf
    have hw := (pml4I_eq_zero_iff huser.2).mpr hlow
    have hinv := hload.inv ho.inv
    have hat : frames ((pageAddr m).toNat / 4096) = some d := by
      rw [toNat_pageAddr (by omega), Nat.mul_div_cancel _ (by decide), hf]
    rw [translate_of_lookup_eq_none (hu.lookup hw (pdptI_ne_zero huser hlow)),
      ← translate_congr (hinv.lookup_shared (hload.mono hload.root) (Finset.mem_insert_self p S) hw)]
    exact (hload.translate hat).2.1

def Kernel.SameSpaces {α : Type} (k k' : Kernel α) : Prop :=
  ∀ A ∈ k.spaces, ∀ v, vmmTranslate k'.vmm.mem A v = vmmTranslate k.vmm.mem A v

theorem KernelInv.sameSpaces (h : KernelInv cr3 k S T) {k' : Kernel α}
    (hlook : ∀ {q w}, T.label q = some (.root q) → Radix.lookup (slot k'.vmm.mem) q (path w) =
      Radix.lookup (slot k.vmm.mem) q (path w)) :
    k.SameSpaces k' := fun _ hA _ => translate_congr (hlook (h.spaces hA).1)

/-- **A load** changes no space if and only if it stays above slot 0. -/
theorem Unshared.elfLoad (hu : Unshared cr3 k T) (h : KernelInv cr3 k S T) (hfree : (spare k.vmm.pmm).encard = free)
    (programPhys : UInt64) (entries : Ramfs) (name : Option (List UInt8)) (image : Option ElfImage) :
    let k' := k.call cr3 programPhys (.elfLoad entries name image)
    (k.SameSpaces k' ↔ (KernelCall.elfLoad entries name image).Apart free) ∧
      ((KernelCall.elfLoad entries name image).Apart free → ∃ S' T', KernelInv cr3 k' S' T' ∧
      Unshared cr3 k' T') := by
  intro k'
  by_cases hok : ∃ i file, image = some i ∧ ramfsOpen entries name = some file ∧ validElfFile file = true
  swap
  · -- rejected before anything is allocated
    have hk : k' = k := by
      simp only [k', Kernel.call]
      rw [elfLoad_rejected k.vmm hok]
      rfl
    rw [hk]
    exact ⟨iff_of_true (fun _ _ _ => rfl) fun i file hi hfile hvalid => absurd ⟨i, file, hi, hfile, hvalid⟩ hok,
      fun _ => ⟨S, T, h, hu⟩⟩
  obtain ⟨i, file, rfl, hopen, hvalid⟩ := hok
  have hapart : (KernelCall.elfLoad entries name (some i)).Apart free ↔
      StaysHigh free (plannedPages file (programHeaders file)) := by
    refine ⟨fun hc => hc i file rfl hopen hvalid, fun hc i' file' _ hfile _ => ?_⟩
    rw [hopen] at hfile
    exact Option.some.inj hfile ▸ hc
  rw [hapart]
  rcases elfLoad_spec h i hopen hvalid with
    ⟨s', he, hmem, htab, hout, hz⟩ | ⟨p, s₃, T₁, ok, s', T', frames, bytes, ho, hcount, he, hload, hcase⟩
  · have hk : k' = ⟨s', k.spaces⟩ := by
      simp only [k', Kernel.call, he]
      rfl
    have hsame {q w : UInt64} : Radix.lookup (slot k'.vmm.mem) q (path w) = Radix.lookup (slot k.vmm.mem) q
        (path w) := by
      rw [hk, hmem]
    refine ⟨iff_of_true (h.sameSpaces fun _ => hsame) (Or.inr ?_), fun _ => ⟨S, T, hk ▸ h.of_tabled htab, ?_⟩⟩
    · rw [hz, Set.encard_empty] at hfree
      have : free = 0 := by exact_mod_cast hfree.symm
      omega
    · refine ⟨hk ▸ hu.kernel, fun h1 h2 => hsame.trans (hu.lookup h1 h2), Or.inr ?_⟩
      rw [hk]
      exact hout.spare_eq
  · have hk : k'.vmm = s' := by simp only [k', Kernel.call, he]
    have hspaces : ∀ q ∈ k'.spaces, q ∈ p :: k.spaces := by
      intro q hq
      simp only [k', Kernel.call, he] at hq
      cases ok with
      | true => exact hq
      | false => exact List.mem_cons_of_mem _ hq
    have hold : cr3 ∈ k'.spaces := by
      simp only [k', Kernel.call, he]
      exact List.mem_append_right _ hu.kernel
    have hcase' := hcase.imp (fun hc => hc.2.2) fun hc => hc.2.imp fun j hj => And.intro hj.1 hj.2.1
    have hhigh := ho.high_iff h hu hfree hcount (fun m hm => mem_plannedPages file _ hm) hcase'
    rw [← hhigh]
    constructor
    · constructor
      · intro hsame m hm
        by_contra hlow
        refine ho.leak hu hload hm hlow ?_
        rw [← hsame cr3 hu.kernel, hk]
      · intro hc
        refine h.sameSpaces fun hq => ?_
        rw [hk]
        exact ho.isolated hload hc hq
    · intro hc
      refine ⟨insert p S, T', ?_, hold, fun h1 h2 => ?_, ?_⟩
      · have := (hload.inv ho.inv).fewer hspaces
        rwa [← hk] at this
      · rw [hk, ho.isolated hload hc h.kernel]
        exact hu.lookup h1 h2
      · rw [hk]
        cases hcase with
        | inr hstop => exact Or.inr hstop.1.spare_eq
        | inl hdone =>
          have hne : spare k.vmm.pmm ≠ ∅ := by
            intro hz
            rw [hz, Set.encard_empty] at hcount
            simp at hcount
          refine Or.inl fun ℓ hℓ hown => ?_
          rw [hdone.2.2.names, Finset.mem_union] at hℓ
          cases hℓ with
          | inl hℓ => exact ho.kernelTables h hu hne ℓ hℓ hown
          | inr hℓ =>
            rw [tablesOf_high fun m hm => ⟨(mem_plannedPages file _ hm).2, hc m (hdone.2.2.support.mpr hm)⟩] at hℓ
            obtain ⟨is, -, rfl⟩ := Finset.mem_image.mp hℓ
            exact absurd hown (h.root_ne ho.fresh)

/-! ## The demo task -/

theorem KernelInv.map_low (h : KernelInv cr3 k S T) (hp : T.label p = some (.root p)) (hpS : p ∈ S)
    (hkernel : ∀ ℓ ∈ T.names, ℓ.owner = cr3 → ℓ ∈ kernelTables cr3) (hm : 2 ^ 18 ≤ m ∧ m < 2 ^ 35)
    (hlow : ¬ highPage m) (pa flags : UInt64) (hflags : flags &&& pteAddrMask = 0) :
    let s' := vmmMapPage k.vmm p (pageAddr m) pa flags
    ∃ T', Extends (kernelLayout cr3 S) k.vmm T s' T' ∧
      ((spare k.vmm.pmm).encard < 2 ∧ SameLookups T k.vmm.mem s'.mem ∧ spare s'.pmm = ∅ ∧
          ¬ (kernelLayout cr3 S).names (.root p) (tablePath (pageAddr m)) ⊆ T'.names ∨
        2 ≤ (spare k.vmm.pmm).encard ∧
          Radix.lookup (slot s'.mem) cr3 (path (pageAddr m)) = some (pa &&& pteAddrMask, [])) := by
  intro s'
  obtain ⟨n₀, hn₀⟩ := h.pdpt
  have hcard := card_union_low (T.mem_names.mpr ⟨n₀, hn₀⟩) hkernel hpS hm hlow
  obtain ⟨T', hx, ⟨-, hsame, hout, -, hmiss, -, hshort⟩ | ⟨-, -, henough, hset⟩⟩ :=
    h.tabled.map_user hp kernelLayout_huge hm pa hflags
  · rw [hcard, add_comm T.names.card 2, Nat.cast_add] at hshort
    exact ⟨T', hx, Or.inl ⟨(ENat.add_lt_add_iff_right (ENat.natCast_ne_top _)).mp hshort, hsame,
      hout.spare_eq, hmiss⟩⟩
  · rw [hcard, add_comm T.names.card 2, Nat.cast_add] at henough
    refine ⟨T', hx, Or.inr ⟨(ENat.add_le_add_iff_right (ENat.natCast_ne_top _)).mp henough, ?_⟩⟩
    rw [hset h.kernel, if_pos]
    refine ⟨rfl, ?_⟩
    rw [(pml4I_eq_zero_iff hm.2).mpr hlow, kernelLayout_next_zero (Or.inl hpS), kernelLayout_next_zero (Or.inr rfl)]

/-- Where a table is missing and no frame is left, nothing can be mapped. -/
theorem Tabled.map_stuck {L : Layout} {s : Vmm α} (h : Tabled L s T) (hp : T.label p = some (.root p))
    (v pa : UInt64) {flags : UInt64} (hflags : flags &&& pteAddrMask = 0) (hz : spare s.pmm = ∅)
    (hmiss : ¬ L.names (.root p) (tablePath v) ⊆ T.names) :
    ∃ T', Extends L s T (vmmMapPage s p v pa flags) T' ∧ SameLookups T s.mem (vmmMapPage s p v pa flags).mem := by
  rcases vmmMapPage_spec h hp v pa hflags with ⟨-, T', hx, hsame, -⟩ | ⟨-, T', hx, hall, -⟩
  · exact ⟨T', hx, hsame⟩
  · exfalso
    have hlt : T.names.card < T'.names.card := by
      rw [hall]
      exact Finset.card_lt_card ⟨Finset.subset_union_left, fun hc => hmiss (Finset.subset_union_right.trans hc)⟩
    have hcount := hx.count
    rw [hz, Set.encard_empty, zero_add] at hcount
    have hle := le_add_self.trans_eq hcount
    norm_cast at hle
    omega

theorem userCodeAddress_eq : userCodeAddress = pageAddr (2 ^ 26) := by decide

theorem userStackAddress_eq : userStackAddress = pageAddr (2 ^ 26 + 1) := by decide

/-- **The demo task** changes no space if and only if it does not get four frames. -/
theorem Unshared.prepareDemo (hu : Unshared cr3 k T) (h : KernelInv cr3 k S T)
    (hfree : (spare k.vmm.pmm).encard = free) (programPhys : UInt64) (task : Option UInt64) (u : UserMode) :
    let k' := k.call cr3 programPhys (.prepareDemo task u)
    (k.SameSpaces k' ↔ (KernelCall.prepareDemo task u).Apart free) ∧
      ((KernelCall.prepareDemo task u).Apart free → ∃ S' T', KernelInv cr3 k' S' T' ∧ Unshared cr3 k' T') := by
  intro k'
  cases task with
  | none => exact ⟨iff_of_true (fun _ _ _ => rfl) (Or.inl rfl), fun _ => ⟨S, T, h, hu⟩⟩
  | some t =>
  have hapart : (KernelCall.prepareDemo (some t) u).Apart free ↔ free < 4 := or_iff_right (by simp)
  rw [hapart]
  rcases prepareDemo_spec h programPhys t u with
    ⟨s', T', he, hinv, hsame, -, -, -, hz, hle⟩ | ⟨p, s₃, T₁, d, u', ho, -, -, hcount, he⟩
  · have hk : k' = ⟨s', k.spaces⟩ := by
      simp only [k', Kernel.call, he]
      rfl
    have hfree' : free ≤ 1 := by
      rw [hfree] at hle
      exact_mod_cast hle
    have hold {q w : UInt64} (hq : T.label q = some (.root q)) :
        Radix.lookup (slot k'.vmm.mem) q (path w) = Radix.lookup (slot k.vmm.mem) q (path w) := by
      rw [hk]
      exact hsame hq rfl
    refine ⟨iff_of_true (h.sameSpaces hold) (by omega),
      fun _ => ⟨S, T', hk ▸ hinv, hk ▸ hu.kernel, fun h1 h2 => ?_, Or.inr ?_⟩⟩
    · exact (hold h.kernel).trans (hu.lookup h1 h2)
    · rw [hk]
      exact hz
  · have hne : spare k.vmm.pmm ≠ ∅ := by
      intro hz
      rw [hz, Set.encard_empty] at hcount
      simp at hcount
    have hfour : free < 4 ↔ (spare s₃.pmm).encard < 2 := by
      rw [hfree] at hcount
      cases hn : (spare s₃.pmm).encard with
      | top =>
        rw [hn] at hcount
        exact absurd hcount.symm (ENat.natCast_ne_top free)
      | coe n =>
        rw [hn] at hcount
        norm_cast at hcount ⊢
        omega
    rw [userCodeAddress_eq, userStackAddress_eq] at he
    obtain ⟨T₂, hx₂, hcode⟩ :=
      ho.inv.map_low ho.root (Finset.mem_insert_self p S) (ho.kernelTables h hu hne) (m := 2 ^ 26)
      (by decide) (by decide) (programPhys &&& ~~~(pageSize - 1)) pteUser (by decide)
    generalize hs₄ : vmmMapPage s₃ p (pageAddr (2 ^ 26)) (programPhys &&& ~~~(pageSize - 1)) pteUser =
      s₄ at he hx₂ hcode
    have hp₂ := hx₂.mono ho.root
    have hflags : stackFlags &&& pteAddrMask = 0 := by decide
    have hsecond := vmmMapPage_spec hx₂.tabled hp₂ (pageAddr (2 ^ 26 + 1)) d hflags
    have hstuck := hx₂.tabled.map_stuck hp₂ (pageAddr (2 ^ 26 + 1)) d hflags
    generalize hs₅ : vmmMapPage s₄ p (pageAddr (2 ^ 26 + 1)) d stackFlags = s₅ at he hsecond hstuck
    have hk : k' = ⟨s₅, p :: k.spaces⟩ := by
      simp only [k', Kernel.call, he]
      rfl
    rw [hfour, hk]
    rcases hcode with ⟨hlt, hsame₂, hz, hmiss⟩ | ⟨hge, hcode⟩
    · -- no frame is left for the tables, and then none for the second page either
      rw [show tablePath (pageAddr (2 ^ 26)) = tablePath (pageAddr (2 ^ 26 + 1)) by decide] at hmiss
      obtain ⟨T₃, hx₃, hsame₃⟩ := hstuck hz hmiss
      have hold {q w : UInt64} (hq : T.label q = some (.root q)) :
          Radix.lookup (slot s₅.mem) q (path w) = Radix.lookup (slot k.vmm.mem) q (path w) := by
        rw [← ho.old hq]
        exact (hsame₃ (hx₂.mono (ho.mono hq)) rfl).trans (hsame₂ (ho.mono hq) rfl)
      refine ⟨iff_of_true (h.sameSpaces hold) hlt, fun _ => ⟨insert p S, T₃, ho.inv.extend (hx₂.trans hx₃),
        List.mem_cons_of_mem _ hu.kernel, fun h1 h2 => (hold h.kernel).trans (hu.lookup h1 h2), Or.inr ?_⟩⟩
      refine Set.eq_empty_of_forall_notMem fun f hf => ?_
      have := (hx₃.left.mp hf).1
      rw [hz] at this
      cases this
    · refine ⟨iff_of_false (fun hsame => ?_) (not_lt.mpr hge), fun hlt => absurd hlt (not_lt.mpr hge)⟩
      -- the second byte of the code page, whose translation cannot be 0
      have hpath : path (userCodeAddress + 1) = path (pageAddr (2 ^ 26)) := by decide
      have hnow : Radix.lookup (slot s₅.mem) cr3 (path (userCodeAddress + 1)) =
          some ((programPhys &&& ~~~(pageSize - 1)) &&& pteAddrMask, []) := by
        rcases hsecond with ⟨-, T₃, -, hsame₃, -⟩ | ⟨-, T₃, -, -, hset⟩
        · rw [hpath, ← hcode]
          exact hsame₃ (hx₂.mono ho.inv.kernel) rfl
        · rw [hset (hx₂.mono ho.inv.kernel), if_neg fun hc => absurd hc.1 (by decide), hpath, hcode]
      have hbefore := hu.lookup (w := userCodeAddress + 1) (by decide) (by decide)
      have := hsame cr3 hu.kernel (userCodeAddress + 1)
      rw [translate_of_lookup_eq_none hbefore, vmmTranslate_eq, hnow, Option.elim_some] at this
      exact or_ne_zero_right (show pageOffset (userCodeAddress + 1) 0 ≠ 0 by decide) this

/-! ## Runs -/

theorem Booted.unshared {s : Vmm α} (h : Booted cr3 s) :
    ∃ T, KernelInv cr3 ⟨s, [cr3]⟩ ∅ T ∧ Unshared cr3 ⟨s, [cr3]⟩ T := by
  obtain ⟨T, hinv, hnames⟩ := h.inv
  refine ⟨T, hinv, List.mem_singleton_self cr3, fun {w} h1 h2 => ?_, Or.inl fun ℓ hℓ _ => by rwa [hnames] at hℓ⟩
  have hpath := names_low (S := ∅) h1 (Or.inr (rfl : cr3 = cr3))
  refine hinv.tabled.lookup_eq_none (tablePath w) hinv.kernel rfl (fun ℓ hℓ hhuge => ?_) fun hsub => ?_
  · obtain rfl : ℓ = ⟨cr3, [0, 0]⟩ := hhuge
    rw [hpath] at hℓ
    simp [Label.root, h2.symm] at hℓ
  · have := hsub (hpath ▸ Finset.mem_insert_of_mem (Finset.mem_insert_self ..))
    rw [hnames] at this
    simp [Label.root, h2] at this

theorem Unshared.call (hu : Unshared cr3 k T) (h : KernelInv cr3 k S T) (hfree : (spare k.vmm.pmm).encard = free)
    (programPhys : UInt64) (c : KernelCall) :
    (k.SameSpaces (k.call cr3 programPhys c) ↔ c.Apart free) ∧
      (c.Apart free → ∃ S' T', KernelInv cr3 (k.call cr3 programPhys c) S' T' ∧
        Unshared cr3 (k.call cr3 programPhys c) T') := by
  cases c with
  | elfLoad entries name image => exact hu.elfLoad h hfree programPhys entries name image
  | prepareDemo task u => exact hu.prepareDemo h hfree programPhys task u

end

def ApartStep (cr3 programPhys : UInt64) (k : Kernel Pmm) (c : KernelCall) (k' : Kernel Pmm) : Prop :=
  c.Apart k.vmm.pmm.freePages.toNat ∧ KernelStep cr3 programPhys k c k'

section
variable {cr3 programPhys : UInt64} {s : Vmm Pmm} {calls : List KernelCall} {k : Kernel Pmm}

theorem apart_run (hboot : Booted cr3 s) (hrun : Run (ApartStep cr3 programPhys) ⟨s, [cr3]⟩ calls k) :
    ∃ S T, KernelInv cr3 k S T ∧ Unshared cr3 k T := by
  obtain ⟨T, hinv, hu⟩ := hboot.unshared
  refine Run.invariant (I := fun k => ∃ S T, KernelInv cr3 k S T ∧ Unshared cr3 k T)
    (fun k c k' hk hs => ?_) hrun ⟨∅, T, hinv, hu⟩
  obtain ⟨S, T, hinv, hu⟩ := hk
  obtain ⟨hc, rfl⟩ := hs
  exact (hu.call hinv (encard_spare_pmm hinv.tabled.valid.1) programPhys c).2 hc

/-- **Address-space isolation.** After calls that leave slot 0 alone, a further call changes no
translation in any space if and only if it leaves slot 0 alone as well. -/
theorem address_spaces_isolated (hboot : Booted cr3 s)
    (hrun : Run (ApartStep cr3 programPhys) ⟨s, [cr3]⟩ calls k) (c : KernelCall) :
    (∀ A ∈ k.spaces, ∀ v, vmmTranslate (k.call cr3 programPhys c).vmm.mem A v = vmmTranslate k.vmm.mem A v) ↔
      c.Apart k.vmm.pmm.freePages.toNat := by
  obtain ⟨S, T, hinv, hu⟩ := apart_run hboot hrun
  exact (hu.call hinv (encard_spare_pmm hinv.tabled.valid.1) programPhys c).1

end

theorem prepareDemo_leaks {cr3 : UInt64} {s : Vmm Pmm} (hboot : Booted cr3 s) (hfree : 4 ≤ s.pmm.freePages.toNat)
    (programPhys task : UInt64) (u : UserMode) :
    ¬ (⟨s, [cr3]⟩ : Kernel Pmm).SameSpaces
      ((⟨s, [cr3]⟩ : Kernel Pmm).call cr3 programPhys (.prepareDemo (some task) u)) := by
  obtain ⟨T, hinv, hu⟩ := hboot.unshared
  rw [(hu.prepareDemo hinv (encard_spare_pmm hinv.tabled.valid.1) programPhys (some task) u).1]
  simp only [KernelCall.Apart, reduceCtorEq, false_or, not_lt]
  exact hfree

theorem freePages_bootVmm (bytes : Nat → UInt8) : 4 ≤ (bootVmm (kernelPmm bytes 0)).pmm.freePages.toNat :=
  le_trans (by decide) (ten_le_freePages bytes)

/-- Preparing the demo task right after boot changes what the kernel's own space translates. -/
theorem address_spaces_isolated_demo_task : ∃ v, vmmTranslate
    ((⟨bootVmm (kernelPmm (fun _ => 0) 0), [0x105000]⟩ : Kernel Pmm).call 0x105000 0x110000
      (.prepareDemo (some 0) ⟨0, 0⟩)).vmm.mem 0x105000 v ≠
      vmmTranslate (bootVmm (kernelPmm (fun _ => 0) 0)).mem 0x105000 v := by
  by_contra hc
  refine prepareDemo_leaks (booted_bootVmm (fun _ => 0) 0) (freePages_bootVmm _) 0x110000 0 ⟨0, 0⟩ fun A hA v => ?_
  obtain rfl := List.mem_singleton.mp hA
  by_contra hv
  exact hc ⟨v, hv⟩

def highLoad : KernelCall := .elfLoad (ramfsOf (twoSegments 0x8000000000 0x8000001000)) (some []) (some ⟨0, 0⟩)

theorem highLoad_apart (free : Nat) : highLoad.Apart free := by
  intro i file _ hfile _
  obtain rfl := Option.some.inj ((ramfsOpen_ramfsOf _).symm.trans hfile)
  exact Or.inl (by decide +kernel)

theorem address_spaces_isolated_high :
    ∃ k, Run (ApartStep 0x105000 0) ⟨bootVmm (kernelPmm (fun _ => 0) 0), [0x105000]⟩ [highLoad] k ∧
      ∀ A ∈ k.spaces, ∀ v, vmmTranslate (k.call 0x105000 0 highLoad).vmm.mem A v = vmmTranslate k.vmm.mem A v := by
  have hboot := booted_bootVmm (fun _ => 0) 0
  generalize bootVmm (kernelPmm (fun _ => 0) 0) = s at hboot
  have hrun : Run (ApartStep 0x105000 0) ⟨s, [0x105000]⟩ [highLoad] _ := Run.single ⟨highLoad_apart _, rfl⟩
  exact ⟨_, hrun, (address_spaces_isolated hboot hrun highLoad).mpr (highLoad_apart _)⟩

end KernelOs
