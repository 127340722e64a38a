import KernelOs.HardwareWalk
import KernelOs.SharedSlot
import Mathlib.Algebra.Order.BigOperators.Group.Finset

/-!
# What the loader does to memory

The state in the middle of a load: which pages of the new space are mapped, to which
frames, with which bytes. Every frame is one that this load has taken, so the writes
of the loader touch no table and no other page.
-/

namespace KernelOs
open Lib LawfulPageAllocator CompletePageAllocator

/-! ## Addresses -/

theorem toNat_alignDown (v : UInt64) : (alignDown v).toNat = v.toNat / 4096 * 4096 := by
  have h : (~~~(pageSize - 1)).toNat = (2 ^ 52 - 1) * 2 ^ 12 := by decide
  rw [alignDown, UInt64.toNat_and, h]
  refine Nat.eq_of_testBit_eq fun i => ?_
  rw [Nat.testBit_and, Nat.testBit_mul_two_pow, Nat.testBit_two_pow_sub_one, show (4096 : Nat) = 2 ^ 12 by decide,
    Nat.testBit_mul_two_pow, Nat.testBit_div_two_pow]
  by_cases hi : 12 ≤ i
  · rw [Nat.sub_add_cancel hi]
    by_cases h64 : i < 64
    · simp [hi, show i - 12 < 52 by omega]
    · rw [Nat.testBit_lt_two_pow (Nat.lt_of_lt_of_le v.toNat_lt (Nat.pow_le_pow_right (by decide) (by omega)))]
      simp
  · simp [hi]

theorem toNat_alignUp {v : UInt64} (h : v.toNat + 4096 < 2 ^ 64) :
    (alignUp v).toNat = (v.toNat + 4095) / 4096 * 4096 := by
  have hv : (v + pageSize - 1).toNat = v.toNat + 4095 := by
    have hadd : (v + pageSize).toNat = v.toNat + 4096 := toNat_add_of_lt h
    rw [toNat_pred (by omega), hadd]
    omega
  have := toNat_alignDown (v + pageSize - 1)
  rwa [alignDown, hv] at this

theorem and_pageSize_le (v : UInt64) :
    (v &&& (pageSize - 1)).toNat = v.toNat % 4096 ∧ v &&& (pageSize - 1) ≤ pageSize := by
  have hand : (v &&& (pageSize - 1)).toNat = v.toNat % 4096 := by
    rw [UInt64.toNat_and, show (pageSize - 1).toNat = 2 ^ 12 - 1 by decide, Nat.and_two_pow_sub_one_eq_mod]
  refine ⟨hand, ?_⟩
  rw [UInt64.le_iff_toNat_le, hand, pageSize_toNat]
  exact (Nat.mod_lt _ (by decide)).le

theorem toNat_pageRemaining (v : UInt64) : (pageSize - (v &&& (pageSize - 1))).toNat = 4096 - v.toNat % 4096 := by
  obtain ⟨hand, hle⟩ := and_pageSize_le v
  rw [UInt64.toNat_sub_of_le _ _ hle, hand, pageSize_toNat]

/-- A chunk ends with the page or with the range. -/
theorem toNat_chunk {r v c : UInt64}
    (hc : (if r < pageSize - (v &&& (pageSize - 1)) then r else pageSize - (v &&& (pageSize - 1))) = c) :
    c.toNat = min r.toNat (4096 - v.toNat % 4096) := by
  have hrem := toNat_pageRemaining v
  rw [← hc]
  split
  · next hlt =>
    rw [UInt64.lt_iff_toNat_lt, hrem] at hlt
    omega
  · next hlt =>
    rw [UInt64.lt_iff_toNat_lt, hrem] at hlt
    rw [hrem]
    omega

theorem validUserRange_iff {address size : UInt64} :
    validUserRange address size = true ↔ 2 ^ 30 ≤ address.toNat ∧ address.toNat + size.toNat < 2 ^ 47 := by
  have hmin : userAddressMin.toNat = 2 ^ 30 := by decide
  have hsub : (0xFFFFFFFFFFFFFFFF - address).toNat = 2 ^ 64 - 1 - address.toNat := by
    rw [UInt64.toNat_sub_of_le]
    · rfl
    · rw [UInt64.le_iff_toNat_le]
      have := address.toNat_lt
      exact Nat.le_of_lt_succ this
  have ha := address.toNat_lt
  unfold validUserRange
  simp only [gt_iff_lt, UInt64.lt_iff_toNat_lt, hmin, hsub]
  by_cases hc : address.toNat < 2 ^ 30 ∨ 2 ^ 64 - 1 - address.toNat < size.toNat
  · rw [if_pos hc]
    simp only [Bool.false_eq_true, false_iff]
    omega
  · rw [if_neg hc, decide_eq_true_iff, toNat_add_of_lt (by omega)]
    have h47 : (0x0000800000000000 : UInt64).toNat = 2 ^ 47 := by decide
    rw [h47]
    omega

def pageAddr (m : Nat) : UInt64 := UInt64.ofNat (m * 4096)

theorem toNat_pageAddr {m : Nat} (h : m < 2 ^ 52) : (pageAddr m).toNat = m * 4096 := toNat_ofNat_page h

theorem path_pageAddr {v : UInt64} : path (pageAddr (v.toNat / 4096)) = path v := by
  have hv := v.toNat_lt
  rw [path_eq_iff, ← BitVec.toNat_inj, pageNumber_toNat, pageNumber_toNat, toNat_pageAddr (by omega)]
  omega

theorem path_pageAddr_inj {m n : Nat} (hm : m < 2 ^ 35) (hn : n < 2 ^ 35) :
    path (pageAddr m) = path (pageAddr n) ↔ m = n := by
  rw [path_eq_iff, ← BitVec.toNat_inj, pageNumber_toNat, pageNumber_toNat, toNat_pageAddr (by omega),
    toNat_pageAddr (by omega)]
  omega

/-! ## Byte loops -/

theorem zeroMemory_apply (mem : Memory) (d n x : Nat) :
    zeroMemory mem d n x = if d ≤ x ∧ x < d + n then 0 else mem x := by
  induction n with
  | zero => rw [zeroMemory, if_neg (by omega)]
  | succ n ih =>
    rw [zeroMemory, Memory.store8]
    by_cases hx : x = d + n
    · rw [if_pos hx, if_pos (by omega)]
    · rw [if_neg hx, ih]
      exact if_congr (by omega) rfl rfl

theorem copyMemory_apply (mem : Memory) (d : Nat) (source : Memory) (o n x : Nat) :
    copyMemory mem d source o n x = if d ≤ x ∧ x < d + n then source (o + (x - d)) else mem x := by
  induction n with
  | zero => rw [copyMemory, if_neg (by omega)]
  | succ n ih =>
    rw [copyMemory, Memory.store8]
    by_cases hx : x = d + n
    · rw [if_pos hx, if_pos (by omega), hx, Nat.add_sub_cancel_left]
    · rw [if_neg hx, ih]
      exact if_congr (by omega) rfl rfl

/-! ## The state in the middle of a load -/

section
variable {α : Type} [PageAllocator α] [LawfulPageAllocator α]

theorem Tabled.alloc_data {L : Layout} {s : Vmm α} {T : TableMap} (h : Tabled L s T) {d : UInt64} {pmm : α}
    (ha : allocPage s.pmm = (d, pmm)) (hd : d ≠ 0) (mem : Memory)
    (hm : ∀ x, x < d.toNat ∨ d.toNat + 4096 ≤ x → mem x = s.mem x) :
    Tabled L ⟨mem, pmm⟩ T ∧ SameLookups T s.mem mem ∧ IsFrame d ∧ T.label d = none ∧
      d.toNat / 4096 ∈ spare s.pmm ∧ spare pmm = spare s.pmm \ {d.toNat / 4096} := by
  obtain ⟨f, hf, -, hdf, hdF, hnone, hv, hsp⟩ := h.alloc_frame ha hd
  have hf' : d.toNat / 4096 = f := by
    rw [hdf, Nat.mul_div_cancel _ (by decide)]
  have hsub : spare pmm ⊆ spare s.pmm := by
    rw [hsp]
    exact Set.sdiff_subset
  obtain ⟨htab, hsame⟩ := h.other ⟨mem, pmm⟩ hv hsub fun {n ℓ x} hn k1 k2 => hm x (by
    have hapart := h.apart hn hdF hnone
    omega)
  exact ⟨htab, hsame, hdF, hnone, hf' ▸ hf, hf' ▸ hsp⟩

theorem Tabled.entries_of_frame {L : Layout} {s : Vmm α} {T : TableMap} (h : Tabled L s T) {d : UInt64}
    (hd : IsFrame d) (hnone : T.label d = none) {mem : Memory}
    (hm : ∀ x, x < d.toNat ∨ d.toNat + 4096 ≤ x → mem x = s.mem x) {n : UInt64} {ℓ : Label} {i : Fin 512}
    (hn : T.label n = some ℓ) : readEntry mem n i = readEntry s.mem n i := by
  refine readEntry_congr (fun x h1 h2 => hm x ?_) i
  have hapart := h.apart hn hd hnone
  omega

/-- Ring 3 reaches the page of `v`. -/
def UserPage (mem : Memory) (p v : UInt64) : Prop := ∃ flags, flags &&& pteUser ≠ 0 ∧ Granted mem p v flags

theorem UserPage.of_entries {L : Layout} {s : Vmm α} {T : TableMap} {mem : Memory} {p v : UInt64}
    (hu : UserPage s.mem p v) (h : Tabled L s T) (hp : T.label p = some (.root p))
    (hsame : ∀ {n ℓ i}, T.label n = some ℓ → readEntry mem n i = readEntry s.mem n i) : UserPage mem p v := by
  obtain ⟨flags, hf, hg⟩ := hu
  exact ⟨flags, hf, hg.grow h hp (Grows.of_eq 0 [] hsame fun h1 h2 => by rw [h2] at h1; cases h1)⟩

/-- **The middle of a load** into the space `p`, which started in `s₀`: page `m` is mapped to `frames m`
and holds `bytes`. -/
structure Loading (L : Layout) (s₀ : Vmm α) (T₀ : TableMap) (p : UInt64) (s : Vmm α) (T : TableMap)
    (frames : Nat → Option UInt64) (bytes : Nat → UInt8) : Prop where
  tabled : Tabled L s T
  mono : ∀ {n ℓ}, T₀.label n = some ℓ → T.label n = some ℓ
  root : T₀.label p = some (.root p)
  user : ∀ {m d}, frames m = some d → 2 ^ 18 ≤ m ∧ m < 2 ^ 35
  frame : ∀ {m d}, frames m = some d → d ≠ 0 ∧ IsFrame d ∧ d.toNat / 4096 ∉ spare s.pmm ∧ T.label d = none
  inj : ∀ {m m' d}, frames m = some d → frames m' = some d → m = m'
  mapped : ∀ {m d}, frames m = some d → Radix.lookup (slot s.mem) p (path (pageAddr m)) = some (d, [])
  bytes : ∀ {m d i}, frames m = some d → i < 4096 → s.mem (d.toNat + i) = bytes (m * 4096 + i)
  others : ∀ {q w}, T₀.label q = some (.root q) → (∀ m, frames m ≠ none → ¬ L.SamePage p (pageAddr m) q w) →
    Radix.lookup (slot s.mem) q (path w) = Radix.lookup (slot s₀.mem) q (path w)
  reached : ∀ {m d}, frames m = some d → UserPage s.mem p (pageAddr m)
  links : ∀ {n ℓ i}, T₀.label n = some ℓ → 0 < ℓ.rank →
    LinkStep pteUser (readEntry s₀.mem n i) (readEntry s.mem n i)

def Layout.tablesOf (L : Layout) (p : UInt64) (pages : List Nat) : Finset Label :=
  pages.toFinset.biUnion fun m => L.names (.root p) (tablePath (pageAddr m))

/-- How many tables and frames there are when all of `pages` have been mapped, one after the other. -/
def Layout.need (L : Layout) (T₀ : TableMap) (p : UInt64) (pages : List Nat) : Nat :=
  (T₀.names ∪ L.tablesOf p pages).card + pages.length

/-- Where no request has failed, exactly `pages` are mapped and exactly their tables exist. -/
structure Accounts (L : Layout) (s₀ : Vmm α) (T₀ : TableMap) (p : UInt64) (s : Vmm α) (T : TableMap)
    (frames : Nat → Option UInt64) (pages : List Nat) : Prop where
  support : ∀ {m}, frames m ≠ none ↔ m ∈ pages
  names : T.names = T₀.names ∪ L.tablesOf p pages
  count : (spare s.pmm).encard + L.need T₀ p pages = (spare s₀.pmm).encard + T₀.names.card

/-- Where a request has failed: the pages `done` are mapped, and for `next` there were too few frames. -/
structure Stopped (L : Layout) (s₀ : Vmm α) (T₀ : TableMap) (p : UInt64) (frames : Nat → Option UInt64)
    (done next : List Nat) :
    Prop where
  support : ∀ {m}, frames m ≠ none ↔ m ∈ done
  enough : L.need T₀ p done ≤ (spare s₀.pmm).encard + T₀.names.card
  short : (spare s₀.pmm).encard + T₀.names.card < L.need T₀ p next

/-- After `pages` there is a frame left for one page more, if not for its tables. -/
def FrameLeft (L : Layout) (s₀ : Vmm α) (T₀ : TableMap) (p : UInt64) (pages : List Nat) : Prop :=
  (L.need T₀ p pages : ℕ∞) < (spare s₀.pmm).encard + T₀.names.card

variable {L : Layout} {s₀ s : Vmm α} {T₀ T : TableMap} {p : UInt64} {frames : Nat → Option UInt64}
  {bytes : Nat → UInt8}

theorem Accounts.frameLeft_iff {pages : List Nat} (h : Accounts L s₀ T₀ p s T frames pages) :
    FrameLeft L s₀ T₀ p pages ↔ spare s.pmm ≠ ∅ := by
  rw [FrameLeft, ← h.count, ne_eq, ← Set.encard_eq_zero]
  constructor
  · intro hlt hz
    rw [hz, zero_add] at hlt
    exact lt_irrefl _ hlt
  · intro hne
    have hpos : 0 < (spare s.pmm).encard := pos_iff_ne_zero.mpr hne
    calc (L.need T₀ p pages : ℕ∞) = 0 + L.need T₀ p pages := (zero_add _).symm
      _ < (spare s.pmm).encard + L.need T₀ p pages := (ENat.add_lt_add_iff_right (ENat.natCast_ne_top _)).mpr hpos

theorem Accounts.stopped {pages next : List Nat} (h : Accounts L s₀ T₀ p s T frames pages)
    (hlt : (spare s₀.pmm).encard + T₀.names.card < L.need T₀ p next) : Stopped L s₀ T₀ p frames pages next :=
  ⟨h.support, h.count ▸ le_add_self, hlt⟩

theorem Layout.tablesOf_append (L : Layout) (p : UInt64) (pages : List Nat) (m : Nat) :
    L.tablesOf p (pages ++ [m]) = L.tablesOf p pages ∪ L.names (.root p) (tablePath (pageAddr m)) := by
  simp [Layout.tablesOf, Finset.union_comm]

theorem Stopped.missing {pages : List Nat} {m : Nat} (h : Stopped L s₀ T₀ p frames pages (pages ++ [m]))
    (hleft : FrameLeft L s₀ T₀ p pages) :
    ¬ L.names (.root p) (tablePath (pageAddr m)) ⊆ T₀.names ∪ L.tablesOf p pages := by
  intro hsub
  have hneed : L.need T₀ p (pages ++ [m]) = L.need T₀ p pages + 1 := by
    rw [Layout.need, Layout.need, L.tablesOf_append, ← Finset.union_assoc, Finset.union_eq_left.mpr hsub,
      List.length_append, List.length_singleton, Nat.add_assoc]
  have hshort := h.short
  rw [hneed, Nat.cast_add, Nat.cast_one] at hshort
  exact (Order.add_one_le_of_lt hleft).not_gt hshort

theorem Stopped.not_mem {pages : List Nat} {m : Nat} (h : Stopped L s₀ T₀ p frames pages (pages ++ [m]))
    (hleft : FrameLeft L s₀ T₀ p pages) : m ∉ pages := fun hm =>
  h.missing hleft <| Finset.Subset.trans
    (Finset.subset_biUnion_of_mem (fun m => L.names (.root p) (tablePath (pageAddr m))) (List.mem_toFinset.mpr hm))
    Finset.subset_union_right

theorem Layout.card_names (L : Layout) : ∀ (is : List (Fin 512)) (ℓ : Label), (L.names ℓ is).card ≤ is.length
  | [], _ => Nat.le_refl 0
  | _ :: is, _ => (Finset.card_insert_le ..).trans (Nat.add_le_add_right (L.card_names is _) 1)

theorem Layout.need_le (L : Layout) (T₀ : TableMap) (p : UInt64) (pages : List Nat) :
    L.need T₀ p pages ≤ T₀.names.card + 4 * pages.length := by
  have h1 : (L.tablesOf p pages).card ≤ pages.toFinset.card * 3 :=
    Finset.card_biUnion_le_card_mul _ _ _ fun m _ => L.card_names (tablePath (pageAddr m)) (.root p)
  have h2 := List.toFinset_card_le pages
  have h3 := Finset.card_union_le T₀.names (L.tablesOf p pages)
  unfold Layout.need
  omega

theorem Loading.start (h : Tabled L s T) (hp : T.label p = some (.root p)) (bytes : Nat → UInt8) :
    Loading L s T p s T (fun _ => none) bytes where
  tabled := h
  mono := id
  root := hp
  user hm := by cases hm
  frame hm := by cases hm
  inj hm := by cases hm
  mapped hm := by cases hm
  bytes hm := by cases hm
  others _ _ := rfl
  reached hm := by cases hm
  links _ _ := .keep

theorem Accounts.start : Accounts L s T p s T (fun _ => none) [] where
  support := by simp
  names := by simp [Layout.tablesOf]
  count := by simp [Layout.need, Layout.tablesOf]

/-- No huge page lies on the way to a user page. -/
theorem user_plain (hL : ∀ ℓ, L.huge ℓ → ℓ.path = [0, 0]) {m : Nat} (hm : 2 ^ 18 ≤ m ∧ m < 2 ^ 35) :
    ∀ ℓ ∈ insert (.root p) (L.names (.root p) (tablePath (pageAddr m))), ¬ L.huge ℓ := by
  intro ℓ hℓ hhuge
  have hpath := hL ℓ hhuge
  have hne : ¬ ((splitVaddr (pageAddr m)).pml4I = 0 ∧ (splitVaddr (pageAddr m)).pdptI = 0) := by
    rintro ⟨h1, h2⟩
    have k1 := congrArg Fin.val h1
    have k2 := congrArg Fin.val h2
    rw [splitVaddr, tableIndex_val (by decide), toNat_pageAddr (by omega)] at k1 k2
    simp at k1 k2
    omega
  simp only [tablePath, Layout.names, Finset.mem_insert, Finset.notMem_empty, or_false] at hℓ
  rcases hℓ with rfl | rfl | rfl | rfl
  · simp [Label.root] at hpath
  · simp [Layout.next_path, Label.root] at hpath
  · simp only [Layout.next_path, Label.root, List.nil_append, List.cons_append, List.cons.injEq, and_true] at hpath
    exact hne hpath
  · simp [Layout.next_path, Label.root] at hpath

theorem samePage_pageAddr {m n : Nat} (hm : m < 2 ^ 35) (hn : n < 2 ^ 35) :
    L.SamePage p (pageAddr m) p (pageAddr n) ↔ m = n := by
  rw [Layout.SamePage, ← path_eq_iff, path_pageAddr_inj hm hn]
  exact and_iff_left rfl

/-! ## One page -/

theorem Tabled.take_page (h : Tabled L s T) {d : UInt64} {pmm : α} (ha : allocPage s.pmm = (d, pmm)) (hd : d ≠ 0) :
    let s₁ : Vmm α := ⟨zeroMemory s.mem d.toNat 4096, pmm⟩
    Tabled L s₁ T ∧ SameLookups T s.mem s₁.mem ∧ IsFrame d ∧ T.label d = none ∧ d.toNat / 4096 ∈ spare s.pmm ∧
      spare pmm = spare s.pmm \ {d.toNat / 4096} ∧
      ∀ {n ℓ i}, T.label n = some ℓ → readEntry s₁.mem n i = readEntry s.mem n i := by
  intro s₁
  have hmem (x : Nat) (hx : x < d.toNat ∨ d.toNat + 4096 ≤ x) : zeroMemory s.mem d.toNat 4096 x = s.mem x := by
    rw [zeroMemory_apply, if_neg (by omega)]
  obtain ⟨htab, hsame, hdF, hdT, hdsp, hsp⟩ := h.alloc_data ha hd (zeroMemory s.mem d.toNat 4096) hmem
  exact ⟨htab, hsame, hdF, hdT, hdsp, hsp, fun hn => h.entries_of_frame hdF hdT hmem hn⟩

variable {s' : Vmm α} {T' : TableMap} {m m' : Nat} {d d' flags pa : UInt64} {pmm : α} {pages : List Nat}

theorem Loading.old_frame (h : Loading L s₀ T₀ p s T frames bytes) (ha : allocPage s.pmm = (d, pmm)) (hd : d ≠ 0)
    (hx : Extends L ⟨zeroMemory s.mem d.toNat 4096, pmm⟩ T s' T') (hf : frames m' = some d') :
    d' ≠ d ∧ d'.toNat / 4096 ∉ spare s'.pmm ∧ T'.label d' = none ∧
      ∀ i < 4096, s'.mem (d'.toNat + i) = s.mem (d'.toNat + i) := by
  obtain ⟨-, -, hdF, -, hdsp, hsp, -⟩ := h.tabled.take_page ha hd
  obtain ⟨-, k2, k3, k4⟩ := h.frame hf
  have hne : d' ≠ d := by rintro rfl; exact k3 hdsp
  have hapart := k2.apart hdF hne
  have hnone : T'.label d' = none := by
    cases hl : T'.label d' with
    | none => rfl
    | some ℓ =>
      have := hx.fresh hl k4
      rw [hsp] at this
      exact absurd this.1 k3
  refine ⟨hne, fun hc => k3 (by have := (hx.left.mp hc).1; rw [hsp] at this; exact this.1), hnone, fun i hi => ?_⟩
  refine (hx.mem fun n ℓ hn => ?_).trans ((zeroMemory_apply ..).trans (if_neg (by omega)))
  have htable := hx.tabled.apart hn k2 hnone
  omega

theorem Loading.page_links (h : Loading L s₀ T₀ p s T frames bytes) (ha : allocPage s.pmm = (d, pmm)) (hd : d ≠ 0)
    {n : UInt64} {ℓ : Label} {i : Fin 512} (hn : T₀.label n = some ℓ) (hr : 0 < ℓ.rank) :
    LinkStep pteUser (readEntry s₀.mem n i)
      (readEntry (vmmMapPage ⟨zeroMemory s.mem d.toNat 4096, pmm⟩ p (pageAddr m) pa flags).mem n i) := by
  obtain ⟨htab, -, -, -, -, -, hentries⟩ := h.tabled.take_page ha hd
  obtain ⟨hlinks, -⟩ := vmmMapPage_granted htab (h.mono h.root) (pageAddr m) pa flags
  have hstep := (hlinks (i := i) (h.mono hn) hr).to_user
  rw [hentries (h.mono hn)] at hstep
  exact (h.links hn hr).trans hstep

theorem Loading.page_reached (h : Loading L s₀ T₀ p s T frames bytes) (ha : allocPage s.pmm = (d, pmm)) (hd : d ≠ 0)
    (hf : frames m' = some d') (hne : (mapTables ⟨zeroMemory s.mem d.toNat 4096, pmm⟩ p (pageAddr m) flags).1 = 0 ∨
      ¬ L.SamePage p (pageAddr m) p (pageAddr m')) :
    UserPage (vmmMapPage ⟨zeroMemory s.mem d.toNat 4096, pmm⟩ p (pageAddr m) pa flags).mem p (pageAddr m') := by
  obtain ⟨htab, -, -, -, -, -, hentries⟩ := h.tabled.take_page ha hd
  obtain ⟨-, hkept, -⟩ := vmmMapPage_granted htab (h.mono h.root) (pageAddr m) pa flags
  obtain ⟨flags', hf', hg⟩ := (h.reached hf).of_entries h.tabled (h.mono h.root) hentries
  exact ⟨flags', hf', hkept (h.mono h.root) hne hg⟩

/-- A page that could not be mapped for lack of a table changes nothing. -/
theorem Loading.page_missed (h : Loading L s₀ T₀ p s T frames bytes) (ha : allocPage s.pmm = (d, pmm)) (hd : d ≠ 0)
    (hx : Extends L ⟨zeroMemory s.mem d.toNat 4096,
      pmm⟩ T (vmmMapPage ⟨zeroMemory s.mem d.toNat 4096, pmm⟩ p (pageAddr m) pa flags) T')
    (h0 : (mapTables ⟨zeroMemory s.mem d.toNat 4096, pmm⟩ p (pageAddr m) flags).1 = 0)
    (hsame : SameLookups T (zeroMemory s.mem d.toNat 4096)
      (vmmMapPage ⟨zeroMemory s.mem d.toNat 4096, pmm⟩ p (pageAddr m) pa flags).mem) :
    Loading L s₀ T₀ p (vmmMapPage ⟨zeroMemory s.mem d.toNat 4096, pmm⟩ p (pageAddr m) pa flags) T'
      frames bytes := by
  obtain ⟨-, hzero, -⟩ := h.tabled.take_page ha hd
  have hlook {q w : UInt64} (hq : T.label q = some (.root q)) :
      Radix.lookup (slot (vmmMapPage ⟨zeroMemory s.mem d.toNat 4096, pmm⟩ p (pageAddr m) pa flags).mem) q (path w) =
        Radix.lookup (slot s.mem) q (path w) := (hsame hq rfl).trans (hzero hq rfl)
  refine ⟨hx.tabled, fun hn => hx.mono (h.mono hn), h.root, h.user, fun hf => ?_, h.inj, fun hf => ?_,
    fun hf hi => ?_, fun hq hw => ?_, fun hf => h.page_reached ha hd hf (Or.inl h0), h.page_links ha hd⟩
  · obtain ⟨-, k1, k2, -⟩ := h.old_frame ha hd hx hf
    exact ⟨(h.frame hf).1, (h.frame hf).2.1, k1, k2⟩
  · rw [hlook (h.mono h.root)]
    exact h.mapped hf
  · rw [(h.old_frame ha hd hx hf).2.2.2 _ hi]
    exact h.bytes hf hi
  · rw [hlook (h.mono hq)]
    exact h.others hq hw

theorem update_eq_some (hf : Function.update frames m (some d) m' = some d') :
    m' = m ∧ d' = d ∨ m' ≠ m ∧ frames m' = some d' := by
  by_cases hmm : m' = m
  · rw [hmm, Function.update_self] at hf
    exact Or.inl ⟨hmm, (Option.some.inj hf).symm⟩
  · rw [Function.update_of_ne hmm] at hf
    exact Or.inr ⟨hmm, hf⟩

theorem Loading.page_mapped (h : Loading L s₀ T₀ p s T frames bytes) (hm : 2 ^ 18 ≤ m ∧ m < 2 ^ 35)
    (ha : allocPage s.pmm = (d, pmm)) (hd : d ≠ 0) (huser : flags &&& pteUser ≠ 0)
    (hx : Extends L ⟨zeroMemory s.mem d.toNat 4096,
      pmm⟩ T (vmmMapPage ⟨zeroMemory s.mem d.toNat 4096, pmm⟩ p (pageAddr m) d flags) T')
    (h0 : (mapTables ⟨zeroMemory s.mem d.toNat 4096, pmm⟩ p (pageAddr m) flags).1 ≠ 0)
    (hset : ∀ {q w}, T.label q = some (.root q) →
      Radix.lookup (slot (vmmMapPage ⟨zeroMemory s.mem d.toNat 4096, pmm⟩ p (pageAddr m) d flags).mem) q (path w) =
        if L.SamePage p (pageAddr m) q w then some (d &&& pteAddrMask, [])
        else Radix.lookup (slot (zeroMemory s.mem d.toNat 4096)) q (path w)) :
    Loading L s₀ T₀ p (vmmMapPage ⟨zeroMemory s.mem d.toNat 4096, pmm⟩ p (pageAddr m) d flags) T'
      (Function.update frames m (some d)) (fun v => if v / 4096 = m then 0 else bytes v) := by
  have hp := h.mono h.root
  obtain ⟨htab, hzero, hdF, hdT, -, hsp, -⟩ := h.tabled.take_page ha hd
  obtain ⟨-, -, hnew⟩ := vmmMapPage_granted htab hp (pageAddr m) d flags
  have hdnot : d.toNat / 4096 ∉ spare pmm := by rw [hsp]; exact fun hc => hc.2 rfl
  have hdnone : T'.label d = none := by
    cases hl : T'.label d with
    | none => rfl
    | some ℓ => exact absurd (hx.fresh hl hdT) hdnot
  have hlook {q w : UInt64} (hq : T.label q = some (.root q)) (hne : ¬ L.SamePage p (pageAddr m) q w) :
      Radix.lookup (slot (vmmMapPage ⟨zeroMemory s.mem d.toNat 4096, pmm⟩ p (pageAddr m) d flags).mem) q (path w) =
        Radix.lookup (slot s.mem) q (path w) := by
    rw [hset hq, if_neg hne]
    exact hzero hq rfl
  have hapart {m' : Nat} {d' : UInt64} (hne : m' ≠ m) (hf : frames m' = some d') : ¬ L.SamePage p (pageAddr m) p
      (pageAddr m') :=
    fun hc => hne ((samePage_pageAddr hm.2 (h.user hf).2).mp hc).symm
  refine ⟨hx.tabled, fun hn => hx.mono (h.mono hn), h.root, ?_, ?_, ?_, ?_, ?_, ?_, ?_, h.page_links ha hd⟩
  · intro m' d' hf
    rcases update_eq_some hf with ⟨rfl, -⟩ | ⟨-, hf⟩
    · exact hm
    · exact h.user hf
  · intro m' d' hf
    rcases update_eq_some hf with ⟨-, rfl⟩ | ⟨-, hf⟩
    · exact ⟨hd, hdF, fun hc => hdnot (hx.left.mp hc).1, hdnone⟩
    · obtain ⟨-, k1, k2, -⟩ := h.old_frame ha hd hx hf
      exact ⟨(h.frame hf).1, (h.frame hf).2.1, k1, k2⟩
  · intro m₁ m₂ d' h1 h2
    rcases update_eq_some h1 with ⟨k1, k2⟩ | ⟨-, h1⟩ <;> rcases update_eq_some h2 with ⟨k3, k4⟩ | ⟨-, h2⟩
    · rw [k1, k3]
    · exact absurd k2 (h.old_frame ha hd hx h2).1
    · exact absurd k4 (h.old_frame ha hd hx h1).1
    · exact h.inj h1 h2
  · intro m' d' hf
    rcases update_eq_some hf with ⟨rfl, rfl⟩ | ⟨hne, hf⟩
    · rw [hset hp, if_pos ((samePage_pageAddr hm.2 hm.2).mpr rfl)]
      rw [show d' &&& pteAddrMask = d' from hdF]
    · rw [hlook hp (hapart hne hf)]
      exact h.mapped hf
  · intro m' d' i hf hi
    rcases update_eq_some hf with ⟨rfl, rfl⟩ | ⟨hne, hf⟩
    · rw [if_pos (by omega)]
      refine (hx.mem fun n ℓ hn => ?_).trans ((zeroMemory_apply ..).trans (if_pos (by omega)))
      have htable := hx.tabled.apart hn hdF hdnone
      omega
    · rw [(h.old_frame ha hd hx hf).2.2.2 _ hi, if_neg (by omega)]
      exact h.bytes hf hi
  · intro q w hq hw
    have hwm : ¬ L.SamePage p (pageAddr m) q w := hw m (by rw [Function.update_self]; simp)
    rw [hlook (h.mono hq) hwm]
    refine h.others hq fun m' hm' => ?_
    by_cases hmm : m' = m
    · exact hmm ▸ hwm
    · exact hw m' (by rwa [Function.update_of_ne hmm])
  · intro m' d' hf
    rcases update_eq_some hf with ⟨rfl, -⟩ | ⟨hne, hf⟩
    · exact ⟨flags, huser, hnew h0⟩
    · exact h.page_reached ha hd hf (Or.inr (hapart hne hf))

/-- What a page costs: its frame, and the tables that are new. -/
theorem Accounts.page (hacc : Accounts L s₀ T₀ p s T frames pages) (h : Tabled L s T)
    (ha : allocPage s.pmm = (d, pmm)) (hd : d ≠ 0) (hx : Extends L ⟨zeroMemory s.mem d.toNat 4096, pmm⟩ T s' T')
    (hnames : T'.names = T.names ∪ L.names (.root p) (tablePath (pageAddr m))) :
    Accounts L s₀ T₀ p s' T' (Function.update frames m (some d)) (pages ++ [m]) := by
  obtain ⟨-, -, -, -, hdsp, hsp, -⟩ := h.take_page ha hd
  have hcount₁ : (spare pmm).encard + 1 = (spare s.pmm).encard := by
    rw [hsp]
    exact Set.encard_sdiff_singleton_add_one hdsp
  have hcount : (spare s'.pmm).encard + (T'.names.card + (pages ++ [m]).length : Nat) =
      (spare s₀.pmm).encard + T₀.names.card := by
    rw [← hacc.count, Layout.need, ← hacc.names, ← hcount₁, List.length_append, List.length_singleton]
    push_cast
    rw [← add_assoc, hx.count]
    ring
  refine ⟨?_, ?_, ?_⟩
  · intro m'
    rw [List.mem_append, List.mem_singleton, ← hacc.support]
    by_cases hmm : m' = m
    · simp [hmm]
    · simp [hmm]
  · rw [hnames, hacc.names, L.tablesOf_append, Finset.union_assoc]
  · rw [← hcount, Layout.need, L.tablesOf_append, ← Finset.union_assoc, ← hacc.names, hnames]

theorem Accounts.page_short (hacc : Accounts L s₀ T₀ p s T frames pages) (h : Tabled L s T)
    (ha : allocPage s.pmm = (d, pmm)) (hd : d ≠ 0)
    (hshort : (spare pmm).encard + T.names.card <
      ((T.names ∪ L.names (.root p) (tablePath (pageAddr m))).card : ℕ∞)) :
    (spare s₀.pmm).encard + T₀.names.card < L.need T₀ p (pages ++ [m]) := by
  obtain ⟨-, -, -, -, hdsp, hsp, -⟩ := h.take_page ha hd
  have hcount₁ : (spare pmm).encard + 1 = (spare s.pmm).encard := by
    rw [hsp]
    exact Set.encard_sdiff_singleton_add_one hdsp
  rw [← hacc.count, Layout.need, Layout.need, L.tablesOf_append, ← Finset.union_assoc, ← hacc.names, ← hcount₁,
    List.length_append, List.length_singleton]
  push_cast
  calc (spare pmm).encard + 1 + ((T.names.card : ℕ∞) + pages.length) =
    (spare pmm).encard + T.names.card + (pages.length + 1) := by ring
    _ < _ := (ENat.add_lt_add_iff_right (by exact_mod_cast ENat.natCast_ne_top (pages.length + 1))).mpr hshort

end

section
variable {α : Type} [PageAllocator α] [CompletePageAllocator α] {L : Layout} {s₀ s : Vmm α}
  {T₀ T : TableMap} {p : UInt64} {frames : Nat → Option UInt64} {bytes : Nat → UInt8} {pages : List Nat}

theorem alloc_of_spare_eq {a : α} (hv : Valid a) (h : spare a = ∅) : (allocPage a).1 = 0 := by
  obtain ⟨-, ⟨h0, -⟩ | ⟨f, hf, -⟩⟩ := alloc hv
  · exact h0
  · rw [h] at hf
    cases hf

/-- **`vmm_map_page`** on a page above the first GiB: its tables exist afterwards, or the frames did not
suffice for them. -/
theorem Tabled.map_user (h : Tabled L s T) (hp : T.label p = some (.root p))
    (hL : ∀ ℓ, L.huge ℓ → ℓ.path = [0, 0]) {m : Nat} (hm : 2 ^ 18 ≤ m ∧ m < 2 ^ 35) (pa : UInt64)
    {flags : UInt64} (hflags : flags &&& pteAddrMask = 0) :
    let s' := vmmMapPage s p (pageAddr m) pa flags
    let tables := L.names (.root p) (tablePath (pageAddr m))
    ∃ T', Extends L s T s' T' ∧
      ((mapTables s p (pageAddr m) flags).1 = 0 ∧ SameLookups T s.mem s'.mem ∧ OutOfFrames s'.pmm ∧
      T'.names ⊆ T.names ∪ tables ∧
          ¬ tables ⊆ T'.names ∧ Radix.lookup (slot s'.mem) p (path (pageAddr m)) = none ∧
          (spare s.pmm).encard + T.names.card < ((T.names ∪ tables).card : ℕ∞) ∨
        (mapTables s p (pageAddr m) flags).1 ≠ 0 ∧ T'.names = T.names ∪ tables ∧
          ((T.names ∪ tables).card : ℕ∞) ≤ (spare s.pmm).encard + T.names.card ∧
          ∀ {q w}, T.label q = some (.root q) → Radix.lookup (slot s'.mem) q (path w) =
            if L.SamePage p (pageAddr m) q w then some (pa &&& pteAddrMask, [])
            else Radix.lookup (slot s.mem) q (path w)) := by
  intro s' tables
  rcases vmmMapPage_spec h hp (pageAddr m) pa hflags with
    ⟨h0, T', hx, hsame, hsub, hmiss, hwhy⟩ | ⟨h0, T', hx, hnames, hset⟩
  · have hout : OutOfFrames s'.pmm := by
      cases hwhy with
      | inl hwhy => exact hwhy
      | inr hwhy =>
        obtain ⟨ℓ, hℓ, hhuge⟩ := hwhy
        exact absurd hhuge (user_plain hL hm ℓ hℓ)
    refine ⟨T', hx, Or.inl ⟨h0, hsame, hout, hsub, hmiss, ?_, ?_⟩⟩
    · exact hx.tabled.lookup_eq_none (tablePath (pageAddr m)) (hx.mono hp) rfl (user_plain hL hm) hmiss
    · -- every frame is used, and still a table does not exist
      rw [← hx.count, hout.spare_eq, Set.encard_empty, zero_add]
      exact Nat.cast_lt.mpr (Finset.card_lt_card ⟨hsub, fun hc => hmiss (Finset.subset_union_right.trans hc)⟩)
  · refine ⟨T', hx, Or.inr ⟨h0, hnames, ?_, hset⟩⟩
    rw [← hx.count, hnames]
    exact le_add_self

/-- **One page**: a fresh zero frame is mapped, or a table was missing and no frame is left. -/
theorem Loading.page (h : Loading L s₀ T₀ p s T frames bytes) (pages : List Nat)
    (hL : ∀ ℓ, L.huge ℓ → ℓ.path = [0, 0]) {m : Nat} (hm : 2 ^ 18 ≤ m ∧ m < 2 ^ 35) {d : UInt64} {pmm : α}
    (ha : allocPage s.pmm = (d, pmm)) (hd : d ≠ 0) {flags : UInt64} (hflags : flags &&& pteAddrMask = 0)
    (huser : flags &&& pteUser ≠ 0) :
    let s' := vmmMapPage ⟨zeroMemory s.mem d.toNat 4096, pmm⟩ p (pageAddr m) d flags
    ∃ T', (Loading L s₀ T₀ p s' T' (Function.update frames m (some d))
      (fun v => if v / 4096 = m then 0 else bytes v) ∧
        (Accounts L s₀ T₀ p s T frames pages →
          Accounts L s₀ T₀ p s' T' (Function.update frames m (some d)) (pages ++ [m]))) ∨
      (Loading L s₀ T₀ p s' T' frames bytes ∧ Radix.lookup (slot s'.mem) p (path (pageAddr m)) = none ∧
      OutOfFrames s'.pmm ∧
        (Accounts L s₀ T₀ p s T frames pages →
          (spare s₀.pmm).encard + T₀.names.card < L.need T₀ p (pages ++ [m]))) := by
  intro s'
  obtain ⟨htab, -⟩ := h.tabled.take_page ha hd
  obtain ⟨T', hx, ⟨h0, hsame, hout, -, -, hnone, hshort⟩ | ⟨h0, hnames, -, hset⟩⟩ :=
    htab.map_user (h.mono h.root) hL hm d hflags
  · exact ⟨T',
      Or.inr ⟨h.page_missed ha hd hx h0 hsame, hnone, hout, fun hacc => hacc.page_short h.tabled ha hd hshort⟩⟩
  · exact ⟨T', Or.inl ⟨h.page_mapped hm ha hd huser hx h0 hset, fun hacc => hacc.page h.tabled ha hd hx hnames⟩⟩

/-! ## Segments -/

theorem pageAddr_succ {m : Nat} (hm : m < 2 ^ 35) : pageAddr m + pageSize = pageAddr (m + 1) := by
  rw [← UInt64.toNat_inj, toNat_pageAddr (by omega), toNat_add_of_lt, toNat_pageAddr (by omega), pageSize_toNat]
  · omega
  · rw [toNat_pageAddr (by omega), pageSize_toNat]
    omega

theorem Loading.pmm (h : Loading L s₀ T₀ p s T frames bytes) {a : UInt64} {pmm : α}
    (ha : allocPage s.pmm = (a, pmm)) (h0 : a = 0) :
    Loading L s₀ T₀ p { s with pmm } T frames bytes ∧ spare pmm = spare s.pmm := by
  have hz : spare s.pmm = ∅ := alloc_zero h.tabled.valid (by rw [ha]; exact h0)
  obtain ⟨hv, ⟨-, h2⟩ | ⟨f, hf, -⟩⟩ := alloc h.tabled.valid
  · rw [ha] at h2 hv
    refine ⟨⟨(h.tabled.pmm hv h2).tabled, h.mono, h.root, h.user, fun hf => ?_, h.inj, h.mapped, h.bytes, h.others,
      h.reached, h.links⟩, h2⟩
    obtain ⟨k1, k2, k3, k4⟩ := h.frame hf
    exact ⟨k1, k2, h2.symm ▸ k3, k4⟩
  · rw [hz] at hf
    cases hf

theorem Accounts.need_lt (h : Accounts L s₀ T₀ p s T frames pages) (hz : spare s.pmm = ∅) (m : Nat) :
    (spare s₀.pmm).encard + T₀.names.card < L.need T₀ p (pages ++ [m]) := by
  rw [← h.count, hz, Set.encard_empty, zero_add, Layout.need, Layout.need, L.tablesOf_append, ← Finset.union_assoc,
    List.length_append, List.length_singleton]
  refine Nat.cast_lt.mpr ?_
  have := Finset.card_le_card
    (show T₀.names ∪ L.tablesOf p pages ⊆
      T₀.names ∪ L.tablesOf p pages ∪ L.names (.root p) (tablePath (pageAddr m)) from Finset.subset_union_left)
  omega

omit [CompletePageAllocator α] in
/-- The frames that the page loop of a segment takes for the pages themselves. -/
def segmentFrames (pml4Phys flags : UInt64) : Nat → UInt64 → Vmm α → List UInt64
  | 0, _, _ => []
  | n + 1, address, s =>
    let (pagePhys, pmm) := allocPage s.pmm
    if pagePhys = 0 then []
    else
      pagePhys :: segmentFrames pml4Phys flags n (address + pageSize)
        (vmmMapPage { mem := zeroMemory s.mem pagePhys.toNat 4096, pmm } pml4Phys address pagePhys flags)

/-- What the page loop of a segment did with the pages from `m` to `m + n`: they are all mapped to fresh
zero frames, or a request has failed on the way. -/
structure SegmentMapped (L : Layout) (s₀ : Vmm α) (T₀ : TableMap) (p flags : UInt64) (n m : Nat)
    (pages : List Nat) (s : Vmm α) (T : TableMap) (frames : Nat → Option UInt64) (bytes : Nat → UInt8)
    (ok : Bool) (s' : Vmm α) (T' : TableMap) (frames' : Nat → Option UInt64) (bytes' : Nat → UInt8) : Prop where
  loading : Loading L s₀ T₀ p s' T' frames' bytes'
  kept : ∀ m', frames m' ≠ none → frames' m' ≠ none
  taken : ∀ m' d, frames' m' = some d → frames m' = some d ∨ d ∈ segmentFrames p flags n (pageAddr m) s
  reached : ok = true → ∀ m', m ≤ m' → m' < m + n →
    frames' m' ≠ none ∨ Radix.lookup (slot s'.mem) p (path (pageAddr m')) = none
  outcome : (ok = true ∧ (∀ m', frames' m' ≠ none ↔ frames m' ≠ none ∨ m ≤ m' ∧ m' < m + n) ∧
      (bytes' = fun v => if m ≤ v / 4096 ∧ v / 4096 < m + n then 0 else bytes v) ∧
      (Accounts L s₀ T₀ p s T frames pages → Accounts L s₀ T₀ p s' T' frames' (pages ++ List.range' m n))) ∨
    (OutOfFrames s'.pmm ∧
      (Accounts L s₀ T₀ p s T frames pages →
        ∃ j < n, Stopped L s₀ T₀ p frames' (pages ++ List.range' m j) (pages ++ List.range' m (j + 1)) ∧
          (ok = true ↔ j + 1 = n ∧ FrameLeft L s₀ T₀ p (pages ++ List.range' m j))))

theorem SegmentMapped.nil (h : Loading L s₀ T₀ p s T frames bytes) (m : Nat) (pages : List Nat) :
    SegmentMapped L s₀ T₀ p flags 0 m pages s T frames bytes true s T frames bytes := by
  refine ⟨h, fun _ => id, fun _ _ => Or.inl, fun _ m' h1 h2 => ?_, Or.inl ⟨rfl, fun m' => ?_, ?_, fun hacc => ?_⟩⟩
  · omega
  · exact ⟨Or.inl, fun hc => hc.elim id fun hc => absurd hc.2 (by omega)⟩
  · funext v
    rw [if_neg (by omega)]
  · simpa using hacc

/-- There is no frame for the first page. -/
theorem SegmentMapped.no_frame (h : Loading L s₀ T₀ p s T frames bytes) (ha : allocPage s.pmm = (0, pmm))
    (n m : Nat) (pages : List Nat) :
    SegmentMapped L s₀ T₀ p flags (n + 1) m pages s T frames bytes false { s with pmm } T frames bytes := by
  have hz : spare s.pmm = ∅ := alloc_zero h.tabled.valid (by rw [ha])
  refine ⟨(h.pmm ha rfl).1, fun _ => id, fun _ _ => Or.inl, fun hc => ?_,
    Or.inr ⟨⟨s.pmm, h.tabled.valid, ha⟩, fun hacc => ⟨0, by omega, ?_⟩⟩⟩
  · cases hc
  · rw [List.range'_zero, List.append_nil, hacc.frameLeft_iff, hz]
    exact ⟨hacc.stopped (by simpa using hacc.need_lt hz m), by simp⟩

/-- The first page is mapped, and the loop goes on. -/
theorem SegmentMapped.cons {n : Nat} {s₁ : Vmm α} {T₁ : TableMap} {ok : Bool} {frames' : Nat → Option UInt64}
    {bytes' : Nat → UInt8}
    (hacc₁ : Accounts L s₀ T₀ p s T frames pages → Accounts L s₀ T₀ p s₁ T₁ (Function.update frames m (some d))
      (pages ++ [m]))
    (htaken : segmentFrames p flags (n + 1) (pageAddr m) s = d :: segmentFrames p flags n (pageAddr (m + 1)) s₁)
    (h : SegmentMapped L s₀ T₀ p flags n (m + 1) (pages ++ [m]) s₁ T₁ (Function.update frames m (some d))
      (fun v => if v / 4096 = m then 0 else bytes v) ok s' T' frames' bytes') :
    SegmentMapped L s₀ T₀ p flags (n + 1) m pages s T frames bytes ok s' T' frames' bytes' := by
  have hupd {m' : Nat} (hf : frames m' ≠ none) : Function.update frames m (some d) m' ≠ none := by
    by_cases hmm : m' = m
    · simp [hmm]
    · rwa [Function.update_of_ne hmm]
  have hrange (j : Nat) : (pages ++ [m]) ++ List.range' (m + 1) j = pages ++ List.range' m (j + 1) := by
    rw [List.append_assoc, List.singleton_append, List.range'_succ]
  refine ⟨h.loading, fun m' hm' => h.kept m' (hupd hm'), fun m' d' hf => ?_, fun hok m' h1 h2 => ?_, ?_⟩
  · rw [htaken, List.mem_cons]
    cases h.taken m' d' hf with
    | inr hmem => exact Or.inr (Or.inr hmem)
    | inl hf =>
      cases update_eq_some hf with
      | inl hnew => exact Or.inr (Or.inl hnew.2)
      | inr hold => exact Or.inl hold.2
  · by_cases hmm : m' = m
    · exact Or.inl (h.kept m' (by simp [hmm]))
    · exact h.reached hok m' (by omega) (by omega)
  rcases h.outcome with ⟨hok, hsup, hb, hacc'⟩ | ⟨hout, hacc'⟩
  · refine Or.inl ⟨hok, fun m' => ?_, ?_, fun hacc => hrange n ▸ hacc' (hacc₁ hacc)⟩
    · rw [hsup]
      by_cases hmm : m' = m
      · simp [hmm]
      · rw [Function.update_of_ne hmm]
        refine or_congr Iff.rfl ⟨fun hc => by omega, fun hc => by omega⟩
    · rw [hb]
      funext v
      by_cases hv : v / 4096 = m
      · rw [if_neg (by omega), if_pos hv, if_pos (by omega)]
      · rw [if_neg hv]
        exact if_congr (by omega) rfl rfl
  · refine Or.inr ⟨hout, fun hacc => ?_⟩
    obtain ⟨j, hj, hstop, hiff⟩ := hacc' (hacc₁ hacc)
    rw [hrange] at hstop hiff
    rw [hrange] at hstop
    exact ⟨j + 1, by omega, hstop, by rw [hiff, Nat.add_right_cancel_iff]⟩

/-- There is no table for the first page, which is the last one. -/
theorem SegmentMapped.no_table {s₁ : Vmm α} {T₁ : TableMap} (h : Loading L s₀ T₀ p s₁ T₁ frames bytes)
    (hspare : spare s.pmm ≠ ∅) (hnone : Radix.lookup (slot s₁.mem) p (path (pageAddr m)) = none)
    (hout : OutOfFrames s₁.pmm)
    (hneed : Accounts L s₀ T₀ p s T frames pages → (spare s₀.pmm).encard + T₀.names.card <
      L.need T₀ p (pages ++ [m])) :
    SegmentMapped L s₀ T₀ p flags 1 m pages s T frames bytes true s₁ T₁ frames bytes := by
  refine ⟨h, fun _ => id, fun _ _ => Or.inl, fun _ m' k1 k2 => ?_, Or.inr ⟨hout, fun hacc => ⟨0, by omega, ?_⟩⟩⟩
  · rw [show m' = m by omega]
    exact Or.inr hnone
  · rw [List.range'_zero, List.append_nil, hacc.frameLeft_iff]
    exact ⟨hacc.stopped (by simpa using hneed hacc), by simp [hspare]⟩

/-- There is no table for the first page, and then no frame for the next one. -/
theorem SegmentMapped.no_table_frame {s₁ : Vmm α} {T₁ : TableMap} (h : Loading L s₀ T₀ p s₁ T₁ frames bytes)
    (ha : allocPage s₁.pmm = (0, pmm))
    (hneed : Accounts L s₀ T₀ p s T frames pages → (spare s₀.pmm).encard + T₀.names.card <
      L.need T₀ p (pages ++ [m])) (n : Nat) :
    SegmentMapped L s₀ T₀ p flags (n + 2) m pages s T frames bytes false { s₁ with pmm } T₁ frames bytes := by
  refine ⟨(h.pmm ha rfl).1, fun _ => id, fun _ _ => Or.inl, fun hc => ?_,
    Or.inr ⟨⟨s₁.pmm, h.tabled.valid, ha⟩, fun hacc => ⟨0, by omega, ?_⟩⟩⟩
  · cases hc
  · rw [List.range'_zero, List.append_nil]
    exact ⟨hacc.stopped (by simpa using hneed hacc), by simp⟩

theorem Loading.mapSegment (hL : ∀ ℓ, L.huge ℓ → ℓ.path = [0, 0]) {flags : UInt64}
    (hflags : flags &&& pteAddrMask = 0) (huser : flags &&& pteUser ≠ 0) :
    ∀ (n m : Nat) (pages : List Nat) {s : Vmm α} {T : TableMap} {frames : Nat → Option UInt64}
    {bytes : Nat → UInt8},
    Loading L s₀ T₀ p s T frames bytes → 2 ^ 18 ≤ m → m + n ≤ 2 ^ 35 →
    ∃ ok s' T' frames' bytes', KernelOs.mapSegment p flags n (pageAddr m) s = (ok, s') ∧
      SegmentMapped L s₀ T₀ p flags n m pages s T frames bytes ok s' T' frames' bytes'
  | 0, m, pages, s, T, frames, bytes, h, _, _ => ⟨true, s, T, frames, bytes, rfl, .nil h m pages⟩
  | n + 1, m, pages, s, T, frames, bytes, h, hm, hmn => by
    cases halloc : allocPage s.pmm with
    | mk d pmm =>
    by_cases hd : d = 0
    · subst hd
      exact ⟨false, { s with pmm }, T, frames, bytes, by simp [KernelOs.mapSegment, halloc],
        .no_frame h halloc n m pages⟩
    have hstep : KernelOs.mapSegment p flags (n + 1) (pageAddr m) s = KernelOs.mapSegment p flags n
      (pageAddr (m + 1))
        (vmmMapPage ⟨zeroMemory s.mem d.toNat 4096, pmm⟩ p (pageAddr m) d flags) := by
      rw [KernelOs.mapSegment, halloc, ← pageAddr_succ (by omega)]
      simp only [if_neg hd]
    have htaken : segmentFrames p flags (n + 1) (pageAddr m) s = d :: segmentFrames p flags n (pageAddr (m + 1))
        (vmmMapPage ⟨zeroMemory s.mem d.toNat 4096, pmm⟩ p (pageAddr m) d flags) := by
      rw [segmentFrames, halloc, ← pageAddr_succ (by omega)]
      simp only [if_neg hd]
    obtain ⟨T₁, ⟨h₁, hacc₁⟩ | ⟨h₁, hnone, hout, hneed⟩⟩ := h.page pages hL ⟨hm, by omega⟩ halloc hd hflags huser
    · obtain ⟨ok, s', T', frames', bytes', he, hrest⟩ :=
        Loading.mapSegment hL hflags huser n (m + 1) (pages ++ [m]) h₁ (by omega) (by omega)
      exact ⟨ok, s', T', frames', bytes', hstep.trans he, .cons hacc₁ htaken hrest⟩
    · -- no frame is left: the next request, if there is one, fails
      cases n with
      | zero =>
        have hspare : spare s.pmm ≠ ∅ := fun hz => hd (by rw [← alloc_of_spare_eq h.tabled.valid hz, halloc])
        exact ⟨true, _, T₁, frames, bytes, hstep, .no_table h₁ hspare hnone hout hneed⟩
      | succ n =>
        have hzero := alloc_of_spare_eq h₁.tabled.valid hout.spare_eq
        refine ⟨false, _, T₁, frames, bytes, hstep.trans ?_, .no_table_frame h₁ (Prod.ext hzero rfl) hneed n⟩
        simp [KernelOs.mapSegment, hzero]

theorem toNat_frame_or {d v : UInt64} (hd : IsFrame d) :
    (d ||| (v &&& 0xFFF)).toNat = d.toNat + v.toNat % 4096 := by
  obtain ⟨k, hk⟩ := Nat.dvd_of_mod_eq_zero (isFrame_iff.mp hd).1
  have hand : (v &&& 0xFFF).toNat = v.toNat % 2 ^ 12 := by
    rw [UInt64.toNat_and, show (0xFFF : UInt64).toNat = 2 ^ 12 - 1 by decide, Nat.and_two_pow_sub_one_eq_mod]
  rw [UInt64.toNat_or, hand, hk, show (4096 : Nat) = 2 ^ 12 by decide,
    Nat.two_pow_add_eq_or_of_lt (Nat.mod_lt _ (by decide))]

theorem Loading.translate (h : Loading L s₀ T₀ p s T frames bytes) {v d : UInt64}
    (hd : frames (v.toNat / 4096) = some d) :
    (vmmTranslate s.mem p v).toNat = d.toNat + v.toNat % 4096 ∧ vmmTranslate s.mem p v ≠ 0 ∧
      s.mem (vmmTranslate s.mem p v).toNat = bytes v.toNat := by
  have hlook := h.mapped hd
  rw [path_pageAddr] at hlook
  obtain ⟨hd0, hdF, -, -⟩ := h.frame hd
  have htr : vmmTranslate s.mem p v = d ||| (v &&& 0xFFF) := by
    rw [vmmTranslate_eq, hlook, Option.elim_some, List.length_nil, pageOffset_zero]
  rw [htr, toNat_frame_or hdF]
  refine ⟨rfl, fun h0 => hd0 ?_, ?_⟩
  · have := toNat_frame_or (v := v) hdF
    rw [h0] at this
    rw [eq_zero_iff_toNat]
    simp at this
    omega
  · rw [h.bytes hd (Nat.mod_lt _ (by decide)), Nat.div_add_mod']

theorem Loading.copy (h : Loading L s₀ T₀ p s T frames bytes) {m : Nat} {d : UInt64} (hd : frames m = some d)
    (data : Memory) (o : Nat) {i n : Nat} (hi : i + n ≤ 4096) :
    Loading L s₀ T₀ p { s with mem := copyMemory s.mem (d.toNat + i) data o n } T frames
      (fun v => if m * 4096 + i ≤ v ∧ v < m * 4096 + i + n then data (o + (v - (m * 4096 + i))) else bytes v) ∧
    ∀ {w}, Radix.lookup (slot (copyMemory s.mem (d.toNat + i) data o n)) p (path w) =
    Radix.lookup (slot s.mem) p (path w) := by
  obtain ⟨htab, hsame⟩ := h.tabled.other { s with mem := copyMemory s.mem (d.toNat + i) data o n } h.tabled.valid
    (Set.Subset.refl _) fun {n' ℓ x} hn h1 h2 => by
      have htable := h.tabled.apart hn (h.frame hd).2.1 (h.frame hd).2.2.2
      exact (copyMemory_apply ..).trans (if_neg (by omega))
  have hlook {w : UInt64} : Radix.lookup (slot (copyMemory s.mem (d.toNat + i) data o n)) p (path w) =
      Radix.lookup (slot s.mem) p (path w) := hsame (h.mono h.root) rfl
  have hentries {n' : UInt64} {ℓ : Label} {j : Fin 512} (hn : T.label n' = some ℓ) :
      readEntry (copyMemory s.mem (d.toNat + i) data o n) n' j = readEntry s.mem n' j :=
    h.tabled.entries_of_frame (h.frame hd).2.1 (h.frame hd).2.2.2
      (fun x hx => (copyMemory_apply ..).trans (if_neg (by omega))) hn
  refine ⟨⟨htab, h.mono, h.root, h.user, h.frame, h.inj, fun hf => ?_, fun {m' d' j} hf hj => ?_, fun hq hw => ?_,
    fun hf => (h.reached hf).of_entries h.tabled (h.mono h.root) hentries, fun hn hr => ?_⟩, hlook⟩
  · exact hlook.trans (h.mapped hf)
  · refine (copyMemory_apply ..).trans ?_
    by_cases hmm : m' = m
    · subst hmm
      obtain rfl := Option.some.inj (hf.symm.trans hd)
      by_cases hin : i ≤ j ∧ j < i + n
      · rw [if_pos (by omega), if_pos (by omega)]
        congr 1
        omega
      · rw [if_neg (by omega), if_neg (by omega)]
        exact h.bytes hf hj
    · have hapart := (h.frame hf).2.1.apart (h.frame hd).2.1 fun hc => hmm (h.inj (hc ▸ hf) hd)
      rw [if_neg (by omega), if_neg (by omega)]
      exact h.bytes hf hj
  · exact (hsame (h.mono hq) rfl).trans (h.others hq hw)
  · rw [hentries (h.mono hn)]
    exact h.links hn hr

/-- **One chunk** of a copy, up to the end of the page or of the range. -/
theorem Loading.chunk (h : Loading L s₀ T₀ p s T frames bytes) (data : Memory) {r v o d c : UInt64}
    (hr : 0 < r.toNat) (hv : v.toNat + r.toNat < 2 ^ 47) (ho : o.toNat + r.toNat < 2 ^ 64)
    (hd : frames (v.toNat / 4096) = some d)
    (hc : (if r < pageSize - (v &&& (pageSize - 1)) then r else pageSize - (v &&& (pageSize - 1))) = c)
    (hpages : ∀ m, v.toNat / 4096 ≤ m → m * 4096 < v.toNat + r.toNat →
      frames m ≠ none ∨ Radix.lookup (slot s.mem) p (path (pageAddr m)) = none) :
    let mem := copyMemory s.mem (vmmTranslate s.mem p v).toNat data o.toNat c.toNat
    0 < c.toNat ∧ v.toNat % 4096 + c.toNat ≤ 4096 ∧ c.toNat ≤ r.toNat ∧ (r - c).toNat = r.toNat - c.toNat ∧
      (v + c).toNat = v.toNat + c.toNat ∧ (o + c).toNat = o.toNat + c.toNat ∧
      Loading L s₀ T₀ p { s with mem } T frames
      (fun u => if v.toNat ≤ u ∧ u < v.toNat + c.toNat then data (o.toNat + (u - v.toNat)) else bytes u) ∧
      ∀ m, (v + c).toNat / 4096 ≤ m → m * 4096 < (v + c).toNat + (r - c).toNat →
        frames m ≠ none ∨ Radix.lookup (slot mem) p (path (pageAddr m)) = none := by
  intro mem
  obtain ⟨htr, -⟩ := h.translate hd
  have hcn := toNat_chunk hc
  have hmod : v.toNat % 4096 < 4096 := Nat.mod_lt _ (by decide)
  have hcr : c ≤ r := by rw [UInt64.le_iff_toNat_le]; omega
  have hr' : (r - c).toNat = r.toNat - c.toNat := UInt64.toNat_sub_of_le _ _ hcr
  have hv' : (v + c).toNat = v.toNat + c.toNat := toNat_add_of_lt (by omega)
  have ho' : (o + c).toNat = o.toNat + c.toNat := toNat_add_of_lt (by omega)
  obtain ⟨hcopy, hlook⟩ := h.copy hd data o.toNat (i := v.toNat % 4096) (n := c.toNat) (by omega)
  rw [← htr, show v.toNat / 4096 * 4096 + v.toNat % 4096 = v.toNat by omega] at hcopy
  rw [← htr] at hlook
  refine ⟨by omega, by omega, by omega, hr', hv', ho', hcopy, fun m h1 h2 => ?_⟩
  rw [hlook]
  exact hpages m (by omega) (by omega)

/-- **The copy loop** writes exactly the file's bytes, if every page of the range is mapped, and fails otherwise. -/
theorem Loading.copySegment (data : Memory) : ∀ (fuel : Nat) (r v o : UInt64) {s : Vmm α} {bytes : Nat → UInt8},
    Loading L s₀ T₀ p s T frames bytes → r.toNat ≤ fuel → v.toNat + r.toNat < 2 ^ 47 → o.toNat + r.toNat < 2 ^ 64 →
    (∀ m, v.toNat / 4096 ≤ m → m * 4096 < v.toNat + r.toNat →
      frames m ≠ none ∨ Radix.lookup (slot s.mem) p (path (pageAddr m)) = none) →
    ∃ ok mem' bytes', KernelOs.copySegment p data fuel r v o s.mem = (ok, mem') ∧
      Loading L s₀ T₀ p { s with mem := mem' } T frames bytes' ∧
      (ok = true ↔ ∀ u, v.toNat ≤ u → u < v.toNat + r.toNat → frames (u / 4096) ≠ none) ∧
      (ok = true → bytes' = fun u => if v.toNat ≤ u ∧ u < v.toNat + r.toNat then
        data (o.toNat + (u - v.toNat)) else bytes u)
  | 0, r, v, o, s, bytes, h, hfuel, _, _, _ => by
    refine ⟨true, s.mem, bytes, rfl, h, iff_of_true rfl fun u _ _ => by omega, fun _ => ?_⟩
    funext u
    rw [if_neg (by omega)]
  | fuel + 1, r, v, o, s, bytes, h, hfuel, hv, ho, hpages => by
    by_cases hr : r = 0
    · subst hr
      refine ⟨true, s.mem, bytes, by simp [KernelOs.copySegment], h, iff_of_true rfl fun u h1 h2 => ?_, fun _ => ?_⟩
      · rw [UInt64.toNat_zero] at h2
        omega
      · funext u
        rw [if_neg (by simp)]
    have hr0 : 0 < r.toNat := Nat.pos_of_ne_zero fun hc => hr ((eq_zero_iff_toNat r).mpr hc)
    cases hd : frames (v.toNat / 4096) with
    | none =>
      have hlook := (hpages (v.toNat / 4096) (Nat.le_refl _) (by omega)).resolve_left (by simp [hd])
      rw [path_pageAddr] at hlook
      have htr : vmmTranslate s.mem p v = 0 := by rw [vmmTranslate_eq, hlook]; rfl
      refine ⟨false, s.mem, bytes, ?_, h, iff_of_false (by decide) fun hall => ?_, fun hc => by cases hc⟩
      · simp [KernelOs.copySegment, hr, htr]
      · exact hall v.toNat (Nat.le_refl _) (by omega) hd
    | some d =>
      obtain ⟨-, htr0, -⟩ := h.translate hd
      generalize hc : (if r < pageSize - (v &&& (pageSize - 1)) then r else pageSize - (v &&& (pageSize - 1))) = c
      obtain ⟨hc0, hcpage, hcr, hr', hv', ho', hcopy, hpages'⟩ := h.chunk data hr0 hv ho hd hc hpages
      obtain ⟨ok, mem', bytes', he, hload, hiff, hb⟩ :=
        Loading.copySegment data fuel (r - c) (v + c) (o + c) hcopy (by omega)
        (by omega) (by omega) hpages'
      refine ⟨ok, mem', bytes', ?_, hload, ?_, fun hok => ?_⟩
      · rw [KernelOs.copySegment]
        simp only [if_neg hr, if_neg htr0, hc]
        exact he
      · rw [hiff]
        constructor
        · intro hall u h1 h2
          by_cases hu : u < v.toNat + c.toNat
          · rw [show u / 4096 = v.toNat / 4096 by omega, hd]
            simp
          · exact hall u (by omega) (by omega)
        · exact fun hall u h1 h2 => hall u (by omega) (by omega)
      · rw [hb hok]
        funext u
        rw [hr', hv', ho']
        by_cases h1 : v.toNat + c.toNat ≤ u ∧ u < v.toNat + c.toNat + (r.toNat - c.toNat)
        · rw [if_pos h1, if_pos (by omega)]
          exact congrArg data (by omega)
        · rw [if_neg h1]
          exact if_congr (by omega) rfl rfl

end

end KernelOs
