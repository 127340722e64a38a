import KernelOs.Lib.Radix
import KernelOs.PmmLemmas
import KernelOs.Vmm

/-!
# Entries and walks

How the entries of a table are read after a write, and the walks of the source as
lookups in a radix store.
-/

namespace KernelOs
open Lib

/-! ## Entries -/

/-- An address that an entry can hold: page-aligned and below 2^52. -/
def IsFrame (n : UInt64) : Prop := n &&& pteAddrMask = n

instance (n : UInt64) : Decidable (IsFrame n) := inferInstanceAs (Decidable (_ = _))

theorem pteAddrMask_testBit (i : Nat) : pteAddrMask.toNat.testBit i = decide (12 ≤ i ∧ i < 52) := by
  have h : pteAddrMask.toNat = 2 ^ 12 * (2 ^ 40 - 1) := by decide
  rw [h, Nat.testBit_two_pow_mul, Nat.testBit_two_pow_sub_one]
  by_cases h1 : 12 ≤ i
  · simp only [h1, decide_true, Bool.true_and, true_and]
    exact decide_eq_decide.mpr (by omega)
  · simp [h1]

theorem isFrame_iff {n : UInt64} : IsFrame n ↔ n.toNat % 4096 = 0 ∧ n.toNat < 2 ^ 52 := by
  unfold IsFrame
  rw [← UInt64.toNat_inj, UInt64.toNat_and]
  constructor
  · intro h
    have hmod := Nat.and_mod_two_pow (a := n.toNat) (b := pteAddrMask.toNat) (n := 12)
    rw [h, show pteAddrMask.toNat % 2 ^ 12 = 0 by decide, Nat.and_zero] at hmod
    refine ⟨hmod, ?_⟩
    have hle := Nat.and_le_right (n := n.toNat) (m := pteAddrMask.toNat)
    rw [h] at hle
    exact Nat.lt_of_le_of_lt hle (by decide)
  · rintro ⟨h1, h2⟩
    obtain ⟨k, hk⟩ := Nat.dvd_of_mod_eq_zero h1
    refine Nat.eq_of_testBit_eq fun i => ?_
    rw [Nat.testBit_and, pteAddrMask_testBit]
    by_cases hi : 12 ≤ i ∧ i < 52
    · simp [hi]
    · simp only [hi, decide_false, Bool.and_false]
      by_cases hlow : 12 ≤ i
      · exact (Nat.testBit_lt_two_pow (Nat.lt_of_lt_of_le h2 (Nat.pow_le_pow_right (by decide) (by omega)))).symm
      · rw [hk, show (4096 : Nat) = 2 ^ 12 by decide, Nat.testBit_two_pow_mul]
        simp [hlow]

/-- Frames do not overlap. -/
theorem IsFrame.apart {n d : UInt64} (hn : IsFrame n) (hd : IsFrame d) (hne : n ≠ d) :
    n.toNat + 4096 ≤ d.toNat ∨ d.toNat + 4096 ≤ n.toNat := by
  have h1 := (isFrame_iff.mp hn).1
  have h2 := (isFrame_iff.mp hd).1
  have h3 : n.toNat ≠ d.toNat := fun he => hne (UInt64.toNat_inj.mp he)
  omega

theorem IsFrame.div_eq {n : UInt64} (hn : IsFrame n) {x : Nat} (h1 : n.toNat ≤ x) (h2 : x < n.toNat + 4096) :
    x / 4096 = n.toNat / 4096 := by
  have hmod := (isFrame_iff.mp hn).1
  omega

theorem isFrame_page {f : Nat} (h : f < 2 ^ 40) : IsFrame (UInt64.ofNat (f * 4096)) := by
  rw [isFrame_iff, toNat_ofNat_page (by omega)]
  omega

theorem or_and_distrib (a b m : UInt64) : (a ||| b) &&& m = (a &&& m) ||| (b &&& m) :=
  UInt64.toBitVec_inj.mp BitVec.and_or_distrib_right

theorem or_ne_zero_right {a b : UInt64} (h : b ≠ 0) : a ||| b ≠ 0 := by
  intro h0
  have hle := Nat.right_le_or (n := a.toNat) (m := b.toNat)
  rw [← UInt64.toNat_or, h0] at hle
  exact h ((eq_zero_iff_toNat b).mpr (Nat.le_zero.mp hle))

theorem link_and {f flags : UInt64} (h : IsFrame f) :
    let e := (f &&& pteAddrMask) ||| ptePresent ||| pteWritable ||| (flags &&& pteUser)
    e &&& pteAddrMask = f ∧ e &&& ptePresent ≠ 0 ∧ e &&& pteHuge = 0 := by
  have hu (m : UInt64) (hm : pteUser &&& m = 0) : (flags &&& pteUser) &&& m = 0 := by
    rw [UInt64.and_assoc, hm, UInt64.and_zero]
  have hf (m : UInt64) (hm : pteAddrMask &&& m = 0) : (f &&& pteAddrMask) &&& m = 0 := by
    rw [UInt64.and_assoc, hm, UInt64.and_zero]
  refine ⟨?_, ?_, ?_⟩
  · rw [or_and_distrib, or_and_distrib, or_and_distrib, hu _ (by decide),
      show ptePresent &&& pteAddrMask = 0 by decide, show pteWritable &&& pteAddrMask = 0 by decide,
      UInt64.or_zero, UInt64.or_zero, UInt64.or_zero, UInt64.and_assoc, UInt64.and_self]
    exact h
  · rw [or_and_distrib, or_and_distrib, or_and_distrib, hu _ (by decide),
      hf _ (by decide)]
    decide
  · rw [or_and_distrib, or_and_distrib, or_and_distrib, hu _ (by decide),
      hf _ (by decide)]
    decide

theorem link_rights {f flags : UInt64} :
    let e := (f &&& pteAddrMask) ||| ptePresent ||| pteWritable ||| (flags &&& pteUser)
    e &&& pteWritable ≠ 0 ∧ e &&& pteNx = 0 ∧ e &&& pteUser = flags &&& pteUser := by
  have hu (m : UInt64) (hm : pteUser &&& m = 0) : (flags &&& pteUser) &&& m = 0 := by
    rw [UInt64.and_assoc, hm, UInt64.and_zero]
  have hf (m : UInt64) (hm : pteAddrMask &&& m = 0) : (f &&& pteAddrMask) &&& m = 0 := by
    rw [UInt64.and_assoc, hm, UInt64.and_zero]
  refine ⟨?_, ?_, ?_⟩ <;> rw [or_and_distrib, or_and_distrib, or_and_distrib, hf _ (by decide)]
  · rw [hu _ (by decide)]
    decide
  · rw [hu _ (by decide)]
    decide
  · rw [UInt64.and_assoc, UInt64.and_self,
      show (0 ||| ptePresent &&& pteUser ||| pteWritable &&& pteUser : UInt64) = 0 by decide,
      UInt64.zero_or]

theorem user_and (e : UInt64) : (e ||| pteUser) &&& pteAddrMask = e &&& pteAddrMask ∧
    (e ||| pteUser) &&& ptePresent = e &&& ptePresent ∧ (e ||| pteUser) &&& pteHuge = e &&& pteHuge := by
  refine ⟨?_, ?_, ?_⟩ <;> rw [or_and_distrib]
  · rw [show pteUser &&& pteAddrMask = 0 by decide, UInt64.or_zero]
  · rw [show pteUser &&& ptePresent = 0 by decide, UInt64.or_zero]
  · rw [show pteUser &&& pteHuge = 0 by decide, UInt64.or_zero]

theorem leaf_present (pa flags : UInt64) : ((pa &&& pteAddrMask) ||| flags ||| ptePresent) &&& ptePresent ≠ 0 := by
  rw [or_and_distrib]
  exact or_ne_zero_right (by decide)

theorem leaf_and {pa flags : UInt64} (h : flags &&& pteAddrMask = 0) :
    let e := (pa &&& pteAddrMask) ||| flags ||| ptePresent
    e &&& pteAddrMask = pa &&& pteAddrMask ∧ e &&& ptePresent ≠ 0 := by
  refine ⟨?_, ?_⟩
  · rw [or_and_distrib, or_and_distrib, h, show ptePresent &&& pteAddrMask = 0 by decide,
      UInt64.or_zero, UInt64.or_zero, UInt64.and_assoc, UInt64.and_self]
  · exact leaf_present pa flags

theorem leaf_rights (pa flags : UInt64) : ∀ bit ∈ [pteUser, pteWritable, pteNx],
    ((pa &&& pteAddrMask) ||| flags ||| ptePresent) &&& bit = flags &&& bit := by
  have hbit {bit : UInt64} (h1 : pteAddrMask &&& bit = 0) (h2 : ptePresent &&& bit = 0) :
      ((pa &&& pteAddrMask) ||| flags ||| ptePresent) &&& bit = flags &&& bit := by
    rw [or_and_distrib, or_and_distrib, UInt64.and_assoc, h1, UInt64.and_zero, UInt64.zero_or, h2, UInt64.or_zero]
  simp only [List.forall_mem_cons, List.not_mem_nil, false_implies, implies_true, and_true]
  exact ⟨hbit (by decide) (by decide), hbit (by decide) (by decide), hbit (by decide) (by decide)⟩

theorem readEntry_writeEntry (mem : Memory) (n : UInt64) (i : Fin 512) (e : UInt64) :
    readEntry (writeEntry mem n i e) n i = e := Memory.load64_store64 ..

theorem readEntry_writeEntry_of_ne (mem : Memory) {n n₀ : UInt64} {i i₀ : Fin 512} (e : UInt64) (hn : IsFrame n)
    (hn₀ : IsFrame n₀) (h : ¬ (n = n₀ ∧ i = i₀)) : readEntry (writeEntry mem n₀ i₀ e) n i = readEntry mem n i := by
  rw [isFrame_iff] at hn hn₀
  refine Memory.load64_store64_of_disjoint mem e ?_
  by_cases hnn : n = n₀
  · have hii : i.val ≠ i₀.val := fun h' => h ⟨hnn, Fin.ext h'⟩
    subst hnn
    omega
  · have hne : n.toNat ≠ n₀.toNat := fun h' => hnn (UInt64.toNat_inj.mp h')
    have := i.isLt
    have := i₀.isLt
    omega

theorem writeEntry_of_lt (mem : Memory) {n : UInt64} {i : Fin 512} (e : UInt64) {x : Nat}
    (h : x < n.toNat ∨ n.toNat + 4096 ≤ x) : writeEntry mem n i e x = mem x :=
  Memory.store64_of_lt mem e (by have := i.isLt; omega)

theorem zeroEntries_apply (mem : Memory) (n : UInt64) (k x : Nat) :
    zeroEntries mem n k x = if n.toNat ≤ x ∧ x < n.toNat + 8 * k then 0 else mem x := by
  induction k with
  | zero => rw [zeroEntries, if_neg (by omega)]
  | succ k ih =>
    rw [zeroEntries]
    by_cases h : n.toNat + 8 * k ≤ x ∧ x < n.toNat + 8 * k + 8
    · rw [if_pos (by omega), Memory.store64, Memory.storeLe, if_pos h]
      simp
    · rw [Memory.store64_of_lt _ _ (by omega), ih]
      exact if_congr (by omega) rfl rfl

theorem zeroTable_apply (mem : Memory) (n : UInt64) (x : Nat) :
    zeroTable mem n x = if n.toNat ≤ x ∧ x < n.toNat + 4096 then 0 else mem x := zeroEntries_apply mem n 512 x

theorem readEntry_congr {mem mem' : Memory} {n : UInt64}
    (h : ∀ x, n.toNat ≤ x → x < n.toNat + 4096 → mem x = mem' x) (i : Fin 512) :
    readEntry mem n i = readEntry mem' n i :=
  Memory.load64_congr fun k hk => h _ (by omega) (by have := i.isLt; omega)

theorem readEntry_zeroTable (mem : Memory) (n : UInt64) (i : Fin 512) : readEntry (zeroTable mem n) n i = 0 := by
  have h0 : readEntry (zeroTable mem n) n i = readEntry (fun _ => 0) n i :=
    readEntry_congr (fun x h1 h2 => by rw [zeroTable_apply, if_pos ⟨h1, h2⟩]) i
  have hz (a k : Nat) : Memory.loadLe (fun _ => 0) a k = 0 := by
    induction k generalizing a with
    | zero => rfl
    | succ k ih => rw [Memory.loadLe, ih]; rfl
  rw [h0, readEntry, Memory.load64, hz]
  rfl

theorem readEntry_zeroTable_of_ne (mem : Memory) {n n₀ : UInt64} (hn : IsFrame n) (hn₀ : IsFrame n₀) (h : n ≠ n₀)
    (i : Fin 512) : readEntry (zeroTable mem n₀) n i = readEntry mem n i := by
  rw [isFrame_iff] at hn hn₀
  have hne : n.toNat ≠ n₀.toNat := fun h' => h (UInt64.toNat_inj.mp h')
  exact readEntry_congr (fun x h1 h2 => by rw [zeroTable_apply, if_neg (by omega)]) i

/-! ## The tables as a radix store -/

/-- What `vmm_translate` makes of an entry; level 3 is the PML4, level 0 the last table. -/
def slot (mem : Memory) (level : Nat) (n : UInt64) (i : Fin 512) : Radix.Slot UInt64 UInt64 :=
  let entry := readEntry mem n i
  if entry &&& ptePresent = 0 then .empty
  else if level = 0 then .leaf (entry &&& pteAddrMask)
  else if entry &&& pteHuge ≠ 0 then (if level = 3 then .empty else .leaf (entry &&& pteAddrMask))
  else .node (entry &&& pteAddrMask)

/-- The indices of the tables above the page table. -/
def tablePath (v : UInt64) : List (Fin 512) := [(splitVaddr v).pml4I, (splitVaddr v).pdptI, (splitVaddr v).pdI]

def path (v : UInt64) : List (Fin 512) := tablePath v ++ [(splitVaddr v).ptI]

/-- The bits of `v` below the page a leaf with `left` unread indices maps. -/
def pageOffset (v : UInt64) (left : Nat) : UInt64 := v &&& (1 <<< (12 + 9 * UInt64.ofNat left) - 1)

theorem pageOffset_zero (v : UInt64) : pageOffset v 0 = v &&& 0xFFF := congrArg (v &&& ·) (by decide)

/-- **The walk is a radix lookup.** -/
theorem vmmTranslate_eq (mem : Memory) (p v : UInt64) :
    vmmTranslate mem p v = (Radix.lookup (slot mem) p (path v)).elim 0 fun r =>
      r.1 ||| pageOffset v r.2.length := by
  unfold vmmTranslate path tablePath
  simp only [List.cons_append, List.nil_append, Radix.lookup_cons, List.length_cons, List.length_nil, slot]
  by_cases h1 : readEntry mem p (splitVaddr v).pml4I &&& ptePresent = 0
  · simp [h1]
  by_cases h1' : readEntry mem p (splitVaddr v).pml4I &&& pteHuge = 0
  swap
  · simp [h1, h1']
  simp only [h1, h1', if_false, ne_eq, not_true]
  generalize readEntry mem p (splitVaddr v).pml4I &&& pteAddrMask = n1
  by_cases h2 : readEntry mem n1 (splitVaddr v).pdptI &&& ptePresent = 0
  · simp [h2]
  by_cases h2' : readEntry mem n1 (splitVaddr v).pdptI &&& pteHuge = 0
  swap
  · simp [h2, h2']; rfl
  simp only [h2, h2', if_false, not_true]
  generalize hn2 : readEntry mem n1 (splitVaddr v).pdptI &&& pteAddrMask = n2
  by_cases h3 : readEntry mem n2 (splitVaddr v).pdI &&& ptePresent = 0
  · simp [h2, h2', h3, hn2]
  by_cases h3' : readEntry mem n2 (splitVaddr v).pdI &&& pteHuge = 0
  swap
  · simp [h2, h2', h3, h3', hn2]; rfl
  simp only [h3, h3', if_false, not_true]
  generalize hn3 : readEntry mem n2 (splitVaddr v).pdI &&& pteAddrMask = n3
  by_cases h4 : readEntry mem n3 (splitVaddr v).ptI &&& ptePresent = 0
  · simp [h2, h2', h3, h3', h4, hn2, hn3]
  · simp [h2, h2', h3, h3', h4, hn2, hn3]; rfl

theorem vmmUnmapPage_eq {α : Type} (s : Vmm α) (p v : UInt64) :
    vmmUnmapPage s p v = (Radix.follow (slot s.mem) 3 p (tablePath v)).elim s fun pt =>
      { s with mem := writeEntry s.mem pt (splitVaddr v).ptI 0 } := by
  unfold vmmUnmapPage tablePath
  simp only [Radix.follow, slot]
  by_cases h1 : readEntry s.mem p (splitVaddr v).pml4I &&& ptePresent = 0
  · simp [h1]
  by_cases h1' : readEntry s.mem p (splitVaddr v).pml4I &&& pteHuge = 0
  swap
  · simp [h1, h1']
  simp only [h1, h1', if_false, ne_eq, not_true]
  generalize readEntry s.mem p (splitVaddr v).pml4I &&& pteAddrMask = n1
  by_cases h2 : readEntry s.mem n1 (splitVaddr v).pdptI &&& ptePresent = 0
  · simp [h2]
  by_cases h2' : readEntry s.mem n1 (splitVaddr v).pdptI &&& pteHuge = 0
  swap
  · simp [h2, h2']
  simp only [h2, h2', if_false, not_true]
  generalize hn2 : readEntry s.mem n1 (splitVaddr v).pdptI &&& pteAddrMask = n2
  by_cases h3 : readEntry s.mem n2 (splitVaddr v).pdI &&& ptePresent = 0
  · simp [h2, h2', h3, hn2]
  by_cases h3' : readEntry s.mem n2 (splitVaddr v).pdI &&& pteHuge = 0 <;> simp [h2, h2', h3, h3', hn2]

theorem tableIndex_val {v k : UInt64} (hk : k.toNat < 64) : (tableIndex v k).val = v.toNat / 2 ^ k.toNat % 512 := by
  have h : (0x1FF : UInt64).toNat = 2 ^ 9 - 1 := by decide
  simp only [tableIndex, UInt64.toNat_and, UInt64.toNat_shiftRight, h, Nat.and_two_pow_sub_one_eq_mod,
    Nat.mod_eq_of_lt hk, Nat.shiftRight_eq_div_pow]

def pageNumber (v : UInt64) : BitVec 36 := v.toBitVec.extractLsb' 12 36

theorem pageNumber_toNat (v : UInt64) : (pageNumber v).toNat = v.toNat / 2 ^ 12 % 2 ^ 36 := by
  rw [pageNumber, BitVec.extractLsb'_toNat, Nat.shiftRight_eq_div_pow]
  rfl

theorem path_eq_iff {v w : UInt64} : path v = path w ↔ pageNumber v = pageNumber w := by
  rw [← BitVec.toNat_inj, pageNumber_toNat, pageNumber_toNat]
  simp only [path, tablePath, splitVaddr, List.cons_append, List.nil_append, List.cons.injEq, and_true, Fin.ext_iff]
  rw [tableIndex_val (v := v) (k := 39) (by decide), tableIndex_val (v := v) (k := 30) (by decide),
    tableIndex_val (v := v) (k := 21) (by decide), tableIndex_val (v := v) (k := 12) (by decide),
    tableIndex_val (v := w) (k := 39) (by decide), tableIndex_val (v := w) (k := 30) (by decide),
    tableIndex_val (v := w) (k := 21) (by decide), tableIndex_val (v := w) (k := 12) (by decide)]
  simp only [UInt64.reduceToNat]
  omega

end KernelOs
