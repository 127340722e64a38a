import KernelOs.Elf
import KernelOs.PageTables

/-!
# Spaces that share the kernel's slot 0

The loader and the demo task copy slot 0 of the kernel's PML4 by value: below it
the new space and the kernel use the same tables.
-/

namespace KernelOs
open Lib LawfulPageAllocator

/-- The spaces in `S` use the tables of `k` below slot 0, where `k` maps its first GiB in huge pages. -/
def kernelLayout (k : UInt64) (S : Finset UInt64) : Layout where
  low q := if q ∈ S then k else q
  huge ℓ := ℓ = ⟨k, [0, 0]⟩

variable {α : Type} [PageAllocator α] [LawfulPageAllocator α] {k p q : UInt64} {S : Finset UInt64} {s : Vmm α}
  {T : TableMap}

theorem kernelLayout_next_insert {ℓ : Label} {i : Fin 512} (h : ¬ (ℓ = .root p ∧ i = 0)) :
    (kernelLayout k (insert p S)).next ℓ i = (kernelLayout k S).next ℓ i := by
  unfold Layout.next
  by_cases hc : ℓ.path = [] ∧ i = 0
  · have hp : ℓ.owner ≠ p := fun ho => h ⟨by cases ℓ; simp_all [Label.root], hc.2⟩
    simp [hc, kernelLayout, hp]
  · rw [if_neg hc, if_neg hc]

theorem kernelLayout_next_zero (hq : q ∈ S ∨ q = k) : (kernelLayout k S).next (.root q) 0 = ⟨k, [0]⟩ := by
  unfold Layout.next Label.root kernelLayout
  cases hq with
  | inl hq => simp [hq]
  | inr hq => subst hq; simp

theorem kernelLayout_next_root {i : Fin 512} (hi : i ≠ 0) : (kernelLayout k S).next (.root q) i = ⟨q, [i]⟩ :=
  if_neg fun h => hi h.2

/-- No link leads to a root. -/
theorem Tabled.labelled_without {L : Layout} (h : Tabled L s T) (hp : T.label p = some (.root p)) :
    Radix.Labelled (slot s.mem) (Function.update T.label p none) L.next Label.rank := by
  constructor
  intro n ℓ i n' hn hs
  have hnp : n ≠ p := by
    intro he
    rw [he, Function.update_self] at hn
    cases hn
  rw [Function.update_of_ne hnp] at hn
  obtain ⟨h1, h2⟩ := h.labelled.closed hn hs
  refine ⟨?_, h2⟩
  rw [Function.update_of_ne, h1]
  intro he
  rw [he, hp] at h1
  have hpath := congrArg Label.path (Option.some.inj h1)
  rw [Layout.next_path] at hpath
  simp [Label.root] at hpath

/-- **Sharing slot 0** with a fresh space: below it the space translates as the kernel does. -/
theorem Tabled.share (h : Tabled (kernelLayout k S) s T) (hk : T.label k = some (.root k))
    (h0 : ∃ n, T.label n = some ⟨k, [0]⟩) (hp : T.label p = some (.root p)) (hpk : p ≠ k) (hpS : p ∉ S)
    (hzero : ∀ i, readEntry s.mem p i = 0) :
    let mem := shareKernelSlot s.mem k p
    Tabled (kernelLayout k (insert p S)) { s with mem } T ∧
      (∀ {q v}, T.label q = some (.root q) → q ≠ p → Radix.lookup (slot mem) q (path v) =
      Radix.lookup (slot s.mem) q (path v)) ∧
      ∀ {v}, Radix.lookup (slot mem) p (path v) =
        if (splitVaddr v).pml4I = 0 then Radix.lookup (slot s.mem) k (path v) else none := by
  intro mem
  have hpF := (h.frame hp).2.1
  have hread {n : UInt64} {ℓ : Label} {i : Fin 512} (hn : T.label n = some ℓ) (hne : ¬ (n = p ∧ i = 0)) :
      readEntry mem n i = readEntry s.mem n i := readEntry_writeEntry_of_ne _ _ (h.frame hn).2.1 hpF hne
  have hat : readEntry mem p 0 = readEntry s.mem k 0 := readEntry_writeEntry ..
  have hempty {r : Nat} {i : Fin 512} (hi : i ≠ 0) : slot mem r p i = .empty :=
    slot_of_absent (by rw [hread hp fun hc => hi hc.2, hzero]; rfl)
  have hatroot {n : UInt64} {ℓ : Label} (hn : T.label n = some ℓ) : n = p ↔ ℓ = .root p := by
    constructor
    · rintro rfl
      exact Option.some.inj (hn.symm.trans hp)
    · rintro rfl
      exact h.root hn
  have hsame {n : UInt64} {ℓ : Label} {i : Fin 512} (hn : T.label n = some ℓ) (hne : ¬ (ℓ = .root p ∧ i = 0)) :
      slot mem ℓ.rank n i = slot s.mem ℓ.rank n i :=
    slot_congr (hread hn fun hc => hne ⟨(hatroot hn).mp hc.1, hc.2⟩) _
  have hslot0 : slot mem 3 p 0 = slot s.mem 3 k 0 := by rw [slot, slot, hat]
  have hnextk : (kernelLayout k S).next (.root k) 0 = ⟨k, [0]⟩ := kernelLayout_next_zero (Or.inr rfl)
  have hnextp : (kernelLayout k (insert p S)).next (.root p) 0 = ⟨k, [0]⟩ :=
    kernelLayout_next_zero (Or.inl (Finset.mem_insert_self ..))
  have hlow {q : UInt64} (hq : q ≠ p) : (kernelLayout k (insert p S)).low q = (kernelLayout k S).low q := by
    simp [kernelLayout, hq]
  have htab : Tabled (kernelLayout k (insert p S)) { s with mem } T := by
    refine ⟨h.valid, h.frame, h.root, h.inj, h.parent, fun {q} hq => ?_, fun {q} hq => ?_, ⟨?_⟩, ?_, ?_⟩
    · rw [hlow (TableMap.ne_of_label hp hq).symm]
      exact h.alone hq
    · by_cases hqp : q = p
      · have : (kernelLayout k (insert p S)).low q = k := by simp [kernelLayout, hqp]
        rwa [this]
      · rw [hlow hqp] at hq ⊢
        exact h.shared hq
    · intro n ℓ i n' hn hs
      by_cases hc : ℓ = .root p ∧ i = 0
      · obtain ⟨rfl, rfl⟩ := hc
        obtain rfl := h.root hn
        rw [Label.rank_root, hslot0] at hs
        have := h.labelled.closed (ℓ := .root k) hk hs
        rw [hnextk] at this
        rwa [hnextp]
      · rw [kernelLayout_next_insert hc]
        exact h.labelled.closed hn (hsame hn hc ▸ hs)
    · intro n ℓ i n' hn hr hn'
      by_cases hc : ℓ = .root p ∧ i = 0
      · obtain ⟨rfl, rfl⟩ := hc
        obtain rfl := h.root hn
        rw [hnextp] at hn'
        exact hslot0.trans (h.linked (ℓ := .root k) hk hr (hnextk.symm ▸ hn'))
      · rw [kernelLayout_next_insert hc] at hn'
        exact (hsame hn hc).trans (h.linked hn hr hn')
    · intro n ℓ i hn hr hh hpr
      by_cases hc : n = p ∧ i = 0
      · rw [hc.1, hc.2] at hpr ⊢
        rw [hat] at hpr ⊢
        exact h.plain (ℓ := .root k) hk (by simp) (by simp [kernelLayout, Label.root]) hpr
      · rw [hread hn hc] at hpr ⊢
        exact h.plain hn hr hh hpr
  -- the walks of the other spaces never read `p`
  have hothers {q v : UInt64} (hq : T.label q = some (.root q)) (hqp : q ≠ p) :
      Radix.lookup (slot mem) q (path v) = Radix.lookup (slot s.mem) q (path v) := by
    refine (h.labelled_without hp).lookup_congr (ℓ := .root q) (fun {n ℓ i} hn => ?_)
      (by rw [Function.update_of_ne hqp, hq]) rfl
    have hnp : n ≠ p := by rintro rfl; rw [Function.update_self] at hn; cases hn
    rw [Function.update_of_ne hnp] at hn
    exact slot_congr (hread hn fun hc => hnp hc.1) _
  refine ⟨htab, hothers, fun {v} => ?_⟩
  rw [← hothers hk hpk.symm]
  simp only [path, tablePath, List.cons_append, Radix.lookup_cons]
  by_cases hi : (splitVaddr v).pml4I = 0
  · have hk0 : slot mem 3 k 0 = slot mem 3 p 0 := by
      rw [hslot0]
      exact slot_congr (hread hk fun hc => hpk hc.1.symm) 3
    rw [if_pos hi, hi]
    simp only [List.nil_append, List.length_cons, List.length_nil, Nat.zero_add, Nat.reduceAdd, hk0]
  · rw [if_neg hi, hempty hi]

end KernelOs
