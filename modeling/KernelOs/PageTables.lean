import KernelOs.VmmLemmas
import Mathlib.Data.Set.Card

/-!
# What the page-table code does

Every table has a name (the root it hangs below and the path to it), every link
extends the name by its index, and the frames of tables are never handed out
again. One statement for each function says which tables it adds and what it
changes of the lookups.
-/

namespace KernelOs
open Lib

/-! ## The allocator's part -/

/-- An allocator that hands out a spare frame at most once: what it gave is no longer spare. -/
class LawfulPageAllocator (α : Type) [PageAllocator α] where
  Valid : α → Prop
  spare : α → Set Nat
  spare_lt : ∀ {a f}, Valid a → f ∈ spare a → 0 < f ∧ f < 2 ^ 40
  alloc : ∀ {a}, Valid a → Valid (allocPage a).2 ∧
    ((allocPage a).1 = 0 ∧ spare (allocPage a).2 = spare a ∨
      ∃ f ∈ spare a, (allocPage a).1 = UInt64.ofNat (f * 4096) ∧ spare (allocPage a).2 = spare a \ {f})

/-- An allocator that fails only when nothing is left. -/
class CompletePageAllocator (α : Type) [PageAllocator α] extends LawfulPageAllocator α where
  alloc_zero : ∀ {a}, Valid a → (allocPage a).1 = 0 → spare a = ∅

open LawfulPageAllocator CompletePageAllocator

instance : CompletePageAllocator Pmm where
  Valid s := s.Ok ∧ 0 ∉ s.clearPages ∧ s.totalPages.toNat ≤ 2 ^ 40
  spare s := {p | p ∈ s.clearPages}
  spare_lt := by
    rintro s f ⟨-, h0, hle⟩ hf
    have hlt := (Pmm.mem_clearPages.mp hf).1
    exact ⟨Nat.pos_of_ne_zero fun h => h0 (h ▸ hf), by omega⟩
  alloc := by
    rintro s ⟨hok, h0, hle⟩
    rcases pmmAllocPage_spec hok with ⟨h, hc⟩ | ⟨k, s', h, hc, _, h4, h5, h6⟩
    · have h' : allocPage s = (0, s) := h
      rw [h']
      exact ⟨⟨hok, h0, hle⟩, Or.inl ⟨rfl, rfl⟩⟩
    · have h' : allocPage s = (UInt64.ofNat ((s.searchHint.toNat + k) % s.totalPages.toNat * 4096), s') := h
      rw [h']
      refine ⟨⟨h4, fun h0' => h0 (Finset.mem_of_mem_erase (h6 ▸ h0')), h5 ▸ hle⟩, Or.inr ⟨_, hc, rfl, ?_⟩⟩
      ext p
      simp [h6, and_comm]
  alloc_zero := by
    rintro s ⟨hok, h0, hle⟩ hz
    rcases pmmAllocPage_spec hok with ⟨-, hc⟩ | ⟨k, s', h, hc, _⟩
    · simp [hc]
    · have hlt := (Pmm.mem_clearPages.mp hc).1
      have h' : allocPage s = (UInt64.ofNat ((s.searchHint.toNat + k) % s.totalPages.toNat * 4096), s') := h
      rw [h', eq_zero_iff_toNat, toNat_ofNat_page (by omega)] at hz
      exact absurd (by rwa [show (s.searchHint.toNat + k) % s.totalPages.toNat = 0 by omega] at hc) h0

theorem mem_spare_pmm {s : Pmm} {f : Nat} : f ∈ spare s ↔ f ∈ s.clearPages := Iff.rfl

theorem encard_spare_pmm {s : Pmm} (h : s.Ok) : (spare s).encard = s.freePages.toNat := by
  rw [h.count, ← Set.encard_coe_eq_coe_finsetCard]
  rfl

/-! ## Names of tables -/

/-- The root a table hangs below and the path to it. -/
structure Label where
  owner : UInt64
  path : List (Fin 512)
  deriving DecidableEq

namespace Label

def root (p : UInt64) : Label := ⟨p, []⟩

def rank (ℓ : Label) : Nat := 3 - ℓ.path.length

@[simp] theorem rank_root (p : UInt64) : (root p).rank = 3 := rfl

end Label

/-- What may differ between address spaces: `low p` is the root whose tables `p` uses
below slot 0 (`p` itself, or the space it shares them with), and `huge` marks the
tables that may hold huge pages. -/
structure Layout where
  low : UInt64 → UInt64
  huge : Label → Prop

/-- The name of the table behind slot `i`. -/
def Layout.next (L : Layout) (ℓ : Label) (i : Fin 512) : Label :=
  if ℓ.path = [] ∧ i = 0 then ⟨L.low ℓ.owner, [0]⟩ else ⟨ℓ.owner, ℓ.path ++ [i]⟩

namespace Layout

variable (L : Layout)

theorem next_path (ℓ : Label) (i : Fin 512) : (L.next ℓ i).path = ℓ.path ++ [i] := by
  unfold next
  split
  · next h => simp [h.1, h.2]
  · rfl

theorem rank_next {ℓ : Label} (i : Fin 512) (h : 0 < ℓ.rank) : (L.next ℓ i).rank + 1 = ℓ.rank := by
  unfold Label.rank at h ⊢
  rw [next_path, List.length_append, List.length_singleton]
  omega

theorem next_of_ne {ℓ : Label} (h : ℓ.path ≠ []) (i : Fin 512) : L.next ℓ i = ⟨ℓ.owner, ℓ.path ++ [i]⟩ :=
  if_neg fun h' => h h'.1

theorem foldl_next {ℓ : Label} (h : ℓ.path ≠ []) (is : List (Fin 512)) :
    is.foldl L.next ℓ = ⟨ℓ.owner, ℓ.path ++ is⟩ := by
  induction is generalizing ℓ with
  | nil => simp
  | cons i is ih => rw [List.foldl_cons, L.next_of_ne h, ih (by simp)]; simp

theorem foldl_root (p : UInt64) (i : Fin 512) (is : List (Fin 512)) : (i :: is).foldl L.next (Label.root p) =
    ⟨(L.next (Label.root p) i).owner, i :: is⟩ := by
  have h : (L.next (Label.root p) i).path = [i] := L.next_path (Label.root p) i
  rw [List.foldl_cons, L.foldl_next (by simp [h]), h]
  rfl

end Layout

/-- The frames that are tables, by name. -/
structure TableMap where
  label : UInt64 → Option Label
  names : Finset Label
  mem_names : ∀ {ℓ}, ℓ ∈ names ↔ ∃ n, label n = some ℓ

namespace TableMap

def empty : TableMap where
  label _ := none
  names := ∅
  mem_names := by simp

def insert (T : TableMap) (n : UInt64) (ℓ : Label) (h : T.label n = none) : TableMap where
  label := Function.update T.label n (some ℓ)
  names := Insert.insert ℓ T.names
  mem_names := by
    intro ℓ'
    rw [Finset.mem_insert, T.mem_names]
    constructor
    · rintro (rfl | ⟨m, hm⟩)
      · exact ⟨n, Function.update_self ..⟩
      · refine ⟨m, ?_⟩
        rw [Function.update_of_ne (by rintro rfl; rw [h] at hm; cases hm)]
        exact hm
    · rintro ⟨m, hm⟩
      by_cases hmn : m = n
      · subst hmn
        rw [Function.update_self] at hm
        exact Or.inl (Option.some.inj hm).symm
      · rw [Function.update_of_ne hmn] at hm
        exact Or.inr ⟨m, hm⟩

variable {T : TableMap} {n m : UInt64} {ℓ ℓ' : Label} {h : T.label n = none}

theorem ne_of_label (hn : T.label n = some ℓ) (hm : T.label m = none) : n ≠ m := by
  intro he
  rw [he, hm] at hn
  cases hn

@[simp] theorem insert_label_self : (T.insert n ℓ h).label n = some ℓ := Function.update_self ..

theorem insert_label_of_ne (hm : m ≠ n) : (T.insert n ℓ h).label m = T.label m := Function.update_of_ne hm ..

theorem insert_mono (hm : T.label m = some ℓ') : (T.insert n ℓ h).label m = some ℓ' := by
  rw [insert_label_of_ne (ne_of_label hm h)]
  exact hm

theorem insert_cases (hm : (T.insert n ℓ h).label m = some ℓ') : m = n ∧ ℓ' = ℓ ∨ m ≠ n ∧ T.label m = some ℓ' := by
  by_cases hmn : m = n
  · subst hmn
    rw [insert_label_self] at hm
    exact Or.inl ⟨rfl, (Option.some.inj hm).symm⟩
  · rw [insert_label_of_ne hmn] at hm
    exact Or.inr ⟨hmn, hm⟩

end TableMap

variable {α : Type} [PageAllocator α] [LawfulPageAllocator α]

/-- **The invariant of the tables.** `T` names exactly the tables, each in a frame of its own that
the allocator has given up, and the entries link a table to the tables named after it. -/
structure Tabled (L : Layout) (s : Vmm α) (T : TableMap) : Prop where
  valid : Valid s.pmm
  frame : ∀ {n ℓ}, T.label n = some ℓ → n ≠ 0 ∧ IsFrame n ∧ n.toNat / 4096 ∉ spare s.pmm
  root : ∀ {n p}, T.label n = some (.root p) → n = p
  inj : ∀ {m n ℓ}, T.label m = some ℓ → T.label n = some ℓ → m = n
  parent : ∀ {n o is i}, T.label n = some ⟨o, is ++ [i]⟩ → ∃ m, T.label m = some ⟨o, is⟩
  alone : ∀ {p}, T.label p = none → L.low p = p
  shared : ∀ {p}, L.low p ≠ p → ∃ n, T.label n = some ⟨L.low p, [0]⟩
  labelled : Radix.Labelled (slot s.mem) T.label L.next Label.rank
  linked : ∀ {n ℓ i n'}, T.label n = some ℓ → 0 < ℓ.rank → T.label n' = some (L.next ℓ i) →
    slot s.mem ℓ.rank n i = .node n'
  plain : ∀ {n ℓ i}, T.label n = some ℓ → 0 < ℓ.rank → ¬ L.huge ℓ →
    readEntry s.mem n i &&& ptePresent ≠ 0 → readEntry s.mem n i &&& pteHuge = 0

/-- **What a step of the page-table code may do**: add tables in spare frames, write tables. -/
structure Extends (L : Layout) (s : Vmm α) (T : TableMap) (s' : Vmm α) (T' : TableMap) : Prop where
  tabled : Tabled L s' T'
  mono : ∀ {n ℓ}, T.label n = some ℓ → T'.label n = some ℓ
  fresh : ∀ {n ℓ}, T'.label n = some ℓ → T.label n = none → n.toNat / 4096 ∈ spare s.pmm
  left : ∀ {f}, f ∈ spare s'.pmm ↔ f ∈ spare s.pmm ∧ ∀ n, n.toNat / 4096 = f → T'.label n = none
  count : (spare s'.pmm).encard + T'.names.card = (spare s.pmm).encard + T.names.card
  mem : ∀ {x}, (∀ n ℓ, T'.label n = some ℓ → x < n.toNat ∨ n.toNat + 4096 ≤ x) → s'.mem x = s.mem x

def SameLookups (T : TableMap) (mem mem' : Memory) : Prop :=
  ∀ {n ℓ is}, T.label n = some ℓ → is.length = ℓ.rank + 1 →
    Radix.lookup (slot mem') n is = Radix.lookup (slot mem) n is

variable {L : Layout} {s s' s'' : Vmm α} {T T' T'' : TableMap}

theorem Extends.refl (h : Tabled L s T) : Extends L s T s T where
  tabled := h
  mono := id
  fresh h1 h2 := by rw [h2] at h1; cases h1
  left := by
    intro f
    refine ⟨fun hf => ⟨hf, fun n hn => ?_⟩, And.left⟩
    cases hl : T.label n with
    | none => rfl
    | some ℓ => exact absurd (hn ▸ hf) (h.frame hl).2.2
  count := rfl
  mem _ := rfl

theorem Extends.trans (h : Extends L s T s' T') (h' : Extends L s' T' s'' T'') : Extends L s T s'' T'' where
  tabled := h'.tabled
  mono h1 := h'.mono (h.mono h1)
  fresh := by
    intro n ℓ h1 h2
    cases hl : T'.label n with
    | none => exact (h.left.mp (h'.fresh h1 hl)).1
    | some ℓ' => exact h.fresh hl h2
  left := by
    intro f
    rw [h'.left, h.left]
    refine ⟨fun ⟨⟨h1, _⟩, h2⟩ => ⟨h1, h2⟩, fun ⟨h1, h2⟩ => ⟨⟨h1, fun n hn => ?_⟩, h2⟩⟩
    cases hl : T'.label n with
    | none => rfl
    | some ℓ => rw [← h2 n hn, h'.mono hl]
  count := h'.count.trans h.count
  mem hx := (h'.mem hx).trans (h.mem fun n ℓ hn => hx n ℓ (h'.mono hn))

/-! ## Writing memory under the invariant -/

theorem slot_congr {mem mem' : Memory} {n : UInt64} {i : Fin 512}
    (h : readEntry mem' n i = readEntry mem n i) (r : Nat) :
    slot mem' r n i = slot mem r n i := by rw [slot, slot, h]

theorem slot_of_link {mem : Memory} {n : UInt64} {i : Fin 512} {r : Nat} (hp : readEntry mem n i &&& ptePresent ≠ 0)
    (hh : readEntry mem n i &&& pteHuge = 0) (hr : 0 < r) :
    slot mem r n i = .node (readEntry mem n i &&& pteAddrMask) := by
  unfold slot
  simp only [hp, hh, if_false, ne_eq, not_true, if_neg (Nat.pos_iff_ne_zero.mp hr)]

theorem slot_of_absent {mem : Memory} {n : UInt64} {i : Fin 512} {r : Nat}
    (hp : readEntry mem n i &&& ptePresent = 0) :
    slot mem r n i = .empty := by simp [slot, hp]

theorem slot_zero_ne_node {mem : Memory} {n n' : UInt64} {i : Fin 512} : slot mem 0 n i ≠ .node n' := by
  simp only [slot, if_true]
  split <;> simp

/-- Above the last level only the links count. -/
theorem Tabled.of_slots (h : Tabled L s T) {mem : Memory} {pmm : α} (hv : Valid pmm) (hsp : spare pmm = spare s.pmm)
    (hs : ∀ {n ℓ i}, T.label n = some ℓ → 0 < ℓ.rank → slot mem ℓ.rank n i = slot s.mem ℓ.rank n i)
    (hp : ∀ {n ℓ i}, T.label n = some ℓ → 0 < ℓ.rank → ¬ L.huge ℓ → readEntry mem n i &&& ptePresent ≠ 0 →
      readEntry mem n i &&& pteHuge = 0) : Tabled L ⟨mem, pmm⟩ T where
  valid := hv
  frame hn := by rw [hsp]; exact h.frame hn
  root := h.root
  inj := h.inj
  parent := h.parent
  alone := h.alone
  shared := h.shared
  labelled := by
    constructor
    intro n ℓ i n' hn hsl
    by_cases hr : 0 < ℓ.rank
    · exact h.labelled.closed hn (hs hn hr ▸ hsl)
    · rw [Nat.eq_zero_of_not_pos hr] at hsl
      exact absurd hsl slot_zero_ne_node
  linked hn hr hn' := (hs hn hr).trans (h.linked hn hr hn')
  plain := hp

theorem Tabled.extends_same (h : Tabled L s T) (h' : Tabled L s' T) (hsp : spare s'.pmm = spare s.pmm)
    (hm : ∀ {x}, (∀ n ℓ, T.label n = some ℓ → x < n.toNat ∨ n.toNat + 4096 ≤ x) → s'.mem x = s.mem x) :
    Extends L s T s' T where
  tabled := h'
  mono := id
  fresh := (Extends.refl h).fresh
  left := by rw [hsp]; exact (Extends.refl h).left
  count := by rw [hsp]
  mem := hm

/-- What happens outside the tables does not matter. -/
theorem Tabled.elsewhere (h : Tabled L s T) (s' : Vmm α) (hv : Valid s'.pmm)
    (hspare : ∀ {n ℓ}, T.label n = some ℓ → n.toNat / 4096 ∉ spare s'.pmm)
    (hm : ∀ {n ℓ x}, T.label n = some ℓ → n.toNat ≤ x → x < n.toNat + 4096 → s'.mem x = s.mem x) :
    Tabled L s' T ∧ SameLookups T s.mem s'.mem := by
  have hread {n : UInt64} {ℓ : Label} (i : Fin 512) (hn : T.label n = some ℓ) :
      readEntry s'.mem n i = readEntry s.mem n i := readEntry_congr (fun x h1 h2 => hm hn h1 h2) i
  refine ⟨⟨hv, fun hn => ?_, h.root, h.inj, h.parent, h.alone, h.shared, ⟨?_⟩, ?_, ?_⟩, fun hn hlen => ?_⟩
  · obtain ⟨h1, h2, -⟩ := h.frame hn
    exact ⟨h1, h2, hspare hn⟩
  · intro n ℓ i n' hn hs
    exact h.labelled.closed hn (slot_congr (hread i hn) _ ▸ hs)
  · intro n ℓ i n' hn hr hn'
    exact (slot_congr (hread i hn) _).trans (h.linked hn hr hn')
  · intro n ℓ i hn hr hh
    rw [hread i hn]
    exact h.plain hn hr hh
  · exact h.labelled.lookup_congr (fun hn => slot_congr (hread _ hn) _) hn hlen

theorem Tabled.other (h : Tabled L s T) (s' : Vmm α) (hv : Valid s'.pmm) (hspare : spare s'.pmm ⊆ spare s.pmm)
    (hm : ∀ {n ℓ x}, T.label n = some ℓ → n.toNat ≤ x → x < n.toNat + 4096 → s'.mem x = s.mem x) :
    Tabled L s' T ∧ SameLookups T s.mem s'.mem :=
  h.elsewhere s' hv (fun hn hmem => (h.frame hn).2.2 (hspare hmem)) hm

theorem Tabled.apart (h : Tabled L s T) {n d : UInt64} {ℓ : Label} (hn : T.label n = some ℓ) (hd : IsFrame d)
    (hnone : T.label d = none) : n.toNat + 4096 ≤ d.toNat ∨ d.toNat + 4096 ≤ n.toNat :=
  (h.frame hn).2.1.apart hd (TableMap.ne_of_label hn hnone)

theorem Tabled.spare_frame (h : Tabled L s T) {f : Nat} (hf : f ∈ spare s.pmm) :
    (UInt64.ofNat (f * 4096)).toNat = f * 4096 ∧ UInt64.ofNat (f * 4096) ≠ 0 ∧ IsFrame (UInt64.ofNat (f * 4096)) ∧
      T.label (UInt64.ofNat (f * 4096)) = none := by
  obtain ⟨hf0, hf40⟩ := spare_lt h.valid hf
  have haf : (UInt64.ofNat (f * 4096)).toNat = f * 4096 := toNat_ofNat_page (by omega)
  refine ⟨haf, fun h0 => ?_, isFrame_page hf40, ?_⟩
  · rw [h0] at haf
    simp at haf
    omega
  · cases hl : T.label (UInt64.ofNat (f * 4096)) with
    | none => rfl
    | some ℓ =>
      refine absurd ?_ (h.frame hl).2.2
      rwa [haf, Nat.mul_div_cancel _ (by decide)]

theorem Tabled.alloc_frame (h : Tabled L s T) {a : UInt64} {pmm : α} (ha : allocPage s.pmm = (a, pmm))
    (ha0 : a ≠ 0) :
    ∃ f, f ∈ spare s.pmm ∧ a = UInt64.ofNat (f * 4096) ∧ a.toNat = f * 4096 ∧ IsFrame a ∧
      T.label a = none ∧ Valid pmm ∧
      spare pmm = spare s.pmm \ {f} := by
  obtain ⟨hv, ⟨h0, -⟩ | ⟨f, hf, haf, hsp⟩⟩ := alloc h.valid
  · rw [ha] at h0
    exact absurd h0 ha0
  rw [ha] at haf hsp hv
  obtain ⟨h1, -, h3, h4⟩ := h.spare_frame hf
  rw [← show a = _ from haf] at h1 h3 h4
  exact ⟨f, hf, haf, h1, h3, h4, hv, hsp⟩

theorem Tabled.pmm (h : Tabled L s T) {pmm : α} (hv : Valid pmm) (hsp : spare pmm = spare s.pmm) :
    Extends L s T { s with pmm } T :=
  h.extends_same (h.of_slots hv hsp (fun _ _ => rfl) h.plain) hsp fun _ => rfl

theorem Tabled.write (h : Tabled L s T) {n₀ : UInt64} {ℓ₀ : Label} {i₀ : Fin 512} {e : UInt64}
    (hn₀ : T.label n₀ = some ℓ₀)
    (hslot : 0 < ℓ₀.rank → slot (writeEntry s.mem n₀ i₀ e) ℓ₀.rank n₀ i₀ = slot s.mem ℓ₀.rank n₀ i₀)
    (hp : 0 < ℓ₀.rank → e &&& ptePresent ≠ 0 → e &&& pteHuge = 0) :
    Extends L s T { s with mem := writeEntry s.mem n₀ i₀ e } T := by
  have hread {n : UInt64} {ℓ : Label} {i : Fin 512} (hn : T.label n = some ℓ) (hne : ¬ (n = n₀ ∧ i = i₀)) :
      readEntry (writeEntry s.mem n₀ i₀ e) n i = readEntry s.mem n i :=
    readEntry_writeEntry_of_ne s.mem e (h.frame hn).2.1 (h.frame hn₀).2.1 hne
  refine h.extends_same (h.of_slots h.valid rfl ?_ ?_) rfl fun hx => writeEntry_of_lt s.mem e (hx n₀ ℓ₀ hn₀)
  · intro n ℓ i hn hr
    by_cases hat : n = n₀ ∧ i = i₀
    · obtain ⟨rfl, rfl⟩ := hat
      obtain rfl : ℓ = ℓ₀ := Option.some.inj (hn.symm.trans hn₀)
      exact hslot hr
    · exact slot_congr (hread hn hat) _
  · intro n ℓ i hn hr hh hpr
    by_cases hat : n = n₀ ∧ i = i₀
    · obtain ⟨rfl, rfl⟩ := hat
      obtain rfl : ℓ = ℓ₀ := Option.some.inj (hn.symm.trans hn₀)
      rw [readEntry_writeEntry] at hpr ⊢
      exact hp hr hpr
    · rw [hread hn hat] at hpr ⊢
      exact h.plain hn hr hh hpr

/-- A new table, all zero, at `a`; the slots with its name link to it. -/
theorem Tabled.add_table (h : Tabled L s T) {f : Nat} {a : UInt64} {pmm : α} {ℓ₁ : Label} {mem : Memory}
    (hf : f ∈ spare s.pmm) (ha : a = UInt64.ofNat (f * 4096)) (hv : Valid pmm) (hsp : spare pmm = spare s.pmm \ {f})
    (hnone : T.label a = none) (hnew : ℓ₁ ∉ T.names) (hnext : ∀ j, L.next ℓ₁ j = ⟨ℓ₁.owner, ℓ₁.path ++ [j]⟩)
    (hroot : ∀ {p}, ℓ₁ = .root p → a = p)
    (hparent : ∀ {o is i}, ℓ₁ = ⟨o, is ++ [i]⟩ → ∃ m, T.label m = some ⟨o, is⟩)
    (hzero : ∀ j, readEntry mem a j = 0)
    (hsame : ∀ {n ℓ i}, T.label n = some ℓ → 0 < ℓ.rank → L.next ℓ i ≠ ℓ₁ → readEntry mem n i = readEntry s.mem n i)
    (hlink : ∀ {n ℓ i}, T.label n = some ℓ → 0 < ℓ.rank → L.next ℓ i = ℓ₁ →
      slot mem ℓ.rank n i = .node a ∧ readEntry mem n i &&& pteHuge = 0)
    (hmem : ∀ {x}, (∀ n ℓ, (T.insert a ℓ₁ hnone).label n = some ℓ → x < n.toNat ∨ n.toNat + 4096 ≤ x) →
      mem x = s.mem x) :
    Extends L s T ⟨mem, pmm⟩ (T.insert a ℓ₁ hnone) := by
  have hlt := spare_lt h.valid hf
  have haf : a.toNat = f * 4096 := by rw [ha, toNat_ofNat_page (by omega)]
  have hempty {r : Nat} {j : Fin 512} : slot mem r a j = .empty := slot_of_absent (by rw [hzero]; rfl)
  -- no table hangs below the new one yet
  have hleaf {m : UInt64} {j : Fin 512} : (T.insert a ℓ₁ hnone).label m ≠ some (L.next ℓ₁ j) := by
    intro hm
    rw [hnext] at hm
    rcases TableMap.insert_cases hm with ⟨-, h2⟩ | ⟨-, h2⟩
    · have := congrArg (List.length ∘ Label.path) h2
      simp at this
    · exact hnew (T.mem_names.mpr (h.parent h2))
  have htab : Tabled L ⟨mem, pmm⟩ (T.insert a ℓ₁ hnone) := by
    constructor
    case valid => exact hv
    case frame =>
      intro n ℓ hn
      rw [hsp]
      rcases TableMap.insert_cases hn with ⟨rfl, rfl⟩ | ⟨-, hn⟩
      · refine ⟨fun h0 => ?_, ha ▸ isFrame_page hlt.2, fun hm => hm.2 ?_⟩
        · rw [h0] at haf; simp at haf; omega
        · rw [haf]; simp
      · obtain ⟨h1, h2, h3⟩ := h.frame hn
        exact ⟨h1, h2, fun hm => h3 hm.1⟩
    case root =>
      intro n p hn
      rcases TableMap.insert_cases hn with ⟨rfl, h2⟩ | ⟨-, hn⟩
      · exact hroot h2.symm
      · exact h.root hn
    case inj =>
      intro m n ℓ hm hn
      rcases TableMap.insert_cases hm with ⟨h1, h2⟩ | ⟨-, hm'⟩ <;> rcases TableMap.insert_cases hn with ⟨h3,
        h4⟩ | ⟨-, hn'⟩
      · rw [h1, h3]
      · exact absurd (T.mem_names.mpr ⟨n, h2 ▸ hn'⟩) hnew
      · exact absurd (T.mem_names.mpr ⟨m, h4 ▸ hm'⟩) hnew
      · exact h.inj hm' hn'
    case parent =>
      intro n o is i hn
      rcases TableMap.insert_cases hn with ⟨rfl, h2⟩ | ⟨-, hn⟩
      · obtain ⟨m, hm⟩ := hparent h2.symm
        exact ⟨m, TableMap.insert_mono hm⟩
      · obtain ⟨m, hm⟩ := h.parent hn
        exact ⟨m, TableMap.insert_mono hm⟩
    case alone =>
      intro p hp
      refine h.alone ?_
      cases hl : T.label p with
      | none => rfl
      | some ℓ => rw [TableMap.insert_mono hl] at hp; cases hp
    case shared =>
      intro p hp
      obtain ⟨n, hn⟩ := h.shared hp
      exact ⟨n, TableMap.insert_mono hn⟩
    case labelled =>
      constructor
      intro n ℓ i n' hn hsl
      rcases TableMap.insert_cases hn with ⟨rfl, rfl⟩ | ⟨-, hn⟩
      · rw [hempty] at hsl; cases hsl
      by_cases hr : 0 < ℓ.rank
      · by_cases hat : L.next ℓ i = ℓ₁
        · rw [(hlink hn hr hat).1] at hsl
          cases hsl
          exact ⟨by rw [TableMap.insert_label_self, hat], L.rank_next i hr⟩
        · rw [slot_congr (hsame hn hr hat)] at hsl
          obtain ⟨h1, h2⟩ := h.labelled.closed hn hsl
          exact ⟨TableMap.insert_mono h1, h2⟩
      · rw [Nat.eq_zero_of_not_pos hr] at hsl
        exact absurd hsl slot_zero_ne_node
    case linked =>
      intro n ℓ i n' hn hr hn'
      rcases TableMap.insert_cases hn with ⟨-, h2⟩ | ⟨-, hold⟩
      · exact absurd (h2 ▸ hn') hleaf
      rcases TableMap.insert_cases hn' with ⟨h1, h2⟩ | ⟨-, hold'⟩
      · exact h1 ▸ (hlink hold hr h2).1
      · have hat : L.next ℓ i ≠ ℓ₁ := fun hat => hnew (T.mem_names.mpr ⟨n', hat ▸ hold'⟩)
        rw [slot_congr (hsame hold hr hat)]
        exact h.linked hold hr hold'
    case plain =>
      intro n ℓ i hn hr hh hpr
      rcases TableMap.insert_cases hn with ⟨rfl, rfl⟩ | ⟨-, hn⟩
      · rw [hzero] at hpr
        exact absurd rfl hpr
      by_cases hat : L.next ℓ i = ℓ₁
      · exact (hlink hn hr hat).2
      · rw [hsame hn hr hat] at hpr ⊢
        exact h.plain hn hr hh hpr
  refine ⟨htab, TableMap.insert_mono, ?_, ?_, ?_, hmem⟩
  · intro n ℓ hn hn0
    rcases TableMap.insert_cases hn with ⟨rfl, rfl⟩ | ⟨-, hn⟩
    · rwa [haf, Nat.mul_div_cancel _ (by decide)]
    · rw [hn0] at hn; cases hn
  · intro g
    rw [hsp]
    constructor
    · rintro ⟨hg, hgf⟩
      refine ⟨hg, fun n hn => ?_⟩
      cases hl : (T.insert a ℓ₁ hnone).label n with
      | none => rfl
      | some ℓ => exact absurd (by rw [hsp, hn]; exact ⟨hg, hgf⟩) (htab.frame hl).2.2
    · rintro ⟨hg, hgn⟩
      refine ⟨hg, fun hgf => ?_⟩
      have := hgn a (by rw [haf, Nat.mul_div_cancel _ (by decide)]; exact hgf.symm)
      rw [TableMap.insert_label_self] at this
      cases this
  · have hcard : (T.insert a ℓ₁ hnone).names.card = T.names.card + 1 := Finset.card_insert_of_notMem hnew
    rw [hcard, show spare pmm = _ from hsp, ← Set.encard_sdiff_singleton_add_one hf]
    push_cast
    ring

/-! ## What becomes of the entries -/

/-- An entry that links a table: present and writable, and nothing that forbids execution. -/
def IsLink (e : UInt64) : Prop := e &&& ptePresent ≠ 0 ∧ e &&& pteHuge = 0 ∧ e &&& pteWritable ≠ 0 ∧ e &&& pteNx = 0

/-- A link is made, or opened to user mode where the flags ask for it. -/
inductive LinkStep (flags e : UInt64) : UInt64 → Prop
  | keep : LinkStep flags e e
  | opened (hu : flags &&& pteUser ≠ 0) (hp : e &&& ptePresent ≠ 0) (hh : e &&& pteHuge = 0) :
      LinkStep flags e (e ||| pteUser)
  | made {e' : UInt64} (hp : e &&& ptePresent = 0) (hl : IsLink e') : LinkStep flags e e'

theorem user_and_rights (e : UInt64) : (e ||| pteUser) &&& pteWritable = e &&& pteWritable ∧
    (e ||| pteUser) &&& pteNx = e &&& pteNx ∧ (e ||| pteUser) &&& pteUser ≠ 0 := by
  refine ⟨?_, ?_, ?_⟩ <;> rw [or_and_distrib]
  · rw [show pteUser &&& pteWritable = 0 by decide, UInt64.or_zero]
  · rw [show pteUser &&& pteNx = 0 by decide, UInt64.or_zero]
  · exact or_ne_zero_right (by decide)

theorem IsLink.open {e : UInt64} (h : IsLink e) : IsLink (e ||| pteUser) := by
  obtain ⟨h1, h2, h3, h4⟩ := h
  obtain ⟨-, k1, k2⟩ := user_and e
  obtain ⟨k3, k4, -⟩ := user_and_rights e
  exact ⟨k1 ▸ h1, k2 ▸ h2, k3 ▸ h3, k4 ▸ h4⟩

theorem LinkStep.trans {flags e e' e'' : UInt64} (h : LinkStep flags e e') (h' : LinkStep flags e' e'') :
    LinkStep flags e e'' := by
  cases h with
  | keep => exact h'
  | opened hu hp hh =>
    cases h' with
    | keep => exact .opened hu hp hh
    | opened _ _ _ =>
      rw [UInt64.or_assoc, UInt64.or_self]
      exact .opened hu hp hh
    | made hp' _ => exact absurd hp' (by rw [(user_and e).2.1]; exact hp)
  | made hp hl =>
    cases h' with
    | keep => exact .made hp hl
    | opened _ _ _ => exact .made hp hl.open
    | made hp' _ => exact absurd hp' hl.1

theorem LinkStep.present {flags e e' : UInt64} (h : LinkStep flags e e') (hp : e &&& ptePresent ≠ 0) :
    e' = e ∨ flags &&& pteUser ≠ 0 ∧ e &&& pteHuge = 0 ∧ e' = e ||| pteUser := by
  cases h with
  | keep => exact Or.inl rfl
  | opened hu _ hh => exact Or.inr ⟨hu, hh, rfl⟩
  | made hp' _ => exact absurd hp' hp

theorem LinkStep.user {flags e e' : UInt64} (h : LinkStep flags e e') (hp : e &&& ptePresent ≠ 0)
    (hu : e &&& pteUser ≠ 0) :
    e' &&& pteUser ≠ 0 := by
  cases h with
  | keep => exact hu
  | opened _ _ _ => exact (user_and_rights e).2.2
  | made hp' _ => exact absurd hp' hp

theorem LinkStep.zero_or_link {flags e e' : UInt64} (h : LinkStep flags e e') (he : e = 0 ∨ IsLink e) :
    e' = 0 ∨ IsLink e' := by
  cases h with
  | keep => exact he
  | opened _ hp _ =>
    refine Or.inr (IsLink.open (he.resolve_left fun h0 => hp ?_))
    rw [h0, UInt64.zero_and]
  | made _ hl => exact Or.inr hl

theorem LinkStep.to_user {flags e e' : UInt64} (h : LinkStep flags e e') : LinkStep pteUser e e' := by
  cases h with
  | keep => exact .keep
  | opened _ hp hh => exact .opened (by decide) hp hh
  | made hp hl => exact .made hp hl

theorem LinkStep.of_user {flags e e' : UInt64} (h : LinkStep (flags &&& pteUser) e e') : LinkStep flags e e' := by
  cases h with
  | keep => exact .keep
  | opened hu hp hh => exact .opened (by rwa [UInt64.and_assoc, UInt64.and_self] at hu) hp hh
  | made hp hl => exact .made hp hl

/-- **How the entries grow** when tables are made at `places`: those of the last level stay. -/
structure Grows (flags : UInt64) (places : List (UInt64 × Fin 512)) (T T' : TableMap)
    (mem mem' : Memory) : Prop where
  kept : ∀ {n ℓ i}, T.label n = some ℓ → ℓ.rank = 0 ∨ (n, i) ∉ places → readEntry mem' n i = readEntry mem n i
  step : ∀ {n ℓ i}, T.label n = some ℓ → LinkStep flags (readEntry mem n i) (readEntry mem' n i)
  fresh : ∀ {n ℓ i}, T'.label n = some ℓ → T.label n = none → readEntry mem' n i = 0 ∨ IsLink (readEntry mem' n i)

theorem Grows.of_eq {mem mem' : Memory} (flags : UInt64) (places : List (UInt64 × Fin 512))
    (hsame : ∀ {n ℓ i}, T.label n = some ℓ → readEntry mem' n i = readEntry mem n i)
    (hfresh : ∀ {n ℓ i}, T'.label n = some ℓ → T.label n = none → readEntry mem' n i = 0) :
    Grows flags places T T' mem mem' where
  kept hn _ := hsame hn
  step hn := by
    rw [hsame hn]
    exact .keep
  fresh hn hn' := Or.inl (hfresh hn hn')

theorem Grows.refl (flags : UInt64) (places : List (UInt64 × Fin 512)) (T : TableMap) (mem : Memory) :
    Grows flags places T T mem mem :=
  Grows.of_eq flags places (fun _ => rfl) fun h1 h2 => by rw [h2] at h1; cases h1

theorem Grows.of_user {flags : UInt64} {places : List (UInt64 × Fin 512)} {mem mem' : Memory}
    (h : Grows (flags &&& pteUser) places T T' mem mem') : Grows flags places T T' mem mem' := by
  exact ⟨h.kept, fun hn => (h.step hn).of_user, h.fresh⟩

theorem Grows.slot_eq {flags : UInt64} {places : List (UInt64 × Fin 512)} {mem mem' : Memory}
    (h : Grows flags places T T' mem mem') {n : UInt64} {ℓ : Label} {i : Fin 512} {r : Nat}
    (hn : T.label n = some ℓ) (hne : slot mem r n i ≠ .empty) :
    slot mem' r n i = slot mem r n i := by
  have hp : readEntry mem n i &&& ptePresent ≠ 0 := fun h0 => hne (slot_of_absent h0)
  cases (h.step (i := i) hn).present hp with
  | inl he => exact slot_congr he r
  | inr he =>
    obtain ⟨u1, u2, u3⟩ := user_and (readEntry mem n i)
    simp only [slot, he.2.2, u1, u2, u3]

/-! ## get_or_create_table -/

theorem Tabled.next_inj (h : Tabled L s T) {m n : UInt64} {ℓ ℓ' : Label} {i j : Fin 512} (hm : T.label m = some ℓ')
    (hn : T.label n = some ℓ) (hnew : L.next ℓ i ∉ T.names) (he : L.next ℓ' j = L.next ℓ i) : m = n ∧ j = i := by
  have hp := congrArg Label.path he
  rw [L.next_path, L.next_path] at hp
  obtain ⟨hpath, hij⟩ := List.append_inj' hp rfl
  have hij : j = i := by simpa using hij
  have hlow {o : UInt64} (ho : (⟨L.low o, [0]⟩ : Label) ∉ T.names) : L.low o = o := by
    by_contra hne
    exact ho (T.mem_names.mpr (h.shared hne))
  have howner : ℓ'.owner = ℓ.owner := by
    have hnew' := he ▸ hnew
    have hown := congrArg Label.owner he
    unfold Layout.next at hnew hnew' hown
    rw [hpath, hij] at hnew' hown
    by_cases hc : ℓ.path = [] ∧ i = 0
    · simp only [if_pos hc] at hnew hnew' hown
      rwa [hlow hnew, hlow hnew'] at hown
    · simpa only [if_neg hc] using hown
  have hℓ : ℓ' = ℓ := by
    cases ℓ
    cases ℓ'
    simp only [Label.mk.injEq] at hpath howner ⊢
    exact ⟨howner, hpath⟩
  exact ⟨h.inj (hℓ ▸ hm) hn, hij⟩

/-- One level down: `n'` is the table behind slot `i` of the table `n`. -/
structure Descended (L : Layout) (s : Vmm α) (T : TableMap) (n : UInt64) (ℓ : Label) (i : Fin 512)
    (flags n' : UInt64) (s' : Vmm α) (T' : TableMap) : Prop where
  ne_zero : n' ≠ 0
  step : Extends L s T s' T'
  same : SameLookups T s.mem s'.mem
  label : T'.label n' = some (L.next ℓ i)
  names : T'.names = insert (L.next ℓ i) T.names
  grows : Grows flags [(n, i)] T T' s.mem s'.mem
  user : flags &&& pteUser ≠ 0 → readEntry s'.mem n i &&& pteUser ≠ 0
  fresh : T.label n' = none ∧ (∀ j, readEntry s'.mem n' j = 0) ∨ slot s.mem ℓ.rank n i = .node n'

theorem Tabled.absent_notMem (h : Tabled L s T) {n : UInt64} {ℓ : Label} (hn : T.label n = some ℓ)
    (hr : 0 < ℓ.rank) {i : Fin 512} (hpr : readEntry s.mem n i &&& ptePresent = 0) : L.next ℓ i ∉ T.names := by
  rw [T.mem_names]
  rintro ⟨n', hn'⟩
  have hnode := h.linked hn hr hn'
  rw [slot_of_absent hpr] at hnode
  cases hnode

/-- The only slot that bears a name is the one to be linked. -/
theorem Tabled.next_eq (h : Tabled L s T) {n : UInt64} {ℓ : Label} {i : Fin 512} (hn : T.label n = some ℓ)
    (hnew : L.next ℓ i ∉ T.names) {o : UInt64} {is : List (Fin 512)} {j : Fin 512}
    (hj : L.next ℓ i = ⟨o, is ++ [j]⟩) : T.label n = some ⟨o, is⟩ := by
  refine hn.trans (congrArg some ?_)
  have hlow : (ℓ.path = [] ∧ i = 0) → L.low ℓ.owner = ℓ.owner := fun hc => by
    by_contra hne
    obtain ⟨m, hm⟩ := h.shared hne
    exact hnew (T.mem_names.mpr ⟨m, by rw [hm, Layout.next, if_pos hc]⟩)
  unfold Layout.next at hj
  split at hj
  · next hc =>
    rw [hlow hc] at hj
    cases ℓ
    simp only [Label.mk.injEq] at hj hc ⊢
    have := List.append_inj' (show [] ++ [0] = is ++ [j] from hj.2) rfl
    exact ⟨hj.1, hc.1.trans this.1⟩
  · cases ℓ
    simp only [Label.mk.injEq] at hj ⊢
    exact ⟨hj.1, (List.append_inj' hj.2 rfl).1⟩

theorem Tabled.make_link (h : Tabled L s T) {n : UInt64} {ℓ : Label} (hn : T.label n = some ℓ)
    (hr : 0 < ℓ.rank) {i : Fin 512} (hpr : readEntry s.mem n i &&& ptePresent = 0) (flags : UInt64) {a : UInt64}
    {pmm : α} (ha : allocPage s.pmm = (a, pmm)) (ha0 : a ≠ 0) : ∃ T', Descended L s T n ℓ i flags a
      ⟨writeEntry (zeroTable s.mem a) n i
        ((a &&& pteAddrMask) ||| ptePresent ||| pteWritable ||| (flags &&& pteUser)), pmm⟩ T' := by
  obtain ⟨hn0, hnf, hnsp⟩ := h.frame hn
  have hnew := h.absent_notMem hn hr hpr
  obtain ⟨f, hf, haf, -, haF, hnone, hv, hsp⟩ := h.alloc_frame ha ha0
  have hna {m : UInt64} {ℓ' : Label} (hm : T.label m = some ℓ') : m ≠ a := TableMap.ne_of_label hm hnone
  generalize he : (a &&& pteAddrMask) ||| ptePresent ||| pteWritable ||| (flags &&& pteUser) = e
  obtain ⟨he1, he2, he3⟩ : e &&& pteAddrMask = a ∧ e &&& ptePresent ≠ 0 ∧ e &&& pteHuge = 0 := he ▸ link_and haF
  obtain ⟨he4, he5, he6⟩ : e &&& pteWritable ≠ 0 ∧ e &&& pteNx = 0 ∧ e &&& pteUser = flags &&& pteUser :=
    he ▸ link_rights
  let mem := writeEntry (zeroTable s.mem a) n i e
  have hat : readEntry mem n i = e := readEntry_writeEntry ..
  have hsame {m : UInt64} {ℓ' : Label} {j : Fin 512} (hm : T.label m = some ℓ') (hne : ¬ (m = n ∧ j = i)) :
      readEntry mem m j = readEntry s.mem m j := by
    have hmF := (h.frame hm).2.1
    rw [readEntry_writeEntry_of_ne _ _ hmF hnf hne, readEntry_zeroTable_of_ne _ hmF haF (hna hm)]
  have hzero (j : Fin 512) : readEntry mem a j = 0 := by
    rw [readEntry_writeEntry_of_ne _ _ haF hnf fun hc => hna hn hc.1.symm, readEntry_zeroTable]
  have hlinked : slot mem ℓ.rank n i = .node a := by
    rw [slot_of_link (by rw [hat]; exact he2) (by rw [hat]; exact he3) hr, hat, he1]
  have hpath : (L.next ℓ i).path ≠ [] := by rw [L.next_path]; simp
  refine ⟨T.insert a (L.next ℓ i) hnone, ha0, ?_, ?_, TableMap.insert_label_self, rfl, ⟨?_, ?_, ?_⟩,
    fun hu => ?_, Or.inl ⟨hnone, hzero⟩⟩
  · refine h.add_table hf haf hv hsp hnone hnew (L.next_of_ne hpath) ?_
      (fun hj => ⟨n, h.next_eq hn hnew hj⟩) hzero ?_ ?_ ?_
    · intro p hp
      rw [hp] at hpath
      exact absurd rfl hpath
    · intro m ℓ' j hm _ hne
      refine hsame hm ?_
      rintro ⟨rfl, rfl⟩
      obtain rfl : ℓ' = ℓ := Option.some.inj (hm.symm.trans hn)
      exact hne rfl
    · intro m ℓ' j hm _ hnx
      obtain ⟨rfl, rfl⟩ := h.next_inj hm hn hnew hnx
      obtain rfl : ℓ' = ℓ := Option.some.inj (hm.symm.trans hn)
      exact ⟨hlinked, by rw [hat]; exact he3⟩
    · intro x hx
      have h1 := hx n ℓ (TableMap.insert_mono hn)
      have h2 := hx a _ TableMap.insert_label_self
      exact (writeEntry_of_lt _ _ h1).trans (by rw [zeroTable_apply, if_neg (by omega)])
  · intro m ℓ' is hm hlen
    refine h.labelled.lookup_graft hn hr (slot_of_absent hpr) hlinked (fun j => slot_of_absent ?_)
      (fun hm' hne => ?_) hm hlen
    · rw [hzero]; rfl
    · exact slot_congr (hsame hm' hne) _
  · intro m ℓ' j hm hout
    refine hsame hm ?_
    rintro ⟨rfl, rfl⟩
    obtain rfl : ℓ' = ℓ := Option.some.inj (hm.symm.trans hn)
    simp at hout
    omega
  · intro m ℓ' j hm
    by_cases hne : m = n ∧ j = i
    · obtain ⟨rfl, rfl⟩ := hne
      rw [hat]
      exact .made hpr ⟨he2, he3, he4, he5⟩
    · rw [hsame hm hne]
      exact .keep
  · intro m ℓ' j hm hm'
    obtain ⟨rfl, -⟩ : m = a ∧ ℓ' = L.next ℓ i := by
      cases TableMap.insert_cases hm with
      | inl hc => exact hc
      | inr hc => rw [hc.2] at hm'; cases hm'
    exact Or.inl (hzero j)
  · rw [hat, he6]
    exact hu

theorem Tabled.open_link (h : Tabled L s T) {n : UInt64} {ℓ : Label} (hn : T.label n = some ℓ)
    (hr : 0 < ℓ.rank) {i : Fin 512} (hpr : readEntry s.mem n i &&& ptePresent ≠ 0)
    (hh : readEntry s.mem n i &&& pteHuge = 0) {flags : UInt64} (hu : flags &&& pteUser ≠ 0) :
    Descended L s T n ℓ i flags (readEntry s.mem n i &&& pteAddrMask)
      { s with mem := writeEntry s.mem n i (readEntry s.mem n i ||| pteUser) } T := by
  have hnf := (h.frame hn).2.1
  have hnode := slot_of_link (r := ℓ.rank) hpr hh hr
  obtain ⟨hlab, -⟩ := h.labelled.closed hn hnode
  obtain ⟨u1, u2, u3⟩ := user_and (readEntry s.mem n i)
  have hslot {r : Nat} : slot (writeEntry s.mem n i (readEntry s.mem n i ||| pteUser)) r n i =
      slot s.mem r n i := by
    simp only [slot, readEntry_writeEntry, u1, u2, u3]
  refine ⟨(h.frame hlab).1, h.write hn (fun _ => hslot) (fun _ _ => u3.trans hh), ?_, hlab,
    (Finset.insert_eq_of_mem (T.mem_names.mpr ⟨_, hlab⟩)).symm, ⟨?_, ?_, fun h1 h2 => ?_⟩, fun _ =>
      ?_, Or.inr hnode⟩
  · intro m ℓ' is hm hlen
    refine h.labelled.lookup_congr (fun {m ℓ' j} hm' => ?_) hm hlen
    by_cases hat : m = n ∧ j = i
    · obtain ⟨rfl, rfl⟩ := hat
      exact hslot
    · exact slot_congr (readEntry_writeEntry_of_ne _ _ (h.frame hm').2.1 hnf hat) _
  · intro m ℓ' j hm hout
    refine readEntry_writeEntry_of_ne _ _ (h.frame hm).2.1 hnf ?_
    rintro ⟨rfl, rfl⟩
    obtain rfl : ℓ' = ℓ := Option.some.inj (hm.symm.trans hn)
    simp at hout
    omega
  · intro m ℓ' j hm
    by_cases hat : m = n ∧ j = i
    · obtain ⟨rfl, rfl⟩ := hat
      rw [readEntry_writeEntry]
      exact .opened hu hpr hh
    · rw [readEntry_writeEntry_of_ne _ _ (h.frame hm).2.1 hnf hat]
      exact .keep
  · rw [h2] at h1
    cases h1
  · rw [readEntry_writeEntry]
    exact (user_and_rights _).2.2

theorem Tabled.huge_notMem (h : Tabled L s T) {n : UInt64} {ℓ : Label} (hn : T.label n = some ℓ)
    (hr : 0 < ℓ.rank) {i : Fin 512} (hpr : readEntry s.mem n i &&& ptePresent ≠ 0)
    (hh : readEntry s.mem n i &&& pteHuge ≠ 0) : L.next ℓ i ∉ T.names := by
  rw [T.mem_names]
  rintro ⟨n', hn'⟩
  have hnode := h.linked hn hr hn'
  simp only [slot, hpr, hh, if_false, ne_eq, not_false_eq_true, if_true, Nat.pos_iff_ne_zero.mp hr] at hnode
  split at hnode <;> cases hnode

/-- **One level of a walk.** The table behind the slot, a fresh one if there was none;
`nullptr` when no frame is left or a huge page is in the way. -/
theorem getOrCreateTable_spec (h : Tabled L s T) {n : UInt64} {ℓ : Label} (hn : T.label n = some ℓ)
    (hr : 0 < ℓ.rank) (i : Fin 512) (flags : UInt64) :
    (∃ s', getOrCreateTable s n i flags = (0, s') ∧ Extends L s T s' T ∧ s'.mem = s.mem ∧ L.next ℓ i ∉ T.names ∧
      (allocPage s.pmm = (0, s'.pmm) ∨ L.huge ℓ)) ∨
    ∃ n' s' T', getOrCreateTable s n i flags = (n', s') ∧ Descended L s T n ℓ i flags n' s' T' := by
  by_cases hpr : readEntry s.mem n i &&& ptePresent = 0
  · cases ha : allocPage s.pmm with
    | mk a pmm =>
    by_cases ha0 : a = 0
    · have hz : (allocPage s.pmm).1 = 0 := by rw [ha]; exact ha0
      obtain ⟨hv, ⟨-, hsp⟩ | ⟨f, hf, hfa, -⟩⟩ := alloc h.valid
      · rw [ha] at hv hsp
        refine Or.inl ⟨{ s with pmm }, ?_, h.pmm hv hsp, rfl, h.absent_notMem hn hr hpr, Or.inl (by rw [ha0])⟩
        simp [getOrCreateTable, hpr, ha, ha0]
      · exact absurd (hfa.symm.trans hz) (h.spare_frame hf).2.1
    · obtain ⟨T', hdown⟩ := h.make_link hn hr hpr flags ha ha0
      refine Or.inr ⟨a, _, T', ?_, hdown⟩
      obtain ⟨f, -, -, -, haF, -⟩ := h.alloc_frame ha ha0
      simp only [getOrCreateTable, hpr, if_true, ha, if_neg ha0, (link_and haF).1]
  by_cases hh : readEntry s.mem n i &&& pteHuge = 0
  · right
    by_cases hu : flags &&& pteUser = 0
    · have hnode := slot_of_link (r := ℓ.rank) hpr hh hr
      obtain ⟨hlab, -⟩ := h.labelled.closed hn hnode
      have hnames : T.names = insert (L.next ℓ i) T.names :=
        (Finset.insert_eq_of_mem (T.mem_names.mpr ⟨_, hlab⟩)).symm
      refine ⟨_, s, T, ?_, (h.frame hlab).1, Extends.refl h, fun _ _ => rfl, hlab, hnames, Grows.refl _ _ _ _,
        fun hc => absurd hu hc, Or.inr hnode⟩
      simp [getOrCreateTable, hpr, hh, hu]
    · refine ⟨_, _, T, ?_, h.open_link hn hr hpr hh hu⟩
      simp [getOrCreateTable, hpr, hh, hu, (user_and (readEntry s.mem n i)).1]
  · refine Or.inl ⟨s, ?_, Extends.refl h, rfl, h.huge_notMem hn hr hpr hh, Or.inr ?_⟩
    · simp [getOrCreateTable, hpr, hh]
    · by_contra hhuge
      exact hh (h.plain hn hr hhuge hpr)

/-! ## vmm_map_page -/

theorem Grows.cons (hgrow : Grows flags [(n, i)] T T' s.mem s'.mem) (h : Tabled L s T) (hn : T.label n = some ℓ)
    (hr : 0 < ℓ.rank) (hx : Extends L s T s' T')
    (hwhere : T.label n' = none ∧ (∀ j, readEntry s'.mem n' j = 0) ∨ slot s.mem ℓ.rank n i = .node n')
    (hgrow' : Grows flags (Radix.trail (slot s'.mem) (L.next ℓ i).rank n' is) T' T'' s'.mem s''.mem) :
    Grows flags (Radix.trail (slot s.mem) ℓ.rank n (i :: is)) T T'' s.mem s''.mem := by
  refine ⟨fun {m ℓ' j} hm hout => ?_, fun hm => (hgrow.step hm).trans (hgrow'.step (hx.mono hm)),
    fun {m ℓ' j} hm hm' => ?_⟩
  · by_cases hzero : ℓ'.rank = 0
    · rw [hgrow'.kept (hx.mono hm) (Or.inl hzero), hgrow.kept hm (Or.inl hzero)]
    replace hout := hout.resolve_left hzero
    rw [Radix.trail, List.mem_cons, not_or] at hout
    rw [hgrow'.kept (hx.mono hm) (Or.inr ?_), hgrow.kept hm (Or.inr (by simpa using hout.1))]
    intro hmem
    rcases hwhere with ⟨hnone, hempty⟩ | hnode
    · -- the walk ends in the fresh table
      have hat : m = n' := by
        cases is with
        | nil => cases hmem
        | cons i' is =>
          rw [Radix.trail, slot_of_absent (by rw [hempty]; rfl)] at hmem
          simpa using congrArg Prod.fst (List.mem_singleton.mp hmem)
      rw [hat, hnone] at hm
      cases hm
    · obtain ⟨hn', hrank⟩ := h.labelled.closed hn hnode
      rw [hnode] at hout
      simp only [show ℓ.rank - 1 = (L.next ℓ i).rank by omega] at hout
      rw [h.labelled.trail_congr (fun {m ℓ' j n''} hm => ?_) hn'] at hmem
      · exact hout.2 hmem
      · by_cases hat : m = n ∧ j = i
        · obtain ⟨rfl, rfl⟩ := hat
          obtain rfl : ℓ' = ℓ := Option.some.inj (hm.symm.trans hn)
          rw [hgrow.slot_eq hn (by rw [hnode]; simp)]
        · rw [slot_congr (hgrow.kept hm (Or.inr (by simpa using hat)))]
  · cases hmid : T'.label m with
    | none => exact hgrow'.fresh hm hmid
    | some ℓ₁ =>
      exact (hgrow'.step hmid).zero_or_link (hgrow.fresh hmid hm')

def Layout.names (L : Layout) : Label → List (Fin 512) → Finset Label
  | _, [] => ∅
  | ℓ, i :: is => insert (L.next ℓ i) (L.names (L.next ℓ i) is)

def OutOfFrames (pmm : α) : Prop := ∃ a, Valid a ∧ allocPage a = (0, pmm)

theorem OutOfFrames.spare_eq {α : Type} [PageAllocator α] [CompletePageAllocator α] {pmm : α}
    (h : OutOfFrames pmm) : spare pmm = ∅ := by
  obtain ⟨a, hv, ha⟩ := h
  have hz : spare a = ∅ := alloc_zero hv (by rw [ha])
  obtain ⟨-, ⟨-, h2⟩ | ⟨f, hf, -⟩⟩ := alloc hv
  · rw [ha] at h2
    exact h2.trans hz
  · rw [hz] at hf
    cases hf

theorem SameLookups.trans {mem mem' mem'' : Memory} (h : SameLookups T mem mem') (h' : SameLookups T' mem' mem'')
    (hm : ∀ {n ℓ}, T.label n = some ℓ → T'.label n = some ℓ) : SameLookups T mem mem'' :=
  fun hn hlen => (h' (hm hn) hlen).trans (h hn hlen)

/-- **A walk that creates its tables**, from a table down. -/
theorem createTables_spec (flags : UInt64) :
    ∀ (is : List (Fin 512)) {s : Vmm α} {T : TableMap} {n : UInt64} {ℓ : Label},
    Tabled L s T → T.label n = some ℓ → is.length ≤ ℓ.rank →
    (∃ s' T', createTables s n flags is = (0, s') ∧ Extends L s T s' T' ∧ SameLookups T s.mem s'.mem ∧
      Grows flags (Radix.trail (slot s.mem) ℓ.rank n is) T T' s.mem s'.mem ∧
      T'.names ⊆ T.names ∪ L.names ℓ is ∧ ¬ L.names ℓ is ⊆ T'.names ∧
      (OutOfFrames s'.pmm ∨ ∃ ℓ' ∈ insert ℓ (L.names ℓ is), L.huge ℓ')) ∨
    ∃ n' s' T', createTables s n flags is = (n', s') ∧ n' ≠ 0 ∧ Extends L s T s' T' ∧ SameLookups T s.mem s'.mem ∧
      Grows flags (Radix.trail (slot s.mem) ℓ.rank n is) T T' s.mem s'.mem ∧
      (flags &&& pteUser ≠ 0 → ∀ x ∈ Radix.trail (slot s'.mem) ℓ.rank n is,
        readEntry s'.mem x.1 x.2 &&& pteUser ≠ 0) ∧
      T'.label n' = some (is.foldl L.next ℓ) ∧ T'.names = T.names ∪ L.names ℓ is
  | [], s, T, n, ℓ, h, hn, _ =>
    Or.inr ⟨n, s, T, rfl, (h.frame hn).1, Extends.refl h, fun _ _ => rfl, Grows.refl _ _ _ _,
      fun _ _ hx => absurd hx List.not_mem_nil, hn, by simp [Layout.names]⟩
  | i :: is, s, T, n, ℓ, h, hn, hlen => by
    have hr : 0 < ℓ.rank := by simp at hlen; omega
    have hrank := L.rank_next i hr
    rcases getOrCreateTable_spec h hn hr i flags with
      ⟨s₁, he, hx, hm, hnew, hwhy⟩ | ⟨n₁, s₁, T₁, he, hne, hx, hsame, hn₁, hnames, hgrow, huser, hwhere⟩
    · left
      refine ⟨s₁, T, by simp [createTables, he], hx, fun _ _ => by rw [hm], ?_, Finset.subset_union_left,
        fun hsub => ?_, ?_⟩
      · rw [hm]
        exact Grows.refl _ _ _ _
      · exact hnew (hsub (Finset.mem_insert_self ..))
      · rcases hwhy with hwhy | hwhy
        · exact Or.inl ⟨s.pmm, h.valid, hwhy⟩
        · exact Or.inr ⟨ℓ, Finset.mem_insert_self .., hwhy⟩
    · have hstep : createTables s n flags (i :: is) = createTables s₁ n₁ flags is := by simp [createTables, he, hne]
      have hnames' : T₁.names ∪ L.names (L.next ℓ i) is = T.names ∪ L.names ℓ (i :: is) := by
        rw [hnames, Layout.names, Finset.insert_union, Finset.union_insert]
      rcases createTables_spec flags is hx.tabled hn₁ (by simp at hlen; omega) with
        ⟨s', T', he', hx', hsame', hgrow', hsub, hmiss, hwhy⟩ | ⟨n', s', T', he', hne', hx', hsame', hgrow',
          huser', hn', hall⟩
      · left
        refine ⟨s', T', hstep.trans he', hx.trans hx', hsame.trans hsame' hx.mono,
          hgrow.cons h hn hr hx hwhere hgrow', hnames' ▸ hsub, fun hs => hmiss ?_, ?_⟩
        · exact fun ℓ' hℓ' => hs (Finset.mem_insert_of_mem hℓ')
        · rcases hwhy with hwhy | ⟨ℓ', hℓ', hhuge⟩
          · exact Or.inl hwhy
          · exact Or.inr ⟨ℓ', Finset.mem_insert_of_mem hℓ', hhuge⟩
      · refine Or.inr ⟨n', s', T', hstep.trans he', hne', hx.trans hx', hsame.trans hsame' hx.mono,
          hgrow.cons h hn hr hx hwhere hgrow', fun hu x hmem => ?_, hn', hall.trans hnames'⟩
        have hnode : slot s'.mem ℓ.rank n i = .node n₁ :=
          hx'.tabled.linked (hx'.mono (hx.mono hn)) hr (hx'.mono hn₁)
        rw [Radix.trail, hnode] at hmem
        simp only [show ℓ.rank - 1 = (L.next ℓ i).rank by omega] at hmem
        cases List.mem_cons.mp hmem with
        | inl hmem =>
          subst hmem
          have hlink : slot s₁.mem ℓ.rank n i = .node n₁ := hx.tabled.linked (hx.mono hn) hr hn₁
          exact (hgrow'.step (hx.mono hn)).user (fun h0 => by rw [slot_of_absent h0] at hlink; cases hlink)
            (huser hu)
        | inr hmem => exact huser' hu x hmem

theorem Tabled.follow (h : Tabled L s T) : ∀ (is : List (Fin 512)) {n : UInt64} {ℓ : Label}, T.label n = some ℓ →
    is.length ≤ ℓ.rank → L.names ℓ is ⊆ T.names → ∃ m, Radix.follow (slot s.mem) ℓ.rank n is = some m
  | [], n, _, _, _, _ => ⟨n, rfl⟩
  | i :: is, n, ℓ, hn, hlen, hsub => by
    have hr : 0 < ℓ.rank := by simp at hlen; omega
    have hrank := L.rank_next i hr
    obtain ⟨n', hn'⟩ := T.mem_names.mp (hsub (Finset.mem_insert_self ..))
    obtain ⟨m, hm⟩ := h.follow is hn' (by simp at hlen; omega) fun ℓ' hℓ' => hsub (Finset.mem_insert_of_mem hℓ')
    refine ⟨m, ?_⟩
    rw [Radix.follow, h.linked hn hr hn']
    simp only
    rwa [show ℓ.rank - 1 = (L.next ℓ i).rank by omega]

/-- Where no huge page is in the way, a walk that lacks a table finds nothing. -/
theorem Tabled.lookup_eq_none (h : Tabled L s T) : ∀ (is : List (Fin 512)) {n : UInt64} {ℓ : Label} {i : Fin 512},
    T.label n = some ℓ → is.length = ℓ.rank → (∀ ℓ' ∈ insert ℓ (L.names ℓ is), ¬ L.huge ℓ') →
    ¬ L.names ℓ is ⊆ T.names → Radix.lookup (slot s.mem) n (is ++ [i]) = none
  | [], _, _, _, _, _, _, hmiss => absurd (Finset.empty_subset _) hmiss
  | j :: is, n, ℓ, i, hn, hlen, hplain, hmiss => by
    have hr : 0 < ℓ.rank := by simp at hlen; omega
    have hlen' : (is ++ [i]).length = ℓ.rank := by simpa using hlen
    rw [List.cons_append, Radix.lookup_cons, hlen']
    by_cases hpr : readEntry s.mem n j &&& ptePresent = 0
    · rw [slot_of_absent hpr]
    have hnode := slot_of_link hpr (h.plain hn hr (hplain ℓ (Finset.mem_insert_self ..)) hpr) hr
    obtain ⟨hn', hrank⟩ := h.labelled.closed hn hnode
    rw [hnode]
    refine h.lookup_eq_none is hn' (by simp at hlen; omega)
      (fun ℓ' hℓ' => hplain ℓ' (Finset.mem_insert_of_mem hℓ')) ?_
    exact fun hsub => hmiss (Finset.insert_subset (T.mem_names.mpr ⟨_, hn'⟩) hsub)

/-- The page of `q` at `w` and the page of `p` at `v` have one and the same entry. -/
def Layout.SamePage (L : Layout) (p v q w : UInt64) : Prop :=
  pageNumber v = pageNumber w ∧
    (L.next (.root p) (splitVaddr v).pml4I).owner = (L.next (.root q) (splitVaddr v).pml4I).owner

instance (L : Layout) (p v q w : UInt64) : Decidable (L.SamePage p v q w) := inferInstanceAs (Decidable (_ ∧ _))

theorem Layout.SamePage.symm {L : Layout} {p v q w : UInt64} (h : L.SamePage p v q w) : L.SamePage q w p v := by
  obtain ⟨h1, h2⟩ := h
  have hi : (splitVaddr v).pml4I = (splitVaddr w).pml4I := by
    have := path_eq_iff.mpr h1
    simp only [path, tablePath, List.cons_append, List.cons.injEq] at this
    exact this.1
  exact ⟨h1.symm, by rw [← hi, h2]⟩

theorem Layout.samePage_iff (L : Layout) (p v q w : UInt64) : L.SamePage p v q w ↔
    (tablePath v).foldl L.next (.root p) = (tablePath w).foldl L.next (.root q) ∧
    (splitVaddr v).ptI = (splitVaddr w).ptI := by
  have hpath : path v = path w ↔ tablePath v = tablePath w ∧ (splitVaddr v).ptI = (splitVaddr w).ptI := by
    simp [path, tablePath, and_assoc]
  rw [SamePage, ← path_eq_iff, hpath, tablePath, tablePath, L.foldl_root, L.foldl_root, Label.mk.injEq]
  constructor
  · rintro ⟨⟨h1, h2⟩, h3⟩
    obtain ⟨h4, -⟩ := List.cons.inj h1
    exact ⟨⟨h4 ▸ h3, h1⟩, h2⟩
  · rintro ⟨⟨h1, h2⟩, h3⟩
    obtain ⟨h4, -⟩ := List.cons.inj h2
    exact ⟨⟨h2, h3⟩, by rw [h1, h4]⟩

theorem Tabled.follow_eq_iff (h : Tabled L s T) {p q pt : UInt64} (hp : T.label p = some (.root p))
    (hq : T.label q = some (.root q)) {v w : UInt64} (hf : Radix.follow (slot s.mem) 3 p (tablePath v) = some pt) :
    Radix.follow (slot s.mem) 3 q (tablePath w) = some pt ∧ (splitVaddr w).ptI = (splitVaddr v).ptI ↔
      L.SamePage p v q w := by
  have hlab := (h.labelled.follow_label (ℓ := .root p) hp hf).1
  rw [L.samePage_iff]
  constructor
  · rintro ⟨h1, h2⟩
    have := (h.labelled.follow_label (ℓ := .root q) hq h1).1
    exact ⟨Option.some.inj (hlab.symm.trans this), h2.symm⟩
  · rintro ⟨h1, h2⟩
    refine ⟨?_, h2.symm⟩
    -- the first step leads to the same table, and then the paths agree
    rw [tablePath, L.foldl_root, tablePath, L.foldl_root, Label.mk.injEq] at h1
    obtain ⟨h3, h4⟩ := h1
    obtain ⟨h5, h6⟩ := List.cons.inj h4
    have hnext : L.next (.root q) (splitVaddr w).pml4I = L.next (.root p) (splitVaddr v).pml4I := by
      rw [← h5] at h3 ⊢
      have := L.next_path (.root q) (splitVaddr v).pml4I
      have := L.next_path (.root p) (splitVaddr v).pml4I
      generalize L.next (.root q) (splitVaddr v).pml4I = a at *
      generalize L.next (.root p) (splitVaddr v).pml4I = b at *
      cases a
      cases b
      simp_all [Label.root]
    rw [tablePath, Radix.follow] at hf ⊢
    rw [← h6]
    cases hs : slot s.mem 3 p (splitVaddr v).pml4I with
    | empty => rw [hs] at hf; cases hf
    | leaf a => rw [hs] at hf; cases hf
    | node n' =>
      obtain ⟨h7, -⟩ := h.labelled.closed (ℓ := .root p) hp hs
      have hs' : slot s.mem 3 q (splitVaddr w).pml4I = .node n' :=
        h.linked (ℓ := .root q) hq (by simp) (hnext ▸ h7)
      rw [hs']
      rwa [hs] at hf

/-- **Writing a page's entry** changes the translations that end in it, and no other. -/
theorem Tabled.write_leaf (h : Tabled L s T) {p v pt e : UInt64} (hp : T.label p = some (.root p))
    (hf : Radix.follow (slot s.mem) 3 p (tablePath v) = some pt) :
    let mem := writeEntry s.mem pt (splitVaddr v).ptI e
    Extends L s T { s with mem } T ∧
      ∀ {q w}, T.label q = some (.root q) → Radix.lookup (slot mem) q (path w) =
        if L.SamePage p v q w then (if e &&& ptePresent = 0 then none else some (e &&& pteAddrMask, []))
        else Radix.lookup (slot s.mem) q (path w) := by
  intro mem
  obtain ⟨hlab, hrank⟩ := h.labelled.follow_label (ℓ := .root p) hp hf
  have hr0 : ((tablePath v).foldl L.next (.root p)).rank = 0 := by
    have : (tablePath v).length = 3 := rfl
    rw [this, Label.rank_root] at hrank
    omega
  have hx : Extends L s T { s with mem } T :=
    h.write hlab (fun hr => by rw [hr0] at hr; cases hr) (fun hr => by rw [hr0] at hr; cases hr)
  refine ⟨hx, fun {q w} hq => ?_⟩
  have hread {n : UInt64} {ℓ : Label} {i : Fin 512} (hn : T.label n = some ℓ)
    (hne : ¬ (n = pt ∧ i = (splitVaddr v).ptI)) :
      slot mem ℓ.rank n i = slot s.mem ℓ.rank n i :=
    slot_congr (readEntry_writeEntry_of_ne _ _ (h.frame hn).2.1 (h.frame hlab).2.1 hne) _
  by_cases hsame : L.SamePage p v q w
  · obtain ⟨h1, h2⟩ := (h.follow_eq_iff hp hq hf).mpr hsame
    have h3 : Radix.follow (slot mem) 3 q (tablePath w) = some pt := by
      refine h.labelled.follow_mono (ℓ := .root q) (fun {n ℓ i n'} hn hs => ?_) hq h1
      refine (hread hn ?_).trans hs
      rintro ⟨rfl, rfl⟩
      obtain rfl := Option.some.inj (hn.symm.trans hlab)
      rw [hr0] at hs
      exact slot_zero_ne_node hs
    rw [if_pos hsame, path, Radix.lookup_of_follow h3, h2]
    by_cases he : e &&& ptePresent = 0 <;> simp [slot, mem, readEntry_writeEntry, he]
  · rw [if_neg hsame]
    exact h.labelled.lookup_write (ℓ := .root q) hlab hr0 (fun hn hne => hread hn hne) hq rfl
      fun hat => hsame ((h.follow_eq_iff hp hq hf).mp hat)

/-- **`vmm_map_page`.** Without all its tables it stops after making those it could; with them it
writes the page's entry. -/
theorem vmmMapPage_cases (h : Tabled L s T) {p : UInt64} (hp : T.label p = some (.root p)) (v pa flags : UInt64) :
    let s' := vmmMapPage s p v pa flags
    let places := Radix.trail (slot s.mem) 3 p (tablePath v)
    (mapTables s p v flags).1 = 0 ∧
      (∃ T', Extends L s T s' T' ∧ SameLookups T s.mem s'.mem ∧ Grows flags places T T' s.mem s'.mem ∧
      T'.names ⊆ T.names ∪ L.names (.root p) (tablePath v) ∧ ¬ L.names (.root p) (tablePath v) ⊆ T'.names ∧
      (OutOfFrames s'.pmm ∨ ∃ ℓ ∈ insert (.root p) (L.names (.root p) (tablePath v)), L.huge ℓ)) ∨
    (mapTables s p v flags).1 ≠ 0 ∧ ∃ pt s₁ T', Extends L s T s₁ T' ∧ SameLookups T s.mem s₁.mem ∧
      Grows flags places T T' s.mem s₁.mem ∧ T'.names = T.names ∪ L.names (.root p) (tablePath v) ∧
      Radix.follow (slot s₁.mem) 3 p (tablePath v) = some pt ∧
      (flags &&& pteUser ≠ 0 →
        ∀ x ∈ Radix.trail (slot s₁.mem) 3 p (tablePath v), readEntry s₁.mem x.1 x.2 &&& pteUser ≠ 0) ∧
      s' = { s₁ with mem := writeEntry s₁.mem pt (splitVaddr v).ptI ((pa &&& pteAddrMask) ||| flags |||
      ptePresent) } := by
  have hdef : mapTables s p v flags = createTables s p (flags &&& pteUser) (tablePath v) := rfl
  have hu : (flags &&& pteUser) &&& pteUser = flags &&& pteUser := by rw [UInt64.and_assoc, UInt64.and_self]
  rcases createTables_spec (flags &&& pteUser) (tablePath v) h hp (Nat.le_refl 3) with
    ⟨s', T', he, hx, hsame, hgrow, hsub, hmiss, hwhy⟩ | ⟨pt, s₁, T', he, hne, hx, hsame, hgrow, huser, hpt, hnames⟩
  · left
    have hs : vmmMapPage s p v pa flags = s' := by simp [vmmMapPage, hdef, he]
    exact ⟨by rw [hdef, he], T', hs ▸ hx, hs ▸ hsame, hs ▸ hgrow.of_user, hsub, hmiss, hs ▸ hwhy⟩
  · right
    have hp' := hx.mono hp
    obtain ⟨m, hm⟩ := hx.tabled.follow (tablePath v) hp' (Nat.le_refl 3) (hnames ▸ Finset.subset_union_right)
    obtain rfl : m = pt := hx.tabled.inj (hx.tabled.labelled.follow_label hp' hm).1 hpt
    refine ⟨by rw [hdef, he]; exact hne, m, s₁, T', hx, hsame, hgrow.of_user, hnames, hm,
      fun hf => huser (by rwa [hu]), ?_⟩
    simp [vmmMapPage, hdef, he, hne]

/-- Its effect on the translations, for flags without address bits. -/
theorem vmmMapPage_spec (h : Tabled L s T) {p : UInt64} (hp : T.label p = some (.root p)) (v pa : UInt64)
    {flags : UInt64} (hflags : flags &&& pteAddrMask = 0) :
    let s' := vmmMapPage s p v pa flags
    (mapTables s p v flags).1 = 0 ∧ (∃ T', Extends L s T s' T' ∧ SameLookups T s.mem s'.mem ∧
      T'.names ⊆ T.names ∪ L.names (.root p) (tablePath v) ∧ ¬ L.names (.root p) (tablePath v) ⊆ T'.names ∧
      (OutOfFrames s'.pmm ∨ ∃ ℓ ∈ insert (.root p) (L.names (.root p) (tablePath v)), L.huge ℓ)) ∨
    (mapTables s p v flags).1 ≠ 0 ∧ ∃ T', Extends L s T s' T' ∧
    T'.names = T.names ∪ L.names (.root p) (tablePath v) ∧
      ∀ {q w}, T.label q = some (.root q) → Radix.lookup (slot s'.mem) q (path w) =
        if L.SamePage p v q w then some (pa &&& pteAddrMask, []) else Radix.lookup (slot s.mem) q (path w) := by
  rcases vmmMapPage_cases h hp v pa flags with
    ⟨h0, T', hx, hsame, -, hsub, hmiss, hwhy⟩ | ⟨h0, pt, s₁, T', hx, hsame, -, hnames, hf, -, hs⟩
  · exact Or.inl ⟨h0, T', hx, hsame, hsub, hmiss, hwhy⟩
  · obtain ⟨hwx, hw⟩ := hx.tabled.write_leaf (e := (pa &&& pteAddrMask) ||| flags ||| ptePresent) (hx.mono hp) hf
    refine Or.inr ⟨h0, T', hs ▸ hx.trans hwx, hnames, fun {q w} hq => ?_⟩
    have hold : Radix.lookup (slot s₁.mem) q (path w) = Radix.lookup (slot s.mem) q (path w) := hsame hq rfl
    rw [hs, hw (hx.mono hq), hold, (leaf_and hflags).1, if_neg (leaf_and hflags).2]

/-! ## vmm_unmap_page and vmm_create_address_space -/

/-- **`vmm_unmap_page`** clears one page, where there are no huge pages. -/
theorem vmmUnmapPage_spec (h : Tabled L s T) (hplain : ∀ ℓ, ¬ L.huge ℓ) {p : UInt64}
    (hp : T.label p = some (.root p)) (v : UInt64) :
    Extends L s T (vmmUnmapPage s p v) T ∧ ∀ {q w}, T.label q = some (.root q) →
      Radix.lookup (slot (vmmUnmapPage s p v).mem) q (path w) =
        if L.SamePage p v q w then none else Radix.lookup (slot s.mem) q (path w) := by
  rw [vmmUnmapPage_eq]
  cases hf : Radix.follow (slot s.mem) 3 p (tablePath v) with
  | none =>
    refine ⟨Extends.refl h, fun {q w} hq => ?_⟩
    by_cases hsame : L.SamePage p v q w
    · rw [if_pos hsame]
      refine h.lookup_eq_none (tablePath w) hq rfl (fun ℓ _ => hplain ℓ) fun hsub => ?_
      obtain ⟨pt, hfq⟩ := h.follow (tablePath w) hq (Nat.le_refl 3) hsub
      rw [((h.follow_eq_iff hq hp hfq).mpr hsame.symm).1] at hf
      cases hf
    · rw [if_neg hsame]
      rfl
  | some pt =>
    obtain ⟨h1, h2⟩ := h.write_leaf (e := 0) hp hf
    exact ⟨h1, fun hq => by simpa using h2 hq⟩

/-- **`vmm_create_address_space`**: a root with no translations, or nothing but a failed request. -/
theorem vmmCreateAddressSpace_spec (h : Tabled L s T) :
    (∃ s', vmmCreateAddressSpace s = (0, s') ∧ Extends L s T s' T ∧ s'.mem = s.mem ∧ OutOfFrames s'.pmm) ∨
    ∃ p s' T', vmmCreateAddressSpace s = (p, s') ∧ p ≠ 0 ∧ T.label p = none ∧ Extends L s T s' T' ∧
      SameLookups T s.mem s'.mem ∧ T'.label p = some (.root p) ∧ T'.names = insert (.root p) T.names ∧
      (∀ i, readEntry s'.mem p i = 0) ∧ ∀ {n ℓ i}, T.label n = some ℓ →
      readEntry s'.mem n i = readEntry s.mem n i := by
  obtain ⟨hv, ⟨h0, hsp⟩ | ⟨f, hf, ha, hsp⟩⟩ := alloc h.valid
  · refine Or.inl ⟨{ s with pmm := (allocPage s.pmm).2 }, ?_, h.pmm hv hsp, rfl, s.pmm, h.valid, ?_⟩
    · simp [vmmCreateAddressSpace, h0]
    · rw [← h0]
  · right
    generalize haa : (allocPage s.pmm).1 = a at ha
    obtain ⟨haf, ha0, haF, hnone⟩ := h.spare_frame hf
    rw [← ha] at haf ha0 haF hnone
    have hsame {n : UInt64} {ℓ : Label} {i : Fin 512} (hn : T.label n = some ℓ) :
        readEntry (zeroTable s.mem a) n i = readEntry s.mem n i :=
      readEntry_zeroTable_of_ne _ (h.frame hn).2.1 haF (TableMap.ne_of_label hn hnone) i
    have hnew : Label.root a ∉ T.names := by
      rw [T.mem_names]
      rintro ⟨n, hn⟩
      obtain rfl := h.root hn
      rw [hn] at hnone
      cases hnone
    have hnext (j : Fin 512) : L.next (.root a) j = ⟨a, [j]⟩ := by
      unfold Layout.next Label.root
      split
      · next hc => rw [h.alone hnone, hc.2]
      · rfl
    refine ⟨a, ⟨zeroTable s.mem a, (allocPage s.pmm).2⟩, T.insert a (.root a) hnone, ?_, ha0, hnone, ?_, ?_,
      TableMap.insert_label_self, rfl, readEntry_zeroTable _ _, hsame⟩
    · simp [vmmCreateAddressSpace, haa, ha0]
    · refine h.add_table hf ha hv hsp hnone hnew hnext ?_ ?_ (readEntry_zeroTable _ _)
        (fun hn _ _ => hsame hn) ?_ ?_
      · intro p hp
        exact (Label.mk.inj hp).1
      · intro o is i hi
        have := congrArg Label.path hi
        simp [Label.root] at this
      · intro n ℓ i _ _ hc
        have := congrArg Label.path hc
        rw [L.next_path] at this
        simp [Label.root] at this
      · intro x hx
        have h2 := hx a _ TableMap.insert_label_self
        rw [zeroTable_apply, if_neg (by omega)]
    · exact fun hn hlen => h.labelled.lookup_congr (fun hn' => slot_congr (hsame hn') _) hn hlen

theorem Extends.create_grows (hx : Extends L s T s' T') {p : UInt64} (hnames : T'.names = insert (.root p) T.names)
    (hzero : ∀ i, readEntry s'.mem p i = 0)
    (hsame : ∀ {n ℓ i}, T.label n = some ℓ → readEntry s'.mem n i = readEntry s.mem n i) :
    Grows 0 [] T T' s.mem s'.mem := by
  refine Grows.of_eq 0 [] hsame fun {n ℓ i} hn hnone => ?_
  have hmem := T'.mem_names.mpr ⟨n, hn⟩
  rw [hnames, Finset.mem_insert] at hmem
  cases hmem with
  | inl hroot =>
    subst hroot
    rw [hx.tabled.root hn]
    exact hzero i
  | inr hold =>
    obtain ⟨m, hm⟩ := T.mem_names.mp hold
    obtain rfl := hx.tabled.inj (hx.mono hm) hn
    rw [hm] at hnone
    cases hnone

end KernelOs
