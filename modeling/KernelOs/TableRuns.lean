import KernelOs.TableFrames

/-!
# No frame of a table is lost

What one call of `vmm_map_page` does with the free frames, for an address space that any run of
calls made, and which frames the memory manager holds after the run.
-/

namespace KernelOs
open Lib LawfulPageAllocator CompletePageAllocator

/-- What `vmm_map_page` writes at the end of the path `is`, when `rest` of the indices is still to go. -/
def MadeEntry (mem : Memory) (p pa flags : UInt64) (is : List (Fin 512)) : List (Fin 512) → UInt64 → Prop
  | [], e => e = (pa &&& pteAddrMask) ||| flags ||| ptePresent
  | _ :: _, e => MadeLink flags e ∧ Radix.follow (slot mem) 3 p is = some (e &&& pteAddrMask)

/-- `n` is a table below `p` on the way to `v`, and holds nothing but the entry on that way, if any. -/
def NewTable (mem : Memory) (p v pa flags n : UInt64) : Prop :=
  ∃ is i rest, is ≠ [] ∧ path v = is ++ i :: rest ∧ Radix.follow (slot mem) 3 p is = some n ∧
    (∀ j, j ≠ i → readEntry mem n j = 0) ∧
    (readEntry mem n i = 0 ∨ MadeEntry mem p pa flags (is ++ [i]) rest (readEntry mem n i))

/-- The page at `v` has the entry `e`. -/
def HasEntry (mem : Memory) (p v e : UInt64) : Prop :=
  ∃ pt, Radix.follow (slot mem) 3 p (tablePath v) = some pt ∧ readEntry mem pt (splitVaddr v).ptI = e

/-- **The account of a call** `vmm_map_page(p, v, pa, flags)` that leads from `s` to `s'`. -/
structure MapAccount (s s' : Vmm Pmm) (p v pa flags : UInt64) : Prop where
  missing_le : missing s.mem p (tablePath v) ≤ 3
  succeeds : HasEntry s'.mem p v ((pa &&& pteAddrMask) ||| flags ||| ptePresent) ↔
    missing s.mem p (tablePath v) ≤ s.pmm.freePages.toNat
  free : s'.pmm.freePages.toNat + min (missing s.mem p (tablePath v)) s.pmm.freePages.toNat = s.pmm.freePages.toNat
  linked : ∀ f ∈ s.pmm.clearPages, f ∉ s'.pmm.clearPages → NewTable s'.mem p v pa flags (UInt64.ofNat (f * 4096))

/-! ## One call -/

section
variable {α : Type} [PageAllocator α] [LawfulPageAllocator α] {s s₁ s' : Vmm α} {T T₁ : TableMap}
  {n p v pa flags : UInt64} {is : List (Fin 512)} {i : Fin 512} {f : Nat}

theorem tablePath_length (v : UInt64) : (tablePath v).length = 3 := rfl

omit [PageAllocator α] [LawfulPageAllocator α] in
theorem missing_le_length (mem : Memory) : ∀ (is : List (Fin 512)) (n : UInt64), missing mem n is ≤ is.length
  | [], _ => Nat.le_refl 0
  | i :: is, n => by
    rw [missing]
    split
    · rfl
    · exact Nat.le_succ_of_le (missing_le_length mem is _)

/-- The tables on the way to `v` were made, or the first of them as far as the frames went. -/
structure TablesMade (s : Vmm α) (T : TableMap) (s₁ : Vmm α) (T₁ : TableMap) (p v flags : UInt64) : Prop where
  tabled : Tabled separate s T
  root : T.label p = some (.root p)
  step : Extends separate s T s₁ T₁
  same : SameLookups T s.mem s₁.mem
  names : T₁.names ⊆ T.names ∪ separate.names (.root p) (tablePath v)
  filled : ∀ {m}, IsFrame m → m.toNat / 4096 ∈ spare s.pmm → m.toNat / 4096 ∉ spare s₁.pmm → Filled flags s₁.mem m

theorem MadeLink.of_user {e : UInt64} (h : MadeLink (flags &&& pteUser) e) : MadeLink flags e := by
  unfold MadeLink at h ⊢
  rwa [UInt64.and_assoc, UInt64.and_self] at h

theorem mapTables_made (h : Tabled separate s T) (hp : T.label p = some (.root p)) (v flags : UInt64) :
    ∃ pt s₁ T₁, mapTables s p v flags = (pt, s₁) ∧ TablesMade s T s₁ T₁ p v flags ∧
      (pt = 0 ∧ ¬ separate.names (.root p) (tablePath v) ⊆ T₁.names ∧ OutOfFrames s₁.pmm ∨
        pt ≠ 0 ∧ T₁.label pt = some ⟨p, tablePath v⟩ ∧ T₁.names = T.names ∪ separate.names (.root p)
    (tablePath v)) := by
  have hdef : mapTables s p v flags = createTables s p (flags &&& pteUser) (tablePath v) := rfl
  have hfilled {m : UInt64} (hm : IsFrame m) (hfree : m.toNat / 4096 ∈ spare s.pmm)
      (htaken : m.toNat / 4096 ∉ spare (createTables s p (flags &&& pteUser) (tablePath v)).2.pmm) :
      Filled flags (createTables s p (flags &&& pteUser) (tablePath v)).2.mem m :=
    fun j => ((createTables_filled (flags &&& pteUser) hm (tablePath v) h hp (Nat.le_refl 3)).2 hfree htaken
      j).imp_right MadeLink.of_user
  rcases createTables_spec (flags &&& pteUser) (tablePath v) h hp (Nat.le_refl 3) with
    ⟨s₁, T₁, he, hx, hsame, -, hsub, hmiss, hwhy⟩ | ⟨pt, s₁, T₁, he, hne, hx, hsame, -, -, hpt, hnames⟩
  · rw [he] at hfilled
    refine ⟨0, s₁, T₁, hdef.trans he, ⟨h, hp, hx, hsame, hsub, hfilled⟩, Or.inl ⟨rfl, hmiss, hwhy.resolve_right ?_⟩⟩
    rintro ⟨ℓ, -, hhuge⟩
    exact hhuge
  · rw [he] at hfilled
    rw [tablePath, separate.foldl_root, separate_owner] at hpt
    exact ⟨pt, s₁, T₁, hdef.trans he, ⟨h, hp, hx, hsame, hnames.le, hfilled⟩, Or.inr ⟨hne, hpt, hnames⟩⟩

theorem TablesMade.new_name (h : TablesMade s T s₁ T₁ p v flags) {o : UInt64} (hn : T₁.label n = some ⟨o, is⟩)
    (hnew : (⟨o, is⟩ : Label) ∉ T.names) : o = p ∧ is ≠ [] ∧ is <+: tablePath v := by
  have hmem := h.names (T₁.mem_names.mpr ⟨n, hn⟩)
  obtain ⟨js, hne, hpre, he⟩ := mem_names_separate.mp ((Finset.mem_union.mp hmem).resolve_left hnew)
  obtain ⟨rfl, rfl⟩ := Label.mk.inj he
  exact ⟨rfl, hne, hpre⟩

theorem TablesMade.fresh (h : TablesMade s T s₁ T₁ p v flags) (hf : f ∈ spare s.pmm) (hf' : f ∉ spare s₁.pmm) :
    ∃ is, is ≠ [] ∧ is <+: tablePath v ∧ T₁.label (UInt64.ofNat (f * 4096)) = some ⟨p, is⟩ ∧
      (⟨p, is⟩ : Label) ∉ T.names := by
  obtain ⟨n, ⟨o, is⟩, hl, hn⟩ := h.step.table_of_taken hf hf'
  obtain ⟨hval, -, -, hnone⟩ := h.tabled.spare_frame hf
  have hnf : n = UInt64.ofNat (f * 4096) := by
    apply UInt64.toNat_inj.mp
    have := (isFrame_iff.mp (h.step.tabled.frame hl).2.1).1
    omega
  subst hnf
  have hnew : (⟨o, is⟩ : Label) ∉ T.names := by
    intro hold
    obtain ⟨m, hm⟩ := T.mem_names.mp hold
    have hmn := h.step.tabled.inj (h.step.mono hm) hl
    rw [hmn, hnone] at hm
    cases hm
  obtain ⟨rfl, hne, hpre⟩ := h.new_name hl hnew
  exact ⟨is, hne, hpre, hl, hnew⟩

/-- A page table that the call made is all zero before the page's entry is written. -/
theorem TablesMade.last_zero (h : TablesMade s T s₁ T₁ p v flags) (hn : T₁.label n = some ⟨p, tablePath v⟩)
    (hnew : (⟨p, tablePath v⟩ : Label) ∉ T.names) (hfill : Filled flags s₁.mem n) (j : Fin 512) :
    readEntry s₁.mem n j = 0 := by
  refine (hfill j).resolve_right fun hlink => ?_
  have hpr := hlink.isLink.1
  have hfound : Radix.lookup (slot s₁.mem) p (tablePath v ++ [j]) ≠ none := by
    rw [Radix.lookup_of_follow (h.step.tabled.follow_name hn (Nat.le_refl 3))]
    simp [slot, hpr]
  have hmem : (⟨p, tablePath v⟩ : Label) ∈ separate.names (.root p) (tablePath v) :=
    mem_names_separate.mpr ⟨tablePath v, List.cons_ne_nil _ _, List.prefix_rfl, rfl⟩
  rw [h.same h.root rfl] at hfound
  exact hfound (h.tabled.lookup_eq_none (tablePath v) h.root rfl (fun _ _ => id) fun hsub => hnew (hsub hmem))

/-- Above the last level a table that the call made links to the next table on the way, or to none. -/
theorem TablesMade.link_on_path (h : TablesMade s T s₁ T₁ p v flags) (hn : T₁.label n = some ⟨p, is⟩)
    (hnew : (⟨p, is⟩ : Label) ∉ T.names) (hlen : is.length < 3) (hlink : MadeLink flags (readEntry s₁.mem n i)) :
    T₁.label (readEntry s₁.mem n i &&& pteAddrMask) = some ⟨p, is ++ [i]⟩ ∧ is ++ [i] <+: tablePath v := by
  have hr : 0 < Label.rank ⟨p, is⟩ := Nat.sub_pos_of_lt hlen
  obtain ⟨hpr, hh⟩ := hlink.isLink
  have hlab := (h.step.tabled.labelled.closed hn (slot_of_link hpr hh hr)).1
  rw [separate_next] at hlab
  refine ⟨hlab, (h.new_name hlab fun hold => ?_).2.2⟩
  obtain ⟨m, hm⟩ := T.mem_names.mp hold
  exact hnew (T.mem_names.mpr (h.tabled.parent hm))

theorem path_rest (hpre : is <+: tablePath v) :
    is = tablePath v ∧ path v = is ++ (splitVaddr v).ptI :: [] ∨
      is.length < 3 ∧ ∃ i k rest, path v = is ++ i :: k :: rest ∧ is ++ [i] <+: tablePath v := by
  obtain ⟨js, hjs⟩ := hpre
  cases js with
  | nil =>
    rw [List.append_nil] at hjs
    exact Or.inl ⟨hjs, by rw [hjs, path]⟩
  | cons i js =>
    have hlen := congrArg List.length hjs
    rw [List.length_append, List.length_cons, tablePath_length] at hlen
    refine Or.inr ⟨by omega, i, ?_⟩
    have hp : path v = is ++ i :: (js ++ [(splitVaddr v).ptI]) := by rw [path, ← hjs]; simp
    obtain ⟨k, rest, hk⟩ :=
      List.exists_cons_of_ne_nil (List.append_ne_nil_of_right_ne_nil js (List.cons_ne_nil (splitVaddr v).ptI []))
    exact ⟨k, rest, by rw [hp, hk], js, by rw [← hjs]; simp⟩

/-- What became of a frame that the call took, whether or not the page's entry was written after that. -/
theorem TablesMade.newTable (h : TablesMade s T s₁ T₁ p v flags) (h' : Tabled separate s' T₁)
    (hkept : ∀ {n ℓ j}, T₁.label n = some ℓ → ¬ (ℓ = ⟨p, tablePath v⟩ ∧ j = (splitVaddr v).ptI) →
      readEntry s'.mem n j = readEntry s₁.mem n j)
    (hlast : ∀ {n}, T₁.label n = some ⟨p, tablePath v⟩ →
      readEntry s'.mem n (splitVaddr v).ptI = readEntry s₁.mem n (splitVaddr v).ptI ∨
        readEntry s'.mem n (splitVaddr v).ptI = (pa &&& pteAddrMask) ||| flags ||| ptePresent)
    (hf : f ∈ spare s.pmm) (hf' : f ∉ spare s₁.pmm) : NewTable s'.mem p v pa flags (UInt64.ofNat (f * 4096)) := by
  obtain ⟨is, hne, hpre, hn, hnew⟩ := h.fresh hf hf'
  have hval := (h.tabled.spare_frame hf).1
  have hpage : (UInt64.ofNat (f * 4096)).toNat / 4096 = f := by rw [hval, Nat.mul_div_cancel _ (by decide)]
  have hfill : Filled flags s₁.mem (UInt64.ofNat (f * 4096)) :=
    h.filled (h.step.tabled.frame hn).2.1 (by rwa [hpage]) (by rwa [hpage])
  have hlen : is.length ≤ 3 := hpre.length_le
  have hfollow := h'.follow_name hn hlen
  rcases path_rest hpre with ⟨rfl, hpath⟩ | ⟨hshort, i, k, rest, hpath, hnext⟩
  · have hzero := h.last_zero hn hnew hfill
    refine ⟨_, _, [], hne, hpath, hfollow, fun j hj => ?_, (hlast hn).imp_left fun hsame => hsame.trans (hzero _)⟩
    rw [hkept hn fun hat => hj hat.2, hzero]
  · have hsame (j : Fin 512) : readEntry s'.mem (UInt64.ofNat (f * 4096)) j =
        readEntry s₁.mem (UInt64.ofNat (f * 4096)) j := by
      refine hkept hn fun hat => ?_
      obtain ⟨-, rfl⟩ := Label.mk.inj hat.1
      exact absurd hshort (by rw [tablePath_length]; decide)
    refine ⟨is, i, k :: rest, hne, hpath, hfollow, fun j hj => ?_, ?_⟩
    · rw [hsame]
      refine (hfill j).resolve_right fun hlink => hj ?_
      obtain ⟨-, hon⟩ := h.link_on_path hn hnew hshort hlink
      have heq : is ++ [j] = is ++ [i] :=
        (List.prefix_of_prefix_length_le hon hnext (by simp)).eq_of_length (by simp)
      simpa using heq
    · rw [hsame]
      refine (hfill i).imp_right fun hlink => ⟨hlink, ?_⟩
      exact h'.follow_name (h.link_on_path hn hnew hshort hlink).1 (by rw [List.length_append]; exact hshort)

theorem TablesMade.write (h : TablesMade s T s₁ T₁ p v flags) (hn : T₁.label n = some ⟨p, tablePath v⟩)
    (e : UInt64) :
    let mem := writeEntry s₁.mem n (splitVaddr v).ptI e
    Extends separate s₁ T₁ { s₁ with mem } T₁ ∧ HasEntry mem p v e ∧
      ∀ {m ℓ j}, T₁.label m = some ℓ → ¬ (ℓ = ⟨p, tablePath v⟩ ∧ j = (splitVaddr v).ptI) →
        readEntry mem m j = readEntry s₁.mem m j := by
  intro mem
  have hfollow := h.step.tabled.follow_name hn (Nat.le_refl 3)
  have hx := (h.step.tabled.write_leaf (e := e) (h.step.mono h.root) hfollow).1
  refine ⟨hx, ⟨n, hx.tabled.follow_name hn (Nat.le_refl 3), readEntry_writeEntry _ _ _ _⟩, fun {m ℓ j} hm hne => ?_⟩
  refine readEntry_writeEntry_of_ne _ _ (h.step.tabled.frame hm).2.1 (h.step.tabled.frame hn).2.1 fun hat =>
    hne ⟨?_, hat.2⟩
  rw [hat.1, hn] at hm
  exact (Option.some.inj hm).symm

omit [LawfulPageAllocator α] in
theorem vmmMapPage_eq (h : mapTables s p v flags = (n, s₁)) (pa : UInt64) : vmmMapPage s p v pa flags =
    if n = 0 then s₁
    else ⟨writeEntry s₁.mem n (splitVaddr v).ptI ((pa &&& pteAddrMask) ||| flags ||| ptePresent), s₁.pmm⟩ := by
  simp only [vmmMapPage, h]

theorem vmmMapPage_step (h : Tabled separate s T) (hp : T.label p = some (.root p)) (v pa flags : UInt64) :
    ∃ T', Extends separate s T (vmmMapPage s p v pa flags) T' ∧ T'.names ⊆ T.names ∪ separate.names (.root p)
    (tablePath v) := by
  obtain ⟨pt, s₁, T₁, he, h₁, ⟨h0, -⟩ | ⟨hne, hn, -⟩⟩ := mapTables_made h hp v flags
  · refine ⟨T₁, ?_, h₁.names⟩
    rw [vmmMapPage_eq he, if_pos h0]
    exact h₁.step
  · refine ⟨T₁, ?_, h₁.names⟩
    rw [vmmMapPage_eq he, if_neg hne]
    exact h₁.step.trans (h₁.write hn _).1

end

section
variable {α : Type} [PageAllocator α] [CompletePageAllocator α] {s s₁ : Vmm α} {T T₁ : TableMap}
  {p v flags : UInt64}

theorem TablesMade.count_all (h : TablesMade s T s₁ T₁ p v flags)
    (hall : T₁.names = T.names ∪ separate.names (.root p) (tablePath v)) :
    (spare s₁.pmm).encard + missing s.mem p (tablePath v) = (spare s.pmm).encard := by
  have hcount := h.step.count
  rw [hall, ← Finset.union_sdiff_self_eq_union, Finset.card_union_of_disjoint Finset.disjoint_sdiff,
    Nat.cast_add, add_comm (T.names.card : ℕ∞), ← add_assoc, ← h.tabled.missing_eq (tablePath v) h.root
    (Nat.le_refl 3)] at hcount
  exact ENat.add_left_injective_of_ne_top (ENat.natCast_ne_top T.names.card) hcount

/-- Not all of them were made: there were too few frames, and all of these became tables. -/
theorem TablesMade.count_some (h : TablesMade s T s₁ T₁ p v flags)
    (hmiss : ¬ separate.names (.root p) (tablePath v) ⊆ T₁.names) (hout : OutOfFrames s₁.pmm) :
    spare s₁.pmm = ∅ ∧ (spare s.pmm).encard < missing s.mem p (tablePath v) := by
  refine ⟨hout.spare_eq, ?_⟩
  have hcount := h.step.count
  have hmono : T.names ⊆ T₁.names := by
    intro ℓ hℓ
    obtain ⟨n, hn⟩ := T.mem_names.mp hℓ
    exact T₁.mem_names.mpr ⟨n, h.step.mono hn⟩
  have hlt : (T₁.names \ T.names).card < missing s.mem p (tablePath v) := by
    rw [h.tabled.missing_eq (tablePath v) h.root (Nat.le_refl 3)]
    apply Finset.card_lt_card
    obtain ⟨ℓ, hℓ, hnew⟩ := Finset.not_subset.mp hmiss
    refine (Finset.ssubset_iff_of_subset fun ℓ' hℓ' => ?_).mpr ⟨ℓ, ?_, fun hc => hnew (Finset.mem_sdiff.mp hc).1⟩
    · obtain ⟨h1, h2⟩ := Finset.mem_sdiff.mp hℓ'
      exact Finset.mem_sdiff.mpr ⟨(Finset.mem_union.mp (h.names h1)).resolve_left h2, h2⟩
    · exact Finset.mem_sdiff.mpr ⟨hℓ, fun hold => hnew (hmono hold)⟩
  rw [hout.spare_eq, Set.encard_empty, zero_add, ← Finset.sdiff_union_of_subset hmono,
    Finset.card_union_of_disjoint Finset.sdiff_disjoint, Nat.cast_add] at hcount
  have hall : ((T₁.names \ T.names).card : ℕ∞) = (spare s.pmm).encard :=
    ENat.add_left_injective_of_ne_top (ENat.natCast_ne_top T.names.card) hcount
  rw [← hall]
  exact_mod_cast hlt

theorem mapAccount {s : Vmm Pmm} (h : Tabled separate s T) (hp : T.label p = some (.root p)) (v pa flags : UInt64) :
    MapAccount s (vmmMapPage s p v pa flags) p v pa flags := by
  have hfree := encard_spare_pmm h.valid.1
  obtain ⟨pt, s₁, T₁, he, h₁, ⟨h0, hmiss, hout⟩ | ⟨hne, hn, hall⟩⟩ := mapTables_made h hp v flags
  · rw [vmmMapPage_eq he, if_pos h0]
    obtain ⟨hnone, hshort⟩ := h₁.count_some hmiss hout
    have hfree' := encard_spare_pmm h₁.step.tabled.valid.1
    rw [hnone, Set.encard_empty] at hfree'
    rw [hfree] at hshort
    have hzero : s₁.pmm.freePages.toNat = 0 := by exact_mod_cast hfree'.symm
    have hlt : s.pmm.freePages.toNat < missing s.mem p (tablePath v) := by exact_mod_cast hshort
    refine ⟨missing_le_length _ _ _, iff_of_false ?_ (by omega), by omega, fun f hf hf' => ?_⟩
    · rintro ⟨n, hfollow, -⟩
      exact hmiss (h₁.step.tabled.names_subset (h₁.step.tabled.name_of_follow (h₁.step.mono hp) hfollow))
    · exact h₁.newTable h₁.step.tabled (fun _ _ => rfl) (fun _ => Or.inl rfl) hf hf'
  · rw [vmmMapPage_eq he, if_neg hne]
    obtain ⟨hx, hentry, hkept⟩ := h₁.write hn ((pa &&& pteAddrMask) ||| flags ||| ptePresent)
    have hcount := h₁.count_all hall
    rw [hfree, encard_spare_pmm h₁.step.tabled.valid.1] at hcount
    have hsum : s₁.pmm.freePages.toNat + missing s.mem p (tablePath v) = s.pmm.freePages.toNat := by
      exact_mod_cast hcount
    refine ⟨missing_le_length _ _ _, iff_of_true hentry (by omega), by simp only; omega, fun f hf hf' => ?_⟩
    refine h₁.newTable hx.tabled hkept (fun {m} hm => Or.inr ?_) hf hf'
    rw [h₁.step.tabled.inj hm hn]
    exact readEntry_writeEntry _ _ _ _

end

/-! ## Runs -/

inductive VmmCall where
  | create
  | map (p v pa flags : UInt64)
  | unmap (p v : UInt64)

section
variable {α : Type} [PageAllocator α] [LawfulPageAllocator α]

def VmmWorld.call (w : VmmWorld α) : VmmCall → VmmWorld α
  | .create => { w.after (vmmCreateAddressSpace w.vmm).2 with
      spaces :=
        if (vmmCreateAddressSpace w.vmm).1 = 0 then w.spaces else (vmmCreateAddressSpace w.vmm).1 :: w.spaces }
  | .map p v pa flags => w.after (vmmMapPage w.vmm p v pa flags)
  | .unmap p v => w.after (vmmUnmapPage w.vmm p v)

/-- A call for a space that was created, or anything else: frames are taken and given back, and
memory is written, but those of the tables stay as they are. -/
inductive CallStep : VmmWorld α → Option VmmCall → VmmWorld α → Prop
  | create (w : VmmWorld α) : CallStep w (some .create) (w.call .create)
  | map (w : VmmWorld α) {p : UInt64} (hp : p ∈ w.spaces) (v pa flags : UInt64) :
      CallStep w (some (.map p v pa flags)) (w.call (.map p v pa flags))
  | unmap (w : VmmWorld α) {p : UInt64} (hp : p ∈ w.spaces) (v : UInt64) :
      CallStep w (some (.unmap p v)) (w.call (.unmap p v))
  | other (w : VmmWorld α) {s : Vmm α} (hv : Valid s.pmm) (hspare : ∀ f ∈ w.taken, f ∉ spare s.pmm)
      (hmem : ∀ x, x / 4096 ∈ w.taken → s.mem x = w.vmm.mem x) : CallStep w none { w with vmm := s }

/-- **Tree ownership.** The frames taken are the tables, and the tables are those below the roots returned. -/
structure Owned (w : VmmWorld α) (T : TableMap) : Prop where
  tabled : Tabled separate w.vmm T
  roots : ∀ {p}, p ∈ w.spaces ↔ T.label p = some (.root p)
  taken : ∀ {f}, f ∈ w.taken ↔ ∃ n ℓ, T.label n = some ℓ ∧ n.toNat / 4096 = f
  depth : ∀ {ℓ}, ℓ ∈ T.names → ℓ.path.length ≤ 3
  nodup : w.spaces.Nodup

variable {w w' : VmmWorld α} {T T' : TableMap} {s : Vmm α}

theorem Owned.taken_after (h : Owned w T) (hx : Extends separate w.vmm T s T') {f : Nat} :
    f ∈ (w.after s).taken ↔ ∃ n ℓ, T'.label n = some ℓ ∧ n.toNat / 4096 = f := by
  constructor
  · intro hf
    cases hf with
    | inl hf =>
      obtain ⟨n, ℓ, hn, he⟩ := h.taken.mp hf
      exact ⟨n, ℓ, hx.mono hn, he⟩
    | inr hf => exact hx.table_of_taken hf.1 hf.2
  · intro ⟨n, ℓ, hn, he⟩
    rw [← he]
    exact VmmWorld.taken_after (fun hm => h.taken.mpr ⟨_, _, hm, rfl⟩) hx hn

theorem Owned.extend (h : Owned w T) (hx : Extends separate w.vmm T s T')
    (hnames : ∀ ℓ ∈ T'.names, ℓ ∈ T.names ∨ ℓ.path ≠ [] ∧ ℓ.path.length ≤ 3) : Owned (w.after s) T' where
  tabled := hx.tabled
  roots := by
    intro p
    refine h.roots.trans ⟨hx.mono, fun hp => ?_⟩
    cases hnames _ (T'.mem_names.mpr ⟨p, hp⟩) with
    | inl hold =>
      obtain ⟨m, hm⟩ := T.mem_names.mp hold
      rwa [h.tabled.root hm] at hm
    | inr hnew => exact absurd rfl hnew.1
  taken := h.taken_after hx
  depth hℓ := (hnames _ hℓ).elim h.depth And.right
  nodup := h.nodup

theorem Owned.create (h : Owned w T) : ∃ T', Owned (w.call .create) T' := by
  obtain ⟨s', he, hx, -⟩ | ⟨p, s', T', he, hne, hnone, hx, -, hp, hnames, -⟩ := vmmCreateAddressSpace_spec h.tabled
  · refine ⟨T, ?_⟩
    rw [VmmWorld.call, he]
    exact h.extend hx fun ℓ hℓ => Or.inl hℓ
  · refine ⟨T', ?_⟩
    rw [VmmWorld.call, he, if_neg hne]
    refine ⟨hx.tabled, fun {q} => ?_, h.taken_after hx, fun {ℓ} hℓ => ?_,
      List.nodup_cons.mpr ⟨fun hold => ?_, h.nodup⟩⟩
    · rw [List.mem_cons, h.roots]
      constructor
      · intro hq
        cases hq with
        | inl hq => exact hq ▸ hp
        | inr hq => exact hx.mono hq
      · intro hq
        have hmem := T'.mem_names.mpr ⟨q, hq⟩
        rw [hnames, Finset.mem_insert] at hmem
        refine hmem.imp (fun hroot => (Label.mk.inj hroot).1) fun hold => ?_
        obtain ⟨m, hm⟩ := T.mem_names.mp hold
        rwa [h.tabled.root hm] at hm
    · rw [hnames, Finset.mem_insert] at hℓ
      cases hℓ with
      | inl hroot =>
        rw [hroot]
        exact Nat.zero_le 3
      | inr hold => exact h.depth hold
    · rw [h.roots.mp hold] at hnone
      cases hnone

theorem Owned.map (h : Owned w T) {p : UInt64} (hp : p ∈ w.spaces) (v pa flags : UInt64) :
    ∃ T', Owned (w.call (.map p v pa flags)) T' := by
  obtain ⟨T', hx, hnames⟩ := vmmMapPage_step h.tabled (h.roots.mp hp) v pa flags
  refine ⟨T', h.extend hx fun ℓ hℓ => (Finset.mem_union.mp (hnames hℓ)).imp_right fun hnew => ?_⟩
  obtain ⟨js, hne, hpre, rfl⟩ := mem_names_separate.mp hnew
  exact ⟨hne, hpre.length_le⟩

theorem Owned.other (h : Owned w T) (hv : Valid s.pmm) (hspare : ∀ f ∈ w.taken, f ∉ spare s.pmm)
    (hmem : ∀ x, x / 4096 ∈ w.taken → s.mem x = w.vmm.mem x) : Owned { w with vmm := s } T := by
  have htaken {n : UInt64} {ℓ : Label} (hn : T.label n = some ℓ) : n.toNat / 4096 ∈ w.taken :=
    h.taken.mpr ⟨n, ℓ, hn, rfl⟩
  refine ⟨(h.tabled.elsewhere s hv (fun hn => hspare _ (htaken hn)) fun {n ℓ x} hn h1 h2 => hmem x ?_).1,
    h.roots, h.taken, h.depth, h.nodup⟩
  rw [(h.tabled.frame hn).2.1.div_eq h1 h2]
  exact htaken hn

theorem Owned.step {c : Option VmmCall} (h : Owned w T) (hs : CallStep w c w') : ∃ T', Owned w' T' := by
  cases hs with
  | create => exact h.create
  | map hp v pa flags => exact h.map hp v pa flags
  | unmap hp v =>
    exact ⟨T, h.extend (vmmUnmapPage_spec h.tabled (fun _ => id) (h.roots.mp hp) v).1 fun ℓ hℓ => Or.inl hℓ⟩
  | other hv hspare hmem => exact ⟨T, h.other hv hspare hmem⟩

theorem owned_init (hv : Valid s.pmm) : Owned (VmmWorld.init s) TableMap.empty := by
  refine ⟨⟨hv, ?_, ?_, ?_, ?_, ?_, ?_, ⟨?_⟩, ?_, ?_⟩, ?_, ?_, ?_, ?_⟩ <;> simp [TableMap.empty,
    VmmWorld.init, separate]

theorem owned_run (hv : Valid s.pmm) {calls : List (Option VmmCall)}
    (hr : Run CallStep (VmmWorld.init s) calls w) : ∃ T, Owned w T :=
  hr.invariant (I := fun w => ∃ T, Owned w T) (fun _ _ _ ⟨_, hT⟩ hs => hT.step hs) ⟨TableMap.empty, owned_init hv⟩

end

theorem Owned.follow_iff {w : VmmWorld Pmm} {T : TableMap} (h : Owned w T) {p n : UInt64} (hp : p ∈ w.spaces)
    {is : List (Fin 512)} :
    Radix.follow (slot w.vmm.mem) 3 p is = some n ↔ T.label n = some ⟨p, is⟩ :=
  ⟨h.tabled.name_of_follow (h.roots.mp hp), fun hn => h.tabled.follow_name hn (h.depth (T.mem_names.mpr ⟨n, hn⟩))⟩

/-- **No frame of a table is lost.** In a space that a run made, `vmm_map_page` takes a frame for each
missing table as long as there are frames, succeeds if there are enough, and what it took hangs below
the space's root. The frames taken in the whole run are the roots and the tables found below them,
each on one way only. -/
theorem vmm_frames_exact {s : Vmm Pmm} (hv : Valid s.pmm) {calls : List (Option VmmCall)} {w : VmmWorld Pmm}
    (hr : Run CallStep (VmmWorld.init s) calls w) :
    (∀ p ∈ w.spaces, ∀ v pa flags, MapAccount w.vmm (vmmMapPage w.vmm p v pa flags) p v pa flags) ∧
    (∀ f, f ∈ w.taken ↔ ∃ p ∈ w.spaces, ∃ is n, Radix.follow (slot w.vmm.mem) 3 p is = some n ∧
      n.toNat = f * 4096) ∧
    w.spaces.Nodup ∧
    ∀ p ∈ w.spaces, ∀ q ∈ w.spaces, ∀ is js n, Radix.follow (slot w.vmm.mem) 3 p is = some n →
      Radix.follow (slot w.vmm.mem) 3 q js = some n → p = q ∧ is = js := by
  obtain ⟨T, h⟩ := owned_run hv hr
  refine ⟨fun p hp v pa flags => mapAccount h.tabled (h.roots.mp hp) v pa flags, fun f => ?_, h.nodup, ?_⟩
  · rw [h.taken]
    constructor
    · intro ⟨n, ⟨p, is⟩, hn, he⟩
      have hp := h.roots.mpr (h.tabled.root_label hn)
      have := (isFrame_iff.mp (h.tabled.frame hn).2.1).1
      exact ⟨p, hp, is, n, (h.follow_iff hp).mpr hn, by omega⟩
    · intro ⟨p, hp, is, n, hn, he⟩
      exact ⟨n, _, (h.follow_iff hp).mp hn, by omega⟩
  · intro p hp q hq is js n hn hn'
    have hname := ((h.follow_iff hp).mp hn).symm.trans ((h.follow_iff hq).mp hn')
    exact Label.mk.inj (Option.some.inj hname)

theorem vmm_frames_exact_first_page :
    let s : Vmm Pmm := ⟨fun _ => 0, pmmInit (fun _ => 0xFF) 0x1000 64⟩
    let w := (VmmWorld.init s).call .create
    missing w.vmm.mem 0x2000 (tablePath 0x1234) = 3 ∧
      MapAccount w.vmm (vmmMapPage w.vmm 0x2000 0x1234 0x7000 pteUser) 0x2000 0x1234 0x7000 pteUser := by
  intro s w
  have hinit := pmmInit_spec (fun _ => 0xFF) 0x1000 64 (by decide)
  have hv : Valid s.pmm := ⟨hinit.1, by rw [hinit.2.2]; simp, by rw [hinit.2.1]; decide⟩
  have hp : (vmmCreateAddressSpace s).1 = 0x2000 := by decide +kernel
  refine ⟨by decide +kernel,
    (vmm_frames_exact hv (Run.single (CallStep.create (VmmWorld.init s)))).1 0x2000 ?_ 0x1234 0x7000 pteUser⟩
  simp [VmmWorld.call, VmmWorld.init, VmmWorld.after, hp]

end KernelOs
