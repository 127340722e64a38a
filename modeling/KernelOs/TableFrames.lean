import KernelOs.AddressSpaces
import Mathlib.Data.Nat.Bitwise

/-!
# Frames of tables

How many frames a call of `vmm_map_page` takes, what becomes of them, and that none is lost over
a run, whatever else the kernel does with memory and frames of its own in between.
-/

namespace KernelOs
open Lib LawfulPageAllocator CompletePageAllocator

/-- The levels of the path `is` that have no table yet. -/
def missing (mem : Memory) : UInt64 → List (Fin 512) → Nat
  | _, [] => 0
  | n, i :: is =>
    if readEntry mem n i &&& ptePresent = 0 then is.length + 1
    else missing mem (readEntry mem n i &&& pteAddrMask) is

/-- A link to a table as `get_or_create_table` makes it. -/
def MadeLink (flags e : UInt64) : Prop :=
  e = (e &&& pteAddrMask) ||| ptePresent ||| pteWritable ||| (flags &&& pteUser)

/-- No entry, or a link as the flags ask for it. -/
def Filled (flags : UInt64) (mem : Memory) (n : UInt64) : Prop :=
  ∀ j, readEntry mem n j = 0 ∨ MadeLink flags (readEntry mem n j)

/-! ## Entries -/

section
variable {α : Type} [PageAllocator α] [LawfulPageAllocator α] {L : Layout} {s : Vmm α} {T : TableMap}
  {n m : UInt64} {ℓ : Label} {flags e : UInt64} {i : Fin 512}

omit [PageAllocator α] [LawfulPageAllocator α] in
theorem isFrame_mask (e : UInt64) : IsFrame (e &&& pteAddrMask) := by
  unfold IsFrame
  rw [UInt64.and_assoc, UInt64.and_self]

theorem MadeLink.isLink (h : MadeLink flags e) : e &&& ptePresent ≠ 0 ∧ e &&& pteHuge = 0 := by
  obtain ⟨-, h1, h2⟩ := @link_and _ flags (isFrame_mask e)
  rw [isFrame_mask e, ← h] at h1 h2
  exact ⟨h1, h2⟩

theorem madeLink_made {a : UInt64} (ha : IsFrame a) :
    MadeLink flags ((a &&& pteAddrMask) ||| ptePresent ||| pteWritable ||| (flags &&& pteUser)) := by
  obtain ⟨h1, -, -⟩ := @link_and _ flags ha
  unfold MadeLink
  rw [h1, ha]

theorem user_bit (hu : flags &&& pteUser ≠ 0) : flags &&& pteUser = pteUser := by
  have hbit : (flags &&& pteUser).toNat = 2 ^ 2 * (flags.toNat.testBit 2).toNat := by
    rw [UInt64.toNat_and, show pteUser.toNat = 2 ^ 2 by decide, Nat.and_two_pow, Nat.mul_comm]
  apply UInt64.toNat_inj.mp
  rw [hbit]
  cases hc : flags.toNat.testBit 2 with
  | true => decide
  | false =>
    rw [hc] at hbit
    exact absurd ((eq_zero_iff_toNat _).mpr hbit) hu

theorem MadeLink.open (h : MadeLink flags e) (hu : flags &&& pteUser ≠ 0) : MadeLink flags (e ||| pteUser) := by
  unfold MadeLink at h ⊢
  rw [(user_and e).1]
  calc e ||| pteUser
    _ = ((e &&& pteAddrMask) ||| ptePresent ||| pteWritable ||| (flags &&& pteUser)) ||| pteUser := by rw [← h]
    _ = _ := by rw [user_bit hu, UInt64.or_assoc, UInt64.or_self]

theorem Tabled.alloc_none (h : Tabled L s T) {pmm : α} (ha : allocPage s.pmm = (0, pmm)) :
    spare pmm = spare s.pmm := by
  obtain ⟨-, ⟨-, hsp⟩ | ⟨f, hf, hfa, -⟩⟩ := alloc h.valid
  · rwa [ha] at hsp
  · rw [ha] at hfa
    exact absurd hfa.symm (h.spare_frame hf).2.1

/-- The frames that were taken are tables now. -/
theorem Extends.table_of_taken {s' : Vmm α} {T' : TableMap} (hx : Extends L s T s' T') {f : Nat}
    (hf : f ∈ spare s.pmm) (hf' : f ∉ spare s'.pmm) : ∃ n ℓ, T'.label n = some ℓ ∧ n.toNat / 4096 = f := by
  by_contra hnone
  refine hf' (hx.left.mpr ⟨hf, fun n hn => ?_⟩)
  cases hl : T'.label n with
  | none => rfl
  | some ℓ => exact absurd ⟨n, ℓ, hl, hn⟩ hnone

/-- A filled table stays filled, whichever table `get_or_create_table` writes to. -/
theorem Filled.getOrCreateTable (hf : Filled flags s.mem m) (hm : IsFrame m) (h : Tabled L s T)
    (hn : T.label n = some ℓ) (hmfree : m.toNat / 4096 ∉ spare s.pmm) :
    Filled flags (getOrCreateTable s n i flags).2.mem m := by
  have hnf := (h.frame hn).2.1
  by_cases hpr : readEntry s.mem n i &&& ptePresent = 0
  · cases ha : allocPage s.pmm with
    | mk a pmm =>
    by_cases ha0 : a = 0
    · simpa [KernelOs.getOrCreateTable, hpr, ha, ha0] using hf
    · obtain ⟨f, hfs, -, haf, haF, -⟩ := h.alloc_frame ha ha0
      have hne : m ≠ a := fun he => hmfree (by rwa [he, haf, Nat.mul_div_cancel _ (by decide)])
      intro j
      simp only [KernelOs.getOrCreateTable, hpr, if_true, ha, if_neg ha0]
      by_cases hat : m = n ∧ j = i
      · obtain ⟨rfl, rfl⟩ := hat
        rw [readEntry_writeEntry]
        exact Or.inr (madeLink_made haF)
      · rw [readEntry_writeEntry_of_ne _ _ hm hnf hat, readEntry_zeroTable_of_ne _ hm haF hne]
        exact hf j
  by_cases hh : readEntry s.mem n i &&& pteHuge = 0
  · by_cases hu : flags &&& pteUser = 0
    · simpa [KernelOs.getOrCreateTable, hpr, hh, hu] using hf
    · intro j
      simp only [KernelOs.getOrCreateTable, hpr, if_false, hh, ne_eq, not_true, hu, not_false_eq_true, if_true]
      by_cases hat : m = n ∧ j = i
      · obtain ⟨rfl, rfl⟩ := hat
        rw [readEntry_writeEntry]
        have hne0 : readEntry s.mem m j ≠ 0 := fun h0 => hpr (by rw [h0]; rfl)
        exact Or.inr (((hf j).resolve_left hne0).open hu)
      · rw [readEntry_writeEntry_of_ne _ _ hm hnf hat]
        exact hf j
  · simpa [KernelOs.getOrCreateTable, hpr, hh] using hf

/-- A frame that it takes is all zero. -/
theorem Tabled.getOrCreateTable_zero (h : Tabled L s T) (hn : T.label n = some ℓ) (hm : IsFrame m)
    (hfree : m.toNat / 4096 ∈ spare s.pmm)
    (htaken : m.toNat / 4096 ∉ spare (getOrCreateTable s n i flags).2.pmm) (j : Fin 512) :
    readEntry (getOrCreateTable s n i flags).2.mem m j = 0 := by
  have hnf := (h.frame hn).2.1
  by_cases hpr : readEntry s.mem n i &&& ptePresent = 0
  · cases ha : allocPage s.pmm with
    | mk a pmm =>
    by_cases ha0 : a = 0
    · have hsame := h.alloc_none (ha0 ▸ ha)
      simp only [getOrCreateTable, hpr, if_true, ha, if_pos ha0, hsame] at htaken
      exact absurd hfree htaken
    · obtain ⟨f, hfs, -, haf, haF, hnone, -, hsp⟩ := h.alloc_frame ha ha0
      simp only [getOrCreateTable, hpr, if_true, ha, if_neg ha0] at htaken ⊢
      rw [hsp] at htaken
      have hmf : m.toNat / 4096 = f := by
        by_contra hne
        exact htaken ⟨hfree, hne⟩
      have hma : m = a := by
        apply UInt64.toNat_inj.mp
        have := (isFrame_iff.mp hm).1
        omega
      subst hma
      rw [readEntry_writeEntry_of_ne _ _ hm hnf, readEntry_zeroTable]
      exact fun hat => TableMap.ne_of_label hn hnone hat.1.symm
  by_cases hh : readEntry s.mem n i &&& pteHuge = 0
  · by_cases hu : flags &&& pteUser = 0
    · exact absurd hfree (by simpa [getOrCreateTable, hpr, hh, hu] using htaken)
    · exact absurd hfree (by simpa [getOrCreateTable, hpr, hh, hu] using htaken)
  · exact absurd hfree (by simpa [getOrCreateTable, hpr, hh] using htaken)

theorem createTables_filled (flags : UInt64) {m : UInt64} (hm : IsFrame m) :
    ∀ (is : List (Fin 512)) {s : Vmm α} {T : TableMap} {n : UInt64}
    {ℓ : Label}, Tabled L s T → T.label n = some ℓ → is.length ≤ ℓ.rank →
    (Filled flags s.mem m → m.toNat / 4096 ∉ spare s.pmm → Filled flags (createTables s n flags is).2.mem m) ∧
      (m.toNat / 4096 ∈ spare s.pmm → m.toNat / 4096 ∉ spare (createTables s n flags is).2.pmm →
        Filled flags (createTables s n flags is).2.mem m)
  | [], s, T, n, ℓ, h, hn, _ => ⟨fun hf _ => hf, fun hfree htaken => absurd hfree htaken⟩
  | i :: is, s, T, n, ℓ, h, hn, hlen => by
    have hr : 0 < ℓ.rank := by
      rw [List.length_cons] at hlen
      omega
    have hrank := L.rank_next i hr
    have hkeep : Filled flags s.mem m → m.toNat / 4096 ∉ spare s.pmm →
        Filled flags (getOrCreateTable s n i flags).2.mem m :=
      fun hf => hf.getOrCreateTable hm h hn
    have hzero : m.toNat / 4096 ∈ spare s.pmm → m.toNat / 4096 ∉ spare (getOrCreateTable s n i flags).2.pmm →
        Filled flags (getOrCreateTable s n i flags).2.mem m :=
      fun hfree htaken j => Or.inl (h.getOrCreateTable_zero hn hm hfree htaken j)
    rcases getOrCreateTable_spec h hn hr i flags with ⟨s₁, he, -⟩ | ⟨n₁, s₁, T₁, he, hdown⟩
    · have hstop : createTables s n flags (i :: is) = (0, s₁) := by simp [createTables, he]
      rw [he] at hkeep hzero
      rw [hstop]
      exact ⟨hkeep, hzero⟩
    · have hstep : createTables s n flags (i :: is) = createTables s₁ n₁ flags is := by
        simp [createTables, he, hdown.ne_zero]
      obtain ⟨ih1, ih2⟩ :=
        createTables_filled flags hm is hdown.step.tabled hdown.label (by rw [List.length_cons] at hlen; omega)
      have hsub {f : Nat} (hf : f ∉ spare s.pmm) : f ∉ spare s₁.pmm := fun hf' => hf (hdown.step.left.mp hf').1
      rw [he] at hkeep hzero
      rw [hstep]
      refine ⟨fun hf hfree => ih1 (hkeep hf hfree) (hsub hfree), fun hfree htaken => ?_⟩
      by_cases hmid : m.toNat / 4096 ∈ spare s₁.pmm
      · exact ih2 hmid htaken
      · exact ih1 (hzero hfree hmid) hmid

end

/-! ## Names below one root -/

theorem separate_next (ℓ : Label) (i : Fin 512) : separate.next ℓ i = ⟨ℓ.owner, ℓ.path ++ [i]⟩ := by
  unfold Layout.next
  split
  · next h =>
    rw [h.1, h.2]
    rfl
  · rfl

theorem mem_names_separate {o : UInt64} {ℓ : Label} : ∀ {is ks : List (Fin 512)},
    ℓ ∈ separate.names ⟨o, ks⟩ is ↔ ∃ js, js ≠ [] ∧ js <+: is ∧ ℓ = ⟨o, ks ++ js⟩
  | [], ks => by
    simp only [Layout.names, Finset.notMem_empty, List.prefix_nil, false_iff]
    rintro ⟨js, hne, hnil, -⟩
    exact hne hnil
  | i :: is, ks => by
    rw [Layout.names, separate_next, Finset.mem_insert, mem_names_separate]
    constructor
    · rintro (rfl | ⟨js, hne, hpre, rfl⟩)
      · exact ⟨[i], by simp, ⟨is, rfl⟩, rfl⟩
      · exact ⟨i :: js, by simp, (List.prefix_cons_inj i).mpr hpre, by simp⟩
    · rintro ⟨js, hne, hpre, rfl⟩
      obtain ⟨j, js, rfl⟩ := List.exists_cons_of_ne_nil hne
      obtain ⟨rfl, hrest⟩ := List.cons_prefix_cons.mp hpre
      cases js with
      | nil => exact Or.inl rfl
      | cons j' js => exact Or.inr ⟨j' :: js, by simp, hrest, by simp⟩

theorem card_names_separate : ∀ (is : List (Fin 512)) (ℓ : Label), (separate.names ℓ is).card = is.length
  | [], _ => rfl
  | i :: is, ℓ => by
    rw [Layout.names, Finset.card_insert_of_notMem, card_names_separate is, List.length_cons]
    rw [separate_next]
    intro hmem
    obtain ⟨js, hne, -, he⟩ := mem_names_separate.mp hmem
    have := congrArg (fun ℓ' : Label => ℓ'.path.length) he
    simp only [List.length_append] at this
    exact hne (List.length_eq_zero_iff.mp (by omega))

section
variable {α : Type} [PageAllocator α] [LawfulPageAllocator α] {s : Vmm α} {T : TableMap} {n o p : UInt64}

/-- Above a table there are tables. -/
theorem Tabled.above (h : Tabled separate s T) (is : List (Fin 512)) : ∀ (js : List (Fin 512)) {n : UInt64},
    T.label n = some ⟨o, is ++ js⟩ → ∃ m, T.label m = some ⟨o, is⟩ := by
  intro js
  induction js using List.reverseRecOn with
  | nil =>
    intro n hn
    rw [List.append_nil] at hn
    exact ⟨n, hn⟩
  | append_singleton js j ih =>
    intro n hn
    rw [← List.append_assoc] at hn
    obtain ⟨m, hm⟩ := h.parent hn
    exact ih hm

theorem Tabled.root_label (h : Tabled separate s T) {is : List (Fin 512)} (hn : T.label n = some ⟨o, is⟩) :
    T.label o = some (.root o) := by
  obtain ⟨m, hm⟩ := h.above [] is hn
  obtain rfl := h.root hm
  exact hm

theorem Tabled.names_subset (h : Tabled separate s T) {is : List (Fin 512)} (hn : T.label n = some ⟨o, is⟩) :
    separate.names (.root o) is ⊆ T.names := by
  intro ℓ hℓ
  obtain ⟨js, -, ⟨ks, rfl⟩, rfl⟩ := mem_names_separate.mp hℓ
  exact T.mem_names.mpr (h.above _ ks hn)

/-- The name of a table is where it is found. -/
theorem Tabled.follow_name (h : Tabled separate s T) {is : List (Fin 512)} (hn : T.label n = some ⟨o, is⟩)
    (hlen : is.length ≤ 3) :
    Radix.follow (slot s.mem) 3 o is = some n := by
  have ho := h.root_label hn
  obtain ⟨m, hm⟩ := h.follow is ho hlen (h.names_subset hn)
  rw [Label.rank_root] at hm
  have hlab := (h.labelled.follow_label (ℓ := .root o) ho hm).1
  have hname : is.foldl separate.next (.root o) = ⟨o, is⟩ := by
    cases is with
    | nil => rfl
    | cons i is => rw [separate.foldl_root, separate_owner]
  rw [hname] at hlab
  rw [hm, h.inj hlab hn]

theorem Tabled.name_of_follow (h : Tabled separate s T) (hp : T.label p = some (.root p)) {is : List (Fin 512)}
    (hf : Radix.follow (slot s.mem) 3 p is = some n) : T.label n = some ⟨p, is⟩ := by
  have hlab := (h.labelled.follow_label (ℓ := .root p) hp hf).1
  cases is with
  | nil => exact hlab
  | cons i is => rwa [separate.foldl_root, separate_owner] at hlab

/-- The levels without a table are those whose names are not there. -/
theorem Tabled.missing_eq (h : Tabled separate s T) :
    ∀ (is : List (Fin 512)) {n : UInt64} {ℓ : Label}, T.label n = some ℓ →
    is.length ≤ ℓ.rank → missing s.mem n is = (separate.names ℓ is \ T.names).card
  | [], _, _, _, _ => by
    rw [missing, Layout.names, Finset.empty_sdiff, Finset.card_empty]
  | i :: is, n, ℓ, hn, hlen => by
    have hr : 0 < ℓ.rank := by
      rw [List.length_cons] at hlen
      omega
    have hrank := separate.rank_next i hr
    rw [missing]
    by_cases hpr : readEntry s.mem n i &&& ptePresent = 0
    · have hnew := h.absent_notMem hn hr hpr
      have hdisj : separate.names ℓ (i :: is) \ T.names = separate.names ℓ (i :: is) := by
        rw [Finset.sdiff_eq_self_iff_disjoint, Finset.disjoint_left]
        intro ℓ' hℓ' hold
        obtain ⟨js, hne, hpre, rfl⟩ := mem_names_separate.mp hℓ'
        obtain ⟨j, js, rfl⟩ := List.exists_cons_of_ne_nil hne
        obtain ⟨rfl, -⟩ := List.cons_prefix_cons.mp hpre
        obtain ⟨m, hm⟩ := T.mem_names.mp hold
        have habove := h.above (ℓ.path ++ [j]) js (n := m) (by simpa using hm)
        rw [← separate_next] at habove
        exact hnew (T.mem_names.mpr habove)
      rw [if_pos hpr, hdisj, card_names_separate, List.length_cons]
    · have hnode := slot_of_link hpr (h.plain hn hr id hpr) hr
      obtain ⟨hlab, -⟩ := h.labelled.closed hn hnode
      rw [if_neg hpr, h.missing_eq is hlab (by rw [List.length_cons] at hlen; omega), Layout.names,
        Finset.insert_sdiff_of_mem _ (T.mem_names.mpr ⟨_, hlab⟩)]

end

end KernelOs
