import KernelOs.UserMappings

/-!
# What user code can reach

User code reads and writes through translations, which the processor may keep for as
long as it likes. The tables lie in other pages, and so do the kernel's data.
-/

namespace KernelOs
open Lib LawfulPageAllocator CompletePageAllocator

/-! ## Last entries -/

/-- The walk of `v` ends at the present entry `e` of a last table. -/
def LastEntry (mem : Memory) (q v e : UInt64) : Prop :=
  ∃ pt, Radix.follow (slot mem) 3 q (tablePath v) = some pt ∧ readEntry mem pt (splitVaddr v).ptI = e ∧
    e &&& ptePresent ≠ 0

section
variable {α : Type} [PageAllocator α] [LawfulPageAllocator α] {L : Layout} {s : Vmm α} {T : TableMap}
  {mem mem' : Memory} {p q v w e e' pt : UInt64}

omit [PageAllocator α] [LawfulPageAllocator α] in
theorem LastEntry.lookup (h : LastEntry mem q v e) :
    Radix.lookup (slot mem) q (path v) = some (e &&& pteAddrMask, []) := by
  obtain ⟨pt, hf, rfl, hpresent⟩ := h
  rw [path, Radix.lookup_of_follow hf]
  simp [slot, hpresent]

omit [PageAllocator α] [LawfulPageAllocator α] in
theorem exists_lastEntry {f : UInt64} (h : Radix.lookup (slot mem) q (path v) = some (f, [])) :
    ∃ e, LastEntry mem q v e ∧ e &&& pteAddrMask = f := by
  obtain ⟨pt, hf, hslot⟩ := Radix.follow_of_lookup h
  by_cases hpresent : readEntry mem pt (splitVaddr v).ptI &&& ptePresent = 0
  · rw [slot_of_absent hpresent] at hslot
    cases hslot
  · simp only [slot, hpresent, if_true, if_false, Radix.Slot.leaf.injEq] at hslot
    exact ⟨_, ⟨pt, hf, rfl, hpresent⟩, hslot⟩

/-- No last entry is new where the translations are as before. -/
theorem LastEntry.old (he : LastEntry mem q v e) (h : Tabled L s T) (hq : T.label q = some (.root q))
    (hlook : Radix.lookup (slot mem) q (path v) = Radix.lookup (slot s.mem) q (path v))
    (hlink : ∀ {n ℓ i n'}, T.label n = some ℓ → slot s.mem ℓ.rank n i = .node n' → slot mem ℓ.rank n i = .node n')
    (hkept : ∀ {n ℓ i}, T.label n = some ℓ → ℓ.rank = 0 → readEntry mem n i = readEntry s.mem n i) :
    LastEntry s.mem q v e := by
  obtain ⟨e', he', -⟩ := exists_lastEntry (hlook.symm.trans he.lookup)
  obtain ⟨pt, hf, hread, hpresent⟩ := he
  obtain ⟨pt', hf', hread', hpresent'⟩ := he'
  have hsame := h.labelled.follow_mono (ℓ := .root q) hlink hq hf'
  obtain rfl := Option.some.inj (hf.symm.trans hsame)
  obtain ⟨hlab, hrank⟩ := h.labelled.follow_label (ℓ := .root q) hq hf'
  have hr : ((tablePath v).foldl L.next (.root q)).rank = 0 := by
    rw [show (tablePath v).length = 3 from rfl, Label.rank_root] at hrank
    omega
  exact ⟨pt, hf', (hkept hlab hr).symm.trans hread, hpresent⟩

theorem LastEntry.write (he : LastEntry (writeEntry s.mem pt (splitVaddr v).ptI e) q w e') (h : Tabled L s T)
    (hp : T.label p = some (.root p)) (hq : T.label q = some (.root q))
    (hf : Radix.follow (slot s.mem) 3 p (tablePath v) = some pt) :
    LastEntry s.mem q w e' ∨ e' = e := by
  obtain ⟨pt', hf', rfl, hpresent⟩ := he
  have htab := (h.write_leaf (e := e) hp hf).1.tabled
  have hf'' : Radix.follow (slot s.mem) 3 q (tablePath w) = some pt' :=
    htab.labelled.follow_mono (ℓ := .root q) (fun hn hs => (h.leaf_link hp hf e hn).mp hs) hq hf'
  by_cases hat : pt' = pt ∧ (splitVaddr w).ptI = (splitVaddr v).ptI
  · right
    rw [hat.1, hat.2, readEntry_writeEntry]
  · left
    have hlab := (h.labelled.follow_label (ℓ := .root q) hq hf'').1
    exact ⟨pt', hf'', (h.leaf_frame hp hf e hlab (Or.inr hat)).symm, hpresent⟩

end

/-! ## What a call does to them -/

/-- Taken from the allocator between `s` and `s'`, and not for a table. -/
def Taken {α : Type} [PageAllocator α] [LawfulPageAllocator α] (s s' : Vmm α) (T' : TableMap) (d : UInt64) : Prop :=
  d.toNat / 4096 ∈ spare s.pmm ∧ d.toNat / 4096 ∉ spare s'.pmm ∧ ∀ n, n.toNat / 4096 = d.toNat / 4096 →
    T'.label n = none

/-- The page `program`, not to be written. -/
def ReadsProgram (program e : UInt64) : Prop := e &&& pteAddrMask = program ∧ e &&& pteWritable = 0

section
variable {α : Type} [PageAllocator α] [LawfulPageAllocator α] {L : Layout} {s₀ s s' : Vmm α}
  {T₀ T T' : TableMap} {program p v e pt : UInt64}

/-- A last entry that is new names a page that was taken, or lets the program be read. -/
structure Takes (program : UInt64) (s : Vmm α) (T : TableMap) (s' : Vmm α) (T' : TableMap) : Prop where
  mono : ∀ {n ℓ}, T.label n = some ℓ → T'.label n = some ℓ
  fresh : ∀ {n ℓ}, T'.label n = some ℓ → T.label n = none → n.toNat / 4096 ∈ spare s.pmm
  left : spare s'.pmm ⊆ spare s.pmm
  last : ∀ {q v e}, T.label q = some (.root q) → LastEntry s'.mem q v e →
    LastEntry s.mem q v e ∨ Taken s s' T' (e &&& pteAddrMask) ∨ ReadsProgram program e

theorem Takes.refl (program : UInt64) (s : Vmm α) (T : TableMap) : Takes program s T s T where
  mono := id
  fresh h1 h2 := by rw [h2] at h1; cases h1
  left := Set.Subset.refl _
  last _ he := Or.inl he

/-- Frames go and bytes change, but no table does. -/
theorem Takes.elsewhere (ht : Takes program s₀ T₀ s T) (h : Tabled L s T) (hspare : spare s'.pmm ⊆ spare s.pmm)
    (hentries : ∀ {n ℓ i}, T.label n = some ℓ → readEntry s'.mem n i = readEntry s.mem n i) :
    Takes program s₀ T₀ s' T where
  mono := ht.mono
  fresh := ht.fresh
  left := hspare.trans ht.left
  last {q v e} hq he := by
    have hlook : Radix.lookup (slot s'.mem) q (path v) = Radix.lookup (slot s.mem) q (path v) :=
      h.labelled.lookup_congr (ℓ := .root q) (fun hn => slot_congr (hentries hn) _) (ht.mono hq) rfl
    have hold :=
      he.old h (ht.mono hq) hlook (fun hn hs => (slot_congr (hentries hn) _).trans hs) fun hn _ => hentries hn
    refine (ht.last hq hold).imp_right fun hc => hc.imp_left fun ⟨h1, h2, h3⟩ => ⟨h1, fun hc => h2 (hspare hc), h3⟩

theorem Taken.grow {d : UInt64} (h : Taken s₀ s T d) (hx : Extends L s T s' T') : Taken s₀ s' T' d := by
  obtain ⟨h1, h2, h3⟩ := h
  refine ⟨h1, fun hc => h2 (hx.left.mp hc).1, fun n hn => ?_⟩
  cases hl : T'.label n with
  | none => rfl
  | some ℓ => exact absurd (hn ▸ hx.fresh hl (h3 n hn)) h2

/-- Tables are made, in frames that were left. -/
theorem Takes.grow (ht : Takes program s₀ T₀ s T) (h : Tabled L s T) (hx : Extends L s T s' T')
    (hsame : SameLookups T s.mem s'.mem) {flags : UInt64} {places : List (UInt64 × Fin 512)}
    (hg : Grows flags places T T' s.mem s'.mem) : Takes program s₀ T₀ s' T' where
  mono hn := hx.mono (ht.mono hn)
  fresh {n ℓ} hn hnone := by
    cases hl : T.label n with
    | none => exact ht.left (hx.fresh hn hl)
    | some ℓ' => exact ht.fresh hl hnone
  left f hf := ht.left (hx.left.mp hf).1
  last hq he := by
    have hold := he.old h (ht.mono hq) (hsame (ht.mono hq) rfl) (fun hn hs => hg.link hn hs) fun hn hr =>
      hg.kept hn (Or.inl hr)
    exact (ht.last hq hold).imp_right fun hc => hc.imp_left fun hc => hc.grow hx

theorem Takes.write (ht : Takes program s₀ T₀ s T) (h : Tabled L s T) (hp : T.label p = some (.root p))
    (hf : Radix.follow (slot s.mem) 3 p (tablePath v) = some pt) (e : UInt64)
    (hnew : Taken s₀ s T (e &&& pteAddrMask) ∨ ReadsProgram program e) :
    Takes program s₀ T₀ { s with mem := writeEntry s.mem pt (splitVaddr v).ptI e } T where
  mono := ht.mono
  fresh := ht.fresh
  left := ht.left
  last hq he := by
    cases he.write h hp (ht.mono hq) hf with
    | inl hold => exact ht.last hq hold
    | inr heq => exact Or.inr (heq ▸ hnew)

/-- **`vmm_map_page`** of a page that was taken, or of the program. -/
theorem Takes.map (ht : Takes program s₀ T₀ s T) (h : Tabled L s T) (hp : T.label p = some (.root p))
    (v pa flags : UInt64) (hnew : Taken s₀ s T (((pa &&& pteAddrMask) ||| flags ||| ptePresent) &&& pteAddrMask) ∨
      ReadsProgram program ((pa &&& pteAddrMask) ||| flags ||| ptePresent)) :
    ∃ T', Extends L s T (vmmMapPage s p v pa flags) T' ∧ Takes program s₀ T₀ (vmmMapPage s p v pa flags) T' := by
  rcases vmmMapPage_cases h hp v pa flags with ⟨-, T', hx, hsame, hg, -⟩ | ⟨-, pt, s₁, T', hx, hsame,
    hg, -, hf, -, hs⟩
  · exact ⟨T', hx, ht.grow h hx hsame hg⟩
  · have hwrite := (hx.tabled.write_leaf (e := (pa &&& pteAddrMask) ||| flags ||| ptePresent) (hx.mono hp) hf).1
    rw [hs]
    refine ⟨T', hx.trans hwrite,
      (ht.grow h hx hsame hg).write hx.tabled (hx.mono hp) hf _ (hnew.imp_left fun hc => hc.grow hx)⟩

theorem Tabled.unlabelled (h : Tabled L s T) {d : UInt64} (hd : IsFrame d) (hnone : T.label d = none) {n : UInt64}
    (hn : n.toNat / 4096 = d.toNat / 4096) : T.label n = none := by
  cases hl : T.label n with
  | none => rfl
  | some ℓ =>
    have hapart := h.apart hl hd hnone
    have hmod := (isFrame_iff.mp hd).1
    omega

end

/-! ## Loads -/

section
variable {α : Type} [PageAllocator α] [CompletePageAllocator α] {L : Layout} {s₀ s : Vmm α} {T₀ T : TableMap}
  {program p : UInt64} {frames frames' : Nat → Option UInt64} {bytes : Nat → UInt8}

/-- The load has mapped page `m`, or nobody has. -/
def Settled (frames : Nat → Option UInt64) (mem : Memory) (p : UInt64) (m : Nat) : Prop :=
  frames m ≠ none ∨ Radix.lookup (slot mem) p (path (pageAddr m)) = none

theorem Loading.page_takes (h : Loading L s₀ T₀ p s T frames bytes) (ht : Takes program s₀ T₀ s T)
    (hL : ∀ ℓ, L.huge ℓ → ℓ.path = [0, 0]) {m : Nat} (hm : 2 ^ 18 ≤ m ∧ m < 2 ^ 35) {d : UInt64} {pmm : α}
    (ha : allocPage s.pmm = (d, pmm)) (hd : d ≠ 0) {flags : UInt64} (hflags : flags &&& pteAddrMask = 0)
    (huser : flags &&& pteUser ≠ 0) :
    let s' := vmmMapPage ⟨zeroMemory s.mem d.toNat 4096, pmm⟩ p (pageAddr m) d flags
    ∃ T' frames' bytes', Loading L s₀ T₀ p s' T' frames' bytes' ∧ Takes program s₀ T₀ s' T' ∧
      ∀ m' < 2 ^ 35, m' = m ∨ Settled frames s.mem p m' → Settled frames' s'.mem p m' := by
  intro s'
  have hp := h.mono h.root
  obtain ⟨htab, hzero, hdF, hdT, hdsp, hsp, hentries⟩ := h.tabled.take_page ha hd
  have hsub : spare pmm ⊆ spare s.pmm := by
    rw [hsp]
    exact Set.sdiff_subset
  have ht₁ : Takes program s₀ T₀ ⟨zeroMemory s.mem d.toNat 4096, pmm⟩ T := ht.elsewhere h.tabled hsub hentries
  have hframe : ((d &&& pteAddrMask) ||| flags ||| ptePresent) &&& pteAddrMask = d := (leaf_and hflags).1.trans hdF
  have htaken : Taken s₀ (⟨zeroMemory s.mem d.toNat 4096, pmm⟩ : Vmm α) T d :=
    ⟨ht.left hdsp, fun hc => (hsp ▸ hc).2 rfl, fun n hn => htab.unlabelled hdF hdT hn⟩
  obtain ⟨T', hx, ht'⟩ := ht₁.map htab hp (pageAddr m) d flags (Or.inl (hframe.symm ▸ htaken))
  obtain ⟨-, -, ⟨h0, hsame, -, -, -, hnone, -⟩ | ⟨h0, -, -, hset⟩⟩ := htab.map_user hp hL hm d hflags
  · refine ⟨T', frames, bytes, h.page_missed ha hd hx h0 hsame, ht', fun m' _ hm' => ?_⟩
    rcases hm' with rfl | hsettled | hnone'
    · exact Or.inr hnone
    · exact Or.inl hsettled
    · exact Or.inr ((hsame hp rfl).trans ((hzero hp rfl).trans hnone'))
  · refine ⟨T', Function.update frames m (some d), _, h.page_mapped hm ha hd huser hx h0 hset, ht',
      fun m' hlt hm' => ?_⟩
    by_cases hmm : m' = m
    · left
      rw [hmm, Function.update_self]
      simp
    · refine (hm'.resolve_left hmm).imp (fun hsettled => ?_) fun hnone => ?_
      · rwa [Function.update_of_ne hmm]
      · rw [hset hp, if_neg fun hc => hmm ((samePage_pageAddr hm.2 hlt).mp hc).symm]
        exact (hzero hp rfl).trans hnone

theorem Loading.mapSegment_takes (hL : ∀ ℓ, L.huge ℓ → ℓ.path = [0, 0]) {flags : UInt64}
    (hflags : flags &&& pteAddrMask = 0) (huser : flags &&& pteUser ≠ 0) :
    ∀ (n m : Nat) {s : Vmm α} {T : TableMap} {frames : Nat → Option UInt64} {bytes : Nat → UInt8},
    Loading L s₀ T₀ p s T frames bytes → Takes program s₀ T₀ s T → 2 ^ 18 ≤ m → m + n ≤ 2 ^ 35 →
    ∃ ok s' T' frames' bytes', KernelOs.mapSegment p flags n (pageAddr m) s = (ok, s') ∧
    Loading L s₀ T₀ p s' T' frames' bytes' ∧
      Takes program s₀ T₀ s' T' ∧
      (ok = true → ∀ m' < 2 ^ 35, m ≤ m' ∧ m' < m + n ∨ Settled frames s.mem p m' → Settled frames' s'.mem p m')
  | 0, m, s, T, frames, bytes, h, ht, _, _ => by
    refine ⟨true, s, T, frames, bytes, rfl, h, ht, fun _ m' _ hm' => hm'.resolve_left fun hc => ?_⟩
    omega
  | n + 1, m, s, T, frames, bytes, h, ht, hm, hmn => by
    cases halloc : allocPage s.pmm with
    | mk d pmm =>
    by_cases hd : d = 0
    · obtain ⟨hload, hspare⟩ := h.pmm halloc hd
      refine ⟨false, { s with pmm }, T, frames, bytes, by simp [KernelOs.mapSegment, halloc, hd], hload, ?_,
        fun hc => by cases hc⟩
      exact ht.elsewhere h.tabled hspare.le fun _ => rfl
    · obtain ⟨T₁, frames₁, bytes₁, h₁, ht₁, hfirst⟩ := h.page_takes ht hL ⟨hm, by omega⟩ halloc hd hflags huser
      obtain ⟨ok, s', T', frames', bytes', he, hload, ht', hrest⟩ :=
        Loading.mapSegment_takes hL hflags huser n (m + 1) h₁ ht₁ (by omega) (by omega)
      have hstep : KernelOs.mapSegment p flags (n + 1) (pageAddr m) s = KernelOs.mapSegment p flags n
        (pageAddr (m + 1))
          (vmmMapPage ⟨zeroMemory s.mem d.toNat 4096, pmm⟩ p (pageAddr m) d flags) := by
        rw [KernelOs.mapSegment, halloc, ← pageAddr_succ (by omega)]
        simp only [if_neg hd]
      refine ⟨ok, s', T', frames', bytes', hstep.trans he, hload, ht', fun hok m' hlt hm' => ?_⟩
      by_cases hlater : m + 1 ≤ m' ∧ m' < m + 1 + n
      · exact hrest hok m' hlt (Or.inl hlater)
      · refine hrest hok m' hlt (Or.inr (hfirst m' hlt (hm'.imp_left fun hc => ?_)))
        omega

/-- The copy goes to pages of the load. -/
theorem Loading.copySegment_entries (data : Memory) :
    ∀ (fuel : Nat) (r v o : UInt64) {s : Vmm α} {bytes : Nat → UInt8},
    Loading L s₀ T₀ p s T frames bytes → v.toNat + r.toNat < 2 ^ 47 → o.toNat + r.toNat < 2 ^ 64 →
    (∀ m, v.toNat / 4096 ≤ m → m * 4096 < v.toNat + r.toNat → Settled frames s.mem p m) →
    ∀ {n : UInt64} {ℓ : Label} {i : Fin 512}, T.label n = some ℓ →
      readEntry (KernelOs.copySegment p data fuel r v o s.mem).2 n i = readEntry s.mem n i
  | 0, _, _, _, _, _, _, _, _, _, _, _, _, _ => rfl
  | fuel + 1, r, v, o, s, bytes, h, hv, ho, hpages, n, ℓ, i, hn => by
    rw [KernelOs.copySegment]
    by_cases hr : r = 0
    · rw [if_pos hr]
    rw [if_neg hr]
    have hr0 : 0 < r.toNat := Nat.pos_of_ne_zero fun hc => hr ((eq_zero_iff_toNat r).mpr hc)
    cases hd : frames (v.toNat / 4096) with
    | none =>
      have hlook := (hpages (v.toNat / 4096) (Nat.le_refl _) (by omega)).resolve_left (by simp [hd])
      rw [path_pageAddr] at hlook
      have htr : vmmTranslate s.mem p v = 0 := by rw [vmmTranslate_eq, hlook]; rfl
      simp only [htr, if_true]
    | some d =>
      obtain ⟨htr, htr0, -⟩ := h.translate hd
      simp only [if_neg htr0]
      generalize hc : (if r < pageSize - (v &&& (pageSize - 1)) then r else pageSize - (v &&& (pageSize - 1))) = c
      obtain ⟨hc0, hcpage, hcr, hr', hv', ho', hcopy, hpages'⟩ := h.chunk data hr0 hv ho hd hc hpages
      have hrest :=
        Loading.copySegment_entries data fuel (r - c) (v + c) (o + c) hcopy (by omega)
          (by omega) hpages' (i := i) hn
      refine hrest.trans (h.tabled.entries_of_frame (h.frame hd).2.1 (h.frame hd).2.2.2 (fun x hx => ?_) hn)
      exact (copyMemory_apply ..).trans (if_neg (by omega))

open Elf64ProgramHeader in
theorem Loading.loadSegment_takes (h : Loading L s₀ T₀ p s T frames bytes) (ht : Takes program s₀ T₀ s T)
    (hL : ∀ ℓ, L.huge ℓ → ℓ.path = [0, 0]) {file : RamfsFile} {header : Elf64ProgramHeader}
    (hvalid : validProgramHeader file header = true) :
    ∃ ok s' T' frames' bytes', KernelOs.loadSegment p file header s = (ok, s') ∧
      Loading L s₀ T₀ p s' T' frames' bytes' ∧
      Takes program s₀ T₀ s' T' := by
  obtain ⟨h1, h2, h3, h4⟩ := valid hvalid
  obtain ⟨h5, h6⟩ := pages_bound hvalid
  have hend := firstPage_add hvalid
  have hfirst : header.firstPage = header.virtualAddress.toNat / 4096 := rfl
  have hsize := file.size.toNat_lt
  obtain ⟨ok, s₁, T', frames', bytes₁, he, hload, ht₁, hsettled⟩ :=
    Loading.mapSegment_takes hL (segmentFlags_and header)
    (segmentFlags_user header) (segmentPages header) header.firstPage h ht h5 h6
  cases ok with
  | false =>
    exact ⟨false, s₁, T', frames', bytes₁, by simp [KernelOs.loadSegment, alignDown_eq hvalid, he], hload, ht₁⟩
  | true =>
    have hpages : ∀ m, header.virtualAddress.toNat / 4096 ≤ m →
      m * 4096 < header.virtualAddress.toNat + header.fileSize.toNat →
        Settled frames' s₁.mem p m := fun m k1 k2 => hsettled rfl m (by omega) (Or.inl (by omega))
    obtain ⟨ok', mem', bytes', he', hload', -⟩ :=
      hload.copySegment file.data header.fileSize.toNat header.fileSize header.virtualAddress
      header.offset (Nat.le_refl _) (by omega) (by omega) hpages
    have hentries {n : UInt64} {ℓ : Label} {i : Fin 512} (hn : T'.label n = some ℓ) : readEntry mem' n i =
        readEntry s₁.mem n i := by
      have hcopied :=
        hload.copySegment_entries file.data header.fileSize.toNat header.fileSize
          header.virtualAddress header.offset
        (by omega) (by omega) hpages (i := i) hn
      rwa [he'] at hcopied
    refine ⟨ok', { s₁ with mem := mem' }, T', frames', bytes', ?_, hload',
      ht₁.elsewhere hload.tabled (Set.Subset.refl _) hentries⟩
    simp [KernelOs.loadSegment, alignDown_eq hvalid, he, he']

theorem Loading.loadSegments_takes (hL : ∀ ℓ, L.huge ℓ → ℓ.path = [0, 0]) (file : RamfsFile) :
    ∀ (programs : List Elf64ProgramHeader) {s : Vmm α} {T : TableMap} {frames : Nat → Option UInt64}
    {bytes : Nat → UInt8},
    Loading L s₀ T₀ p s T frames bytes → Takes program s₀ T₀ s T →
    ∃ T' frames' bytes', Loading L s₀ T₀ p (KernelOs.loadSegments p file programs s).2 T' frames' bytes' ∧
      Takes program s₀ T₀ (KernelOs.loadSegments p file programs s).2 T'
  | [], _, T, frames, bytes, h, ht => ⟨T, frames, bytes, h, ht⟩
  | header :: programs, s, T, frames, bytes, h, ht => by
    rw [KernelOs.loadSegments]
    by_cases htype : header.type ≠ elfProgramHeaderLoad
    · rw [if_pos htype]
      exact Loading.loadSegments_takes hL file programs h ht
    rw [if_neg htype]
    by_cases hvalid : validProgramHeader file header = true
    swap
    · rw [if_pos (by simpa using hvalid)]
      exact ⟨T, frames, bytes, h, ht⟩
    rw [if_neg (by simp [hvalid])]
    obtain ⟨ok, s', T', frames', bytes', he, hload, ht'⟩ := h.loadSegment_takes ht hL hvalid
    simp only [he]
    cases ok with
    | false => exact ⟨T', frames', bytes', hload, ht'⟩
    | true => exact Loading.loadSegments_takes hL file programs hload ht'

end

/-! ## Calls -/

section
variable {α : Type} [PageAllocator α] [CompletePageAllocator α] {cr3 program p : UInt64} {k k' : Kernel α}
  {S : Finset UInt64} {T T₁ T' : TableMap} {s₀ s s₁ s₃ s' : Vmm α}

/-- A last entry of some space is that of a space before, names a page that was taken, or lets the program
be read. -/
structure Changes (program : UInt64) (k : Kernel α) (T : TableMap) (k' : Kernel α) (T' : TableMap) : Prop where
  fresh : ∀ {n ℓ}, T'.label n = some ℓ → T.label n = none → n.toNat / 4096 ∈ spare k.vmm.pmm
  left : spare k'.vmm.pmm ⊆ spare k.vmm.pmm
  last : ∀ {q v e}, q ∈ k'.spaces → LastEntry k'.vmm.mem q v e →
    (∃ q' ∈ k.spaces, LastEntry k.vmm.mem q' v e) ∨ Taken k.vmm k'.vmm T' (e &&& pteAddrMask) ∨
    ReadsProgram program e

/-- No table is made in a frame that is not spare. -/
theorem Changes.unlabelled (hc : Changes program k T k' T') {f : Nat} (hf : f ∉ spare k.vmm.pmm)
    (hnone : ∀ n, n.toNat / 4096 = f → T.label n = none) {n : UInt64} (hn : n.toNat / 4096 = f) :
    T'.label n = none := by
  cases hl : T'.label n with
  | none => rfl
  | some ℓ => exact absurd (hn ▸ hc.fresh hl (hnone n hn)) hf

theorem KernelInv.changes (h : KernelInv cr3 k S T) (ht : Takes program k.vmm T s' T') :
    Changes program k T ⟨s', k.spaces⟩ T' where
  fresh := ht.fresh
  left := ht.left
  last {q _ _} hq he := (ht.last (h.spaces hq).1 he).imp_left fun hold => ⟨q, hq, hold⟩

/-- **`vmm_create_address_space`**, and the copy of slot 0 after it. -/
theorem KernelInv.create (h : KernelInv cr3 k S T) (program : UInt64) :
    (∃ s₁, vmmCreateAddressSpace k.vmm = (0, s₁) ∧ s₁.mem = k.vmm.mem ∧ Tabled (kernelLayout cr3 S) s₁ T ∧
      spare k.vmm.pmm = ∅ ∧ spare s₁.pmm = ∅) ∨
    ∃ p s₁ T₁, vmmCreateAddressSpace k.vmm = (p, s₁) ∧ p ≠ 0 ∧ Extends (kernelLayout cr3 S) k.vmm T s₁ T₁ ∧
      Takes program k.vmm T s₁ T₁ ∧
      (∀ {n ℓ i}, T.label n = some ℓ → readEntry s₁.mem n i = readEntry k.vmm.mem n i) ∧
      Opened cr3 k S T p { s₁ with mem := shareKernelSlot s₁.mem cr3 p } T₁ := by
  rcases vmmCreateAddressSpace_spec h.tabled with
    ⟨s₁, he, hx, hm, hout⟩ | ⟨p, s₁, T₁, he, hp0, hnone, hx, hsame, hp, hnames, hzero, hkept⟩
  · exact Or.inl ⟨s₁, he, hm, hx.tabled, hx.spare_eq h.tabled ▸ hout.spare_eq, hout.spare_eq⟩
  · refine Or.inr ⟨p, s₁, T₁, he, hp0, hx,
      ⟨hx.mono, hx.fresh, fun f hf => (hx.left.mp hf).1, fun hq he => Or.inl ?_⟩, hkept, ?_⟩
    · exact he.old h.tabled hq (hsame hq rfl) (fun hn hs => (slot_congr (hkept hn) _).trans hs) fun hn _ => hkept hn
    · obtain ⟨hinv, hold, hnew, hbare⟩ := h.share hx hsame hnone hp hnames hzero hx.tabled rfl
      exact ⟨hinv, by rw [he], hx.fresh hp hnone, shareKernelSlot_kept hx hnone hp hkept, hold, hnew, hx.mono,
        hnone, hnames, hbare⟩

/-- The last entries of a new space are those below the kernel's slot 0. -/
theorem Opened.last (ho : Opened cr3 k S T p s₃ T₁) (h : IdentityMap cr3 k S T) (hcr3 : cr3 ∈ k.spaces)
    {q v e : UInt64} (hq : q ∈ p :: k.spaces) (he : LastEntry s₃.mem q v e) :
    ∃ q' ∈ k.spaces, LastEntry k.vmm.mem q' v e := by
  have hold {q : UInt64} (hq : q ∈ k.spaces) (he : LastEntry s₃.mem q v e) : LastEntry k.vmm.mem q v e := by
    have hroot := (h.inv.spaces hq).1
    exact he.old h.inv.tabled hroot (ho.old hroot)
      (fun hn hs => (slot_congr (ho.kept hn) _).trans hs) fun hn _ => ho.kept hn
  cases List.mem_cons.mp hq with
  | inr hq => exact ⟨q, hq, hold hq he⟩
  | inl hq =>
    subst hq
    refine ⟨cr3, hcr3, hold hcr3 ?_⟩
    have hlook := he.lookup
    rw [ho.new] at hlook
    have h0 : (splitVaddr v).pml4I = 0 := by
      by_contra hc
      rw [if_neg hc] at hlook
      cases hlook
    -- the links in slot 0 are the same
    obtain ⟨pdpt, hpdpt⟩ := ho.inv.pdpt
    obtain ⟨pd, hpd, -⟩ := (ho.identity h).directory
    obtain ⟨hlinks, -⟩ := ho.inv.links hpdpt hpd
    obtain ⟨pt, hf, hrest⟩ := he
    refine ⟨pt, ?_, hrest⟩
    have hfirst := hlinks ho.root (Or.inr (Finset.mem_insert_self ..))
    have hkernel := hlinks ho.inv.kernel (Or.inl rfl)
    rw [tablePath, h0, Radix.follow] at hf ⊢
    simp only [hfirst] at hf
    simp only [hkernel]
    exact hf

theorem Opened.changes (ho : Opened cr3 k S T p s₃ T₁) (h : IdentityMap cr3 k S T) (hcr3 : cr3 ∈ k.spaces)
    (hleft : spare s₃.pmm ⊆ spare k.vmm.pmm) (ht : Takes program s₃ T₁ s' T') {spaces : List UInt64}
    (hsub : ∀ q ∈ spaces, q ∈ p :: k.spaces) : Changes program k T ⟨s', spaces⟩ T' where
  fresh {n ℓ} hn hnone := by
    cases hl : T₁.label n with
    | none => exact hleft (ht.fresh hn hl)
    | some ℓ' =>
      have hmem : ℓ' ∈ insert (Label.root p) T.names := ho.names ▸ T₁.mem_names.mpr ⟨n, hl⟩
      cases Finset.mem_insert.mp hmem with
      | inl heq =>
        obtain rfl := ho.inv.tabled.root (heq ▸ hl)
        exact ho.taken
      | inr hold =>
        obtain ⟨m, hm⟩ := T.mem_names.mp hold
        rw [ho.inv.tabled.inj hl (ho.mono hm), hm] at hnone
        cases hnone
  left := ht.left.trans hleft
  last {q v e} hq he := by
    rcases ht.last (ho.inv.spaces (hsub q hq)).1 he with hold | ⟨h1, h2⟩ | hreads
    · exact Or.inl (ho.last h hcr3 (hsub q hq) hold)
    · exact Or.inr (Or.inl ⟨hleft h1, h2⟩)
    · exact Or.inr (Or.inr hreads)

theorem IdentityMap.fewer (h : IdentityMap cr3 k S T) {spaces : List UInt64} (hsub : ∀ q ∈ spaces, q ∈ k.spaces) :
    IdentityMap cr3 ⟨k.vmm, spaces⟩ S T := ⟨h.inv.fewer hsub, h.directory⟩

theorem IdentityMap.map_takes {spaces : List UInt64} (h : IdentityMap cr3 ⟨s, spaces⟩ S T)
    (ht : Takes program s₀ T₁ s T) (hp : p ∈ spaces) (v pa flags : UInt64)
    (hnew : Taken s₀ s T (((pa &&& pteAddrMask) ||| flags ||| ptePresent) &&& pteAddrMask) ∨
      ReadsProgram program ((pa &&& pteAddrMask) ||| flags ||| ptePresent)) :
    ∃ T', Extends (kernelLayout cr3 S) s T (vmmMapPage s p v pa flags) T' ∧
      IdentityMap cr3 ⟨vmmMapPage s p v pa flags, spaces⟩ S T' ∧
      Takes program s₀ T₁ (vmmMapPage s p v pa flags) T' := by
  have hroot := (h.inv.spaces hp).1
  obtain ⟨T', hx, ht'⟩ := ht.map h.inv.tabled hroot v pa flags hnew
  exact ⟨T', hx, h.step (h.inv.extend hx) hx.mono (vmmMapPage_granted h.inv.tabled hroot v pa flags).1, ht'⟩

theorem IdentityMap.load_changes (h : IdentityMap cr3 k S T) (hcr3 : cr3 ∈ k.spaces)
    (programPhys program : UInt64) (entries : Ramfs) (name : Option (List UInt8)) (image : Option ElfImage) :
    ∃ S' T', IdentityMap cr3 (k.call cr3 programPhys (.elfLoad entries name image)) S' T' ∧
      Changes program k T (k.call cr3 programPhys (.elfLoad entries name image)) T' := by
  by_cases hok : ∃ i file, image = some i ∧ ramfsOpen entries name = some file ∧ validElfFile file = true
  swap
  · have hrejected : elfLoadFromRamfs entries cr3 name image k.vmm = (false, image, k.vmm) :=
      elfLoad_rejected k.vmm hok
    rw [Kernel.call, hrejected]
    exact ⟨S, T, h, h.inv.changes (Takes.refl program k.vmm T)⟩
  obtain ⟨i, file, rfl, hopen, hvalid⟩ := hok
  rcases h.inv.create program with ⟨s₁, he, hm, htab, hz, hz'⟩ | ⟨p, s₁, T₁, he, hp0, hx, ht, -, ho⟩
  · have hload : elfLoadFromRamfs entries cr3 name (some i) k.vmm = (false, some i, s₁) := by
      simp [elfLoadFromRamfs, hopen, hvalid, he]
    rw [Kernel.call, hload]
    refine ⟨S, T, h.step_kept (h.inv.of_tabled htab) id fun _ _ => by rw [hm], h.inv.changes ?_⟩
    exact (Takes.refl program k.vmm T).elsewhere h.inv.tabled
      (by rw [hz']; exact Set.empty_subset _) fun _ => by rw [hm]
  · obtain ⟨T', frames, bytes, hload, ht'⟩ :=
      Loading.loadSegments_takes (kernelLayout_huge (S := insert p S)) file (programHeaders file)
      (Loading.start ho.inv.tabled ho.root fun _ => 0) (Takes.refl program _ T₁)
    have hsub : ∀ q ∈ (k.call cr3 programPhys (.elfLoad entries name (some i))).spaces,
        q ∈ p :: k.spaces := fun q hq => by
      simp only [Kernel.call, elfLoadFromRamfs, hopen, hvalid, he, if_neg hp0, Bool.not_true,
        Bool.false_eq_true, if_false] at hq
      split at hq
      · exact List.mem_cons_of_mem _ hq
      · exact hq
    have hvmm : (k.call cr3 programPhys (.elfLoad entries name (some i))).vmm =
      (loadSegments p file (programHeaders file)
        { s₁ with mem := shareKernelSlot s₁.mem cr3 p }).2 := by
      simp only [Kernel.call, elfLoadFromRamfs, hopen, hvalid, he, if_neg hp0, Bool.not_true,
        Bool.false_eq_true, if_false]
      split <;> rfl
    have hid := (ho.identity h).step (hload.inv ho.inv) hload.mono hload.links
    have hchanges := ho.changes h hcr3 ht.left ht' hsub
    rw [← hvmm] at hid hchanges
    exact ⟨insert p S, T', hid.fewer hsub, hchanges⟩

theorem readsProgram_page (programPhys : UInt64) : ReadsProgram (programPhys &&& pteAddrMask)
    (((programPhys &&& ~~~(pageSize - 1)) &&& pteAddrMask) ||| pteUser ||| ptePresent) := by
  refine ⟨(leaf_and (by decide)).1.trans ?_, (leaf_rights _ pteUser pteWritable (by simp)).trans (by decide)⟩
  rw [UInt64.and_assoc, show ~~~(pageSize - 1) &&& pteAddrMask = pteAddrMask by decide]

/-- The two pages of the demo task: the program's, and a frame for the stack. -/
theorem Opened.demo_takes {mem : Memory} {pmm₁ pmm : α} {d : UInt64} (ho : Opened cr3 k S T p ⟨mem, pmm₁⟩ T₁)
    (h : IdentityMap cr3 k S T) (programPhys : UInt64) (ha : allocPage pmm₁ = (d, pmm)) (hd : d ≠ 0) :
    let s' :=
      vmmMapPage (vmmMapPage ⟨mem, pmm⟩ p userCodeAddress (programPhys &&& ~~~(pageSize - 1)) pteUser) p
        userStackAddress d stackFlags
    ∃ T', IdentityMap cr3 ⟨s', p :: k.spaces⟩ (insert p S) T' ∧
        Takes (programPhys &&& pteAddrMask) (⟨mem, pmm₁⟩ : Vmm α) T₁ s' T' := by
  intro s'
  obtain ⟨htab, -, hdF, hdT, hdsp, hsp⟩ := ho.inv.tabled.alloc_data ha hd mem fun _ _ => rfl
  have hsub : spare pmm ⊆ spare pmm₁ := by
    rw [hsp]
    exact Set.sdiff_subset
  have hid : IdentityMap cr3 ⟨⟨mem, pmm⟩, p :: k.spaces⟩ (insert p S) T₁ :=
    (ho.identity h).step_kept (ho.inv.of_tabled htab) id fun _ _ => rfl
  have ht : Takes (programPhys &&& pteAddrMask) (⟨mem, pmm₁⟩ : Vmm α) T₁ ⟨mem, pmm⟩ T₁ :=
    (Takes.refl _ _ T₁).elsewhere ho.inv.tabled hsub fun _ => rfl
  have htaken : Taken (⟨mem, pmm₁⟩ : Vmm α) ⟨mem, pmm⟩ T₁ d :=
    ⟨hdsp, fun hc => (hsp ▸ hc).2 rfl, fun n hn => htab.unlabelled hdF hdT hn⟩
  obtain ⟨T₂, hx₂, hid₂, ht₂⟩ :=
    hid.map_takes ht (List.mem_cons_self ..) userCodeAddress _ pteUser (Or.inr (readsProgram_page programPhys))
  have hframe : ((d &&& pteAddrMask) ||| stackFlags ||| ptePresent) &&& pteAddrMask = d :=
    (leaf_and (by decide)).1.trans hdF
  obtain ⟨T₃, -, hid₃, ht₃⟩ := hid₂.map_takes ht₂ (List.mem_cons_self ..) userStackAddress d stackFlags
    (Or.inl (hframe.symm ▸ htaken.grow hx₂))
  exact ⟨T₃, hid₃, ht₃⟩

theorem IdentityMap.prepare_changes (h : IdentityMap cr3 k S T) (hcr3 : cr3 ∈ k.spaces) (programPhys : UInt64)
    (task : Option UInt64) (u : UserMode) :
    ∃ S' T', IdentityMap cr3 (k.call cr3 programPhys (.prepareDemo task u)) S' T' ∧
      Changes (programPhys &&& pteAddrMask) k T (k.call cr3 programPhys (.prepareDemo task u)) T' := by
  cases task with
  | none => exact ⟨S, T, h, h.inv.changes (Takes.refl _ k.vmm T)⟩
  | some t =>
    rcases h.inv.create (programPhys &&& pteAddrMask) with ⟨s₁, he, hm, htab, hz, hz'⟩ | ⟨p, s₁, T₁, he, hp0,
      hx, ht, hkept, ho⟩
    · have ha : allocPage s₁.pmm = (0, (allocPage s₁.pmm).2) := by
        rw [← alloc_of_spare_eq htab.valid hz']
      obtain ⟨htab', hout, -⟩ := htab.alloc_fail ha
      have hfail : userModePrepareDemoTask cr3 programPhys (some t) u k.vmm =
          (false, some t, u, { s₁ with pmm := (allocPage s₁.pmm).2 }) := by
        simp [userModePrepareDemoTask, he]
      rw [Kernel.call, hfail]
      refine ⟨S, T, h.step_kept (h.inv.of_tabled htab') id fun _ _ => by rw [hm], h.inv.changes ?_⟩
      exact (Takes.refl _ k.vmm T).elsewhere h.inv.tabled
        (by rw [hout.spare_eq]; exact Set.empty_subset _) fun _ => by rw [hm]
    cases ha : allocPage s₁.pmm with
    | mk d pmm =>
    by_cases hd : d = 0
    · -- the root stays taken
      subst hd
      obtain ⟨htab, hout, -⟩ := hx.tabled.alloc_fail ha
      have hfail : userModePrepareDemoTask cr3 programPhys (some t) u k.vmm =
          (false, some t, u, { s₁ with pmm }) := by
        simp [userModePrepareDemoTask, he, ha, hp0]
      rw [Kernel.call, hfail]
      refine ⟨S, T₁, h.step_kept ((h.inv.extend hx).of_tabled htab) hx.mono fun hn _ => hkept hn, h.inv.changes ?_⟩
      exact ht.elsewhere hx.tabled (by rw [hout.spare_eq]; exact Set.empty_subset _) fun _ => rfl
    · have hdone : userModePrepareDemoTask cr3 programPhys (some t) u k.vmm = (true, some p,
          ⟨userCodeAddress + (programPhys &&& (pageSize - 1)), userStackAddress + pageSize⟩,
          vmmMapPage (vmmMapPage ⟨shareKernelSlot s₁.mem cr3 p,
          pmm⟩ p userCodeAddress (programPhys &&& ~~~(pageSize - 1)) pteUser)
            p userStackAddress d stackFlags) := by
        simp [userModePrepareDemoTask, he, ha, hp0, hd, stackFlags]
      rw [Kernel.call, hdone]
      obtain ⟨T₃, hid₃, ht₃⟩ := ho.demo_takes h programPhys ha hd
      exact ⟨insert p S, T₃, hid₃, ho.changes h hcr3 ht.left ht₃ fun _ hq => hq⟩

theorem IdentityMap.call_changes (h : IdentityMap cr3 k S T) (hcr3 : cr3 ∈ k.spaces) (programPhys : UInt64)
    (c : KernelCall) :
    ∃ S' T', IdentityMap cr3 (k.call cr3 programPhys c) S' T' ∧
      Changes (programPhys &&& pteAddrMask) k T (k.call cr3 programPhys c) T' := by
  cases c with
  | elfLoad entries name image => exact h.load_changes hcr3 programPhys _ entries name image
  | prepareDemo task u => exact h.prepare_changes hcr3 programPhys task u

end

/-! ## Translations for user mode -/

section
variable {α : Type} [PageAllocator α] [CompletePageAllocator α] {cr3 q v e : UInt64} {k : Kernel α}
  {S : Finset UInt64} {T : TableMap}

omit [CompletePageAllocator α] in
theorem Kernel.call_spaces (k : Kernel α) (programPhys : UInt64) (c : KernelCall) :
    k.spaces ⊆ (k.call cr3 programPhys c).spaces := by
  cases c with
  | elfLoad entries name image => exact List.subset_append_right ..
  | prepareDemo task u => exact List.subset_append_right ..

/-- A walk that ends above the last level ends in the kernel's directory. -/
theorem IdentityMap.huge_entry (h : IdentityMap cr3 k S T) (hq : q ∈ k.spaces) {f : UInt64} {rest : List (Fin 512)}
    (hlook : Radix.lookup (slot k.vmm.mem) q (path v) = some (f, rest)) (hrest : rest ≠ []) :
    (effectiveRights (entriesAt k.vmm.mem (walk k.vmm.mem q v))).user = false := by
  have hroot := (h.inv.spaces hq).1
  obtain ⟨pd, hpd, hentries⟩ := h.directory
  obtain ⟨x, hx, ℓ, hlab, hrank, hleaf⟩ := h.inv.tabled.labelled.leaf_of_lookup (ℓ := .root q) hrest hroot rfl hlook
  have hpresent : readEntry k.vmm.mem x.1 x.2 &&& ptePresent ≠ 0 := fun hc => by
    rw [slot_of_absent hc] at hleaf
    cases hleaf
  have hhuge : (kernelLayout cr3 S).huge ℓ := by
    by_contra hc
    rw [slot_of_link hpresent (h.inv.tabled.plain hlab hrank hc hpresent) hrank] at hleaf
    cases hleaf
  obtain rfl : x.1 = pd := h.inv.tabled.inj hlab (hhuge ▸ hpd)
  have hclosed : readEntry k.vmm.mem x.1 x.2 &&& pteUser = 0 := by
    rw [and_of_untouched (hentries x.2) (by decide)]
    exact (identityEntry_bits x.2).2.2
  have hmem : readEntry k.vmm.mem x.1 x.2 ∈ entriesAt k.vmm.mem (walk k.vmm.mem q v) := List.mem_map_of_mem hx
  rw [effectiveRights, List.all_eq_false]
  exact ⟨_, hmem, by simp [hclosed]⟩

/-- What user mode reaches it reaches through a last entry. -/
theorem IdentityMap.user_entry (h : IdentityMap cr3 k S T) (hq : q ∈ k.spaces) {t : Translation}
    (ht : translation k.vmm.mem q v = some t) (hu : t.rights.user = true) :
    ∃ e, LastEntry k.vmm.mem q v e ∧ t.phys.toNat / 4096 = (e &&& pteAddrMask).toNat / 4096 ∧
      (t.rights.writable = true → e &&& pteWritable ≠ 0) := by
  obtain ⟨⟨f, rest⟩, hlook, hphys, hrights⟩ := translation_eq_some.mp ht
  rw [hrights] at hu
  have hrest : rest = [] := by
    by_contra hc
    rw [h.huge_entry hq hlook hc] at hu
    cases hu
  subst hrest
  obtain ⟨e, he, rfl⟩ := exists_lastEntry hlook
  have hframe : IsFrame (e &&& pteAddrMask) := by rw [IsFrame, UInt64.and_assoc, UInt64.and_self]
  refine ⟨e, he, ?_, fun hw => ?_⟩
  · rw [hphys, List.length_nil, pageOffset_zero, toNat_frame_or hframe]
    have hmod := (isFrame_iff.mp hframe).1
    omega
  · obtain ⟨pt, hf, rfl, -⟩ := he
    rw [hrights, walk_of_follow hf, effectiveRights, List.all_eq_true] at hw
    simpa using hw (readEntry k.vmm.mem pt (splitVaddr v).ptI) (by simp [entriesAt])

end

/-! ## Runs -/

structure MemoryWorld (α : Type) where
  kernel : Kernel α
  /-- Whatever the processor has found, dropped or not. -/
  cached : Set Translation
  /-- The frames of other parts of the kernel: those they had and those they have taken. -/
  others : Set Nat

inductive MemoryOp where
  | call (c : KernelCall)
  | other
  | walk (p v : UInt64)
  | store (t : Translation) (a : Nat) (b : UInt8)

/-- Calls, other parts of the kernel in frames of their own, and user code: a walk in any space, a byte through
any translation that was ever found. -/
inductive MemoryStep {α : Type} [PageAllocator α] [LawfulPageAllocator α] (cr3 programPhys : UInt64) :
    MemoryWorld α → MemoryOp → MemoryWorld α → Prop
  | call (w : MemoryWorld α) (c : KernelCall) :
    MemoryStep cr3 programPhys w (.call c) { w with kernel := w.kernel.call cr3 programPhys c }
  | other (w : MemoryWorld α) {s : Vmm α} (hv : Valid s.pmm) (hspare : spare s.pmm ⊆ spare w.kernel.vmm.pmm)
    (hmem : ∀ x, x / 4096 ∉ w.others ∪ (spare w.kernel.vmm.pmm \ spare s.pmm) → s.mem x = w.kernel.vmm.mem x) :
    MemoryStep cr3 programPhys w .other
      { w with kernel := { w.kernel with vmm := s }, others := w.others ∪ (spare w.kernel.vmm.pmm \ spare s.pmm) }
  | walk (w : MemoryWorld α) {p v : UInt64} (hp : p ∈ w.kernel.spaces) {t : Translation}
      (ht : translation w.kernel.vmm.mem p v = some t) :
    MemoryStep cr3 programPhys w (.walk p v) { w with cached := insert t w.cached }
  | store (w : MemoryWorld α) {t : Translation} (ht : t ∈ w.cached) (hu : t.rights.user = true)
      (hw : t.rights.writable = true)
    {a : Nat} (ha : a / 4096 = t.phys.toNat / 4096) (b : UInt8) :
    MemoryStep cr3 programPhys w (.store t a b)
      { w with kernel := { w.kernel with vmm := { w.kernel.vmm with mem := w.kernel.vmm.mem.store8 a b } } }

section
variable {α : Type} [PageAllocator α] [CompletePageAllocator α] {cr3 programPhys program q v : UInt64}
  {s : Vmm α} {w w' : MemoryWorld α} {k' : Kernel α} {S : Finset UInt64} {T T' : TableMap} {f : Nat}

/-- Taken since `s` for a page of user code. -/
def HandedOut (s : Vmm α) (w : MemoryWorld α) (T : TableMap) (f : Nat) : Prop :=
  f ∈ spare s.pmm ∧ f ∉ spare w.kernel.vmm.pmm ∧ f ∉ w.others ∧ ∀ n, n.toNat / 4096 = f → T.label n = none

/-- **The invariant** since the start `s`. -/
structure Sandboxed (cr3 program : UInt64) (s : Vmm α) (w : MemoryWorld α) (S : Finset UInt64)
    (T : TableMap) : Prop where
  identity : IdentityMap cr3 w.kernel S T
  home : cr3 ∈ w.kernel.spaces
  left : spare w.kernel.vmm.pmm ⊆ spare s.pmm
  others : ∀ f ∈ w.others, f ∉ spare w.kernel.vmm.pmm ∧ ∀ n, n.toNat / 4096 = f → T.label n = none
  entries : ∀ {q v e}, q ∈ w.kernel.spaces → LastEntry w.kernel.vmm.mem q v e →
    HandedOut s w T ((e &&& pteAddrMask).toNat / 4096) ∨ ReadsProgram program e
  cached : ∀ t ∈ w.cached, t.rights.user = true → HandedOut s w T (t.phys.toNat / 4096) ∨
    t.rights.writable = false ∧ t.phys.toNat / 4096 = program.toNat / 4096

theorem HandedOut.call (h : HandedOut s w T f) (hc : Changes program w.kernel T k' T') :
    HandedOut s { w with kernel := k' } T' f := by
  obtain ⟨h1, h2, h3, h4⟩ := h
  exact ⟨h1, fun hin => h2 (hc.left hin), h3, fun n => hc.unlabelled h2 h4⟩

theorem Sandboxed.call (h : Sandboxed cr3 (programPhys &&& pteAddrMask) s w S T) (c : KernelCall) :
    ∃ S' T', Sandboxed cr3 (programPhys &&& pteAddrMask) s
      { w with kernel := w.kernel.call cr3 programPhys c } S' T' := by
  obtain ⟨S', T', hid, hc⟩ := h.identity.call_changes h.home programPhys c
  refine ⟨S', T', hid, w.kernel.call_spaces programPhys c h.home, hc.left.trans h.left, fun f hf => ?_,
    fun hq he => ?_, fun t ht hu => ?_⟩
  · obtain ⟨hnot, hnone⟩ := h.others f hf
    exact ⟨fun hin => hnot (hc.left hin), fun n => hc.unlabelled hnot hnone⟩
  · rcases hc.last hq he with ⟨q', hq', hold⟩ | ⟨h1, h2, h3⟩ | hreads
    · exact (h.entries hq' hold).imp_left fun hh => hh.call hc
    · exact Or.inl ⟨h.left h1, h2, fun hin => (h.others _ hin).1 h1, h3⟩
    · exact Or.inr hreads
  · exact (h.cached t ht hu).imp_left fun hh => hh.call hc

theorem Tabled.translation_congr {L : Layout} {mem' : Memory} (h : Tabled L s T) (hq : T.label q = some (.root q))
    (hentries : ∀ {n ℓ i}, T.label n = some ℓ → readEntry mem' n i = readEntry s.mem n i) :
    translation mem' q v = translation s.mem q v := by
  have hlook : Radix.lookup (slot mem') q (path v) = Radix.lookup (slot s.mem) q (path v) :=
    h.labelled.lookup_congr (ℓ := .root q) (fun hn => slot_congr (hentries hn) _) hq rfl
  have hwalk : walk mem' q v = walk s.mem q v :=
    h.labelled.trail_congr (ℓ := .root q) (fun hn => by rw [slot_congr (hentries hn)]) hq
  have hread : entriesAt mem' (walk s.mem q v) = entriesAt s.mem (walk s.mem q v) := by
    refine List.map_congr_left fun x hx => ?_
    obtain ⟨ℓ, hn⟩ := h.walk_label hq hx
    exact hentries hn
  rw [translation, translation, vmmTranslate_eq, vmmTranslate_eq, hlook, hwalk, hread]

/-- Nothing changes in the tables, and no translation does. -/
theorem IdentityMap.undisturbed (h : IdentityMap cr3 w.kernel S T) {s' : Vmm α} (hv : Valid s'.pmm)
    (hspare : spare s'.pmm ⊆ spare w.kernel.vmm.pmm)
    (hmem : ∀ x, (∀ n, n.toNat / 4096 = x / 4096 → T.label n = none) ∨ s'.mem x = w.kernel.vmm.mem x) :
    IdentityMap cr3 { w.kernel with vmm := s' } S T ∧
      (∀ {q v e}, q ∈ w.kernel.spaces → LastEntry s'.mem q v e → LastEntry w.kernel.vmm.mem q v e) ∧
      ∀ {q v}, q ∈ w.kernel.spaces → translation s'.mem q v = translation w.kernel.vmm.mem q v := by
  have hbytes {n : UInt64} {ℓ : Label} {x : Nat} (hn : T.label n = some ℓ) (h1 : n.toNat ≤ x)
    (h2 : x < n.toNat + 4096) :
      s'.mem x = w.kernel.vmm.mem x := by
    refine (hmem x).resolve_left fun hc => ?_
    rw [hc n ((h.inv.tabled.frame hn).2.1.div_eq h1 h2).symm] at hn
    cases hn
  have hentries {n : UInt64} {ℓ : Label} {i : Fin 512} (hn : T.label n = some ℓ) : readEntry s'.mem n i =
      readEntry w.kernel.vmm.mem n i :=
    readEntry_congr (fun x h1 h2 => hbytes hn h1 h2) i
  obtain ⟨htab, hsame⟩ := h.inv.tabled.other s' hv hspare hbytes
  refine ⟨h.step_kept (h.inv.of_tabled htab) id fun hn _ => hentries hn, fun {q v e} hq he => ?_, fun hq => ?_⟩
  · have hroot := (h.inv.spaces hq).1
    exact he.old h.inv.tabled hroot
      (hsame hroot rfl) (fun hn hs => (slot_congr (hentries hn) _).trans hs) fun hn _ => hentries hn
  · exact h.inv.tabled.translation_congr (h.inv.spaces hq).1 hentries

theorem Sandboxed.other (h : Sandboxed cr3 program s w S T) {s' : Vmm α} (hv : Valid s'.pmm)
    (hspare : spare s'.pmm ⊆ spare w.kernel.vmm.pmm)
    (hmem : ∀ x, x / 4096 ∉ w.others ∪ (spare w.kernel.vmm.pmm \ spare s'.pmm) → s'.mem x = w.kernel.vmm.mem x) :
    Sandboxed cr3 program s
      { w with kernel := { w.kernel with vmm := s' }, others := w.others ∪
        (spare w.kernel.vmm.pmm \ spare s'.pmm) } S T := by
  have hclear {f : Nat} (hf : f ∈ w.others ∪ (spare w.kernel.vmm.pmm \ spare s'.pmm)) : f ∉ spare s'.pmm ∧
      ∀ n, n.toNat / 4096 = f → T.label n = none := by
    rcases hf with hf | ⟨hin, hout⟩
    · exact ⟨fun hc => (h.others f hf).1 (hspare hc), (h.others f hf).2⟩
    · refine ⟨hout, fun n hn => ?_⟩
      cases hl : T.label n with
      | none => rfl
      | some ℓ => exact absurd (hn ▸ hin) (h.identity.inv.tabled.frame hl).2.2
  have hquiet (x : Nat) : (∀ n, n.toNat / 4096 = x / 4096 → T.label n = none) ∨ s'.mem x = w.kernel.vmm.mem x := by
    by_cases hx : x / 4096 ∈ w.others ∪ (spare w.kernel.vmm.pmm \ spare s'.pmm)
    · exact Or.inl (hclear hx).2
    · exact Or.inr (hmem x hx)
  obtain ⟨hid, hlast, -⟩ := h.identity.undisturbed hv hspare hquiet
  -- what other parts take is still spare, what user code has is not
  have hhanded {f : Nat} (hf : HandedOut s w T f) :
      HandedOut s { w with kernel := { w.kernel with vmm := s' }, others := w.others ∪
          (spare w.kernel.vmm.pmm \ spare s'.pmm) } T f := by
    obtain ⟨h1, h2, h3, h4⟩ := hf
    refine ⟨h1, fun hc => h2 (hspare hc), fun hc => ?_, h4⟩
    rcases hc with hc | hc
    · exact h3 hc
    · exact h2 hc.1
  exact ⟨hid, h.home, hspare.trans h.left, fun f hf => hclear hf,
    fun hq he => (h.entries hq (hlast hq he)).imp_left hhanded, fun t ht hu => (h.cached t ht hu).imp_left hhanded⟩

theorem Sandboxed.walk (h : Sandboxed cr3 program s w S T) (hq : q ∈ w.kernel.spaces) {t : Translation}
    (ht : translation w.kernel.vmm.mem q v = some t) :
    Sandboxed cr3 program s { w with cached := insert t w.cached } S T where
  identity := h.identity
  home := h.home
  left := h.left
  others := h.others
  entries := h.entries
  cached t' ht' hu := by
    cases ht' with
    | inr hold => exact h.cached t' hold hu
    | inl heq =>
      subst heq
      obtain ⟨e, he, hpage, hwritable⟩ := h.identity.user_entry hq ht hu
      rw [hpage]
      refine (h.entries hq he).imp_right fun ⟨hprogram, hclosed⟩ => ⟨?_, by rw [hprogram]⟩
      exact Bool.eq_false_iff.mpr fun hc => hwritable hc hclosed

theorem Sandboxed.store (h : Sandboxed cr3 program s w S T) {t : Translation} (ht : t ∈ w.cached)
    (hu : t.rights.user = true) (hw : t.rights.writable = true) {a : Nat}
    (ha : a / 4096 = t.phys.toNat / 4096) (b : UInt8) :
    Sandboxed cr3 program s
      { w with kernel := { w.kernel with vmm := { w.kernel.vmm with mem := w.kernel.vmm.mem.store8 a b } } } S
      T := by
  have hhanded : HandedOut s w T (t.phys.toNat / 4096) := (h.cached t ht hu).resolve_right fun hc => by
    rw [hc.1] at hw
    cases hw
  have hquiet (x : Nat) : (∀ n, n.toNat / 4096 = x / 4096 → T.label n = none) ∨
      w.kernel.vmm.mem.store8 a b x = w.kernel.vmm.mem x := by
    by_cases hx : x = a
    · left
      rw [hx, ha]
      exact hhanded.2.2.2
    · exact Or.inr (if_neg hx)
  have hvalid : Valid ({ w.kernel.vmm with mem := w.kernel.vmm.mem.store8 a b } : Vmm α).pmm :=
    h.identity.inv.tabled.valid
  obtain ⟨hid, hlast, -⟩ := h.identity.undisturbed hvalid (Set.Subset.refl _) hquiet
  exact ⟨hid, h.home, h.left, h.others, fun hq he => h.entries hq (hlast hq he), h.cached⟩

theorem Sandboxed.step (h : Sandboxed cr3 (programPhys &&& pteAddrMask) s w S T) {op : MemoryOp}
    (hs : MemoryStep cr3 programPhys w op w') :
    ∃ S' T', Sandboxed cr3 (programPhys &&& pteAddrMask) s w' S' T' := by
  cases hs with
  | call c => exact h.call c
  | other hv hspare hmem => exact ⟨S, T, h.other hv hspare hmem⟩
  | walk hp ht => exact ⟨S, T, h.walk hp ht⟩
  | store ht hu hw ha b => exact ⟨S, T, h.store ht hu hw ha b⟩

/-- The frames `others` hold neither spare pages nor the tables of `boot.S`. -/
def Apart (cr3 : UInt64) (s : Vmm α) (others : Set Nat) : Prop :=
  ∀ f ∈ others, f ∉ spare s.pmm ∧ ∀ v, ∀ x ∈ walk s.mem cr3 v, x.1.toNat / 4096 ≠ f

end

section
variable {cr3 programPhys p : UInt64} {s : Vmm Pmm} {ops : List MemoryOp} {w : MemoryWorld Pmm} {mem : Memory}

end

end KernelOs
