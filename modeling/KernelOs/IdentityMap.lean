import KernelOs.KernelSpaces

/-!
# The kernel's identity map

Every space reaches the first GiB through the page directory that `boot.S` filled
with huge pages. `get_or_create_table` opens and adds links, but it never touches
a huge page, and only the last tables hold pages of `vmm_map_page`.
-/

namespace KernelOs
open Lib LawfulPageAllocator CompletePageAllocator

variable {α : Type} [PageAllocator α]

/-- The spaces to which a call copies slot 0, also one that fails after that. -/
def Kernel.opened (cr3 programPhys : UInt64) (k : Kernel α) : KernelCall → List UInt64
  | .elfLoad entries name image =>
    match image, ramfsOpen entries name with
    | some _, some file =>
      if validElfFile file ∧ (vmmCreateAddressSpace k.vmm).1 ≠ 0 then [(vmmCreateAddressSpace k.vmm).1] else []
    | _, _ => []
  | .prepareDemo task u =>
    let (ok, task, _, _) := userModePrepareDemoTask cr3 programPhys task u k.vmm
    if ok then task.toList else []

inductive KernelOp where
  | call (c : KernelCall)
  | mapPage (p v pa flags : UInt64)
  | unmapPage (p v : UInt64)
  | takeFrames

/-- Calls, single pages that come and go in any of the spaces, and frames that other parts of the kernel take. -/
inductive PageStep [LawfulPageAllocator α] (cr3 programPhys : UInt64) : Kernel α → KernelOp → Kernel α → Prop
  | call (k : Kernel α) (c : KernelCall) :
    PageStep cr3 programPhys k (.call c) ⟨(k.call cr3 programPhys c).vmm, k.opened cr3 programPhys c ++ k.spaces⟩
  | mapPage (k : Kernel α) {p : UInt64} (hp : p ∈ k.spaces) (v pa flags : UInt64) :
    PageStep cr3 programPhys k (.mapPage p v pa flags) { k with vmm := vmmMapPage k.vmm p v pa flags }
  | unmapPage (k : Kernel α) {p : UInt64} (hp : p ∈ k.spaces) (v : UInt64) :
    PageStep cr3 programPhys k (.unmapPage p v) { k with vmm := vmmUnmapPage k.vmm p v }
  | takeFrames (k : Kernel α) {pmm : α} (hv : Valid pmm) (hspare : spare pmm ⊆ spare k.vmm.pmm) :
    PageStep cr3 programPhys k .takeFrames { k with vmm := { k.vmm with pmm } }

/-- The entry of `boot.S` for the 2 MiB from `0x200000 * i` on. -/
def identityEntry (i : Fin 512) : UInt64 := UInt64.ofNat (0x200000 * i.val) ||| 0b10000011

section
variable {i : Fin 512} {mem : Memory} {n n' v : UInt64} {r : Nat}

theorem toNat_identityEntry (i : Fin 512) : (identityEntry i &&& pteAddrMask).toNat = 0x200000 * i.val := by
  have hframe : IsFrame (UInt64.ofNat (512 * i.val * 4096)) := isFrame_page (by omega)
  rw [identityEntry, or_and_distrib, show 0x200000 * i.val = 512 * i.val * 4096 by omega,
    show UInt64.ofNat (512 * i.val * 4096) &&& pteAddrMask = _ from hframe,
    show (0b10000011 : UInt64) &&& pteAddrMask = 0 by decide, UInt64.or_zero, toNat_ofNat_page (by omega)]

theorem identityEntry_bits (i : Fin 512) : identityEntry i &&& ptePresent ≠ 0 ∧ identityEntry i &&& pteHuge ≠ 0 ∧
    identityEntry i &&& pteUser = 0 := by
  have hframe : IsFrame (UInt64.ofNat (512 * i.val * 4096)) := isFrame_page (by omega)
  refine ⟨?_, ?_, ?_⟩ <;> rw [identityEntry, or_and_distrib]
  · exact or_ne_zero_right (by decide)
  · exact or_ne_zero_right (by decide)
  · rw [show 0x200000 * i.val = 512 * i.val * 4096 by omega,
      ← show UInt64.ofNat (512 * i.val * 4096) &&& pteAddrMask = _ from hframe,
      UInt64.and_assoc, show pteAddrMask &&& pteUser = 0 by decide, UInt64.and_zero]
    decide

theorem identityEntry_or (hi : i.val = v.toNat / 0x200000) :
    (identityEntry i &&& pteAddrMask) ||| pageOffset v 1 = v := by
  have hoff : (pageOffset v 1).toNat = v.toNat % 2 ^ 21 := by
    rw [pageOffset, UInt64.toNat_and,
      show ((1 : UInt64) <<< (12 + 9 * UInt64.ofNat 1) - 1).toNat = 2 ^ 21 - 1 by decide,
      Nat.and_two_pow_sub_one_eq_mod]
  rw [← UInt64.toNat_inj, UInt64.toNat_or, toNat_identityEntry, hoff, hi,
    show 0x200000 * (v.toNat / 0x200000) = 2 ^ 21 * (v.toNat / 0x200000) by rfl,
    ← Nat.two_pow_add_eq_or_of_lt (Nat.mod_lt _ (by decide))]
  omega

theorem pdI_low (hv : v.toNat < 2 ^ 30) : (splitVaddr v).pdI.val = v.toNat / 0x200000 :=
  (tableIndex_val (by decide)).trans (by simp only [UInt64.reduceToNat]; omega)

/-- The way to the directory and the entry there. -/
theorem identity_walk {q pdpt pd : UInt64} (hfirst : slot mem 3 q 0 = .node pdpt)
    (hsecond : slot mem 2 pdpt 0 = .node pd)
    (hentries : ∀ i, readEntry mem pd i &&& pteUntouched = identityEntry i) (hv : v.toNat < 2 ^ 30) :
    Radix.lookup (slot mem) q (path v) =
      some (identityEntry (splitVaddr v).pdI &&& pteAddrMask, [(splitVaddr v).ptI]) ∧
      walk mem q v = [(q, 0), (pdpt, 0), (pd, (splitVaddr v).pdI)] := by
  have hindex {shift : UInt64} (hshift : shift.toNat < 64) : (tableIndex v shift).val =
    v.toNat / 2 ^ shift.toNat % 512 := tableIndex_val hshift
  have h4 : (splitVaddr v).pml4I = 0 :=
    Fin.ext ((hindex (by decide)).trans (by simp only [UInt64.reduceToNat]; simp; omega))
  have h3 : (splitVaddr v).pdptI = 0 :=
    Fin.ext ((hindex (by decide)).trans (by simp only [UInt64.reduceToNat]; simp; omega))
  obtain ⟨hpresent, hhuge, -⟩ := identityEntry_bits (splitVaddr v).pdI
  rw [← and_of_untouched (hentries _) (by decide)] at hpresent hhuge
  have hthird : slot mem 1 pd (splitVaddr v).pdI = .leaf (identityEntry (splitVaddr v).pdI &&& pteAddrMask) := by
    simp [slot, hpresent, hhuge,
      and_of_untouched (hentries (splitVaddr v).pdI) (show pteUntouched &&& pteAddrMask = pteAddrMask by decide)]
  have hpath : path v = [0, 0, (splitVaddr v).pdI, (splitVaddr v).ptI] := by
    rw [path, tablePath, h4, h3]
    rfl
  constructor
  · simp only [hpath, Radix.lookup_cons, List.length_cons, List.length_nil, Nat.zero_add, Nat.reduceAdd, hfirst,
      hsecond, hthird]
  · simp only [walk, hpath, Radix.trail, hfirst, hsecond, hthird, Nat.reduceSub]

theorem slot_node_eq (h : slot mem r n i = .node n') : readEntry mem n i &&& pteAddrMask = n' := by
  unfold slot at h
  by_cases hp : readEntry mem n i &&& ptePresent = 0
  · simp [hp] at h
  by_cases hr : r = 0
  · simp [hp, hr] at h
  by_cases hh : readEntry mem n i &&& pteHuge = 0
  · simpa [hp, hr, hh] using h
  · simp only [hp, hr, hh, if_false, ne_eq, not_false_eq_true, if_true] at h
    split at h <;> cases h

end

section
variable [CompletePageAllocator α] {cr3 programPhys p q : UInt64} {k k' : Kernel α} {S : Finset UInt64}
  {T T' : TableMap} {s : Vmm α}

/-- **The invariant**: the kernel's page directory is as `boot.S` has left it, apart from what the processor
marks. -/
structure IdentityMap (cr3 : UInt64) (k : Kernel α) (S : Finset UInt64) (T : TableMap) : Prop where
  inv : KernelInv cr3 k S T
  directory : ∃ pd, T.label pd = some ⟨cr3, [0, 0]⟩ ∧
    ∀ i, readEntry k.vmm.mem pd i &&& pteUntouched = identityEntry i

theorem IdentityMap.step (h : IdentityMap cr3 k S T) {S' : Finset UInt64} (hinv : KernelInv cr3 k' S' T')
    (hmono : ∀ {n ℓ}, T.label n = some ℓ → T'.label n = some ℓ) {flags : UInt64}
    (hlinks : ∀ {n ℓ i}, T.label n = some ℓ → 0 < ℓ.rank →
      LinkStep flags (readEntry k.vmm.mem n i) (readEntry k'.vmm.mem n i)) :
    IdentityMap cr3 k' S' T' := by
  obtain ⟨pd, hpd, hentries⟩ := h.directory
  refine ⟨hinv, pd, hmono hpd, fun i => ?_⟩
  obtain ⟨hpresent, hhuge, -⟩ := identityEntry_bits i
  have hstep := hlinks (i := i) hpd (Nat.zero_lt_one : 0 < Label.rank ⟨cr3, [0, 0]⟩)
  rw [← and_of_untouched (hentries i) (by decide)] at hpresent hhuge
  rw [(hstep.present hpresent).resolve_right fun hc => hhuge hc.2.1]
  exact hentries i

theorem IdentityMap.step_kept (h : IdentityMap cr3 k S T) {S' : Finset UInt64} (hinv : KernelInv cr3 k' S' T')
    (hmono : ∀ {n ℓ}, T.label n = some ℓ → T'.label n = some ℓ)
    (hkept : ∀ {n ℓ i}, T.label n = some ℓ → 0 < ℓ.rank → readEntry k'.vmm.mem n i = readEntry k.vmm.mem n i) :
    IdentityMap cr3 k' S' T' := by
  have hlinks {n : UInt64} {ℓ : Label} {i : Fin 512} (hn : T.label n = some ℓ) (hr : 0 < ℓ.rank) :
      LinkStep 0 (readEntry k.vmm.mem n i) (readEntry k'.vmm.mem n i) := by
    rw [hkept hn hr]
    exact .keep
  exact h.step hinv hmono hlinks

theorem IdentityMap.map (h : IdentityMap cr3 k S T) (hp : p ∈ k.spaces) (v pa flags : UInt64) :
    ∃ T', IdentityMap cr3 { k with vmm := vmmMapPage k.vmm p v pa flags } S T' := by
  have hroot := (h.inv.spaces hp).1
  obtain ⟨hlinks, -⟩ := vmmMapPage_granted h.inv.tabled hroot v pa flags
  rcases vmmMapPage_cases h.inv.tabled hroot v pa flags with ⟨-, T', hx, -⟩ | ⟨-, pt, s₁, T', hx, -,
    -, -, hf, -, hs⟩
  · exact ⟨T', h.step (h.inv.extend hx) hx.mono hlinks⟩
  · have hwrite := (hx.tabled.write_leaf (e := (pa &&& pteAddrMask) ||| flags ||| ptePresent) (hx.mono hroot) hf).1
    exact ⟨T', h.step (h.inv.extend (hs ▸ hx.trans hwrite)) hx.mono hlinks⟩

theorem IdentityMap.unmap (h : IdentityMap cr3 k S T) (hp : p ∈ k.spaces) (v : UInt64) :
    IdentityMap cr3 { k with vmm := vmmUnmapPage k.vmm p v } S T := by
  have hroot := (h.inv.spaces hp).1
  rw [vmmUnmapPage_eq]
  cases hf : Radix.follow (slot k.vmm.mem) 3 p (tablePath v) with
  | none => exact h
  | some pt =>
    have hwrite := (h.inv.tabled.write_leaf (e := 0) hroot hf).1
    refine h.step_kept (h.inv.extend hwrite) id fun hn hr => ?_
    rw [Option.elim_some]
    exact h.inv.tabled.leaf_frame hroot hf 0 hn (Or.inl hr)

theorem Opened.identity {s₃ : Vmm α} {T₁ : TableMap} (ho : Opened cr3 k S T p s₃ T₁) (h : IdentityMap cr3 k S T) :
    IdentityMap cr3 ⟨s₃, p :: k.spaces⟩ (insert p S) T₁ := h.step_kept ho.inv ho.mono fun hn _ => ho.kept hn

theorem IdentityMap.elfLoad (h : IdentityMap cr3 k S T) (entries : Ramfs) (name : Option (List UInt8))
    (image : Option ElfImage) :
    ∃ S' T', IdentityMap cr3 ⟨(k.call cr3 programPhys (.elfLoad entries name image)).vmm,
      k.opened cr3 programPhys (.elfLoad entries name image) ++ k.spaces⟩ S' T' := by
  by_cases hok : ∃ i file, image = some i ∧ ramfsOpen entries name = some file ∧ validElfFile file = true
  swap
  · have hrejected : elfLoadFromRamfs entries cr3 name image k.vmm = (false, image, k.vmm) :=
      elfLoad_rejected k.vmm hok
    have hnone : k.opened cr3 programPhys (.elfLoad entries name image) = [] := by
      cases image with
      | none => rfl
      | some i =>
        cases hfile : ramfsOpen entries name with
        | none => simp only [Kernel.opened, hfile]
        | some file =>
          simp only [Kernel.opened, hfile]
          exact if_neg fun hc => hok ⟨i, file, rfl, hfile, hc.1⟩
    rw [hnone, Kernel.call, hrejected]
    exact ⟨S, T, h⟩
  obtain ⟨i, file, rfl, hopen, hvalid⟩ := hok
  rcases elfLoad_spec h.inv i hopen hvalid with
    ⟨s', he, hm, htab, -, hz⟩ | ⟨p, s₃, T₁, ok, s', T', frames, bytes, ho, -, he, hload, -⟩
  · have hnone : k.opened cr3 programPhys (.elfLoad entries name (some i)) = [] := by
      have h0 : (vmmCreateAddressSpace k.vmm).1 = 0 := by
        simp [vmmCreateAddressSpace, alloc_of_spare_eq h.inv.tabled.valid hz]
      simp only [Kernel.opened, hopen, h0]
      simp
    rw [hnone, Kernel.call, he]
    exact ⟨S, T, h.step_kept (h.inv.of_tabled htab) id fun _ _ => by rw [hm]⟩
  · have hroot : k.opened cr3 programPhys (.elfLoad entries name (some i)) = [p] := by
      have h0 : p ≠ 0 := (ho.inv.tabled.frame ho.root).1
      simp only [Kernel.opened, hopen, ho.created]
      simp [hvalid, h0]
    rw [hroot, Kernel.call, he]
    exact ⟨insert p S, T', (ho.identity h).step (hload.inv ho.inv) hload.mono hload.links⟩

theorem IdentityMap.prepareDemo (h : IdentityMap cr3 k S T) (task : Option UInt64) (u : UserMode) :
    ∃ S' T', IdentityMap cr3 ⟨(k.call cr3 programPhys (.prepareDemo task u)).vmm,
      k.opened cr3 programPhys (.prepareDemo task u) ++ k.spaces⟩ S' T' := by
  cases task with
  | none => exact ⟨S, T, h⟩
  | some t =>
    rcases prepareDemo_spec h.inv programPhys t u with
      ⟨s', T', he, hinv, -, hkept, hmono, -⟩ | ⟨p, s₃, T₁, d, u', ho, -, -, -, he⟩
    · simp only [Kernel.opened, Kernel.call, he]
      exact ⟨S, T', h.step_kept hinv hmono fun hn _ => hkept hn⟩
    · simp only [Kernel.opened, Kernel.call, he]
      obtain ⟨T₂, h₂⟩ :=
        (ho.identity h).map (List.mem_cons_self ..) userCodeAddress (programPhys &&& ~~~(pageSize - 1)) pteUser
      obtain ⟨T₃, h₃⟩ := h₂.map (List.mem_cons_self ..) userStackAddress d stackFlags
      exact ⟨insert p S, T₃, h₃⟩

theorem KernelInv.links (h : KernelInv cr3 k S T) {pdpt pd : UInt64} (hpdpt : T.label pdpt = some ⟨cr3, [0]⟩)
    (hpd : T.label pd = some ⟨cr3, [0, 0]⟩) :
    (∀ {q}, T.label q = some (.root q) → q = cr3 ∨ q ∈ S → slot k.vmm.mem 3 q 0 = .node pdpt) ∧
      slot k.vmm.mem 2 pdpt 0 = .node pd := by
  constructor
  · intro q hq hshared
    have hnext : (kernelLayout cr3 S).next (.root q) 0 = ⟨cr3, [0]⟩ := kernelLayout_next_zero hshared.symm
    exact h.tabled.linked (ℓ := .root q) hq (by simp) (hnext ▸ hpdpt)
  · have hnext : (kernelLayout cr3 S).next ⟨cr3, [0]⟩ 0 = ⟨cr3, [0, 0]⟩ := Layout.next_of_ne _ (by simp) 0
    exact h.tabled.linked (ℓ := ⟨cr3, [0]⟩) hpdpt (Nat.zero_lt_two : 0 < Label.rank ⟨cr3, [0]⟩) (hnext ▸ hpd)

theorem Booted.identity (h : Booted cr3 s) : ∃ T, IdentityMap cr3 ⟨s, [cr3]⟩ ∅ T := by
  obtain ⟨T, hT, hnames⟩ := h.inv
  obtain ⟨pdpt, pd, -, -, -, hframe, hboot⟩ := h.tables
  obtain ⟨pdpt', hpdpt'⟩ : ∃ n, T.label n = some ⟨cr3, [0]⟩ := hT.pdpt
  obtain ⟨pd', hpd'⟩ : ∃ n, T.label n = some ⟨cr3, [0, 0]⟩ := T.mem_names.mp (by rw [hnames]; simp)
  -- the links of boot.S lead to the tables with these names
  obtain ⟨hfirst, hsecond⟩ := hT.links hpdpt' hpd'
  obtain rfl : pdpt = pdpt' := by
    have := slot_node_eq (hfirst hT.kernel (Or.inl rfl))
    rwa [and_of_untouched (hboot.pml4 0) (by decide), if_pos rfl,
      (bootLink_and (hframe pdpt (by simp)).2.1).1] at this
  obtain rfl : pd = pd' := by
    have := slot_node_eq hsecond
    rwa [and_of_untouched (hboot.pdpt 0) (by decide), if_pos rfl,
      (bootLink_and (hframe pd (by simp)).2.1).1] at this
  exact ⟨T, hT, pd, hpd', hboot.pd⟩

theorem IdentityMap.pageStep (h : IdentityMap cr3 k S T) {op : KernelOp} (hs : PageStep cr3 programPhys k op k') :
    ∃ S' T', IdentityMap cr3 k' S' T' := by
  cases hs with
  | call c =>
    cases c with
    | elfLoad entries name image => exact h.elfLoad entries name image
    | prepareDemo task u => exact h.prepareDemo task u
  | mapPage hp v pa flags =>
    obtain ⟨T', hT'⟩ := h.map hp v pa flags
    exact ⟨S, T', hT'⟩
  | unmapPage hp v => exact ⟨S, T, h.unmap hp v⟩
  | takeFrames hv hspare =>
    obtain ⟨htab, -⟩ := h.inv.tabled.other { k.vmm with pmm := _ } hv hspare fun _ _ _ => rfl
    exact ⟨S, T, h.step_kept (h.inv.of_tabled htab) id fun _ _ => rfl⟩

theorem Booted.identityRun (h : Booted cr3 s) {ops : List KernelOp}
    (hr : Run (PageStep cr3 programPhys) ⟨s, [cr3]⟩ ops k) :
    ∃ S T, IdentityMap cr3 k S T := by
  obtain ⟨T, hT⟩ := h.identity
  refine hr.invariant (I := fun k => ∃ S T, IdentityMap cr3 k S T) (fun k op k' hk hs => ?_) ⟨∅, T, hT⟩
  obtain ⟨S, T, hT⟩ := hk
  exact hT.pageStep hs

/-- What every space finds below 1 GiB: the walk ends at the directory. -/
theorem IdentityMap.translate (h : IdentityMap cr3 k S T) (hq : q ∈ k.spaces) {v : UInt64} (hv : v.toNat < 2 ^ 30) :
    vmmTranslate k.vmm.mem q v = v ∧ (effectiveRights (entriesAt k.vmm.mem (walk k.vmm.mem q v))).user = false := by
  obtain ⟨hroot, hshared⟩ := h.inv.spaces hq
  obtain ⟨pdpt, hpdpt⟩ := h.inv.pdpt
  obtain ⟨pd, hpd, hentries⟩ := h.directory
  obtain ⟨hlinks, hsecond⟩ := h.inv.links hpdpt hpd
  obtain ⟨hlookup, hwalk⟩ := identity_walk (hlinks hroot hshared) hsecond hentries hv
  constructor
  · rw [vmmTranslate_eq, hlookup]
    exact identityEntry_or (pdI_low hv)
  · have hclosed : readEntry k.vmm.mem pd (splitVaddr v).pdI &&& pteUser = 0 := by
      rw [and_of_untouched (hentries _) (by decide)]
      exact (identityEntry_bits (splitVaddr v).pdI).2.2
    simp [hwalk, entriesAt, effectiveRights, hclosed]

end

section
variable {cr3 programPhys q v : UInt64} {s : Vmm Pmm} {ops : List KernelOp} {k : Kernel Pmm}

/-- **The identity map stands**, in every space, and is closed to ring 3, whatever has been mapped where. -/
theorem identity_map (hboot : Booted cr3 s) (hrun : Run (PageStep cr3 programPhys) ⟨s, [cr3]⟩ ops k) :
    ∀ q ∈ k.spaces, ∀ v : UInt64, v < 0x40000000 → vmmTranslate k.vmm.mem q v = v ∧
      (effectiveRights (entriesAt k.vmm.mem (walk k.vmm.mem q v))).user = false := by
  obtain ⟨S, T, hT⟩ := hboot.identityRun hrun
  intro q hq v hv
  exact hT.translate hq (by rwa [UInt64.lt_iff_toNat_lt] at hv)

theorem identity_map_user_request :
    let s : Vmm Pmm := bootVmm (kernelPmm (fun _ => 0) 0)
    let s₁ := vmmUnmapPage (vmmMapPage s 0x105000 0x200000 0x7000 (pteUser ||| pteWritable)) 0x105000 0x200000
    vmmTranslate s₁.mem 0x105000 0x200123 = 0x200123 ∧
      (effectiveRights (entriesAt s₁.mem (walk s₁.mem 0x105000 0x200123))).user = false := by
  intro s s₁
  have hboot : Booted 0x105000 s := booted_bootVmm (fun _ => 0) 0
  clear_value s
  have hmap :=
    Run.single (@PageStep.mapPage _ _ _ 0x105000 0 ⟨s, [0x105000]⟩ _ (List.mem_singleton_self _) 0x200000 0x7000
    (pteUser ||| pteWritable))
  have hrun := hmap.snoc (PageStep.unmapPage _ (List.mem_singleton_self _) 0x200000)
  exact identity_map hboot hrun 0x105000 (List.mem_singleton_self _) 0x200123 (by decide)

end

end KernelOs
