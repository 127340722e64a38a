import KernelOs.EffectiveRights

/-!
# The translation cache

The processor may keep any translation it has found in the loaded address space
until `invlpg` drops those of a page or a load of CR3 drops all. Nothing else
makes it look again. It finds translations of canonical addresses only, and
`invlpg` does nothing for the others.
-/

namespace KernelOs
open Lib LawfulPageAllocator

structure TlbWorld (α : Type) where
  vmm : Vmm α
  cr3 : UInt64
  tlb : Set (UInt64 × Translation)

inductive TlbOp where
  | cache (v : UInt64)
  | mapPage (p v pa flags : UInt64)
  | unmapPage (p v : UInt64)
  | switchAddressSpace (p : UInt64)

/-- The place of the last-level entry of `v`, if there is a table for it. -/
def pageEntry (mem : Memory) (p v : UInt64) : Option (UInt64 × Fin 512) :=
  (Radix.follow (slot mem) 3 p (tablePath v)).map fun pt => (pt, (splitVaddr v).ptI)

namespace TlbWorld

variable {α : Type} [PageAllocator α]

/-- `vmm_unmap_page` executes `invlpg` after it has cleared an entry, and not when it returns before. -/
def apply (w : TlbWorld α) : TlbOp → TlbWorld α
  | .cache v =>
    { w with tlb := w.tlb ∪ {x | x.1 = v ∧ CanonicalAddress v ∧ translation w.vmm.mem w.cr3 v = some x.2} }
  | .mapPage p v pa flags => { w with vmm := vmmMapPage w.vmm p v pa flags }
  | .unmapPage p v =>
    { w with
      vmm := vmmUnmapPage w.vmm p v
      tlb := {x ∈ w.tlb | pageEntry w.vmm.mem p v ≠ none → CanonicalAddress v → pageNumber x.1 ≠ pageNumber v} }
  | .switchAddressSpace p => { w with cr3 := p, tlb := ∅ }

/-- Every cached translation is the one that a walk finds. -/
def Coherent (w : TlbWorld α) : Prop := ∀ x ∈ w.tlb, translation w.vmm.mem w.cr3 x.1 = some x.2

/-- A call of `vmm_map_page` changes no cached translation: where a cached page has the entry that the call
writes, it holds the same frame and rights already, and where the call opens links, a cached supervisor
page has another entry without the user bit on its way. -/
def Spares (w : TlbWorld α) (p v pa flags : UInt64) : Prop :=
  (∀ x ∈ w.tlb, ∀ place, pageEntry w.vmm.mem w.cr3 x.1 = some place → pageEntry w.vmm.mem p v = some place →
    SameBits (readEntry w.vmm.mem place.1 place.2) ((pa &&& pteAddrMask) ||| flags ||| ptePresent)) ∧
  (flags &&& pteUser ≠ 0 → ∀ x ∈ w.tlb, x.2.rights.user = false → ∃ place ∈ walk w.vmm.mem w.cr3 x.1,
    readEntry w.vmm.mem place.1 place.2 &&& pteUser = 0 ∧
      (place ∈ tableWalk w.vmm.mem p v → readEntry w.vmm.mem place.1 place.2 &&& pteHuge ≠ 0))

/-- A call of `vmm_unmap_page` invalidates what is cached of the entry that it clears: its address is canonical,
or there is nothing. -/
def Invalidates (w : TlbWorld α) (p v : UInt64) : Prop :=
  CanonicalAddress v ∨ ∀ x ∈ w.tlb, ∀ place, pageEntry w.vmm.mem w.cr3 x.1 = some place →
    pageEntry w.vmm.mem p v ≠ some place

def Careful (w : TlbWorld α) : TlbOp → Prop
  | .mapPage p v pa flags => w.Spares p v pa flags
  | .unmapPage p v => w.Invalidates p v
  | _ => True

end TlbWorld

def TlbOp.spaces : TlbOp → List UInt64
  | .cache _ => []
  | .mapPage p _ _ _ | .unmapPage p _ | .switchAddressSpace p => [p]

/-- A step in a machine with the address spaces `spaces`. -/
def TlbStep {α : Type} [PageAllocator α] (spaces : List UInt64) (w : TlbWorld α) (op : TlbOp)
    (w' : TlbWorld α) : Prop :=
  (∀ p ∈ op.spaces, p ∈ spaces) ∧ w' = w.apply op

def CarefulStep {α : Type} [PageAllocator α] (spaces : List UInt64) (w : TlbWorld α) (op : TlbOp)
    (w' : TlbWorld α) : Prop :=
  TlbStep spaces w op w' ∧ w.Careful op

variable {α : Type} [PageAllocator α] [LawfulPageAllocator α] {L : Layout} {T : TableMap} {w w' : TlbWorld α}
  {spaces : List UInt64} {p q v u : UInt64}

structure TlbInv (L : Layout) (spaces : List UInt64) (w : TlbWorld α) (T : TableMap) : Prop where
  tabled : Tabled L w.vmm T
  roots : ∀ q ∈ spaces, T.label q = some (.root q)
  loaded : w.cr3 ∈ spaces
  coherent : w.Coherent

theorem TlbInv.map (h : TlbInv L spaces w T) (hp : p ∈ spaces) {v pa flags : UInt64} (hs : w.Spares p v pa flags) :
    ∃ T', TlbInv L spaces (w.apply (.mapPage p v pa flags)) T' := by
  have hroot := h.roots p hp
  have hcr3 := h.roots _ h.loaded
  obtain ⟨hentry, hopen⟩ := hs
  have hgrow {T' : TableMap} {mem' : Memory} (hg : Grows flags (tableWalk w.vmm.mem p v) T T' w.vmm.mem mem') :
      ∀ x ∈ w.tlb, translation mem' w.cr3 x.1 = some x.2 := fun x hx =>
    h.tabled.translation_grow hcr3 hg (h.coherent x hx) fun hu hf => hopen hu x hx hf
  rcases vmmMapPage_cases h.tabled hroot v pa flags with
    ⟨-, T', hx, -, hg, -⟩ | ⟨-, pt, s₁, T', hx, -, hg, -, hf, -, hs'⟩
  · exact ⟨T', hx.tabled, fun q hq => hx.mono (h.roots q hq), h.loaded, hgrow hg⟩
  refine ⟨T', ?_, fun q hq => hx.mono (h.roots q hq), h.loaded, fun x hmem => ?_⟩
  · simp only [TlbWorld.apply, hs']
    exact (hx.tabled.write_leaf (hx.mono hroot) hf).1.tabled
  simp only [TlbWorld.apply, hs']
  have ht := hgrow hg x hmem
  by_cases hsame : L.SamePage p v w.cr3 x.1
  swap
  · rw [hx.tabled.translation_write (hx.mono hroot) (hx.mono hcr3) hf _ hsame]
    exact ht
  refine hx.tabled.translation_rewrite (hx.mono hroot) (hx.mono hcr3) hf (leaf_present pa flags) ?_ hsame ht
  -- a cached page with this entry had it before the call
  obtain ⟨hf₁, hi⟩ := (hx.tabled.follow_eq_iff (hx.mono hroot) (hx.mono hcr3) hf).mpr hsame
  obtain ⟨r, hl, -⟩ := translation_eq_some.mp (h.coherent x hmem)
  obtain ⟨r₁, hl₁, -⟩ := translation_eq_some.mp ht
  have hr : r₁ = r := Option.some.inj (hl₁.symm.trans
    (h.tabled.labelled.trail_of_lookup (ℓ := .root w.cr3) (fun hn => hg.slot_eq hn) hcr3 rfl hl).1)
  have hr0 : r.2 = [] := by
    rw [path, Radix.lookup_of_follow hf₁] at hl₁
    rw [← hr]
    cases hs0 : slot s₁.mem 0 pt (splitVaddr x.1).ptI with
    | empty => rw [hs0] at hl₁; cases hl₁
    | leaf a => rw [hs0] at hl₁; cases hl₁; rfl
    | node n => exact absurd hs0 slot_zero_ne_node
  have hlast : Radix.lookup (slot w.vmm.mem) w.cr3 (tablePath x.1 ++ [(splitVaddr x.1).ptI]) = some (r.1, []) := by
    rw [← path, hl, ← hr0]
  obtain ⟨pt₀, hf₀, -⟩ := Radix.follow_of_lookup hlast
  obtain rfl : pt₀ = pt :=
    Option.some.inj ((h.tabled.labelled.follow_mono (ℓ := .root w.cr3) hg.link hcr3 hf₀).symm.trans hf₁)
  have hcross : L.SamePage w.cr3 x.1 p v := hsame.symm
  obtain ⟨hfp, -⟩ := (h.tabled.follow_eq_iff hcr3 hroot hf₀).mpr hcross
  have hbits := hentry x hmem (pt₀, (splitVaddr v).ptI)
    (by rw [pageEntry, show Radix.follow (slot w.vmm.mem) 3 w.cr3 (tablePath x.1) = some pt₀ from hf₀, Option.map_some, hi])
    (by rw [pageEntry, hfp, Option.map_some])
  obtain ⟨hlab, hrank⟩ := h.tabled.labelled.follow_label (ℓ := .root p) hroot hfp
  rw [show (tablePath v).length = 3 from rfl, Label.rank_root] at hrank
  have hkept : readEntry s₁.mem pt₀ (splitVaddr v).ptI = readEntry w.vmm.mem pt₀ (splitVaddr v).ptI :=
    hg.kept hlab (Or.inl (by omega))
  rw [hkept]
  exact hbits

theorem TlbInv.unmap (h : TlbInv L spaces w T) (hp : p ∈ spaces) (hi : w.Invalidates p v) :
    TlbInv L spaces (w.apply (.unmapPage p v)) T := by
  have hroot := h.roots p hp
  have hcr3 := h.roots _ h.loaded
  rw [TlbWorld.apply, vmmUnmapPage_eq]
  cases hf : Radix.follow (slot w.vmm.mem) 3 p (tablePath v) with
  | none => exact ⟨h.tabled, h.roots, h.loaded, fun x hx => h.coherent x hx.1⟩
  | some pt =>
    rw [Option.elim_some]
    refine ⟨(h.tabled.write_leaf hroot hf).1.tabled, h.roots, h.loaded, fun x hx => ?_⟩
    obtain ⟨hmem, hdropped⟩ := hx
    have hplace : pageEntry w.vmm.mem p v = some (pt, (splitVaddr v).ptI) := by rw [pageEntry, hf, Option.map_some]
    have hne : ¬ L.SamePage p v w.cr3 x.1 := by
      intro hsame
      cases hi with
      | inl hcanonical => exact hdropped (by rw [hplace]; simp) hcanonical hsame.1.symm
      | inr hnone =>
        obtain ⟨hfx, hix⟩ := (h.tabled.follow_eq_iff hroot hcr3 hf).mpr hsame
        exact hnone x hmem (pt, (splitVaddr v).ptI) (by rw [pageEntry, hfx, Option.map_some, hix]) hplace
    rw [h.tabled.translation_write hroot hcr3 hf 0 hne]
    exact h.coherent x hmem

theorem TlbInv.step (h : TlbInv L spaces w T) {op : TlbOp} (hs : TlbStep spaces w op w') (hc : w.Careful op) :
    ∃ T', TlbInv L spaces w' T' := by
  obtain ⟨hspaces, rfl⟩ := hs
  cases op with
  | cache v =>
    refine ⟨T, h.tabled, h.roots, h.loaded, fun x hx => ?_⟩
    cases hx with
    | inl hx => exact h.coherent x hx
    | inr hx =>
      obtain ⟨rfl, -, hx⟩ := hx
      exact hx
  | mapPage p v pa flags => exact h.map (hspaces p (List.mem_singleton_self p)) hc
  | unmapPage p v => exact ⟨T, h.unmap (hspaces p (List.mem_singleton_self p)) hc⟩
  | switchAddressSpace p =>
    exact ⟨T, h.tabled, h.roots, hspaces p (List.mem_singleton_self p), fun x hx => absurd hx (Set.notMem_empty x)⟩

/-- **Coherence.** In a run from address spaces with an empty cache, in which every call of `vmm_map_page`
spares what is cached and every call of `vmm_unmap_page` invalidates it, the cache always agrees with the tables. -/
theorem tlb_coherent {s : Vmm α} (h : Tabled L s T) (hroots : ∀ q ∈ spaces, T.label q = some (.root q))
    {cr3 : UInt64} (hcr3 : cr3 ∈ spaces) {ops : List TlbOp} (hr : Run (CarefulStep spaces) ⟨s, cr3, ∅⟩ ops w) :
    w.Coherent := by
  have hinit : ∃ T, TlbInv L spaces (⟨s, cr3, ∅⟩ : TlbWorld α) T :=
    ⟨T, h, hroots, hcr3, fun x hx => absurd hx (Set.notMem_empty x)⟩
  obtain ⟨T', hinv⟩ := hr.invariant (I := fun w => ∃ T, TlbInv L spaces w T)
    (fun w op w' hi hs => by
      obtain ⟨T, hi⟩ := hi
      exact hi.step hs.1 hs.2) hinit
  exact hinv.coherent

def oneSpace : Vmm Pmm := (vmmCreateAddressSpace ⟨fun _ => 0, pmmInit (fun _ => 0xFF) 0x1000 64⟩).2

theorem tabled_oneSpace : ∃ T, Tabled separate oneSpace T ∧ T.label 0x2000 = some (.root 0x2000) := by
  have hinit := pmmInit_spec (fun _ => 0xFF) 0x1000 64 (by decide)
  have hv : Valid (pmmInit (fun _ => 0xFF) 0x1000 64) :=
    ⟨hinit.1, by rw [hinit.2.2]; simp, by rw [hinit.2.1]; decide⟩
  have hp : (vmmCreateAddressSpace (⟨fun _ => 0, pmmInit (fun _ => 0xFF) 0x1000 64⟩ : Vmm Pmm)).1 = 0x2000 := by
    decide +kernel
  obtain ⟨T, hT⟩ :=
    refines_run hv (Run.single (VmmStep.create (VmmWorld.init ⟨fun _ => 0, pmmInit (fun _ => 0xFF) 0x1000 64⟩)))
  exact ⟨T, hT.tabled, hT.roots (by simp [VmmWorld.init, hp])⟩

theorem tlb_coherent_unmap : ∃ w, Run (CarefulStep [0x2000]) ⟨oneSpace, 0x2000, ∅⟩
    [.mapPage 0x2000 0x1000 0x7000 pteWritable, .cache 0x1000, .unmapPage 0x2000 0x1000, .cache 0x1000] w ∧
      w.Coherent := by
  have hcanonical : CanonicalAddress 0x1000 := by decide
  obtain ⟨T, hT, hroot⟩ := tabled_oneSpace
  let w₀ : TlbWorld Pmm := ⟨oneSpace, 0x2000, ∅⟩
  let w₁ := w₀.apply (.mapPage 0x2000 0x1000 0x7000 pteWritable)
  let w₂ := w₁.apply (.cache 0x1000)
  let w₃ := w₂.apply (.unmapPage 0x2000 0x1000)
  have h₁ : CarefulStep [0x2000] w₀ (.mapPage 0x2000 0x1000 0x7000 pteWritable) w₁ :=
    ⟨⟨by simp [TlbOp.spaces], rfl⟩, fun x hx => absurd hx (Set.notMem_empty x),
      fun _ x hx => absurd hx (Set.notMem_empty x)⟩
  have h₂ : CarefulStep [0x2000] w₁ (.cache 0x1000) w₂ := ⟨⟨by simp [TlbOp.spaces], rfl⟩, trivial⟩
  have h₃ : CarefulStep [0x2000] w₂ (.unmapPage 0x2000 0x1000) w₃ :=
    ⟨⟨by simp [TlbOp.spaces], rfl⟩, Or.inl hcanonical⟩
  have h₄ : CarefulStep [0x2000] w₃ (.cache 0x1000) (w₃.apply (.cache 0x1000)) :=
    ⟨⟨by simp [TlbOp.spaces], rfl⟩, trivial⟩
  have hr := (((Run.single h₁).snoc h₂).snoc h₃).snoc h₄
  exact ⟨_, hr, tlb_coherent hT (by simpa using hroot) (List.mem_singleton_self _) hr⟩

/-- A cached page is mapped again, to another frame. -/
theorem stale_translation : ∃ w, Run (TlbStep [0x2000]) ⟨oneSpace, 0x2000, ∅⟩
    [.mapPage 0x2000 0x1000 0x7000 pteWritable, .cache 0x1000, .mapPage 0x2000 0x1000 0x8000 pteWritable] w ∧
      ¬ w.Coherent := by
  have hold : vmmTranslate (vmmMapPage oneSpace 0x2000 0x1000 0x7000 pteWritable).mem 0x2000 0x1000 =
    0x7000 := by decide +kernel
  have hnew : vmmTranslate
    (vmmMapPage (vmmMapPage oneSpace 0x2000 0x1000 0x7000 pteWritable) 0x2000 0x1000 0x8000 pteWritable).mem
      0x2000 0x1000 = 0x8000 := by decide +kernel
  generalize hs₁ : vmmMapPage oneSpace 0x2000 0x1000 0x7000 pteWritable = s₁ at hold hnew
  generalize hs₂ : vmmMapPage s₁ 0x2000 0x1000 0x8000 pteWritable = s₂ at hnew
  let cached : Set (UInt64 × Translation) :=
    ∅ ∪ {x | x.1 = 0x1000 ∧ CanonicalAddress 0x1000 ∧ translation s₁.mem 0x2000 0x1000 = some x.2}
  have h₁ : TlbStep [0x2000] ⟨oneSpace, 0x2000, ∅⟩ (.mapPage 0x2000 0x1000 0x7000 pteWritable) ⟨s₁, 0x2000, ∅⟩ :=
    ⟨by simp [TlbOp.spaces], by rw [TlbWorld.apply, hs₁]⟩
  have h₂ : TlbStep [0x2000] ⟨s₁, 0x2000, ∅⟩ (.cache 0x1000) ⟨s₁, 0x2000, cached⟩ := ⟨by simp [TlbOp.spaces], rfl⟩
  have h₃ : TlbStep [0x2000] ⟨s₁, 0x2000, cached⟩ (.mapPage 0x2000 0x1000 0x8000 pteWritable) ⟨s₂,
      0x2000, cached⟩ :=
    ⟨by simp [TlbOp.spaces], by rw [TlbWorld.apply, hs₂]⟩
  refine ⟨_, ((Run.single h₁).snoc h₂).snoc h₃, fun hc => ?_⟩
  cases ht : translation s₁.mem 0x2000 0x1000 with
  | none =>
    rw [translation, Option.map_eq_none_iff] at ht
    rw [vmmTranslate_eq, ht] at hold
    exact absurd hold (by decide)
  | some t =>
    have hcached : translation s₂.mem 0x2000 0x1000 = some t := hc (0x1000, t) (Or.inr ⟨rfl, by decide, ht⟩)
    have hphys {mem : Memory} (h : translation mem 0x2000 0x1000 = some t) : t.phys =
        vmmTranslate mem 0x2000 0x1000 := by
      obtain ⟨r, -, rfl⟩ := Option.map_eq_some_iff.mp h
      rfl
    have h7 := (hphys ht).trans hold
    have h8 := (hphys hcached).trans hnew
    rw [h7] at h8
    exact absurd h8 (by decide)

end KernelOs
