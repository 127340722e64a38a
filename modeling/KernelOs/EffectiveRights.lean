import KernelOs.AddressSpaces
import KernelOs.HardwareWalk

/-!
# Rights are those that were asked for

Links allow everything but user mode, and a user page opens the links above it.
So the rights along a walk are those of its last entry, in whatever order pages
with other flags come and go.
-/

namespace KernelOs
open Lib LawfulPageAllocator

variable {α : Type} [PageAllocator α] [LawfulPageAllocator α]

/-- A step of the memory manager, with the flags that a call of `vmm_map_page` passes (0 for the others). -/
inductive FlaggedStep : VmmWorld α → VmmEvent × UInt64 → VmmWorld α → Prop
  | map (w : VmmWorld α) {p : UInt64} (hp : p ∈ w.spaces) (v pa flags : UInt64) (hflags : flags &&& pteAddrMask = 0) :
      FlaggedStep w (.map p v pa ((mapTables w.vmm p v flags).1 ≠ 0), flags)
        (w.after (vmmMapPage w.vmm p v pa flags))
  | other {w w' : VmmWorld α} {e : VmmEvent} (hs : VmmStep w e w') (he : ∀ p v pa done, e ≠ .map p v pa done) :
    FlaggedStep w (e, 0) w'

namespace SpaceMaps

/-- The flags of the last successful call for each page that is still mapped. -/
def applyFlags (F : SpaceMaps) : VmmEvent × UInt64 → SpaceMaps
  | (.map p v _ done, flags) => if done then F.set p (pageNumber v) (some flags) else F
  | (e, _) => F.apply e

end SpaceMaps

structure Rightful (w : VmmWorld α) (F : SpaceMaps) (T : TableMap) : Prop where
  tabled : Tabled separate w.vmm T
  roots : ∀ {p}, p ∈ w.spaces → T.label p = some (.root p)
  taken : ∀ {n ℓ}, T.label n = some ℓ → n.toNat / 4096 ∈ w.taken
  links : ∀ {n ℓ i}, T.label n = some ℓ → 0 < ℓ.rank →
    readEntry w.vmm.mem n i = 0 ∨ IsLink (readEntry w.vmm.mem n i)
  absent : ∀ {p v}, p ∈ w.spaces → F p (pageNumber v) = none → Radix.lookup (slot w.vmm.mem) p (path v) = none
  granted : ∀ {p v flags}, p ∈ w.spaces → F p (pageNumber v) = some flags → Granted w.vmm.mem p v flags

variable {w w' : VmmWorld α} {F : SpaceMaps} {T T' : TableMap} {s s' : Vmm α} {p v pt : UInt64}

theorem Rightful.grow (h : Rightful w F T) {flags : UInt64} {places : List (UInt64 × Fin 512)}
    (hx : Extends separate w.vmm T s T') (hsame : SameLookups T w.vmm.mem s.mem)
    (hg : Grows flags places T T' w.vmm.mem s.mem) : Rightful (w.after s) F T' where
  tabled := hx.tabled
  roots hp := hx.mono (h.roots hp)
  taken hn := VmmWorld.taken_after h.taken hx hn
  links {n ℓ i} hn hr := by
    cases hl : T.label n with
    | none => exact hg.fresh hn hl
    | some ℓ' =>
      obtain rfl : ℓ' = ℓ := Option.some.inj ((hx.mono hl).symm.trans hn)
      exact (hg.step hl).zero_or_link (h.links hl hr)
  absent hp hF := (hsame (h.roots hp) rfl).trans (h.absent hp hF)
  granted hp hF := (h.granted hp hF).grow h.tabled (h.roots hp) hg

theorem Rightful.write (h : Rightful w F T) (hp : p ∈ w.spaces)
    (hf : Radix.follow (slot w.vmm.mem) 3 p (tablePath v) = some pt) {e : UInt64} {entry : Option UInt64}
    (hnone : entry = none → e &&& ptePresent = 0)
    (hsome : ∀ flags, entry = some flags → e &&& ptePresent ≠ 0 ∧
      (∀ bit ∈ [pteUser, pteWritable, pteNx], e &&& bit = flags &&& bit) ∧
      (flags &&& pteUser ≠ 0 → ∀ l ∈ entriesAt w.vmm.mem (tableWalk w.vmm.mem p v), l &&& pteUser ≠ 0)) :
    Rightful { w with vmm := { w.vmm with mem := writeEntry w.vmm.mem pt (splitVaddr v).ptI e } }
    (F.set p (pageNumber v) entry) T := by
  have hroot := h.roots hp
  obtain ⟨hx, hset⟩ := h.tabled.write_leaf (e := e) hroot hf
  refine ⟨hx.tabled, h.roots, h.taken, fun hn hr => ?_, fun {q u} hq hF => ?_, fun {q u flags} hq hF => ?_⟩
  · rw [h.tabled.leaf_frame hroot hf e hn (Or.inl hr)]
    exact h.links hn hr
  · rw [hset (h.roots hq), if_congr separate_samePage rfl rfl]
    rw [SpaceMaps.set] at hF
    by_cases hat : q = p ∧ pageNumber u = pageNumber v
    · rw [if_pos hat] at hF
      rw [if_pos hat, if_pos (hnone hF)]
    · rw [if_neg hat] at hF
      rw [if_neg hat]
      exact h.absent hq hF
  · rw [SpaceMaps.set] at hF
    by_cases hat : q = p ∧ pageNumber u = pageNumber v
    · rw [if_pos hat] at hF
      obtain ⟨hpr, hbits, huser⟩ := hsome flags hF
      rw [hat.1]
      exact Granted.write_self h.tabled hroot hf hpr hbits huser hat.2
    · rw [if_neg hat] at hF
      exact (h.granted hq hF).write_other h.tabled hroot (h.roots hq) hf e fun hsame =>
        hat (separate_samePage.mp hsame)

theorem Rightful.create (h : Rightful w F T) : ∃ T', Rightful
    { w.after (vmmCreateAddressSpace w.vmm).2 with
      spaces :=
  if (vmmCreateAddressSpace w.vmm).1 = 0 then w.spaces else (vmmCreateAddressSpace w.vmm).1 :: w.spaces }
    (F.apply (.create (vmmCreateAddressSpace w.vmm).1)) T' := by
  rcases vmmCreateAddressSpace_spec h.tabled with
    ⟨s', he, hx, hm, _⟩ | ⟨p, s', T', he, hne, hnone, hx, hsame, hp, hnames, hzero, hentries⟩
  · rw [he]
    have hg : Grows 0 [] T T w.vmm.mem s'.mem := by
      rw [hm]
      exact Grows.refl 0 [] T w.vmm.mem
    have hsame : SameLookups T w.vmm.mem s'.mem := fun _ _ => by rw [hm]
    simp only [if_true, SpaceMaps.apply]
    exact ⟨T, h.grow hx hsame hg⟩
  · rw [he]
    obtain ⟨h1, h2, h3, h4, h5, h6⟩ := h.grow hx hsame (hx.create_grows hnames hzero hentries)
    simp only [if_neg hne, SpaceMaps.apply]
    have hold {q : UInt64} (hq : q ∈ p :: w.spaces) (hqp : q ≠ p) : q ∈ w.spaces := by
      cases List.mem_cons.mp hq with
      | inl hq => exact absurd hq hqp
      | inr hq => exact hq
    refine ⟨T', h1, fun {q} hq => ?_, h3, h4, fun {q v} hq hF => ?_, fun {q v flags} hq hF => ?_⟩
    · by_cases hqp : q = p
      · rw [hqp]
        exact hp
      · exact h2 (hold hq hqp)
    · by_cases hqp : q = p
      · have hempty : slot s'.mem 3 p (splitVaddr v).pml4I = .empty := slot_of_absent (by rw [hzero]; rfl)
        rw [hqp, path, tablePath, List.cons_append, Radix.lookup_cons]
        simp only [VmmWorld.after, List.cons_append, List.nil_append, List.length_cons, List.length_nil,
          Nat.zero_add, Nat.reduceAdd, hempty]
      · rw [if_neg hqp] at hF
        exact h5 (hold hq hqp) hF
    · by_cases hqp : q = p
      · rw [if_pos hqp] at hF
        cases hF
      · rw [if_neg hqp] at hF
        exact h6 (hold hq hqp) hF

theorem Rightful.map (h : Rightful w F T) (hp : p ∈ w.spaces) (v pa flags : UInt64) : ∃ T',
    Rightful (w.after (vmmMapPage w.vmm p v pa flags))
    (F.applyFlags (.map p v pa ((mapTables w.vmm p v flags).1 ≠ 0), flags)) T' := by
  rcases vmmMapPage_cases h.tabled (h.roots hp) v pa flags with
    ⟨h0, T', hx, hsame, hg, -⟩ | ⟨h0, pt, s₁, T', hx, hsame, hg, -, hf, huser, hs⟩
  · refine ⟨T', ?_⟩
    simp only [SpaceMaps.applyFlags, h0, ne_eq, not_true, decide_false, Bool.false_eq_true, if_false]
    exact h.grow hx hsame hg
  · refine ⟨T', ?_⟩
    simp only [SpaceMaps.applyFlags, h0, ne_eq, not_false_eq_true, decide_true, if_true]
    rw [hs]
    refine (h.grow hx hsame hg).write hp hf (fun hc => by cases hc) fun flags' hc => ?_
    obtain rfl := Option.some.inj hc
    refine ⟨leaf_present pa flags, leaf_rights pa flags, fun hu e he => ?_⟩
    obtain ⟨x, hxmem, rfl⟩ := List.mem_map.mp he
    exact huser hu x hxmem

theorem Rightful.unmap (h : Rightful w F T) (hp : p ∈ w.spaces) (v : UInt64) :
    Rightful (w.after (vmmUnmapPage w.vmm p v)) (F.set p (pageNumber v) none) T := by
  have hafter : w.after w.vmm = w := by
    simp [VmmWorld.after]
  rw [vmmUnmapPage_eq]
  cases hf : Radix.follow (slot w.vmm.mem) 3 p (tablePath v) with
  | none =>
    have hF : F p (pageNumber v) = none := by
      cases hF : F p (pageNumber v) with
      | none => rfl
      | some flags =>
        obtain ⟨pt, hf', -⟩ := h.granted hp hF
        rw [hf] at hf'
        cases hf'
    have hset : F.set p (pageNumber v) none = F := by
      funext q n
      rw [SpaceMaps.set]
      split
      · next hat => rw [hat.1, hat.2, hF]
      · rfl
    rw [hset, Option.elim_none, hafter]
    exact h
  | some pt =>
    rw [Option.elim_some, show w.after { w.vmm with mem := writeEntry w.vmm.mem pt (splitVaddr v).ptI 0 } =
      { w with vmm := { w.vmm with mem := writeEntry w.vmm.mem pt (splitVaddr v).ptI 0 } } by simp [VmmWorld.after]]
    exact h.write hp hf (fun _ => rfl) fun flags hc => by cases hc

theorem Rightful.other (h : Rightful w F T) {s : Vmm α} (hv : Valid s.pmm) (hspare : spare s.pmm ⊆ spare w.vmm.pmm)
    (hmem : ∀ x, x / 4096 ∈ w.taken → s.mem x = w.vmm.mem x) : Rightful { w with vmm := s } F T := by
  have hbytes {n : UInt64} {ℓ : Label} {x : Nat} (hn : T.label n = some ℓ) (h1 : n.toNat ≤ x)
    (h2 : x < n.toNat + 4096) :
      s.mem x = w.vmm.mem x := by
    apply hmem
    rw [(h.tabled.frame hn).2.1.div_eq h1 h2]
    exact h.taken hn
  have hentries {n : UInt64} {ℓ : Label} {i : Fin 512} (hn : T.label n = some ℓ) : readEntry s.mem n i =
      readEntry w.vmm.mem n i :=
    readEntry_congr (fun x h1 h2 => hbytes hn h1 h2) i
  obtain ⟨htab, hsame⟩ := h.tabled.other s hv hspare hbytes
  have hg : Grows 0 [] T T w.vmm.mem s.mem := Grows.of_eq 0 [] hentries fun h1 h2 => by rw [h2] at h1; cases h1
  refine ⟨htab, h.roots, h.taken, fun hn hr => ?_, fun hp hF => ?_, fun hp hF => ?_⟩
  · rw [hentries hn]
    exact h.links hn hr
  · exact (hsame (h.roots hp) rfl).trans (h.absent hp hF)
  · exact (h.granted hp hF).grow h.tabled (h.roots hp) hg

theorem Rightful.step (h : Rightful w F T) {e : VmmEvent × UInt64} (hs : FlaggedStep w e w') :
    ∃ T', Rightful w' (F.applyFlags e) T' := by
  cases hs with
  | map hp v pa flags hflags => exact h.map hp v pa flags
  | other hs he =>
    cases hs with
    | create => exact h.create
    | map hp v pa flags hflags => exact absurd rfl (he _ _ _ _)
    | unmap hp v => exact ⟨T, h.unmap hp v⟩
    | other hv hspare hmem => exact ⟨T, h.other hv hspare hmem⟩

theorem rightful_run {s : Vmm α} (hv : Valid s.pmm) {es : List (VmmEvent × UInt64)}
    (hr : Run FlaggedStep (VmmWorld.init s) es w) :
    ∃ T, Rightful w (es.foldl SpaceMaps.applyFlags SpaceMaps.empty) T := by
  induction hr with
  | nil =>
    refine ⟨TableMap.empty, ⟨hv, ?_, ?_, ?_, ?_, ?_, ?_, ⟨?_⟩, ?_, ?_⟩, ?_, ?_, ?_, ?_, ?_⟩ <;>
      simp [TableMap.empty, VmmWorld.init, separate]
  | snoc _ hs ih =>
    obtain ⟨T, hT⟩ := ih
    rw [List.foldl_append]
    exact hT.step hs

/-- **Effective rights.** After every run a page is mapped exactly if its last successful mapping has
not been undone, over four levels, and then with the rights of the flags of that mapping. -/
theorem effective_rights {s : Vmm α} (hv : Valid s.pmm) {es : List (VmmEvent × UInt64)}
    (hr : Run FlaggedStep (VmmWorld.init s) es w) :
    ∀ p ∈ w.spaces, ∀ v, (translation w.vmm.mem p v).map Translation.rights =
      ((es.foldl SpaceMaps.applyFlags SpaceMaps.empty) p (pageNumber v)).map requestedRights ∧
      (translation w.vmm.mem p v ≠ none → (walk w.vmm.mem p v).length = 4) := by
  intro p hp v
  obtain ⟨T, hT⟩ := rightful_run hv hr
  cases hF : (es.foldl SpaceMaps.applyFlags SpaceMaps.empty) p (pageNumber v) with
  | none =>
    have hnone : translation w.vmm.mem p v = none := by rw [translation, hT.absent hp hF, Option.map_none]
    rw [hnone]
    exact ⟨rfl, fun hc => absurd rfl hc⟩
  | some flags =>
    have hgranted := hT.granted hp hF
    refine ⟨hgranted.rights fun e he => ?_, fun _ => ?_⟩
    · obtain ⟨pt, hf, -⟩ := hgranted
      obtain ⟨x, hx, rfl⟩ := List.mem_map.mp he
      obtain ⟨ℓ, hn, hr⟩ := hT.tabled.tableWalk_label (hT.roots hp) hx
      refine (hT.links hn hr).resolve_left fun h0 => ?_
      exact hT.tabled.place_present (ℓ := .root p) (hT.roots hp) hf x hx (by rw [h0, UInt64.zero_and])
    · obtain ⟨pt, hf, -⟩ := hgranted
      rw [walk_of_follow hf, List.length_append, tableWalk, Radix.trail_length hf]
      rfl

theorem effective_rights_two_pages :
    let s : Vmm Pmm := ⟨fun _ => 0, pmmInit (fun _ => 0xFF) 0x1000 64⟩
    let s₁ := vmmMapPage (vmmCreateAddressSpace s).2 0x2000 0x1000 0x7000 pteWritable
    let s₂ := vmmMapPage s₁ 0x2000 0x2000 0x8000 (pteUser ||| pteNx)
    (translation s₂.mem 0x2000 0x1000).map Translation.rights = some ⟨false, true, false⟩ ∧
      (translation s₂.mem 0x2000 0x2000).map Translation.rights = some ⟨true, false, true⟩ := by
  intro s s₁ s₂
  have hinit := pmmInit_spec (fun _ => 0xFF) 0x1000 64 (by decide)
  have hv : Valid s.pmm := ⟨hinit.1, by rw [hinit.2.2]; simp, by rw [hinit.2.1]; decide⟩
  have hp : (vmmCreateAddressSpace s).1 = 0x2000 := by decide +kernel
  have hdone₁ : (mapTables (vmmCreateAddressSpace s).2 0x2000 0x1000 pteWritable).1 ≠ 0 := by decide +kernel
  have hdone₂ : (mapTables (vmmMapPage (vmmCreateAddressSpace s).2 0x2000 0x1000 0x7000 pteWritable) 0x2000 0x2000
      (pteUser ||| pteNx)).1 ≠ 0 := by decide +kernel
  have hcreate := Run.single (FlaggedStep.other (VmmStep.create (VmmWorld.init s)) fun _ _ _ _ => by simp)
  have hfirst :=
    hcreate.snoc
      (FlaggedStep.map _ (p := 0x2000) (by simp [VmmWorld.init, hp]) 0x1000 0x7000 pteWritable (by decide))
  have hr :=
    hfirst.snoc (FlaggedStep.map _ (p := 0x2000) (by simp [VmmWorld.init, VmmWorld.after, hp]) 0x2000 0x8000
      (pteUser ||| pteNx) (by decide))
  have hrights := effective_rights hv hr 0x2000 (by simp [VmmWorld.init, VmmWorld.after, hp])
  simp only [VmmWorld.init, VmmWorld.after, hp, ne_eq, hdone₁, hdone₂, not_false_eq_true, decide_true,
    List.nil_append, List.cons_append, List.foldl_cons, List.foldl_nil] at hrights
  refine ⟨(hrights 0x1000).1.trans ?_, (hrights 0x2000).1.trans ?_⟩ <;> decide

end KernelOs
