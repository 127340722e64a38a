import KernelOs.Lib.Run
import KernelOs.PageTables

/-!
# Address spaces are partial maps

The purpose of the memory manager, stated without tables: a map from page numbers
to frames for each address space, and what each call does to it. Every run of the
code, with anything else happening in between outside the table frames, is a run
of these maps.
-/

namespace KernelOs
open Lib LawfulPageAllocator

/-- What a caller sees of a call: the root that was created, whether a page could be mapped. -/
inductive VmmEvent where
  | create (p : UInt64)
  | map (p v pa : UInt64) (done : Bool)
  | unmap (p v : UInt64)
  | other

abbrev SpaceMaps := UInt64 → BitVec 36 → Option UInt64

namespace SpaceMaps

def empty : SpaceMaps := fun _ _ => none

def set (M : SpaceMaps) (p : UInt64) (page : BitVec 36) (frame : Option UInt64) : SpaceMaps :=
  fun q n => if q = p ∧ n = page then frame else M q n

def apply (M : SpaceMaps) : VmmEvent → SpaceMaps
  | .create p => if p = 0 then M else fun q n => if q = p then none else M q n
  | .map p v pa done => if done then M.set p (pageNumber v) (some (pa &&& pteAddrMask)) else M
  | .unmap p v => M.set p (pageNumber v) none
  | .other => M

end SpaceMaps

/-- The machine, the roots returned so far, and the frames that went into tables. -/
structure VmmWorld (α : Type) where
  vmm : Vmm α
  spaces : List UInt64
  taken : Set Nat

variable {α : Type} [PageAllocator α] [LawfulPageAllocator α]

namespace VmmWorld

def init (s : Vmm α) : VmmWorld α := ⟨s, [], ∅⟩

/-- The frames that the allocator lost in a call go to the tables. -/
def after (w : VmmWorld α) (s : Vmm α) : VmmWorld α :=
  { w with vmm := s, taken := w.taken ∪ (spare w.vmm.pmm \ spare s.pmm) }

end VmmWorld

inductive VmmStep : VmmWorld α → VmmEvent → VmmWorld α → Prop
  | create (w : VmmWorld α) :
    VmmStep w (.create (vmmCreateAddressSpace w.vmm).1)
      { w.after (vmmCreateAddressSpace w.vmm).2 with
        spaces :=
          if (vmmCreateAddressSpace w.vmm).1 = 0 then w.spaces else (vmmCreateAddressSpace w.vmm).1 :: w.spaces }
  | map (w : VmmWorld α) {p : UInt64} (hp : p ∈ w.spaces) (v pa flags : UInt64)
      (hflags : flags &&& pteAddrMask = 0) :
    VmmStep w (.map p v pa ((mapTables w.vmm p v flags).1 ≠ 0)) (w.after (vmmMapPage w.vmm p v pa flags))
  | unmap (w : VmmWorld α) {p : UInt64} (hp : p ∈ w.spaces) (v : UInt64) :
    VmmStep w (.unmap p v) (w.after (vmmUnmapPage w.vmm p v))
  | other (w : VmmWorld α) {s : Vmm α} (hv : Valid s.pmm) (hspare : spare s.pmm ⊆ spare w.vmm.pmm)
      (hmem : ∀ x, x / 4096 ∈ w.taken → s.mem x = w.vmm.mem x) :
    VmmStep w .other { w with vmm := s }

/-- Nothing is shared between the spaces, and no table holds huge pages. -/
def separate : Layout := ⟨id, fun _ => False⟩

theorem separate_owner (p : UInt64) (i : Fin 512) : (separate.next (.root p) i).owner = p := by
  unfold Layout.next
  split <;> rfl

theorem separate_samePage {p v q w : UInt64} : separate.SamePage p v q w ↔ q = p ∧ pageNumber w = pageNumber v := by
  rw [Layout.SamePage, separate_owner, separate_owner]
  exact ⟨fun h => ⟨h.2.symm, h.1.symm⟩, fun h => ⟨h.2.symm, h.1.symm⟩⟩

/-- The tables refine the maps. -/
structure Refines (w : VmmWorld α) (M : SpaceMaps) (T : TableMap) : Prop where
  tabled : Tabled separate w.vmm T
  roots : ∀ {p}, p ∈ w.spaces → T.label p = some (.root p)
  taken : ∀ {n ℓ}, T.label n = some ℓ → n.toNat / 4096 ∈ w.taken
  lookup : ∀ {p v}, p ∈ w.spaces →
    Radix.lookup (slot w.vmm.mem) p (path v) = (M p (pageNumber v)).map fun a => (a, [])

variable {w w' : VmmWorld α} {M : SpaceMaps} {T T' : TableMap}

theorem VmmWorld.taken_after {s : Vmm α}
    (htaken : ∀ {n ℓ}, T.label n = some ℓ → n.toNat / 4096 ∈ w.taken) (hx : Extends separate w.vmm T s T')
    {n : UInt64} {ℓ : Label} (hn : T'.label n = some ℓ) : n.toNat / 4096 ∈ (w.after s).taken := by
  cases hl : T.label n with
  | some ℓ' => exact Or.inl (htaken hl)
  | none => exact Or.inr ⟨hx.fresh hn hl, (hx.tabled.frame hn).2.2⟩

theorem Refines.create (h : Refines w M T) : ∃ T', Refines
    { w.after (vmmCreateAddressSpace w.vmm).2 with
      spaces :=
  if (vmmCreateAddressSpace w.vmm).1 = 0 then w.spaces else (vmmCreateAddressSpace w.vmm).1 :: w.spaces }
    (M.apply (.create (vmmCreateAddressSpace w.vmm).1)) T' := by
  rcases vmmCreateAddressSpace_spec h.tabled with
    ⟨s', he, hx, hm, _⟩ | ⟨p, s', T', he, hne, hnone, hx, hsame, hp, _, hzero, _⟩
  · refine ⟨T, ?_⟩
    rw [he]
    refine ⟨hx.tabled, h.roots, fun hn => VmmWorld.taken_after h.taken hx hn, fun {p v} hp => ?_⟩
    simp only [VmmWorld.after, hm]
    exact h.lookup hp
  · refine ⟨T', ?_⟩
    rw [he]
    simp only [if_neg hne]
    refine ⟨hx.tabled, fun {q} hq => ?_, fun hn => VmmWorld.taken_after h.taken hx hn, fun {q v} hq => ?_⟩
    · cases List.mem_cons.mp hq with
      | inl hq => exact hq ▸ hp
      | inr hq => exact hx.mono (h.roots hq)
    · simp only [SpaceMaps.apply, if_neg hne]
      by_cases hqp : q = p
      · have hempty : slot s'.mem 3 p (splitVaddr v).pml4I = .empty := slot_of_absent (by rw [hzero]; rfl)
        rw [if_pos hqp, hqp]
        show Radix.lookup (slot s'.mem) p ((splitVaddr v).pml4I :: [_, _, _]) = _
        rw [Radix.lookup_cons, show [_, _, _].length = 3 from rfl, hempty]
        rfl
      · have hq' : q ∈ w.spaces := by
          cases List.mem_cons.mp hq with
          | inl hq => exact absurd hq hqp
          | inr hq => exact hq
        rw [if_neg hqp, ← h.lookup hq']
        exact hsame (h.roots hq') rfl

theorem Refines.map (h : Refines w M T) {p : UInt64} (hp : p ∈ w.spaces) (v pa : UInt64) {flags : UInt64}
    (hflags : flags &&& pteAddrMask = 0) : ∃ T', Refines (w.after (vmmMapPage w.vmm p v pa flags))
      (M.apply (.map p v pa ((mapTables w.vmm p v flags).1 ≠ 0))) T' := by
  rcases vmmMapPage_spec h.tabled (h.roots hp) v pa hflags with ⟨h0, T', hx, hsame, _⟩ | ⟨h0, T', hx, _, hset⟩
  · refine ⟨T', hx.tabled, fun hq => hx.mono (h.roots hq), fun hn => VmmWorld.taken_after h.taken hx hn,
      fun {q u} hq => ?_⟩
    simp only [SpaceMaps.apply, h0, ne_eq, not_true, decide_false, Bool.false_eq_true, if_false]
    rw [← h.lookup hq]
    exact hsame (h.roots hq) rfl
  · refine ⟨T', hx.tabled, fun hq => hx.mono (h.roots hq), fun hn => VmmWorld.taken_after h.taken hx hn,
      fun {q u} hq => ?_⟩
    simp only [SpaceMaps.apply, h0, ne_eq, not_false_eq_true, decide_true, if_true, SpaceMaps.set, VmmWorld.after]
    rw [hset (h.roots hq), h.lookup hq, if_congr separate_samePage rfl rfl]
    split <;> rfl

theorem Refines.unmap (h : Refines w M T) {p : UInt64} (hp : p ∈ w.spaces) (v : UInt64) :
    ∃ T', Refines (w.after (vmmUnmapPage w.vmm p v)) (M.apply (.unmap p v)) T' := by
  obtain ⟨hx, hset⟩ := vmmUnmapPage_spec h.tabled (fun _ => id) (h.roots hp) v
  refine ⟨T, hx.tabled, h.roots, fun hn => VmmWorld.taken_after h.taken hx hn, fun {q u} hq => ?_⟩
  simp only [SpaceMaps.apply, SpaceMaps.set, VmmWorld.after]
  rw [hset (h.roots hq), h.lookup hq, if_congr separate_samePage rfl rfl]
  split <;> rfl

theorem Refines.other (h : Refines w M T) {s : Vmm α} (hv : Valid s.pmm) (hspare : spare s.pmm ⊆ spare w.vmm.pmm)
    (hmem : ∀ x, x / 4096 ∈ w.taken → s.mem x = w.vmm.mem x) : Refines { w with vmm := s } M T := by
  obtain ⟨htab, hsame⟩ := h.tabled.other s hv hspare fun {n ℓ x} hn h1 h2 => by
    apply hmem
    rw [(h.tabled.frame hn).2.1.div_eq h1 h2]
    exact h.taken hn
  refine ⟨htab, h.roots, h.taken, fun {p v} hp => ?_⟩
  rw [← h.lookup hp]
  exact hsame (h.roots hp) rfl

theorem Refines.step (h : Refines w M T) {e : VmmEvent} (hs : VmmStep w e w') :
    ∃ T', Refines w' (M.apply e) T' := by
  cases hs with
  | create => exact h.create
  | map hp v pa flags hflags => exact h.map hp v pa hflags
  | unmap hp v => exact h.unmap hp v
  | other hv hspare hmem => exact ⟨T, h.other hv hspare hmem⟩

theorem refines_run {s : Vmm α} (hv : Valid s.pmm) {es : List VmmEvent} (hr : Run VmmStep (VmmWorld.init s) es w) :
    ∃ T, Refines w (es.foldl SpaceMaps.apply SpaceMaps.empty) T := by
  induction hr with
  | nil =>
    refine ⟨TableMap.empty, ⟨hv, ?_, ?_, ?_, ?_, ?_, ?_, ⟨?_⟩, ?_, ?_⟩, ?_, ?_, ?_⟩ <;>
      simp [TableMap.empty, VmmWorld.init, separate]
  | snoc _ hs ih =>
    obtain ⟨T, hT⟩ := ih
    rw [List.foldl_append]
    exact hT.step hs

/-- **The page tables implement partial maps.** After every run, each address space translates
every address as its map says: the frame of its page with the offset, and 0 where the map has
nothing. -/
theorem vmm_refines_maps {s : Vmm α} (hv : Valid s.pmm) {es : List VmmEvent}
    (hr : Run VmmStep (VmmWorld.init s) es w) :
    ∀ p ∈ w.spaces, ∀ v, vmmTranslate w.vmm.mem p v =
      ((es.foldl SpaceMaps.apply SpaceMaps.empty) p (pageNumber v)).elim 0 fun a => a ||| (v &&& 0xFFF) := by
  intro p hp v
  obtain ⟨T, hT⟩ := refines_run hv hr
  rw [vmmTranslate_eq, hT.lookup hp]
  cases (es.foldl SpaceMaps.apply SpaceMaps.empty) p (pageNumber v) with
  | none => rfl
  | some a => rw [Option.map_some, Option.elim_some, Option.elim_some, List.length_nil, pageOffset_zero]

theorem vmm_refines_maps_one_page :
    let s : Vmm Pmm := ⟨fun _ => 0, pmmInit (fun _ => 0xFF) 0x1000 64⟩
    let s' := vmmMapPage (vmmCreateAddressSpace s).2 0x2000 0x1234 0x7000 pteUser
    vmmTranslate s'.mem 0x2000 0x1234 = 0x7234 := by
  intro s s'
  have hinit := pmmInit_spec (fun _ => 0xFF) 0x1000 64 (by decide)
  have hv : Valid s.pmm := ⟨hinit.1, by rw [hinit.2.2]; simp, by rw [hinit.2.1]; decide⟩
  have hp : (vmmCreateAddressSpace s).1 = 0x2000 := by decide +kernel
  have hdone : (mapTables (vmmCreateAddressSpace s).2 0x2000 0x1234 pteUser).1 ≠ 0 := by decide +kernel
  have hcreate := Run.single (VmmStep.create (VmmWorld.init s))
  have hr :=
    hcreate.snoc (VmmStep.map _ (p := 0x2000) (by simp [VmmWorld.init, hp]) 0x1234 0x7000 pteUser (by decide))
  refine (vmm_refines_maps hv hr 0x2000 (by simp [VmmWorld.init, VmmWorld.after, hp]) 0x1234).trans ?_
  simp only [VmmWorld.init, VmmWorld.after, hp, ne_eq, hdone, not_false_eq_true, decide_true, List.nil_append,
    List.cons_append, List.foldl_cons, List.foldl_nil]
  decide

end KernelOs
