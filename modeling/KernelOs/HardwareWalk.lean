import KernelOs.PageTables

/-!
# What the processor makes of the tables

The entries it reads on the walk of an address, and the rights they leave: an
access from user mode needs the user bit at every level, a write the writable bit
at every level, and one entry without execution is enough to forbid it.
-/

namespace KernelOs
open Lib LawfulPageAllocator

structure Rights where
  user : Bool
  writable : Bool
  noExecute : Bool
  deriving DecidableEq

def effectiveRights (entries : List UInt64) : Rights where
  user := entries.all fun entry => entry &&& pteUser != 0
  writable := entries.all fun entry => entry &&& pteWritable != 0
  noExecute := entries.any fun entry => entry &&& pteNx != 0

def requestedRights (flags : UInt64) : Rights := effectiveRights [flags]

/-- The places of the entries that the walk of `v` from `p` reads. -/
def walk (mem : Memory) (p v : UInt64) : List (UInt64 × Fin 512) := Radix.trail (slot mem) 3 p (path v)

/-- The places where `vmm_map_page` looks for its tables. -/
def tableWalk (mem : Memory) (p v : UInt64) : List (UInt64 × Fin 512) := Radix.trail (slot mem) 3 p (tablePath v)

def entriesAt (mem : Memory) (places : List (UInt64 × Fin 512)) : List UInt64 :=
  places.map fun x => readEntry mem x.1 x.2

structure Translation where
  phys : UInt64
  rights : Rights
  deriving DecidableEq

/-- What a processor with `EFER.NXE` set finds for `v`, unless it faults. Without it, as `boot.S` leaves it, a walk
through an entry with `pteNx` faults. -/
def translation (mem : Memory) (p v : UInt64) : Option Translation :=
  (Radix.lookup (slot mem) p (path v)).map fun _ =>
    ⟨vmmTranslate mem p v, effectiveRights (entriesAt mem (walk mem p v))⟩

/-- The walk of `v` is complete, its last entry has the bits of `flags`, and every link is open to user mode
if `flags` are. -/
def Granted (mem : Memory) (p v flags : UInt64) : Prop :=
  ∃ pt, Radix.follow (slot mem) 3 p (tablePath v) = some pt ∧
    readEntry mem pt (splitVaddr v).ptI &&& ptePresent ≠ 0 ∧
    (∀ bit ∈ [pteUser, pteWritable, pteNx], readEntry mem pt (splitVaddr v).ptI &&& bit = flags &&& bit) ∧
    (flags &&& pteUser ≠ 0 → ∀ e ∈ entriesAt mem (tableWalk mem p v), e &&& pteUser ≠ 0)

theorem walk_of_follow {mem : Memory} {p v pt : UInt64} (h : Radix.follow (slot mem) 3 p (tablePath v) = some pt) :
    walk mem p v = tableWalk mem p v ++ [(pt, (splitVaddr v).ptI)] := by
  rw [walk, path, Radix.trail_append h, tableWalk, show 3 - (tablePath v).length = 0 from rfl, Radix.trail]
  congr 2
  cases slot mem 0 pt (splitVaddr v).ptI <;> rfl

theorem effectiveRights_congr {es es' : List UInt64}
    (hu : (∀ e ∈ es, e &&& pteUser ≠ 0) ↔ ∀ e ∈ es', e &&& pteUser ≠ 0)
    (hw : (∀ e ∈ es, e &&& pteWritable ≠ 0) ↔ ∀ e ∈ es', e &&& pteWritable ≠ 0)
    (hn : (∃ e ∈ es, e &&& pteNx ≠ 0) ↔ ∃ e ∈ es', e &&& pteNx ≠ 0) :
    effectiveRights es = effectiveRights es' := by
  unfold effectiveRights
  rw [Rights.mk.injEq]
  refine ⟨Bool.eq_iff_iff.mpr ?_, Bool.eq_iff_iff.mpr ?_, Bool.eq_iff_iff.mpr ?_⟩
  · simpa using hu
  · simpa using hw
  · simpa using hn

theorem effectiveRights_append (links : List UInt64) (e : UInt64) (hlinks : ∀ l ∈ links, IsLink l) :
    effectiveRights (links ++ [e]) =
      { requestedRights e with user := (requestedRights e).user && links.all fun l => l &&& pteUser != 0 } := by
  have hw : (links.all fun l => l &&& pteWritable != 0) = true := by
    simp only [List.all_eq_true, bne_iff_ne]
    exact fun l hl => (hlinks l hl).2.2.1
  have hn : (links.any fun l => l &&& pteNx != 0) = false := by
    simp only [List.any_eq_false, bne_iff_ne, ne_eq, not_not]
    exact fun l hl => (hlinks l hl).2.2.2
  simp [effectiveRights, requestedRights, List.all_append, List.any_append, hw, hn, Bool.and_comm]

theorem Granted.rights {mem : Memory} {p v flags : UInt64} (h : Granted mem p v flags)
    (hlinks : ∀ e ∈ entriesAt mem (tableWalk mem p v), IsLink e) :
    (translation mem p v).map Translation.rights = some (requestedRights flags) := by
  obtain ⟨pt, hf, hpr, hbits, huser⟩ := h
  have hlook : Radix.lookup (slot mem) p (path v) =
      some (readEntry mem pt (splitVaddr v).ptI &&& pteAddrMask, []) := by
    rw [path, Radix.lookup_of_follow hf]
    simp [slot, hpr]
  simp only [List.forall_mem_cons, List.not_mem_nil, false_implies, implies_true, and_true] at hbits
  obtain ⟨h1, h2, h3⟩ := hbits
  have hentries : entriesAt mem (walk mem p v) =
      entriesAt mem (tableWalk mem p v) ++ [readEntry mem pt (splitVaddr v).ptI] := by
    rw [walk_of_follow hf, entriesAt, List.map_append]
    rfl
  rw [translation, hlook, Option.map_some, Option.map_some, hentries, effectiveRights_append _ _ hlinks]
  simp only [requestedRights, effectiveRights, List.all_cons, List.all_nil, List.any_cons, List.any_nil, h1, h2, h3,
    Bool.and_true, Bool.or_false, Option.some.injEq, Rights.mk.injEq, and_true,
    Bool.and_eq_left_iff_imp, bne_iff_ne]
  intro hu
  simpa only [List.all_eq_true, bne_iff_ne] using huser hu

section
variable {α : Type} [PageAllocator α] [LawfulPageAllocator α] {L : Layout} {s : Vmm α} {T T' : TableMap}
  {mem' : Memory} {p q v w pt flags : UInt64} {places : List (UInt64 × Fin 512)}

theorem Tabled.tableWalk_label (h : Tabled L s T) (hp : T.label p = some (.root p)) {x : UInt64 × Fin 512}
    (hx : x ∈ tableWalk s.mem p v) : ∃ ℓ, T.label x.1 = some ℓ ∧ 0 < ℓ.rank := by
  have hlen : (tablePath v).length ≤ (Label.root p).rank + 1 := Nat.le_succ 3
  obtain ⟨ℓ, h1, h2⟩ := h.labelled.trail_label hp hlen hx
  refine ⟨ℓ, h1, ?_⟩
  rw [show (tablePath v).length = 3 from rfl, Label.rank_root] at h2
  omega

omit [PageAllocator α] [LawfulPageAllocator α] in
theorem Grows.link (hg : Grows flags places T T' s.mem mem') {n n' : UInt64} {ℓ : Label} {i : Fin 512}
    (hn : T.label n = some ℓ) (hs : slot s.mem ℓ.rank n i = .node n') : slot mem' ℓ.rank n i = .node n' := by
  rw [hg.slot_eq hn (by rw [hs]; simp), hs]

theorem Tabled.place_present (h : Tabled L s T) {ℓ : Label} (hp : T.label p = some ℓ)
    {is : List (Fin 512)} (hf : Radix.follow (slot s.mem) ℓ.rank p is = some pt) :
    ∀ x ∈ Radix.trail (slot s.mem) ℓ.rank p is, readEntry s.mem x.1 x.2 &&& ptePresent ≠ 0 := by
  induction is generalizing p ℓ with
  | nil => intro x hx; cases hx
  | cons i is ih =>
    intro x hx
    rw [Radix.follow] at hf
    rw [Radix.trail] at hx
    cases hs : slot s.mem ℓ.rank p i with
    | empty => rw [hs] at hf; cases hf
    | leaf a => rw [hs] at hf; cases hf
    | node n =>
      rw [hs] at hf hx
      obtain ⟨h1, h2⟩ := h.labelled.closed hp hs
      simp only [show ℓ.rank - 1 = (L.next ℓ i).rank by omega] at hf hx
      cases List.mem_cons.mp hx with
      | inl hx =>
        subst hx
        intro h0
        rw [slot_of_absent h0] at hs
        cases hs
      | inr hx => exact ih h1 hf x hx

/-- What has been granted stays granted while tables are made elsewhere. -/
theorem Granted.grow (hgr : Granted s.mem q w flags) (h : Tabled L s T) (hq : T.label q = some (.root q))
    {flags' : UInt64} (hg : Grows flags' places T T' s.mem mem') : Granted mem' q w flags := by
  obtain ⟨pt, hf, hpr, hbits, huser⟩ := hgr
  obtain ⟨hlab, hrank⟩ := h.labelled.follow_label (ℓ := .root q) hq hf
  have hr : ((tablePath w).foldl L.next (.root q)).rank = 0 := by
    rw [show (tablePath w).length = 3 from rfl, Label.rank_root] at hrank
    omega
  have hleaf := hg.kept (i := (splitVaddr w).ptI) hlab (Or.inl hr)
  have hwalk : tableWalk mem' q w = tableWalk s.mem q w := h.labelled.trail_of_follow (ℓ := .root q) hg.link hq hf
  refine ⟨pt, h.labelled.follow_mono (ℓ := .root q) hg.link hq hf, hleaf.symm ▸ hpr, hleaf.symm ▸ hbits,
    fun hu e he => ?_⟩
  rw [entriesAt, hwalk] at he
  obtain ⟨x, hx, rfl⟩ := List.mem_map.mp he
  obtain ⟨ℓ, hn, -⟩ := h.tableWalk_label hq hx
  exact (hg.step hn).user (h.place_present (ℓ := .root q) hq hf x hx) (huser hu _ (List.mem_map_of_mem hx))

theorem Tabled.leaf_frame (h : Tabled L s T) (hp : T.label p = some (.root p))
    (hf : Radix.follow (slot s.mem) 3 p (tablePath v) = some pt) (e : UInt64) {n : UInt64} {ℓ : Label} {i : Fin 512}
    (hn : T.label n = some ℓ) (hne : 0 < ℓ.rank ∨ ¬ (n = pt ∧ i = (splitVaddr v).ptI)) :
    readEntry (writeEntry s.mem pt (splitVaddr v).ptI e) n i = readEntry s.mem n i := by
  obtain ⟨hlab, hrank⟩ := h.labelled.follow_label (ℓ := .root p) hp hf
  rw [show (tablePath v).length = 3 from rfl, Label.rank_root] at hrank
  refine readEntry_writeEntry_of_ne _ _ (h.frame hn).2.1 (h.frame hlab).2.1 ?_
  rintro ⟨rfl, hi⟩
  cases hne with
  | inl hr =>
    obtain rfl := Option.some.inj (hn.symm.trans hlab)
    omega
  | inr hne => exact hne ⟨rfl, hi⟩

theorem Tabled.leaf_link (h : Tabled L s T) (hp : T.label p = some (.root p))
    (hf : Radix.follow (slot s.mem) 3 p (tablePath v) = some pt) (e : UInt64) {n n' : UInt64}
    {ℓ : Label} {i : Fin 512} (hn : T.label n = some ℓ) :
    slot (writeEntry s.mem pt (splitVaddr v).ptI e) ℓ.rank n i = .node n' ↔ slot s.mem ℓ.rank n i = .node n' := by
  by_cases hr : 0 < ℓ.rank
  · rw [slot_congr (h.leaf_frame hp hf e hn (Or.inl hr))]
  · rw [Nat.eq_zero_of_not_pos hr]
    exact iff_of_false slot_zero_ne_node slot_zero_ne_node

theorem Granted.write_self (h : Tabled L s T) (hp : T.label p = some (.root p))
    (hf : Radix.follow (slot s.mem) 3 p (tablePath v) = some pt) {e : UInt64} (hpr : e &&& ptePresent ≠ 0)
    (hbits : ∀ bit ∈ [pteUser, pteWritable, pteNx], e &&& bit = flags &&& bit)
    (huser : flags &&& pteUser ≠ 0 → ∀ e ∈ entriesAt s.mem (tableWalk s.mem p v), e &&& pteUser ≠ 0)
    (hpage : pageNumber w = pageNumber v) :
    Granted (writeEntry s.mem pt (splitVaddr v).ptI e) p w flags := by
  have hpath : tablePath w = tablePath v ∧ (splitVaddr w).ptI = (splitVaddr v).ptI := by
    have := path_eq_iff.mpr hpage
    simpa [path, tablePath, and_assoc] using this
  have hwalk : tableWalk (writeEntry s.mem pt (splitVaddr v).ptI e) p v = tableWalk s.mem p v :=
    h.labelled.trail_congr (ℓ := .root p) (fun hn => h.leaf_link hp hf e hn) hp
  refine ⟨pt, ?_, ?_, ?_, fun hu e' he' => ?_⟩
  · rw [hpath.1]
    exact h.labelled.follow_mono (ℓ := .root p) (fun hn hs => (h.leaf_link hp hf e hn).mpr hs) hp hf
  · rw [hpath.2, readEntry_writeEntry]
    exact hpr
  · rw [hpath.2, readEntry_writeEntry]
    exact hbits
  · rw [tableWalk, hpath.1, ← tableWalk, hwalk] at he'
    obtain ⟨x, hx, rfl⟩ := List.mem_map.mp he'
    obtain ⟨ℓ, hn, hr⟩ := h.tableWalk_label hp hx
    rw [h.leaf_frame hp hf e hn (Or.inl hr)]
    exact huser hu _ (List.mem_map_of_mem hx)

theorem Granted.write_other (hgr : Granted s.mem q w flags) (h : Tabled L s T) (hp : T.label p = some (.root p))
    (hq : T.label q = some (.root q)) (hf : Radix.follow (slot s.mem) 3 p (tablePath v) = some pt) (e : UInt64)
    (hne : ¬ L.SamePage p v q w) : Granted (writeEntry s.mem pt (splitVaddr v).ptI e) q w flags := by
  obtain ⟨pt', hf', hpr, hbits, huser⟩ := hgr
  obtain ⟨hlab, -⟩ := h.labelled.follow_label (ℓ := .root q) hq hf'
  have hleaf : readEntry (writeEntry s.mem pt (splitVaddr v).ptI e) pt' (splitVaddr w).ptI =
      readEntry s.mem pt' (splitVaddr w).ptI := by
    refine h.leaf_frame hp hf e hlab (Or.inr ?_)
    rintro ⟨rfl, hi⟩
    exact hne ((h.follow_eq_iff hp hq hf).mp ⟨hf', hi⟩)
  have hwalk : tableWalk (writeEntry s.mem pt (splitVaddr v).ptI e) q w = tableWalk s.mem q w :=
    h.labelled.trail_congr (ℓ := .root q) (fun hn => h.leaf_link hp hf e hn) hq
  refine ⟨pt', h.labelled.follow_mono (ℓ := .root q) (fun hn hs => (h.leaf_link hp hf e hn).mpr hs) hq hf', ?_,
    ?_, fun hu e' he' => ?_⟩
  · rw [hleaf]
    exact hpr
  · rw [hleaf]
    exact hbits
  · rw [hwalk] at he'
    obtain ⟨x, hx, rfl⟩ := List.mem_map.mp he'
    obtain ⟨ℓ, hn, hr⟩ := h.tableWalk_label hq hx
    rw [h.leaf_frame hp hf e hn (Or.inl hr)]
    exact huser hu _ (List.mem_map_of_mem hx)

/-- **`vmm_map_page`** on the entries above the last level, and on the pages of any space. -/
theorem vmmMapPage_granted (h : Tabled L s T) (hp : T.label p = some (.root p)) (v pa flags : UInt64) :
    let s' := vmmMapPage s p v pa flags
    (∀ {n ℓ i}, T.label n = some ℓ → 0 < ℓ.rank → LinkStep flags (readEntry s.mem n i) (readEntry s'.mem n i)) ∧
      (∀ {q w flags'}, T.label q = some (.root q) → (mapTables s p v flags).1 = 0 ∨ ¬ L.SamePage p v q w →
        Granted s.mem q w flags' → Granted s'.mem q w flags') ∧
      ((mapTables s p v flags).1 ≠ 0 → Granted s'.mem p v flags) := by
  rcases vmmMapPage_cases h hp v pa flags with
    ⟨h0, T', hx, -, hg, -⟩ | ⟨h0, pt, s₁, T', hx, -, hg, -, hf, huser, hs⟩
  · exact ⟨fun hn _ => hg.step hn, fun hq _ hgr => hgr.grow h hq hg, fun hc => absurd h0 hc⟩
  rw [hs]
  refine ⟨fun hn hr => ?_, fun hq hne hgr => ?_, fun _ => ?_⟩
  · rw [hx.tabled.leaf_frame (hx.mono hp) hf _ (hx.mono hn) (Or.inl hr)]
    exact hg.step hn
  · exact (hgr.grow h hq hg).write_other hx.tabled (hx.mono hp) (hx.mono hq) hf _ (hne.resolve_left h0)
  · refine Granted.write_self hx.tabled (hx.mono hp) hf (leaf_present pa flags) (leaf_rights pa flags)
      (fun hu e he => ?_) rfl
    obtain ⟨x, hxmem, rfl⟩ := List.mem_map.mp he
    exact huser hu x hxmem

theorem Tabled.walk_present (h : Tabled L s T) {ℓ : Label} {n : UInt64} (hn : T.label n = some ℓ)
    {is : List (Fin 512)} (hlen : is.length = ℓ.rank + 1) {r : UInt64 × List (Fin 512)}
    (hl : Radix.lookup (slot s.mem) n is = some r) :
    ∀ x ∈ Radix.trail (slot s.mem) ℓ.rank n is, readEntry s.mem x.1 x.2 &&& ptePresent ≠ 0 := by
  induction is generalizing n ℓ with
  | nil => intro x hx; cases hx
  | cons i is ih =>
    intro x hx
    have hr : is.length = ℓ.rank := by simpa using hlen
    rw [Radix.lookup_cons, hr] at hl
    rw [Radix.trail] at hx
    have hpr : readEntry s.mem n i &&& ptePresent ≠ 0 := fun h0 => by
      rw [slot_of_absent h0] at hl
      cases hl
    cases hs : slot s.mem ℓ.rank n i with
    | empty => rw [hs] at hl; cases hl
    | leaf a =>
      rw [hs] at hx
      rw [List.mem_singleton.mp hx]
      exact hpr
    | node n' =>
      rw [hs] at hl hx
      obtain ⟨h1, h2⟩ := h.labelled.closed hn hs
      simp only [show ℓ.rank - 1 = (L.next ℓ i).rank by omega] at hx
      cases List.mem_cons.mp hx with
      | inl hx =>
        subst hx
        exact hpr
      | inr hx => exact ih h1 (by omega) hl x hx

theorem Tabled.walk_label (h : Tabled L s T) (hq : T.label q = some (.root q)) {x : UInt64 × Fin 512}
    (hx : x ∈ walk s.mem q w) : ∃ ℓ, T.label x.1 = some ℓ := by
  have hlen : (path w).length ≤ (Label.root q).rank + 1 := Nat.le_refl 4
  obtain ⟨ℓ, h1, -⟩ := h.labelled.trail_label hq hlen hx
  exact ⟨ℓ, h1⟩

theorem Tabled.walk_leaf (h : Tabled L s T) (hp : T.label p = some (.root p)) (hq : T.label q = some (.root q))
    (hf : Radix.follow (slot s.mem) 3 p (tablePath v) = some pt) (hx : (pt, (splitVaddr v).ptI) ∈ walk s.mem q w) :
    L.SamePage p v q w := by
  obtain ⟨hlab, hrank⟩ := h.labelled.follow_label (ℓ := .root p) hp hf
  rw [show (tablePath v).length = 3 from rfl, Label.rank_root] at hrank
  have hnot : (pt, (splitVaddr v).ptI) ∉ tableWalk s.mem q w := fun hc => by
    obtain ⟨ℓ, h1, h2⟩ := h.tableWalk_label hq hc
    obtain rfl := Option.some.inj (h1.symm.trans hlab)
    omega
  cases hf' : Radix.follow (slot s.mem) 3 q (tablePath w) with
  | none =>
    rw [walk, path, Radix.trail_of_none hf'] at hx
    exact absurd hx hnot
  | some pt' =>
    rw [walk_of_follow hf', List.mem_append, List.mem_singleton] at hx
    obtain ⟨rfl, hi⟩ := Prod.mk.inj (hx.resolve_left hnot)
    exact (h.follow_eq_iff hp hq hf).mp ⟨hf', hi.symm⟩

theorem translation_eq_some {mem : Memory} {t : Translation} : translation mem q w = some t ↔
    ∃ r, Radix.lookup (slot mem) q (path w) = some r ∧ t.phys = r.1 ||| pageOffset w r.2.length ∧
      t.rights = effectiveRights (entriesAt mem (walk mem q w)) := by
  rw [translation, vmmTranslate_eq]
  cases hl : Radix.lookup (slot mem) q (path w) with
  | none => simp
  | some r =>
    simp only [Option.map_some, Option.some.injEq, Option.elim_some, exists_eq_left']
    constructor
    · rintro rfl
      exact ⟨rfl, rfl⟩
    · rintro ⟨h1, h2⟩
      cases t
      simp_all

/-- **Making tables** keeps a translation, unless it opens the links that keep user mode out. -/
theorem Tabled.translation_grow (h : Tabled L s T) (hq : T.label q = some (.root q))
    (hg : Grows flags places T T' s.mem mem') {t : Translation} (ht : translation s.mem q w = some t)
    (hkeep : flags &&& pteUser ≠ 0 → t.rights.user = false → ∃ x ∈ walk s.mem q w,
      readEntry s.mem x.1 x.2 &&& pteUser = 0 ∧ (x ∈ places → readEntry s.mem x.1 x.2 &&& pteHuge ≠ 0)) :
    translation mem' q w = some t := by
  obtain ⟨r, hl, hphys, hrights⟩ := translation_eq_some.mp ht
  obtain ⟨hl', hwalk⟩ := h.labelled.trail_of_lookup (ℓ := .root q) (fun hn => hg.slot_eq hn) hq rfl hl
  refine translation_eq_some.mpr ⟨r, hl', hphys, hrights.trans ?_⟩
  rw [show walk mem' q w = walk s.mem q w from hwalk]
  -- each entry on the way is as before, or was opened
  have hentry : ∀ x ∈ walk s.mem q w, readEntry mem' x.1 x.2 = readEntry s.mem x.1 x.2 ∨ flags &&& pteUser ≠ 0 ∧
      readEntry s.mem x.1 x.2 &&& pteHuge = 0 ∧
      readEntry mem' x.1 x.2 = readEntry s.mem x.1 x.2 ||| pteUser := fun x hx => by
    obtain ⟨ℓ, hn⟩ := h.walk_label hq hx
    exact (hg.step hn).present (h.walk_present (ℓ := .root q) hq rfl hl x hx)
  have hbit : ∀ x ∈ walk s.mem q w, readEntry mem' x.1 x.2 &&& pteWritable =
    readEntry s.mem x.1 x.2 &&& pteWritable ∧
      readEntry mem' x.1 x.2 &&& pteNx = readEntry s.mem x.1 x.2 &&& pteNx := fun x hx => by
    obtain ⟨k1, k2, -⟩ := user_and_rights (readEntry s.mem x.1 x.2)
    rcases hentry x hx with he | ⟨-, -, he⟩
    · rw [he]
      exact ⟨rfl, rfl⟩
    · rw [he]
      exact ⟨k1, k2⟩
  have huser : (∀ x ∈ walk s.mem q w, readEntry s.mem x.1 x.2 &&& pteUser ≠ 0) ↔
      ∀ x ∈ walk s.mem q w, readEntry mem' x.1 x.2 &&& pteUser ≠ 0 := by
    constructor
    · intro hall x hx
      rcases hentry x hx with he | ⟨-, -, he⟩
      · rw [he]
        exact hall x hx
      · rw [he]
        exact (user_and_rights _).2.2
    · intro hall
      by_contra hc
      have hfalse : t.rights.user = false := by
        rw [hrights, Bool.eq_false_iff]
        simpa [effectiveRights, entriesAt] using hc
      by_cases hu : flags &&& pteUser = 0
      · refine hc fun x hx => ?_
        rw [← (hentry x hx).resolve_right fun hc => hc.1 hu]
        exact hall x hx
      · obtain ⟨x, hx, hx0, hplace⟩ := hkeep hu hfalse
        refine hall x hx ?_
        rcases hentry x hx with he | ⟨-, hh, he⟩
        · rw [he, hx0]
        · obtain ⟨ℓ, hn⟩ := h.walk_label hq hx
          rw [hg.kept hn (Or.inr fun hc => hplace hc hh), hx0]
  refine effectiveRights_congr ?_ ?_ ?_
  · rw [entriesAt, entriesAt, List.forall_mem_map, List.forall_mem_map]
    exact huser
  · rw [entriesAt, entriesAt, List.forall_mem_map, List.forall_mem_map]
    exact forall₂_congr fun x hx => by rw [(hbit x hx).1]
  · simp only [entriesAt, List.mem_map, exists_exists_and_eq_and]
    exact exists_congr fun x => and_congr_right fun hx => by rw [(hbit x hx).2]

/-- **Writing a page's entry** keeps the translations of the other pages. -/
theorem Tabled.translation_write (h : Tabled L s T) (hp : T.label p = some (.root p))
    (hq : T.label q = some (.root q)) (hf : Radix.follow (slot s.mem) 3 p (tablePath v) = some pt) (e : UInt64)
    (hne : ¬ L.SamePage p v q w) :
    translation (writeEntry s.mem pt (splitVaddr v).ptI e) q w = translation s.mem q w := by
  have hlook := (h.write_leaf (e := e) hp hf).2 (w := w) hq
  rw [if_neg hne] at hlook
  have hwalk : walk (writeEntry s.mem pt (splitVaddr v).ptI e) q w = walk s.mem q w :=
    h.labelled.trail_congr (ℓ := .root q) (fun hn => h.leaf_link hp hf e hn) hq
  have hentries : entriesAt (writeEntry s.mem pt (splitVaddr v).ptI e) (walk s.mem q w) =
      entriesAt s.mem (walk s.mem q w) :=
    List.map_congr_left fun x hx => by
      obtain ⟨ℓ, hn⟩ := h.walk_label hq hx
      refine h.leaf_frame hp hf e hn (Or.inr fun hat => hne (h.walk_leaf hp hq hf ?_))
      rwa [← hat.1, ← hat.2]
  rw [translation, translation, vmmTranslate_eq, vmmTranslate_eq, hlook, hwalk, hentries]

def SameBits (e e' : UInt64) : Prop := ∀ bits ∈ [pteAddrMask, pteUser, pteWritable, pteNx], e &&& bits = e' &&& bits

/-- **Writing the same again** keeps the page's own translation. -/
theorem Tabled.translation_rewrite (h : Tabled L s T) (hp : T.label p = some (.root p))
    (hq : T.label q = some (.root q)) (hf : Radix.follow (slot s.mem) 3 p (tablePath v) = some pt) {e : UInt64}
    (hpr : e &&& ptePresent ≠ 0) (hbits : SameBits (readEntry s.mem pt (splitVaddr v).ptI) e)
    (hsame : L.SamePage p v q w) {t : Translation} (ht : translation s.mem q w = some t) :
    translation (writeEntry s.mem pt (splitVaddr v).ptI e) q w = some t := by
  obtain ⟨r, hl, hphys, hrights⟩ := translation_eq_some.mp ht
  obtain ⟨hf', hi⟩ := (h.follow_eq_iff hp hq hf).mpr hsame
  have hlook := (h.write_leaf (e := e) hp hf).2 (w := w) hq
  rw [if_pos hsame, if_neg hpr] at hlook
  simp only [SameBits, List.forall_mem_cons, List.not_mem_nil, false_implies, implies_true, and_true] at hbits
  obtain ⟨b1, b2, b3, b4⟩ := hbits
  have hleaf : readEntry s.mem pt (splitVaddr v).ptI &&& ptePresent ≠ 0 := fun h0 => by
    rw [path, Radix.lookup_of_follow hf', hi, slot_of_absent h0] at hl
    cases hl
  have hold : r = (e &&& pteAddrMask, []) := by
    rw [path, Radix.lookup_of_follow hf', hi] at hl
    simp only [slot, hleaf, if_true, if_false] at hl
    rw [← Option.some.inj hl, b1]
  have hwalk : walk (writeEntry s.mem pt (splitVaddr v).ptI e) q w = walk s.mem q w :=
    h.labelled.trail_congr (ℓ := .root q) (fun hn => h.leaf_link hp hf e hn) hq
  have hlinks : entriesAt (writeEntry s.mem pt (splitVaddr v).ptI e) (tableWalk s.mem q w) =
      entriesAt s.mem (tableWalk s.mem q w) :=
    List.map_congr_left fun x hx => by
      obtain ⟨ℓ, hn, hr⟩ := h.tableWalk_label hq hx
      exact h.leaf_frame hp hf e hn (Or.inl hr)
  refine translation_eq_some.mpr ⟨_, hlook, by rw [hphys, hold], hrights.trans ?_⟩
  have hsplit (mem : Memory) : entriesAt mem (tableWalk s.mem q w ++ [(pt, (splitVaddr v).ptI)]) =
      entriesAt mem (tableWalk s.mem q w) ++ [readEntry mem pt (splitVaddr v).ptI] := by
    rw [entriesAt, List.map_append]
    rfl
  rw [hwalk, walk_of_follow hf', hi, hsplit, hsplit, hlinks, readEntry_writeEntry]
  simp only [effectiveRights, List.all_append, List.any_append, List.all_cons, List.any_cons, List.all_nil,
    List.any_nil, b2, b3, b4]

end

end KernelOs
