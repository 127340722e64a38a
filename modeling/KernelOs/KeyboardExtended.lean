import KernelOs.KeyboardBuffer

/-!
# Extended scan codes

A stream of keyboard bytes with extended sequences, mouse bytes and empty interrupts put into
it. The handler honours the extended flag only behind its tests for the shift and caps-lock
codes, so a sequence with one of these codes changes the modifiers.
-/

namespace KernelOs

def FirstPort (status : UInt8) : Prop := status &&& ps2StatusOutputFull ≠ 0 ∧ status &&& ps2StatusSecondPort = 0

instance (status : UInt8) : Decidable (FirstPort status) := inferInstanceAs (Decidable (_ ∧ _))

inductive Origin where
  /-- A byte of the original stream. -/
  | key
  /-- The 0xE0 of a sequence that was put in, and the byte behind it. -/
  | escape
  | code
  /-- A byte of the second port, or no data. -/
  | foreign
  deriving DecidableEq

/-- What the handler finds at the ports in one interrupt. -/
structure Arrival where
  origin : Origin
  status : UInt8
  data : UInt8

def originals (l : List Arrival) : List Arrival := l.filter fun a => a.origin = .key

/-- Sequences are complete and not put between a 0xE0 and its byte, that is while one is `pending`; only foreign
arrivals come `inside` a sequence. -/
def WellInserted : Bool → Bool → List Arrival → Prop
  | _, _, [] => True
  | pending, inside, a :: l => match a.origin with
    | .key => FirstPort a.status ∧ inside = false ∧ WellInserted (a.data = 0xE0) false l
    | .escape => FirstPort a.status ∧ a.data = 0xE0 ∧ inside = false ∧
        (pending = true → ∀ b ∈ (originals l).head?, b.data = 0xE0) ∧ WellInserted pending true l
    | .code => FirstPort a.status ∧ a.data ≠ 0xE0 ∧ inside = true ∧ WellInserted pending false l
    | .foreign => ¬ FirstPort a.status ∧ WellInserted pending inside l

namespace Keyboard

def run (k : Keyboard) (l : List Arrival) : Keyboard := l.foldl (fun k a => keyboardHandleIrq k a.status a.data) k

/-- The characters given to `push_char`, first one first. -/
def pushed : Keyboard → List Arrival → List UInt8
  | _, [] => []
  | k, a :: l => (typedChar k a.status a.data).toList ++ pushed (keyboardHandleIrq k a.status a.data) l

end Keyboard

/-- Shift, caps lock and the buffer are the same. -/
structure SameKeys (k k' : Keyboard) : Prop where
  ring : SameRing k k'
  left : k'.leftShiftPressed = k.leftShiftPressed
  right : k'.rightShiftPressed = k.rightShiftPressed
  caps : k'.capsLockActive = k.capsLockActive

/-- Up to here `k` and the arrivals `p` have done what `k'` and the original bytes among them have. -/
def SameSoFar (k k' : Keyboard) (p : List Arrival) : Prop :=
  k.pushed p = k'.pushed (originals p) ∧ SameKeys (k'.run (originals p)) (k.run p)

/-- The second byte of a sequence is none of the modifiers, or tells what is known. -/
def Harmless (k : Keyboard) (data : UInt8) : Prop :=
  (data &&& 0x7F = 0x2A → k.leftShiftPressed = (data &&& 0x80 == 0)) ∧
    (data &&& 0x7F = 0x36 → k.rightShiftPressed = (data &&& 0x80 == 0)) ∧ data ≠ 0x3A

/-- Every sequence that was put in is harmless when its second byte arrives. -/
def AllHarmless : Keyboard → List Arrival → Prop
  | _, [] => True
  | k, a :: l => (a.origin = .code → Harmless k a.data) ∧ AllHarmless (keyboardHandleIrq k a.status a.data) l

/-! ## One arrival -/

section
variable {k k' : Keyboard} {status data : UInt8}

theorem SameKeys.refl (k : Keyboard) : SameKeys k k := ⟨⟨rfl, rfl, rfl⟩, rfl, rfl, rfl⟩

theorem SameKeys.symm (h : SameKeys k k') : SameKeys k' k :=
  ⟨⟨h.ring.head.symm, h.ring.tail.symm, h.ring.buffer.symm⟩, h.left.symm, h.right.symm, h.caps.symm⟩

theorem SameKeys.trans {k'' : Keyboard} (h : SameKeys k k') (h' : SameKeys k' k'') : SameKeys k k'' :=
  ⟨⟨h'.ring.head.trans h.ring.head, h'.ring.tail.trans h.ring.tail, h'.ring.buffer.trans h.ring.buffer⟩,
    h'.left.trans h.left, h'.right.trans h.right, h'.caps.trans h.caps⟩

theorem SameKeys.eq (h : SameKeys k k') (hext : k'.extendedScancode = k.extendedScancode) : k' = k := by
  obtain ⟨⟨hhead, htail, hbuffer⟩, hleft, hright, hcaps⟩ := h
  cases k
  cases k'
  simp_all

theorem irq_foreign (k : Keyboard) (data : UInt8) (h : ¬ FirstPort status) :
    keyboardHandleIrq k status data = k ∧ typedChar k status data = none := by
  unfold FirstPort at h
  rw [not_and_or, not_not] at h
  constructor
  · unfold keyboardHandleIrq
    split
    · rfl
    · next hfull => rw [if_pos (h.resolve_left hfull)]
  · unfold typedChar
    dsimp only
    rw [if_neg]
    rintro ⟨hfull, hfirst, -⟩
    exact h.elim hfull fun hsecond => hsecond hfirst

theorem irq_escape (k : Keyboard) (h : FirstPort status) :
    keyboardHandleIrq k status 0xE0 = { k with extendedScancode := true } ∧ typedChar k status 0xE0 = none := by
  constructor
  · unfold keyboardHandleIrq
    rw [if_neg h.1, if_neg (not_not.mpr h.2), if_pos rfl]
  · simp [typedChar]

theorem irq_ext (h : FirstPort status) (hdata : data ≠ 0xE0) :
    (keyboardHandleIrq k status data).extendedScancode = false := by
  unfold keyboardHandleIrq
  rw [if_neg h.1, if_neg (not_not.mpr h.2), if_neg hdata]

theorem caps_make_iff (data : UInt8) : data &&& 0x7F = 0x3A ∧ data &&& 0x80 = 0 ↔ data = 0x3A := by
  have hall : ∀ n < 256, UInt8.ofNat n &&& 0x7F = 0x3A ∧ UInt8.ofNat n &&& 0x80 = 0 ↔ UInt8.ofNat n = 0x3A := by
    decide +kernel
  simpa using hall data.toNat data.toNat_lt

/-- A byte behind a 0xE0 is no character, and it leaves the modifiers as they are exactly if it is harmless. -/
theorem irq_code (h : FirstPort status) (hdata : data ≠ 0xE0) (hext : k.extendedScancode = true) :
    typedChar k status data = none ∧ (SameKeys k (keyboardHandleIrq k status data) ↔ Harmless k data) := by
  refine ⟨by simp [typedChar, hext], ?_⟩
  have hcaps := caps_make_iff data
  have hreleased : (!(data &&& 0x80 != 0)) = (data &&& 0x80 == 0) := Bool.not_not _
  unfold keyboardHandleIrq Harmless
  rw [if_neg h.1, if_neg (not_not.mpr h.2), if_neg hdata]
  simp only [hext, hreleased, Bool.not_true, Bool.and_false]
  by_cases hleft : data &&& 0x7F = 0x2A
  · have h36 : ¬ (0x2A : UInt8) = 0x36 := by decide
    have h3A : ¬ (0x2A : UInt8) = 0x3A := by decide
    simp only [hleft, if_true, h36, false_implies, true_implies, true_and]
    rw [hleft] at hcaps
    constructor
    · intro hsame
      exact ⟨hsame.left.symm, fun hd => h3A (hcaps.mpr hd).1⟩
    · rintro ⟨hl, -⟩
      exact ⟨⟨rfl, rfl, rfl⟩, hl.symm, rfl, rfl⟩
  by_cases hright : data &&& 0x7F = 0x36
  · have h2A : ¬ (0x36 : UInt8) = 0x2A := by decide
    have h3A : ¬ (0x36 : UInt8) = 0x3A := by decide
    simp only [hright, if_true, h2A, if_false, false_implies, true_implies, true_and]
    rw [hright] at hcaps
    constructor
    · intro hsame
      exact ⟨hsame.right.symm, fun hd => h3A (hcaps.mpr hd).1⟩
    · rintro ⟨hr, -⟩
      exact ⟨⟨rfl, rfl, rfl⟩, rfl, hr.symm, rfl⟩
  simp only [hleft, hright, if_false, false_implies, true_and]
  by_cases hmake : data &&& 0x7F = 0x3A ∧ data &&& 0x80 = 0
  · -- a make code of caps lock turns the flag over
    rw [if_pos ⟨hmake.1, by simpa using hmake.2⟩]
    refine iff_of_false (fun hsame => ?_) fun hd => hd (hcaps.mp hmake)
    have := hsame.caps
    simp at this
  · rw [if_neg fun hc => hmake ⟨hc.1, by simpa using hc.2⟩]
    exact iff_of_true ⟨⟨rfl, rfl, rfl⟩, rfl, rfl, rfl⟩ fun hd => hmake (hcaps.mpr hd)

end

/-! ## Streams -/

/-- The next original byte, if there is one, is a 0xE0. -/
def NextEscape (l : List Arrival) : Prop := ∀ b ∈ (originals l).head?, b.data = 0xE0

/-- `k` has seen all arrivals and `k'` the original ones; `l` is still to come. -/
structure Following (k k' : Keyboard) (pending inside : Bool) (l : List Arrival) : Prop where
  same : SameKeys k' k
  waits : k'.extendedScancode = pending
  within : inside = true → k.extendedScancode = true ∧ (pending = true → NextEscape l)
  plain : inside = false → k.extendedScancode = pending ∨ NextEscape l

section
variable {k k' : Keyboard} {pending inside : Bool} {a : Arrival} {l p : List Arrival}

theorem originals_key (h : a.origin = .key) (l : List Arrival) : originals (a :: l) = a :: originals l := by
  simp [originals, h]

theorem originals_other (h : a.origin ≠ .key) (l : List Arrival) : originals (a :: l) = originals l := by
  simp [originals, h]

theorem sameSoFar_other (h : a.origin ≠ .key) (hnone : typedChar k a.status a.data = none) :
    SameSoFar k k' (a :: p) ↔ SameSoFar (keyboardHandleIrq k a.status a.data) k' p := by
  rw [SameSoFar, originals_other h, Keyboard.pushed, hnone]
  exact Iff.rfl

theorem sameSoFar_key (h : a.origin = .key) (htyped : typedChar k a.status a.data = typedChar k' a.status a.data) :
    SameSoFar k k' (a :: p) ↔ SameSoFar (keyboardHandleIrq k a.status a.data)
    (keyboardHandleIrq k' a.status a.data) p := by
  rw [SameSoFar, originals_key h, Keyboard.pushed, Keyboard.pushed, htyped, List.append_right_inj]
  exact Iff.rfl

theorem forall_prefix_cons {P : List Arrival → Prop} :
    (∀ q, q <+: a :: l → P q) ↔ P [] ∧ ∀ q, q <+: l → P (a :: q) := by
  constructor
  · intro h
    exact ⟨h [] List.nil_prefix, fun q hq => h (a :: q) ((List.prefix_cons_inj a).mpr hq)⟩
  · rintro ⟨hnil, hcons⟩ q hq
    rcases List.prefix_cons_iff.mp hq with rfl | ⟨q', rfl, hq'⟩
    · exact hnil
    · exact hcons q' hq'

theorem Following.foreign (h : Following k k' pending inside (a :: l)) (ha : a.origin ≠ .key) :
    Following k k' pending inside l := by
  obtain ⟨hsame, hpending, hinside, hplain⟩ := h
  unfold NextEscape at hinside hplain
  rw [originals_other ha] at hinside hplain
  exact ⟨hsame, hpending, hinside, hplain⟩

theorem Following.escape (h : Following k k' pending false (a :: l)) (hnext : pending = true → NextEscape l) :
    Following { k with extendedScancode := true } k' pending true l :=
  ⟨h.same.trans ⟨⟨rfl, rfl, rfl⟩, rfl, rfl, rfl⟩, h.waits, fun _ => ⟨rfl, hnext⟩, nofun⟩

theorem Following.code (h : Following k k' pending true (a :: l)) (ha : a.origin ≠ .key) {k₁ : Keyboard}
    (hsame : SameKeys k k₁) (hext : k₁.extendedScancode = false) : Following k₁ k' pending false l := by
  obtain ⟨-, hnext⟩ := (h.foreign ha).within rfl
  refine ⟨h.same.trans hsame, h.waits, nofun, fun _ => ?_⟩
  cases pending with
  | false => exact Or.inl hext
  | true => exact Or.inr (hnext rfl)

/-- Both runs treat an original byte alike. -/
theorem Following.key (h : Following k k' pending false (a :: l)) (ha : a.origin = .key)
    (hfirst : FirstPort a.status) :
    typedChar k a.status a.data = typedChar k' a.status a.data ∧
      Following (keyboardHandleIrq k a.status a.data) (keyboardHandleIrq k' a.status a.data)
    (a.data = 0xE0) false l := by
  by_cases hdata : a.data = 0xE0
  · obtain ⟨he, hnone⟩ := irq_escape k hfirst
    obtain ⟨he', hnone'⟩ := irq_escape k' hfirst
    rw [hdata, he, he', hnone, hnone']
    refine ⟨rfl, ⟨⟨h.same.ring.head, h.same.ring.tail, h.same.ring.buffer⟩, h.same.left, h.same.right,
      h.same.caps⟩, rfl, nofun, fun _ => Or.inl rfl⟩
  · have heq : k = k' := by
      refine h.same.eq ?_
      rcases h.plain rfl with hext | hnext
      · rw [hext, h.waits]
      · exact absurd (hnext a (by rw [originals_key ha]; rfl)) hdata
    rw [heq]
    exact ⟨rfl, .refl _, by simp [irq_ext hfirst hdata, hdata], nofun,
      fun _ => Or.inl (by simp [irq_ext hfirst hdata, hdata])⟩

theorem sameSoFar_iff :
    ∀ (l : List Arrival) {pending inside : Bool} {k k' : Keyboard}, WellInserted pending inside l →
    Following k k' pending inside l → ((∀ p, p <+: l → SameSoFar k k' p) ↔ AllHarmless k l)
  | [], _, _, k, k', _, hf => by
    refine iff_of_true (fun p hp => ?_) trivial
    rw [List.prefix_nil.mp hp]
    exact ⟨rfl, hf.same⟩
  | a :: l, pending, inside, k, k', hw, hf => by
    rw [forall_prefix_cons, and_iff_right (show SameSoFar k k' [] from ⟨rfl, hf.same⟩), AllHarmless]
    rw [WellInserted] at hw
    cases ha : a.origin with
    | key =>
      rw [ha] at hw
      obtain ⟨hfirst, rfl, hw⟩ := hw
      obtain ⟨htyped, hf'⟩ := hf.key ha hfirst
      simp only [sameSoFar_key ha htyped, sameSoFar_iff l hw hf', reduceCtorEq, false_implies, true_and]
    | escape =>
      rw [ha] at hw
      obtain ⟨hfirst, hdata, rfl, hnext, hw⟩ := hw
      have hother : a.origin ≠ .key := by simp [ha]
      obtain ⟨he, hnone⟩ := irq_escape k hfirst
      rw [← hdata] at he hnone
      have hf' := hf.escape hnext
      rw [← he] at hf'
      simp only [sameSoFar_other hother hnone, sameSoFar_iff l hw hf', reduceCtorEq, false_implies, true_and]
    | code =>
      rw [ha] at hw
      obtain ⟨hfirst, hdata, rfl, hw⟩ := hw
      have hother : a.origin ≠ .key := by simp [ha]
      obtain ⟨hnone, hiff⟩ := irq_code hfirst hdata (hf.within rfl).1
      simp only [sameSoFar_other hother hnone, true_implies]
      by_cases hharmless : Harmless k a.data
      · rw [sameSoFar_iff l hw (hf.code hother (hiff.mpr hharmless) (irq_ext hfirst hdata)),
          and_iff_right hharmless]
      · -- the modifiers differ from here on
        refine iff_of_false (fun hall => hharmless (hiff.mp ?_)) fun h => hharmless h.1
        exact hf.same.symm.trans (hall [] List.nil_prefix).2
    | foreign =>
      rw [ha] at hw
      obtain ⟨hforeign, hw⟩ := hw
      have hother : a.origin ≠ .key := by simp [ha]
      obtain ⟨he, hnone⟩ := irq_foreign k a.data hforeign
      have hf' := hf.foreign hother
      rw [← he] at hf'
      simp only [sameSoFar_other hother hnone, sameSoFar_iff l hw hf', reduceCtorEq, false_implies, true_and]

/-- **When extended sequences interfere.** Characters and modifiers are those of the original stream all the
way exactly if every sequence that was put in is harmless on arrival. -/
theorem extended_codes_harmless_iff (k : Keyboard) {l : List Arrival}
    (h : WellInserted k.extendedScancode false l) :
    (∀ p, p <+: l → SameSoFar k k p) ↔ AllHarmless k l :=
  sameSoFar_iff l h ⟨.refl k, rfl, nofun, fun _ => Or.inl rfl⟩

/-- The up arrow, with a mouse byte inside, before the key 'a'. -/
theorem extended_codes_harmless_arrow :
    let l : List Arrival := [⟨.escape, 0x1, 0xE0⟩, ⟨.foreign, 0x21, 0x2A⟩, ⟨.code, 0x1, 0x48⟩, ⟨.key, 0x1, 0x1E⟩]
    SameSoFar .initial .initial l ∧ Keyboard.initial.pushed l = ['a'.toUInt8] := by
  intro l
  have hw : WellInserted false false l :=
    ⟨by decide, rfl, rfl, nofun, by decide, by decide, by decide, rfl, by decide, rfl, trivial⟩
  have hall : AllHarmless .initial l := by
    simp only [l, AllHarmless, Harmless]
    decide
  exact ⟨(extended_codes_harmless_iff .initial hw).mpr hall l (List.prefix_refl l), by decide⟩

/-- The fake shift 0xE0 0x2A that keyboards send makes a capital letter of the key 'a'. -/
theorem fake_shift_interferes :
    let l : List Arrival := [⟨.escape, 0x1, 0xE0⟩, ⟨.code, 0x1, 0x2A⟩, ⟨.key, 0x1, 0x1E⟩]
    WellInserted false false l ∧ Keyboard.initial.pushed l = ['A'.toUInt8] ∧
      Keyboard.initial.pushed (originals l) = ['a'.toUInt8] ∧
      (Keyboard.initial.run l).leftShiftPressed = true ∧
      (Keyboard.initial.run (originals l)).leftShiftPressed = false ∧
      ¬ SameSoFar .initial .initial l := by
  intro l
  have hw : WellInserted false false l :=
    ⟨by decide, rfl, rfl, nofun, by decide, by decide, rfl, by decide, rfl, trivial⟩
  have hpushed : Keyboard.initial.pushed l ≠ Keyboard.initial.pushed (originals l) := by decide
  exact ⟨hw, by decide, by decide, by decide, by decide, fun h => hpushed h.1⟩

end

end KernelOs
