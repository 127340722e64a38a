import KernelOs.Keyboard
import KernelOs.Lib.RingBuffer

/-!
# The keyboard buffer under interrupts

One reader calls `keyboard_read_char` over and over; the interrupt handler may run
between any two of its steps. A session records which characters were accepted and
what the calls returned.
-/

namespace KernelOs
open Lib

/-- The argument of `push_char` in an interrupt, if it comes to that. -/
def typedChar (k : Keyboard) (status data : UInt8) : Option UInt8 :=
  let character := translateScancode k (data &&& 0x7F)
  if status &&& ps2StatusOutputFull ≠ 0 ∧ status &&& ps2StatusSecondPort = 0 ∧ data ≠ 0xE0 ∧ data &&& 0x80 = 0 ∧
      data &&& 0x7F ≠ 0x2A ∧ data &&& 0x7F ≠ 0x36 ∧ data &&& 0x7F ≠ 0x3A ∧ k.extendedScancode = false ∧
      character ≠ 0 then
    some character
  else none

inductive KeyboardEvent where
  | irq (status data : UInt8)
  | read

structure KeyboardSession where
  keyboard : Keyboard
  reader : ReadPoint
  accepted : List UInt8
  returned : List UInt8

namespace KeyboardSession

def initial : KeyboardSession := ⟨Keyboard.initial, .test, [], []⟩

/-- The characters returned so far. -/
def delivered (w : KeyboardSession) : List UInt8 := w.returned.filter (· ≠ 0)

def unread (w : KeyboardSession) : List UInt8 := w.accepted.drop w.delivered.length

/-- A character counts as accepted if fewer than 63 are unread when it is pushed. -/
def step (w : KeyboardSession) : KeyboardEvent → KeyboardSession
  | .irq status data =>
    { w with
      keyboard := keyboardHandleIrq w.keyboard status data
      accepted := w.accepted ++ ((typedChar w.keyboard status data).filter fun _ => w.unread.length < 63).toList }
  | .read =>
    let (keyboard, reader, result) := keyboardReadChar w.keyboard w.reader
    { w with keyboard, reader, returned := w.returned ++ result.toList }

end KeyboardSession

/-! ## The ring -/

structure SameRing (k k' : Keyboard) : Prop where
  head : k'.bufferHead = k.bufferHead
  tail : k'.bufferTail = k.bufferTail
  buffer : k'.keyboardBuffer = k.keyboardBuffer

def Keyboard.Ring (k : Keyboard) (queue : List UInt8) : Prop :=
  RingBuffer 64 k.keyboardBuffer k.bufferHead.toNat k.bufferTail.toNat queue

section
variable {k k' : Keyboard} {queue : List UInt8} {character : UInt8}

theorem SameRing.ring (h : SameRing k k') (hr : k.Ring queue) : k'.Ring queue := by
  unfold Keyboard.Ring
  rw [h.head, h.tail, h.buffer]
  exact hr

theorem next_toNat (index : UInt8) : ((index + 1) % keyboardBufferSize).toNat = (index.toNat + 1) % 64 := by
  have hone : (1 : UInt8).toNat = 1 := rfl
  have hsize : keyboardBufferSize.toNat = 64 := rfl
  rw [UInt8.toNat_mod, UInt8.toNat_add, hone, hsize]
  omega

theorem pushChar_full_iff (h : k.Ring queue) :
    (k.bufferHead + 1) % keyboardBufferSize = k.bufferTail ↔ queue.length = 63 := by
  rw [← UInt8.toNat_inj, next_toNat, RingBuffer.full_iff h]
  omega

theorem pushChar_full (h : k.Ring queue) (hfull : ¬ queue.length < 63) : pushChar k character = k := by
  have hlt := RingBuffer.length_lt h
  exact if_pos ((pushChar_full_iff h).mpr (by omega))

theorem pushChar_room (h : k.Ring queue) (hroom : queue.length < 63) : pushChar k character =
    { k with
      keyboardBuffer := Function.update k.keyboardBuffer k.bufferHead.toNat character
      bufferHead := (k.bufferHead + 1) % keyboardBufferSize } :=
  if_neg fun hc => absurd ((pushChar_full_iff h).mp hc) (Nat.ne_of_lt hroom)

theorem pushChar_ring (h : k.Ring queue) (hroom : queue.length < 63) :
    (pushChar k character).Ring (queue ++ [character]) := by
  rw [pushChar_room h hroom]
  have := RingBuffer.push h (Nat.succ_lt_succ hroom) character
  rwa [← next_toNat] at this

theorem available_iff (h : k.Ring queue) : keyboardCharAvailable k = true ↔ queue ≠ [] := by
  rw [keyboardCharAvailable, bne_iff_ne, ne_eq, ← UInt8.toNat_inj, RingBuffer.empty_iff h]

/-! ## Interrupts -/

theorem typedChar_eq_some {status data : UInt8} (h : typedChar k status data = some character) :
    character ≠ 0 ∧ SameRing (pushChar k character) (keyboardHandleIrq k status data) := by
  unfold typedChar at h
  dsimp only at h
  split at h
  · next hc =>
    obtain ⟨h1, h2, h3, h4, h5, h6, h7, h8, h9⟩ := hc
    obtain rfl := Option.some.inj h
    refine ⟨h9, ?_⟩
    unfold keyboardHandleIrq
    rw [if_neg h1, if_neg (not_not.mpr h2), if_neg h3]
    simp only [h4, h5, h6, h7, h8, h9, bne_self_eq_false, Bool.not_false, Bool.and_true, false_and, if_false,
      if_true, ne_eq, not_false_eq_true]
    exact ⟨rfl, rfl, rfl⟩
  · cases h

theorem typedChar_eq_none {status data : UInt8} (h : typedChar k status data = none) :
    SameRing k (keyboardHandleIrq k status data) := by
  unfold keyboardHandleIrq
  split
  · exact ⟨rfl, rfl, rfl⟩
  split
  · exact ⟨rfl, rfl, rfl⟩
  split
  · exact ⟨rfl, rfl, rfl⟩
  dsimp only
  split
  · exact ⟨rfl, rfl, rfl⟩
  split
  · exact ⟨rfl, rfl, rfl⟩
  split
  · exact ⟨rfl, rfl, rfl⟩
  split
  · split
    · -- the handler pushes only what `typedChar` tells
      exfalso
      unfold typedChar at h
      simp_all
    · exact ⟨rfl, rfl, rfl⟩
  · exact ⟨rfl, rfl, rfl⟩

end

/-! ## Sessions -/

namespace KeyboardSession

structure Inv (w : KeyboardSession) : Prop where
  fifo : w.accepted = w.delivered ++ w.unread
  ring : w.keyboard.Ring w.unread
  nonzero : 0 ∉ w.accepted
  reader : match w.reader with
    | .test => True
    | .load => w.unread ≠ []
    | .advance character => w.unread.head? = some character

variable {w : KeyboardSession}

theorem inv_initial : Inv initial where
  fifo := rfl
  ring := RingBuffer.nil _ (by decide)
  nonzero := List.not_mem_nil
  reader := trivial

/-- The driver changed nothing of the ring. -/
theorem Inv.same_ring (h : Inv w) {keyboard : Keyboard} (hsame : SameRing w.keyboard keyboard) :
    Inv { w with keyboard } :=
  ⟨h.fifo, hsame.ring h.ring, h.nonzero, h.reader⟩

/-- The driver put one more character into the ring. -/
theorem Inv.push (h : Inv w) {keyboard : Keyboard} {character : UInt8} (hne : character ≠ 0)
    (hroom : w.unread.length < 63) (hsame : SameRing (pushChar w.keyboard character) keyboard) :
    Inv { w with keyboard, accepted := w.accepted ++ [character] } := by
  have hlen : w.delivered.length ≤ w.accepted.length := by
    rw [h.fifo, List.length_append]
    exact Nat.le_add_right _ _
  have hunread : ({ w with keyboard, accepted := w.accepted ++ [character] } : KeyboardSession).unread =
      w.unread ++ [character] :=
    List.drop_append_of_le_length hlen
  refine ⟨?_, ?_, ?_, ?_⟩
  · rw [hunread]
    show w.accepted ++ [character] = w.delivered ++ (w.unread ++ [character])
    rw [← List.append_assoc, ← h.fifo]
  · rw [hunread]
    exact hsame.ring (pushChar_ring h.ring hroom)
  · show 0 ∉ w.accepted ++ [character]
    rw [List.mem_append, not_or]
    exact ⟨h.nonzero, fun hc => hne (List.mem_singleton.mp hc).symm⟩
  · -- the oldest character stays where it is
    have hreader := h.reader
    rw [hunread]
    show match w.reader with | .test => _ | .load => _ | .advance _ => _
    cases hr : w.reader with
    | test => trivial
    | load => simp
    | advance loaded =>
      rw [hr] at hreader
      rw [List.head?_append, hreader]
      rfl

theorem inv_irq (h : Inv w) (status data : UInt8) : Inv (w.step (.irq status data)) := by
  cases htyped : typedChar w.keyboard status data with
  | none =>
    have hw : w.step (.irq status data) = { w with keyboard := keyboardHandleIrq w.keyboard status data } := by
      simp [step, htyped]
    rw [hw]
    exact h.same_ring (typedChar_eq_none htyped)
  | some character =>
    obtain ⟨hne, hsame⟩ := typedChar_eq_some htyped
    by_cases hroom : w.unread.length < 63
    · have hw : w.step (.irq status data) =
          { w with keyboard := keyboardHandleIrq w.keyboard status data, accepted := w.accepted ++
          [character] } := by
        simp [step, htyped, hroom]
      rw [hw]
      exact h.push hne hroom hsame
    · have hw : w.step (.irq status data) = { w with keyboard := keyboardHandleIrq w.keyboard status data } := by
        simp [step, htyped, hroom]
      rw [pushChar_full h.ring hroom] at hsame
      rw [hw]
      exact h.same_ring hsame

/-- A call that finds nothing returns 0, which is no character. -/
theorem Inv.return_zero (h : Inv w) (hr : w.reader = .test) : Inv { w with returned := w.returned ++ [0] } := by
  have hdelivered : ({ w with returned := w.returned ++ [0] } : KeyboardSession).delivered = w.delivered := by
    simp [delivered]
  have hunread : ({ w with returned := w.returned ++ [0] } : KeyboardSession).unread = w.unread := by
    rw [unread, hdelivered]
    rfl
  refine ⟨?_, ?_, h.nonzero, ?_⟩
  · rw [hdelivered, hunread]
    exact h.fifo
  · rw [hunread]
    exact h.ring
  · rw [hr]
    trivial

/-- `buffer_tail` advances past the oldest character, which is returned. -/
theorem Inv.pop (h : Inv w) {character : UInt8} {queue : List UInt8} (hqueue : w.unread = character :: queue) :
    Inv { w with
      keyboard := { w.keyboard with bufferTail := (w.keyboard.bufferTail + 1) % keyboardBufferSize }
      reader := .test
      returned := w.returned ++ [character] } := by
  have hne : character ≠ 0 := by
    rintro rfl
    refine h.nonzero ?_
    rw [h.fifo, hqueue]
    simp
  generalize hw : ({ w with
      keyboard := { w.keyboard with bufferTail := (w.keyboard.bufferTail + 1) % keyboardBufferSize }
      reader := .test
      returned := w.returned ++ [character] } : KeyboardSession) = w'
  have hdelivered : w'.delivered = w.delivered ++ [character] := by
    rw [← hw]
    simp [delivered, hne]
  have hunread : w'.unread = queue := by
    rw [unread, hdelivered, List.length_append, ← List.drop_drop, ← hw]
    show w.unread.drop 1 = queue
    rw [hqueue]
    rfl
  have hring := h.ring
  rw [hqueue] at hring
  refine ⟨?_, ?_, ?_, ?_⟩
  · rw [hdelivered, hunread, ← hw]
    show w.accepted = w.delivered ++ [character] ++ queue
    rw [h.fifo, hqueue, List.append_assoc]
    rfl
  · rw [hunread, ← hw]
    have := RingBuffer.pop hring
    rwa [← next_toNat] at this
  · rw [← hw]
    exact h.nonzero
  · rw [← hw]
    trivial

theorem inv_read (h : Inv w) : Inv (w.step .read) := by
  have hreader := h.reader
  cases hr : w.reader with
  | test =>
    by_cases havail : keyboardCharAvailable w.keyboard = true
    · have hw : w.step .read = { w with reader := .load } := by simp [step, keyboardReadChar, hr, havail]
      rw [hw]
      exact ⟨h.fifo, h.ring, h.nonzero, (available_iff h.ring).mp havail⟩
    · have hw : w.step .read = { w with returned := w.returned ++ [0] } := by
        simp [step, keyboardReadChar, hr, havail]
      rw [hw]
      exact h.return_zero hr
  | load =>
    rw [hr] at hreader
    obtain ⟨character, queue, hqueue⟩ := List.exists_cons_of_ne_nil hreader
    have hring := h.ring
    rw [hqueue] at hring
    have hw : w.step .read = { w with reader := .advance character } := by
      simp [step, keyboardReadChar, hr, RingBuffer.oldest hring]
    rw [hw]
    refine ⟨h.fifo, h.ring, h.nonzero, ?_⟩
    show w.unread.head? = some character
    rw [hqueue]
    rfl
  | advance character =>
    rw [hr] at hreader
    obtain ⟨queue, hqueue⟩ := List.head?_eq_some_iff.mp hreader
    have hw : w.step .read =
        { w with
          keyboard := { w.keyboard with bufferTail := (w.keyboard.bufferTail + 1) % keyboardBufferSize }
          reader := .test
          returned := w.returned ++ [character] } := by
      simp [step, keyboardReadChar, hr]
    rw [hw]
    exact h.pop hqueue

theorem inv_step (h : Inv w) : ∀ e : KeyboardEvent, Inv (w.step e)
  | .irq status data => inv_irq h status data
  | .read => inv_read h

theorem inv_run (events : List KeyboardEvent) : Inv (events.foldl step initial) :=
  List.foldlRecOn events step inv_initial fun _ h e _ => inv_step h e

theorem irq_stores (h : Inv w) (status data : UInt8) :
    let k' := keyboardHandleIrq w.keyboard status data
    match typedChar w.keyboard status data with
    | none => SameRing w.keyboard k'
    | some character => character ≠ 0 ∧ if w.unread.length < 63 then
        k'.bufferTail = w.keyboard.bufferTail ∧ k'.bufferHead = (w.keyboard.bufferHead + 1) % keyboardBufferSize ∧
          k'.keyboardBuffer = Function.update w.keyboard.keyboardBuffer w.keyboard.bufferHead.toNat character
      else SameRing w.keyboard k' := by
  intro k'
  cases htyped : typedChar w.keyboard status data with
  | none => exact typedChar_eq_none htyped
  | some character =>
    obtain ⟨hne, hsame⟩ := typedChar_eq_some htyped
    refine ⟨hne, ?_⟩
    by_cases hroom : w.unread.length < 63
    · rw [pushChar_room h.ring hroom] at hsame
      rw [if_pos hroom]
      exact ⟨hsame.tail, hsame.head, hsame.buffer⟩
    · rw [pushChar_full h.ring hroom] at hsame
      rw [if_neg hroom]
      exact hsame

theorem read_zero (h : Inv w) (hzero : (w.step .read).returned = w.returned ++ [0]) :
    w.reader = .test ∧ w.keyboard.bufferHead = w.keyboard.bufferTail ∧ w.unread = [] := by
  cases hr : w.reader with
  | test =>
    by_cases havail : keyboardCharAvailable w.keyboard = true
    · simp [step, keyboardReadChar, hr, havail] at hzero
    · have hempty : w.unread = [] := by
        by_contra hne
        exact havail ((available_iff h.ring).mpr hne)
      exact ⟨rfl, by simpa [keyboardCharAvailable] using havail, hempty⟩
  | load => simp [step, keyboardReadChar, hr] at hzero
  | advance character =>
    -- a character that was loaded is not 0
    have hreader := h.reader
    rw [hr] at hreader
    have hc : character = 0 := by simpa [step, keyboardReadChar, hr] using hzero
    have hmem : character ∈ w.unread := List.mem_of_mem_head? (Option.mem_def.mpr hreader)
    rw [hc] at hmem
    exact absurd (List.mem_of_mem_drop hmem) h.nonzero

/-- Nothing but interrupts. -/
def interrupts (w : KeyboardSession) (irqs : List (UInt8 × UInt8)) : KeyboardSession :=
  irqs.foldl (fun w x => w.step (.irq x.1 x.2)) w

/-- Interrupts leave the reader alone, and what is unread stays in front of what they add. -/
structure Interrupted (w w' : KeyboardSession) : Prop where
  inv : Inv w'
  reader : w'.reader = w.reader
  returned : w'.returned = w.returned
  unread : ∃ more, w'.unread = w.unread ++ more

theorem interrupted_irq (h : Inv w) (status data : UInt8) : Interrupted w (w.step (.irq status data)) := by
  refine ⟨inv_irq h status data, rfl, rfl,
    ((typedChar w.keyboard status data).filter fun _ => w.unread.length < 63).toList, ?_⟩
  have hlen : w.delivered.length ≤ w.accepted.length := by
    rw [h.fifo, List.length_append]
    omega
  exact List.drop_append_of_le_length hlen

theorem interrupted_interrupts :
    ∀ (irqs : List (UInt8 × UInt8)) {w : KeyboardSession}, Inv w → Interrupted w (w.interrupts irqs)
  | [], _, h => ⟨h, rfl, rfl, [], (List.append_nil _).symm⟩
  | x :: irqs, w, h => by
    obtain ⟨hinv, hreader, hreturned, more, hmore⟩ := interrupted_irq h x.1 x.2
    obtain ⟨hinv', hreader', hreturned', more', hmore'⟩ := interrupted_interrupts irqs hinv
    refine ⟨hinv', hreader'.trans hreader, hreturned'.trans hreturned, more ++ more', hmore'.trans ?_⟩
    rw [hmore, List.append_assoc]

theorem read_oldest (h : Inv w) {oldest : UInt8} {rest : List UInt8} (hr : w.reader = .test)
    (hunread : w.unread = oldest :: rest) (irqs₁ irqs₂ : List (UInt8 × UInt8)) :
    ((((w.step .read).interrupts irqs₁).step .read).interrupts irqs₂ |>.step .read).returned =
      w.returned ++ [oldest] := by
  have havail : keyboardCharAvailable w.keyboard = true := (available_iff h.ring).mpr (by rw [hunread]; simp)
  have htest : w.step .read = { w with reader := .load } := by simp [step, keyboardReadChar, hr, havail]
  obtain ⟨hinv₁, hreader₁, hreturned₁, more₁, hmore₁⟩ := interrupted_interrupts irqs₁ (inv_read h)
  rw [htest] at hinv₁ hreader₁ hreturned₁ hmore₁ ⊢
  generalize ({ w with reader := .load } : KeyboardSession).interrupts irqs₁ = w₁ at *
  obtain ⟨character, hload⟩ : ∃ character, w₁.step .read = { w₁ with reader := .advance character } :=
    ⟨w₁.keyboard.keyboardBuffer w₁.keyboard.bufferTail.toNat, by simp [step, keyboardReadChar, hreader₁]⟩
  obtain ⟨hinv₂, hreader₂, hreturned₂, more₂, hmore₂⟩ := interrupted_interrupts irqs₂ (inv_read hinv₁)
  rw [hload] at hinv₂ hreader₂ hreturned₂ hmore₂ ⊢
  generalize ({ w₁ with reader := .advance character } : KeyboardSession).interrupts irqs₂ = w₂ at *
  -- the character that was loaded is still the first of the unread ones
  have hhead := hinv₂.reader
  rw [hreader₂] at hhead
  have hfirst : w₂.unread = oldest :: (rest ++ more₁ ++ more₂) := by
    refine hmore₂.trans ?_
    change w₁.unread ++ more₂ = _
    rw [hmore₁]
    change w.unread ++ more₁ ++ more₂ = _
    rw [hunread]
    rfl
  rw [hfirst] at hhead
  obtain rfl : oldest = character := Option.some.inj hhead
  have hadvance : (w₂.step .read).returned = w₂.returned ++ [oldest] := by simp [step, keyboardReadChar, hreader₂]
  rw [hadvance, hreturned₂]
  exact congrArg (· ++ [oldest]) hreturned₁

theorem read_empty (h : Inv w) (hr : w.reader = .test) (hunread : w.unread = []) :
    (w.step .read).returned = w.returned ++ [0] := by
  have havail : ¬ keyboardCharAvailable w.keyboard = true := fun hc => (available_iff h.ring).mp hc hunread
  simp [step, keyboardReadChar, hr, havail]

/-- **A first-in first-out buffer for 63 characters**, for every interleaving of interrupts with the
reader's steps. A call returns the oldest character that is unread when it begins, whatever interrupts it. -/
theorem keyboard_fifo (events : List KeyboardEvent) :
    let w := events.foldl step initial
    let k := w.keyboard
    w.delivered <+: w.accepted ∧ k.bufferHead.toNat < 64 ∧ k.bufferTail.toNat < 64 ∧
      (∀ (i : Nat) (h : i < w.unread.length), k.keyboardBuffer ((k.bufferTail.toNat + i) % 64) = w.unread[i]) ∧
      (∀ status data : UInt8,
        let k' := keyboardHandleIrq k status data
        match typedChar k status data with
        | none => SameRing k k'
        | some character => character ≠ 0 ∧ if w.unread.length < 63 then
            k'.bufferTail = k.bufferTail ∧ k'.bufferHead = (k.bufferHead + 1) % keyboardBufferSize ∧
              k'.keyboardBuffer = Function.update k.keyboardBuffer k.bufferHead.toNat character
          else SameRing k k') ∧
      ((w.step .read).returned = w.returned ++ [0] → w.reader = .test ∧ k.bufferHead = k.bufferTail ∧
      w.unread = []) ∧
      (w.reader = .test → w.unread = [] → (w.step .read).returned = w.returned ++ [0]) ∧
      (∀ oldest rest, w.reader = .test → w.unread = oldest :: rest → ∀ irqs₁ irqs₂ : List (UInt8 × UInt8),
        ((((w.step .read).interrupts irqs₁).step .read).interrupts irqs₂ |>.step .read).returned =
        w.returned ++ [oldest]) := by
  have h := inv_run events
  intro w k
  exact ⟨⟨w.unread, h.fifo.symm⟩, RingBuffer.head_lt h.ring, RingBuffer.tail_lt h.ring, RingBuffer.slot h.ring,
    irq_stores h, read_zero h, read_empty h, fun _ _ => read_oldest h⟩

end KeyboardSession

end KernelOs
