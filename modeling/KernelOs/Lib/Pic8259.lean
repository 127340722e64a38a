import Mathlib.Data.List.Find
import Mathlib.Logic.Function.Basic

/-!
# The 8259 interrupt controller

One chip with fixed priorities, and two of them in cascade. Against the chips stands what
they are for: a set of requests and a set of masked lines.
-/

namespace Lib

/-- The word that a chip takes next at its data port. -/
inductive Pic8259.Expects where
  | ocw1
  | icw2
  | icw3
  | icw4
  deriving DecidableEq

structure Pic8259 where
  irr : Nat → Bool
  isr : Nat → Bool
  imr : UInt8
  icw1 : UInt8
  icw2 : UInt8
  icw3 : UInt8
  icw4 : UInt8
  expects : Pic8259.Expects

namespace Pic8259

def inService (p : Pic8259) : Option Nat := (List.range 8).find? p.isr

def masked (p : Pic8259) (i : Nat) : Bool := p.imr.toNat.testBit i

/-- ICW1, or OCW2 without rotation. OCW3 selects what this model never reads. -/
def writeCommand (p : Pic8259) (v : UInt8) : Pic8259 :=
  if v &&& 0x10 ≠ 0 then { p with irr := fun _ => false, imr := 0, icw1 := v, icw4 := 0, expects := .icw2 }
  else if v &&& 0x28 = 0x20 then
    match if v &&& 0x40 ≠ 0 then some (v &&& 7).toNat else p.inService with
    | none => p
    | some i => { p with isr := Function.update p.isr i false }
  else p

def writeData (p : Pic8259) (v : UInt8) : Pic8259 :=
  let last : Expects := if p.icw1 &&& 1 ≠ 0 then .icw4 else .ocw1
  match p.expects with
  | .ocw1 => { p with imr := v }
  | .icw2 => { p with icw2 := v, expects := if p.icw1 &&& 2 = 0 then .icw3 else last }
  | .icw3 => { p with icw3 := v, expects := last }
  | .icw4 => { p with icw4 := v, expects := .ocw1 }

def readData (p : Pic8259) : UInt8 := p.imr

/-- A device raises a request, or takes it back before it is acknowledged. -/
def request (p : Pic8259) (i : Nat) (b : Bool) : Pic8259 := { p with irr := Function.update p.irr i b }

/-- The request that the chip passes on: none of its priority or above may be in service. -/
def asks (p : Pic8259) : Option Nat :=
  (List.range 8).find? fun i => p.irr i && !p.masked i && (List.range (i + 1)).all fun j => !p.isr j

/-- The level that the chip answers with. With no request left it is 7, and nothing is in service. -/
def acknowledge (p : Pic8259) : Nat × Pic8259 :=
  match p.asks with
  | none => (7, p)
  | some i =>
    let automatic : Bool := p.icw4 &&& 2 != 0
    (i, { p with irr := Function.update p.irr i false, isr := Function.update p.isr i (!automatic) })

def vector (p : Pic8259) (i : Nat) : UInt8 := p.icw2 &&& 0xF8 ||| UInt8.ofNat i

def Idle (p : Pic8259) : Prop := p.isr = fun _ => false

end Pic8259

/-- The line of the slave is line 2 of the master. -/
structure Cascade where
  master : Pic8259
  slave : Pic8259

namespace Cascade

def request (c : Cascade) (n : Nat) (b : Bool) : Cascade :=
  if n < 8 then { c with master := c.master.request n b } else { c with slave := c.slave.request (n - 8) b }

/-- The master with the level that line 2 has. -/
def heard (c : Cascade) (asked : Bool) : Pic8259 := { c.master with irr := Function.update c.master.irr 2 asked }

/-- The vector that the CPU gets. If `stale`, the master has seen a request of the slave that is gone. -/
def acknowledge (c : Cascade) (stale : Bool) : UInt8 × Cascade :=
  let (i, master) := (c.heard (stale || c.slave.asks.isSome)).acknowledge
  if master.icw3.toNat.testBit i ∧ c.slave.icw3 &&& 7 = UInt8.ofNat i then
    let (j, slave) := c.slave.acknowledge
    (slave.vector j, ⟨master, slave⟩)
  else (master.vector i, { c with master })

end Cascade

/-! ## Requests and masks -/

/-- The lines 0 to 15 without 2, and the masks of all. -/
@[ext] structure Requests where
  pending : Nat → Bool
  masked : Nat → Bool

namespace Requests

/-- Line 2 carries those from 8 on. -/
def ready (r : Requests) (n : Nat) : Bool := r.pending n && !r.masked n && !(decide (8 ≤ n) && r.masked 2)

inductive Served where
  | line (n : Nat)
  | spurious (n : Nat)
  deriving DecidableEq

def Served.number : Served → Nat
  | line n => n
  | spurious n => n

/-- The first line in the order of priorities that is ready. -/
def next (r : Requests) (stale : Bool) : Served :=
  match [0, 1].find? r.ready with
  | some n => .line n
  | none =>
    match [8, 9, 10, 11, 12, 13, 14, 15].find? r.ready with
    | some n => .line n
    | none =>
      if stale && !r.masked 2 then .spurious 15
      else
        match [3, 4, 5, 6, 7].find? r.ready with
        | some n => .line n
        | none => .spurious 7

def request (r : Requests) (n : Nat) (b : Bool) : Requests := { r with pending := Function.update r.pending n b }

def mask (r : Requests) (n : Nat) (b : Bool) : Requests := { r with masked := Function.update r.masked n b }

def serve (r : Requests) (stale : Bool) : Served × Requests :=
  match r.next stale with
  | .line n => (.line n, r.request n false)
  | .spurious n => (.spurious n, r)

theorem number_next (r : Requests) (stale : Bool) : (r.next stale).number < 16 := by
  unfold next
  have hmem : ∀ {l : List Nat} {n : Nat}, l.find? r.ready = some n → (∀ m ∈ l, m < 16) → n < 16 :=
    fun h hl => hl _ (List.mem_of_find?_eq_some h)
  split
  · exact hmem ‹_› (by decide)
  · split
    · exact hmem ‹_› (by decide)
    · split
      · decide
      · split
        · exact hmem ‹_› (by decide)
        · decide

theorem number_of_spurious {r : Requests} {stale : Bool} {n : Nat} (h : r.next stale = .spurious n) :
    n = 7 ∨ n = 15 := by
  unfold next at h
  split at h
  · cases h
  · split at h
    · cases h
    · split at h
      · cases h
        exact Or.inr rfl
      · split at h
        · cases h
        · cases h
          exact Or.inl rfl

theorem serve_fst (r : Requests) (stale : Bool) : (r.serve stale).1 = r.next stale := by
  unfold serve
  cases r.next stale <;> rfl

end Requests

/-! ## The chips hold requests and masks -/

namespace Pic8259

variable {p : Pic8259} {i : Nat}

/-- The register with level `i` alone in service. -/
def only (i : Nat) : Nat → Bool := Function.update (fun _ => false) i true

theorem inService_only : ∀ i < 8, (List.range 8).find? (only i) = some i := by decide

theorem writeCommand_eoi (p : Pic8259) : p.writeCommand 0x20 = match p.inService with
    | none => p
    | some i => { p with isr := Function.update p.isr i false } := rfl

theorem writeData_ocw1 (h : p.expects = .ocw1) (v : UInt8) : p.writeData v = { p with imr := v } := by
  unfold writeData
  rw [h]

theorem asks_of_idle (h : p.Idle) : p.asks = (List.range 8).find? fun i => p.irr i && !p.masked i := by
  unfold Idle at h
  unfold asks
  rw [h]
  exact List.find?_congr fun i _ => by simp

theorem acknowledge_of_none (h : p.asks = none) : p.acknowledge = (7, p) := by
  unfold acknowledge
  rw [h]

/-- With no automatic end of interrupt. -/
theorem acknowledge_of_some (hidle : p.Idle) (hmode : p.icw4 &&& 2 = 0) (h : p.asks = some i) :
    p.acknowledge = (i, { p with irr := Function.update p.irr i false, isr := only i }) := by
  unfold Idle at hidle
  unfold acknowledge
  rw [h, hidle, hmode]
  rfl

theorem eoi_of_idle (h : p.Idle) : p.writeCommand 0x20 = p := by
  unfold Idle at h
  have hnone : p.inService = none := by
    unfold inService
    rw [h]
    rfl
  rw [writeCommand_eoi, hnone]

theorem eoi_of_only (h : p.isr = only i) (hi : i < 8) : p.writeCommand 0x20 = { p with isr := fun _ => false } := by
  have hsome : p.inService = some i := by
    unfold inService
    rw [h, inService_only i hi]
  have hnone : Function.update p.isr i false = fun _ => false := by
    rw [h, only, Function.update_idem]
    exact Function.update_eq_self i fun _ => false
  rw [writeCommand_eoi, hsome]
  dsimp only
  rw [hnone]

end Pic8259

namespace Cascade

/-- Set up for 32 to 47, with an explicit end of each interrupt. -/
structure Wired (c : Cascade) : Prop where
  master : c.master.expects = .ocw1 ∧ c.master.icw2 = 0x20 ∧ c.master.icw3 = 0x04 ∧ c.master.icw4 = 0x01
  slave : c.slave.expects = .ocw1 ∧ c.slave.icw2 = 0x28 ∧ c.slave.icw3 = 0x02 ∧ c.slave.icw4 = 0x01

def requests (c : Cascade) : Requests where
  pending n := if n = 2 then false else if n < 8 then c.master.irr n else c.slave.irr (n - 8)
  masked n := if n < 8 then c.master.masked n else c.slave.masked (n - 8)

variable {c : Cascade} {n : Nat}

theorem ready_master (h : n < 8) (h2 : n ≠ 2) : c.requests.ready n = (c.master.irr n && !c.master.masked n) := by
  have h8 : ¬8 ≤ n := by omega
  simp [Requests.ready, requests, h, h2, h8]

theorem ready_slave (n : Nat) :
    c.requests.ready (8 + n) = (c.slave.irr n && !c.slave.masked n && !c.master.masked 2) := by
  have h2 : 8 + n ≠ 2 := by omega
  have h8 : ¬8 + n < 8 := by omega
  have hsub : 8 + n - 8 = n := by omega
  have hle : 8 ≤ 8 + n := by omega
  simp only [Requests.ready, requests, if_neg h2, if_neg h8, hsub, decide_eq_true hle, Nat.reduceLT, if_true,
    Bool.true_and]

/-- What the interrupt that is served leaves in service. -/
def Serving (c : Cascade) : Requests.Served → Prop
  | .line n => if n < 8 then c.master.isr = Pic8259.only n ∧ c.slave.Idle
      else c.master.isr = Pic8259.only 2 ∧ c.slave.isr = Pic8259.only (n - 8)
  | .spurious n => if n < 8 then c.master.Idle ∧ c.slave.Idle else c.master.isr = Pic8259.only 2 ∧ c.slave.Idle

/-- The master's request, by priority. -/
theorem asks_master (hidle : c.master.Idle) (asked : Bool) :
    (c.heard asked).asks =
      ([0, 1].find? c.requests.ready).or
        ((if asked && !c.master.masked 2 then some 2 else none).or ([3, 4, 5, 6, 7].find? c.requests.ready)) := by
  have hcongr : ∀ l : List Nat, (∀ i ∈ l, i < 8 ∧ i ≠ 2) →
      l.find? (fun i => Function.update c.master.irr 2 asked i && !c.master.masked i) =
      l.find? c.requests.ready := by
    intro l hl
    refine List.find?_congr fun i hi => ?_
    rw [Function.update_of_ne (hl i hi).2, ready_master (hl i hi).1 (hl i hi).2]
  have hmid : [2].find? (fun i => Function.update c.master.irr 2 asked i && !c.master.masked i) =
      if asked && !c.master.masked 2 then some 2 else none := by
    rw [List.find?_cons, Function.update_self]
    cases asked && !c.master.masked 2 <;> rfl
  have hidle' : (c.heard asked).Idle := hidle
  rw [Pic8259.asks_of_idle hidle']
  change ([0, 1] ++ ([2] ++ [3, 4, 5, 6, 7])).find?
    (fun i => Function.update c.master.irr 2 asked i && !c.master.masked i) = _
  rw [List.find?_append, List.find?_append, hmid, hcongr _ (by decide), hcongr _ (by decide)]

/-- The slave's request comes through unless line 2 is masked. -/
theorem asks_slave (hidle : c.slave.Idle) :
    [8, 9, 10, 11, 12, 13, 14, 15].find? c.requests.ready =
      if c.master.masked 2 then none else c.slave.asks.map (8 + ·) := by
  have hmap : [8, 9, 10, 11, 12, 13, 14, 15] = (List.range 8).map (8 + ·) := rfl
  rw [hmap, List.find?_map, Pic8259.asks_of_idle hidle]
  cases hmask : c.master.masked 2 with
  | true =>
    have hnone : (List.range 8).find? (c.requests.ready ∘ (8 + ·)) = none := by
      refine List.find?_eq_none.mpr fun i _ => ?_
      rw [Function.comp_apply, ready_slave, hmask, Bool.not_true, Bool.and_false]
      exact Bool.false_ne_true
    rw [hnone]
    rfl
  | false =>
    have hcongr : (List.range 8).find? (c.requests.ready ∘ (8 + ·)) = (List.range 8).find? fun i =>
        c.slave.irr i && !c.slave.masked i := by
      refine List.find?_congr fun i _ => ?_
      rw [Function.comp_apply, ready_slave, hmask, Bool.not_false, Bool.and_true]
    rw [hcongr]
    rfl

theorem requests_request (h2 : n ≠ 2) (b : Bool) : (c.request n b).requests = c.requests.request n b := by
  unfold request
  by_cases hn : n < 8
  · rw [if_pos hn]
    refine Requests.ext (funext fun i => ?_) rfl
    dsimp only [requests, Requests.request, Pic8259.request]
    by_cases hi : i = n
    · rw [hi, Function.update_self, Function.update_self, if_neg h2, if_pos hn]
    · rw [Function.update_of_ne hi, Function.update_of_ne hi]
  · rw [if_neg hn]
    refine Requests.ext (funext fun i => ?_) rfl
    dsimp only [requests, Requests.request, Pic8259.request]
    by_cases hi : i = n
    · rw [hi, Function.update_self, Function.update_self, if_neg h2, if_neg hn]
    · rw [Function.update_of_ne hi]
      by_cases hi8 : i < 8
      · rw [if_pos hi8, if_pos hi8]
      · rw [Function.update_of_ne (by omega)]

theorem same_request (c : Cascade) (n : Nat) (b : Bool) :
    ∃ irr irr', c.request n b = ⟨{ c.master with irr }, { c.slave with irr := irr' }⟩ := by
  unfold request
  split
  · exact ⟨_, c.slave.irr, rfl⟩
  · exact ⟨c.master.irr, _, rfl⟩

/-- `c` has answered with `v` and gone on in `c'`, where `r` are the requests left and `s` is in service. -/
structure Answered (c c' : Cascade) (v : UInt8) (s : Requests.Served) (r : Requests) : Prop where
  vector : v = UInt8.ofNat (32 + s.number)
  requests : c'.requests = r
  wired : c'.Wired
  serving : c'.Serving s

theorem vector_master : ∀ n < 8, (0x20 : UInt8) &&& 0xF8 ||| UInt8.ofNat n = UInt8.ofNat (32 + n) := by decide

theorem vector_slave : ∀ n < 8, (0x28 : UInt8) &&& 0xF8 ||| UInt8.ofNat n = UInt8.ofNat (32 + (8 + n)) := by decide

theorem wiring : ∀ n < 8, (0x04 : UInt8).toNat.testBit n = decide (n = 2) := by decide

/-- The chips but for requests and service. -/
def Same (c c' : Cascade) : Prop :=
  ∃ irr irr' isr isr', c' = ⟨{ c.master with irr, isr }, { c.slave with irr := irr', isr := isr' }⟩

theorem Wired.same {c' : Cascade} (h : c.Wired) (hsame : Same c c') : c'.Wired := by
  obtain ⟨irr, irr', isr, isr', rfl⟩ := hsame
  exact ⟨h.master, h.slave⟩

theorem requests_eq {irr irr' isr isr' : Nat → Bool} {r : Requests} (hmask : r.masked = c.requests.masked)
    (h2 : r.pending 2 = false) (hm : ∀ i < 8, i ≠ 2 → irr i = r.pending i) (hs : ∀ i, irr' i = r.pending (8 + i)) :
    (⟨{ c.master with irr, isr }, { c.slave with irr := irr', isr := isr' }⟩ : Cascade).requests = r := by
  refine Requests.ext (funext fun i => ?_) hmask.symm
  by_cases hi : i = 2
  · rw [hi, h2]
    rfl
  · by_cases hi8 : i < 8
    · simp only [requests, if_neg hi, if_pos hi8, hm i hi8 hi]
    · have hi' : 8 + (i - 8) = i := by omega
      simp only [requests, if_neg hi, if_neg hi8, hs, hi']

theorem pending_master {i : Nat} (hi : i < 8) (h2 : i ≠ 2) : c.requests.pending i = c.master.irr i := by
  simp only [requests, if_neg h2, if_pos hi]

theorem pending_slave (i : Nat) : c.requests.pending (8 + i) = c.slave.irr i := by
  have h2 : 8 + i ≠ 2 := by omega
  have h8 : ¬8 + i < 8 := by omega
  have hsub : 8 + i - 8 = i := by omega
  simp only [requests, if_neg h2, if_neg h8, hsub]

theorem answered_master (hw : c.Wired) (hm : c.master.Idle) (hs : c.slave.Idle) {stale : Bool}
    (hn : n < 8) (h2 : n ≠ 2) (hasks : (c.heard (stale || c.slave.asks.isSome)).asks = some n) :
    Answered c (c.acknowledge stale).2 (c.acknowledge stale).1 (.line n) (c.requests.request n false) := by
  obtain ⟨-, hm2, hm3, hm4⟩ := hw.master
  have hack := Pic8259.acknowledge_of_some (p := c.heard _) hm (by rw [heard, hm4]; rfl) hasks
  have heq : c.acknowledge stale = (c.master.vector n,
      ⟨{ c.master with
          irr := Function.update (c.heard (stale || c.slave.asks.isSome)).irr n false
          isr := Pic8259.only n },
        c.slave⟩) := by
    unfold acknowledge
    rw [hack]
    dsimp only
    rw [if_neg]
    · rfl
    · intro h
      have hbit := h.1
      rw [heard, hm3, wiring n hn] at hbit
      exact h2 (of_decide_eq_true hbit)
  rw [heq]
  refine ⟨?_, requests_eq rfl ?_ (fun i hi hi2 => ?_) fun i => ?_, hw.same ⟨_, _, _, _, rfl⟩, ?_⟩
  · rw [Pic8259.vector, hm2]
    exact vector_master n hn
  · exact Function.update_of_ne (Ne.symm h2) ..
  · rw [Requests.request]
    dsimp only [heard]
    by_cases hin : i = n
    · rw [hin, Function.update_self, Function.update_self]
    · rw [Function.update_of_ne hin, Function.update_of_ne hin, Function.update_of_ne hi2, pending_master hi hi2]
  · rw [Requests.request]
    dsimp only
    rw [Function.update_of_ne (by omega), pending_slave]
  · rw [Serving, if_pos hn]
    exact ⟨rfl, hs⟩

theorem answered_spurious (hw : c.Wired) (hm : c.master.Idle) (hs : c.slave.Idle) {stale : Bool}
    (hasks : (c.heard (stale || c.slave.asks.isSome)).asks = none) :
    Answered c (c.acknowledge stale).2 (c.acknowledge stale).1 (.spurious 7) c.requests := by
  obtain ⟨-, hm2, hm3, -⟩ := hw.master
  have heq : c.acknowledge stale =
      (c.master.vector 7, { c with master := c.heard (stale || c.slave.asks.isSome) }) := by
    unfold acknowledge
    rw [Pic8259.acknowledge_of_none hasks]
    dsimp only
    rw [if_neg]
    · rfl
    · intro h
      have hbit := h.1
      rw [heard, hm3] at hbit
      exact absurd hbit (by decide)
  rw [heq]
  refine ⟨?_, requests_eq rfl rfl (fun i hi hi2 => ?_) fun i => ?_, hw.same ⟨_, _, _, _, rfl⟩, ?_⟩
  · rw [Pic8259.vector, hm2]
    rfl
  · rw [Function.update_of_ne hi2, pending_master hi hi2]
  · rw [pending_slave]
  · exact ⟨hm, hs⟩

/-- The master has passed the slave's request on. -/
theorem acknowledge_slave (hw : c.Wired) (hm : c.master.Idle) {stale : Bool}
    (hasks : (c.heard (stale || c.slave.asks.isSome)).asks = some 2) : c.acknowledge stale =
      (c.slave.acknowledge.2.vector c.slave.acknowledge.1,
        ⟨{ c.master with
            irr := Function.update (c.heard (stale || c.slave.asks.isSome)).irr 2 false
            isr := Pic8259.only 2 },
          c.slave.acknowledge.2⟩) := by
  obtain ⟨-, -, hm3, hm4⟩ := hw.master
  obtain ⟨-, -, hs3, -⟩ := hw.slave
  have hack := Pic8259.acknowledge_of_some (p := c.heard _) hm (by rw [heard, hm4]; rfl) hasks
  unfold acknowledge
  rw [hack]
  dsimp only
  rw [if_pos]
  · rfl
  · rw [heard, hm3, hs3]
    decide

theorem answered_slave (hw : c.Wired) (hm : c.master.Idle) (hs : c.slave.Idle) {stale : Bool} (hn : n < 8)
    (hasks : (c.heard (stale || c.slave.asks.isSome)).asks = some 2) (hslave : c.slave.asks = some n) :
    Answered c (c.acknowledge stale).2 (c.acknowledge stale).1 (.line (8 + n))
    (c.requests.request (8 + n) false) := by
  obtain ⟨-, hs2, -, hs4⟩ := hw.slave
  rw [acknowledge_slave hw hm hasks, Pic8259.acknowledge_of_some hs (by rw [hs4]; rfl) hslave]
  refine ⟨?_, requests_eq rfl ?_ (fun i hi hi2 => ?_) fun i => ?_, hw.same ⟨_, _, _, _, rfl⟩, ?_⟩
  · rw [Pic8259.vector, hs2]
    exact vector_slave n hn
  · exact Function.update_of_ne (by omega) ..
  · rw [Requests.request]
    dsimp only [heard]
    rw [Function.update_of_ne hi2, Function.update_of_ne hi2, Function.update_of_ne (by omega),
      pending_master hi hi2]
  · rw [Requests.request]
    dsimp only
    by_cases hin : i = n
    · rw [hin, Function.update_self, Function.update_self]
    · rw [Function.update_of_ne hin, Function.update_of_ne (by omega), pending_slave]
  · have h8 : ¬8 + n < 8 := by omega
    have hsub : 8 + n - 8 = n := by omega
    rw [Serving, if_neg h8, hsub]
    exact ⟨rfl, rfl⟩

theorem answered_gone (hw : c.Wired) (hm : c.master.Idle) (hs : c.slave.Idle) {stale : Bool}
    (hasks : (c.heard (stale || c.slave.asks.isSome)).asks = some 2) (hslave : c.slave.asks = none) :
    Answered c (c.acknowledge stale).2 (c.acknowledge stale).1 (.spurious 15) c.requests := by
  obtain ⟨-, hs2, -, -⟩ := hw.slave
  rw [acknowledge_slave hw hm hasks, Pic8259.acknowledge_of_none hslave]
  refine ⟨?_, requests_eq rfl rfl (fun i hi hi2 => ?_) fun i => ?_, hw.same ⟨_, _, _, _, rfl⟩, rfl, hs⟩
  · rw [Pic8259.vector, hs2]
    exact vector_slave 7 (by decide)
  · dsimp only [heard]
    rw [Function.update_of_ne hi2, Function.update_of_ne hi2, pending_master hi hi2]
  · rw [pending_slave]

theorem lt_of_asks {p : Pic8259} (h : p.asks = some n) : n < 8 := List.mem_range.mp (List.mem_of_find?_eq_some h)

/-- Nothing in service, the chips answer with the line that has priority. -/
theorem answered (hw : c.Wired) (hm : c.master.Idle) (hs : c.slave.Idle) (stale : Bool) :
    Answered c (c.acknowledge stale).2 (c.acknowledge stale).1 (c.requests.next stale)
    (c.requests.serve stale).2 := by
  have hasks := asks_master hm (stale || c.slave.asks.isSome)
  have hslave := asks_slave hs
  unfold Requests.serve Requests.next
  cases h01 : [0, 1].find? c.requests.ready with
  | some n =>
    rw [h01, Option.some_or] at hasks
    have hn : n = 0 ∨ n = 1 := by simpa using List.mem_of_find?_eq_some h01
    exact answered_master hw hm hs (by omega) (by omega) hasks
  | none =>
    rw [h01, Option.none_or] at hasks
    rw [hslave]
    cases hmask : c.master.masked 2 with
    | true =>
      have hmask' : c.requests.masked 2 = true := hmask
      rw [hmask, Bool.not_true, Bool.and_false, if_neg Bool.false_ne_true, Option.none_or] at hasks
      rw [if_pos rfl, hmask', Bool.not_true, Bool.and_false]
      cases h37 : [3, 4, 5, 6, 7].find? c.requests.ready with
      | some n =>
        have hn : n = 3 ∨ n = 4 ∨ n = 5 ∨ n = 6 ∨ n = 7 := by simpa using List.mem_of_find?_eq_some h37
        exact answered_master hw hm hs (by omega) (by omega) (hasks.trans h37)
      | none => exact answered_spurious hw hm hs (hasks.trans h37)
    | false =>
      have hmask' : c.requests.masked 2 = false := hmask
      rw [hmask, Bool.not_false, Bool.and_true] at hasks
      rw [if_neg Bool.false_ne_true, hmask', Bool.not_false, Bool.and_true]
      cases hj : c.slave.asks with
      | some j =>
        rw [hj, Option.isSome_some, Bool.or_true, if_pos rfl, Option.some_or] at hasks
        refine answered_slave hw hm hs (lt_of_asks hj) ?_ hj
        rw [hj, Option.isSome_some, Bool.or_true]
        exact hasks
      | none =>
        rw [hj, Option.isSome_none, Bool.or_false] at hasks
        cases stale with
        | true => exact answered_gone hw hm hs (by rw [hj]; exact hasks) hj
        | false =>
          rw [if_neg Bool.false_ne_true, Option.none_or] at hasks
          cases h37 : [3, 4, 5, 6, 7].find? c.requests.ready with
          | some n =>
            have hn : n = 3 ∨ n = 4 ∨ n = 5 ∨ n = 6 ∨ n = 7 := by simpa using List.mem_of_find?_eq_some h37
            exact answered_master hw hm hs (by omega) (by omega) (by rw [hj]; exact hasks.trans h37)
          | none => exact answered_spurious hw hm hs (by rw [hj]; exact hasks.trans h37)

end Cascade

end Lib
