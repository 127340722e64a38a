import KernelOs.PrintkNumbers

/-!
# Format strings

`printk` reads its format string up to the NUL. It goes on behind the NUL after a '%' that is
the last character.
-/

namespace KernelOs
open Lib

/-- Read from the left, the last character is a '%' that starts a conversion. -/
def dangling : List UInt8 → Bool
  | [] => false
  | [character] => character = '%'.toUInt8
  | character :: next :: s => if character = '%'.toUInt8 then dangling s else dangling (next :: s)

/-- Nothing behind the NUL is read, and the NUL is not printed. -/
def PrintEvent.Inside (nul : Nat) : PrintEvent → Prop
  | .read index => index ≤ nul
  | .copy index => index < nul
  | _ => True

/-- A loop stops at the NUL, after at most `rounds` rounds and the one that finds it, and has stayed inside. -/
structure StaysInside (loop : Nat → PrintTrace (Option (Nat × Console))) (rounds nul : Nat) : Prop where
  stops : ∃ c, ∀ n, rounds < n → (loop n).val = some (nul, c)
  inside : ∀ n, (loop n).Within (PrintEvent.Inside nul)

/-! ## One conversion -/

/-- Of the format string at most the character at `index` is used. -/
def PrintEvent.At (index : Nat) : PrintEvent → Prop
  | .read i | .copy i => i = index
  | _ => True

section
variable {format : Nat → UInt8} {arguments : Arguments} {garbage : Nat → UInt8} {index arg : Nat} {c : Console}
  {character : UInt8}

open Traced

theorem yields_put : Yields (PrintEvent.At index) (fun _ => True) (putChar c character) := by
  refine ⟨fun e he => ?_, trivial⟩
  have := within_putChar 0 c character e he
  cases e with
  | read i => exact this.elim
  | copy i => exact this.elim
  | _ => trivial

theorem yields_copy : Yields (PrintEvent.At index) (fun _ => True) (copyChar format c index) := by
  refine ⟨fun e he => ?_, trivial⟩
  rcases List.mem_cons.mp he with rfl | he
  · exact rfl
  · obtain ⟨e', -, rfl⟩ := List.mem_map.mp he
    trivial

theorem yields_writeUnsigned {base : UInt32} (hb : 1 < base.toNat) (value : UInt64) :
    Yields (PrintEvent.At index) (fun r => r.isSome) (writeUnsigned garbage c value base) := by
  obtain ⟨⟨c', h1⟩, -, h3⟩ := writeUnsigned_spec hb (fun _ => 0) garbage c value
  refine ⟨fun e he => ?_, by rw [h1]; rfl⟩
  have := h3 e he
  cases e with
  | read i => exact this.elim
  | copy i => exact this.elim
  | _ => trivial

theorem yields_writeString :
    ∀ (string : List UInt8) (c : Console), Yields (PrintEvent.At index) (fun _ => True) (writeString c string)
  | [], _ => .pure trivial
  | character :: string, c => by
    rw [writeString, List.foldlM_cons]
    exact yields_put.bind fun c' _ => yields_writeString string c'

theorem yields_conversion (format : Nat → UInt8) (arguments : Arguments) (garbage : Nat → UInt8)
    (index arg : Nat) (c : Console) :
    Yields (PrintEvent.At index) (fun r => r.isSome) (conversion format arguments garbage index arg c) := by
  unfold conversion
  refine .bind (Q := fun _ => True) (.event rfl trivial) fun character _ => ?_
  split
  · exact yields_put.bind fun _ _ => .pure rfl
  split
  · exact yields_put.bind fun _ _ => .pure rfl
  split
  · exact (yields_writeString _ _).bind fun _ _ => .pure rfl
  split
  · dsimp only
    split
    · exact yields_put.bind fun _ _ => (yields_writeUnsigned (by decide) _).bind fun _ h => .pure (by simpa using h)
    · exact (yields_writeUnsigned (by decide) _).bind fun _ h => .pure (by simpa using h)
  split
  · exact (yields_writeUnsigned (by decide) _).bind fun _ h => .pure (by simpa using h)
  split
  · exact (yields_writeUnsigned (by decide) _).bind fun _ h => .pure (by simpa using h)
  · exact yields_put.bind fun _ _ => yields_copy.bind fun _ _ => .pure rfl

/-- In place of a conversion the NUL is printed. -/
theorem conversion_nul (h : format index = 0) :
    .copy index ∈ (conversion format arguments garbage index arg c).trace := by
  have he : (conversion format arguments garbage index arg c).trace =
      .read index ::
      ((putChar c '%'.toUInt8).trace ++ (copyChar format (putChar c '%'.toUInt8).val index).trace) := by
    simp only [conversion, readFormat, bind, pure, h, show ¬ 0 = '%'.toUInt8 by decide,
      show ¬ 0 = 'c'.toUInt8 by
        decide, show ¬ 0 = 's'.toUInt8 by
          decide, show ¬ 0 = 'd'.toUInt8 by
            decide, show ¬ 0 = 'u'.toUInt8 by decide, show ¬ 0 = 'x'.toUInt8 by decide,
      if_false, List.append_nil, List.singleton_append]
  rw [he]
  exact List.mem_cons_of_mem _ (List.mem_append_right _ (List.mem_cons_self ..))

/-! ## The loop -/

theorem printkLoop_nul (h : format index = 0) (n : Nat) :
    printkLoop format arguments garbage (n + 1) index arg c = ⟨some (index, c), [.read index]⟩ := by
  simp only [printkLoop, readFormat, bind, pure, h, if_true, List.append_nil]

theorem printkLoop_copy (h0 : format index ≠ 0) (h : format index ≠ '%'.toUInt8) (n : Nat) :
    printkLoop format arguments garbage (n + 1) index arg c =
      let rest := printkLoop format arguments garbage n (index + 1) arg (copyChar format c index).val
      ⟨rest.val, .read index :: (copyChar format c index).trace ++ rest.trace⟩ := by
  simp only [printkLoop, readFormat, bind, h0, h, if_false, if_true, ne_eq, not_false_eq_true, List.cons_append,
    List.nil_append]

theorem printkLoop_conversion (h : format index = '%'.toUInt8) {arg' : Nat} {c' : Console}
    (hc : (conversion format arguments garbage (index + 1) arg c).val = some (arg', c')) (n : Nat) :
    printkLoop format arguments garbage (n + 1) index arg c =
      let rest := printkLoop format arguments garbage n (index + 1 + 1) arg' c'
      ⟨rest.val, .read index :: (conversion format arguments garbage (index + 1) arg c).trace ++ rest.trace⟩ := by
  simp only [printkLoop, readFormat, bind, h, show ¬ '%'.toUInt8 = 0 by decide, hc, if_false, ne_eq,
    not_true_eq_false, List.cons_append, List.nil_append]

theorem PrintEvent.At.inside {e : PrintEvent} {nul : Nat} (h : e.At index) (hlt : index < nul) : e.Inside nul := by
  cases e with
  | read i => exact Nat.le_of_lt (show i < nul from (show i = index from h) ▸ hlt)
  | copy i => exact (show i = index from h) ▸ hlt
  | _ => trivial

/-- One round, with the events `first`. -/
theorem StaysInside.round {loop rest : Nat → PrintTrace (Option (Nat × Console))} {first : List PrintEvent}
    {rounds rounds' nul : Nat} (h : StaysInside rest rounds nul) (hzero : (loop 0).trace = [])
    (hsucc : ∀ n, loop (n + 1) = ⟨(rest n).val, first ++ (rest n).trace⟩) (hfirst : ∀ e ∈ first, e.Inside nul)
    (hlt : rounds < rounds') : StaysInside loop rounds' nul := by
  obtain ⟨⟨c, hval⟩, hrest⟩ := h
  refine ⟨⟨c, fun n hn => ?_⟩, fun n e he => ?_⟩
  · obtain ⟨n, rfl⟩ := Nat.exists_eq_succ_of_ne_zero (Nat.ne_zero_of_lt hn)
    rw [hsucc]
    exact hval n (Nat.lt_of_lt_of_le hlt (Nat.le_of_lt_succ hn))
  · cases n with
    | zero =>
      rw [hzero] at he
      cases he
    | succ n =>
      rw [hsucc] at he
      rcases List.mem_append.mp he with he | he
      · exact hfirst e he
      · exact hrest n e he

theorem dangling_tail {s : List UInt8} (h : character ≠ '%'.toUInt8) : dangling (character :: s) = dangling s := by
  cases s with
  | nil => simpa [dangling] using h
  | cons next s => rw [dangling, if_neg h]

theorem printkLoop_inside (arguments : Arguments) (garbage : Nat → UInt8) :
    ∀ (s : List UInt8) (index arg : Nat) (c : Console), HoldsString format index s → 0 ∉ s → dangling s = false →
    StaysInside (fun n => printkLoop format arguments garbage n index arg c) s.length (index + s.length)
  | [], index, arg, c, hs, _, _ => by
    refine ⟨⟨c, fun n hn => ?_⟩, fun n e he => ?_⟩
    · obtain ⟨n, rfl⟩ := Nat.exists_eq_succ_of_ne_zero (Nat.ne_zero_of_lt hn)
      rw [printkLoop_nul hs]
      rfl
    · cases n with
      | zero => cases he
      | succ n =>
        rw [printkLoop_nul hs] at he
        rw [List.mem_singleton.mp he]
        exact Nat.le_refl _
  | character :: s, index, arg, c, ⟨hcharacter, hs⟩, h0, hd => by
    have hne : format index ≠ 0 := fun hz => h0 (by rw [← hz, hcharacter]; exact List.mem_cons_self ..)
    have h0' : 0 ∉ s := fun hmem => h0 (List.mem_cons_of_mem _ hmem)
    have hread : PrintEvent.Inside (index + (character :: s).length) (.read index) := Nat.le_add_right _ _
    by_cases hpercent : character = '%'.toUInt8
    · match s, hs, h0', hd with
      | [], _, _, hd => simp [dangling, hpercent] at hd
      | next :: s, ⟨_, hs⟩, h0', hd =>
        rw [dangling, if_pos hpercent] at hd
        obtain ⟨hwithin, hsome⟩ := yields_conversion format arguments garbage (index + 1) arg c
        obtain ⟨⟨arg', c'⟩, hconv⟩ := Option.isSome_iff_exists.mp hsome
        have ih :=
          printkLoop_inside arguments garbage s (index + 1 + 1) arg' c' hs
            (fun hmem => h0' (List.mem_cons_of_mem _ hmem)) hd
        rw [show index + 1 + 1 + s.length =
          index + (character :: next :: s).length by simp only [List.length_cons]; omega] at ih
        refine ih.round rfl (printkLoop_conversion (hcharacter.trans hpercent) hconv) (fun e he => ?_)
          (by simp only [List.length_cons]; omega)
        rcases List.mem_cons.mp he with rfl | he
        · exact hread
        · exact (hwithin e he).inside (by simp only [List.length_cons]; omega)
    · have ih :=
        printkLoop_inside arguments garbage s (index + 1) arg (copyChar format c index).val hs h0'
          ((dangling_tail hpercent).symm.trans hd)
      rw [show index + 1 + s.length = index + (character :: s).length by simp only [List.length_cons]; omega] at ih
      refine ih.round rfl (printkLoop_copy hne (hcharacter ▸ hpercent)) (fun e he => ?_) (Nat.lt_succ_self _)
      rcases List.mem_cons.mp he with rfl | he
      · exact hread
      · exact (yields_copy.within e he).inside (by simp only [List.length_cons]; omega)

theorem printkLoop_dangling (arguments : Arguments) (garbage : Nat → UInt8) :
    ∀ (s : List UInt8) (n index arg : Nat) (c : Console), HoldsString format index s → 0 ∉ s → dangling s = true →
    s.length ≤ n → .copy (index + s.length) ∈ (printkLoop format arguments garbage n index arg c).trace
  | [], _, _, _, _, _, _, hd, _ => by cases hd
  | character :: s, n + 1, index, arg, c, ⟨hcharacter, hs⟩, h0, hd, hn => by
    have hne : format index ≠ 0 := fun hz => h0 (by rw [← hz, hcharacter]; exact List.mem_cons_self ..)
    have h0' : 0 ∉ s := fun hmem => h0 (List.mem_cons_of_mem _ hmem)
    by_cases hpercent : character = '%'.toUInt8
    · obtain ⟨-, hsome⟩ := yields_conversion format arguments garbage (index + 1) arg c
      obtain ⟨⟨arg', c'⟩, hconv⟩ := Option.isSome_iff_exists.mp hsome
      rw [printkLoop_conversion (hcharacter.trans hpercent) hconv]
      match s, hs, h0', hd, hn with
      | [], hs, _, _, _ => exact List.mem_append_left _ (List.mem_cons_of_mem _ (conversion_nul hs))
      | next :: s, ⟨_, hs⟩, h0', hd, hn =>
        rw [dangling, if_pos hpercent] at hd
        rw [List.length_cons, List.length_cons] at hn
        have ih :=
          printkLoop_dangling arguments garbage s n (index + 1 + 1) arg' c' hs
            (fun hmem => h0' (List.mem_cons_of_mem _ hmem)) hd (by omega)
        rw [show index + 1 + 1 + s.length =
          index + (character :: next :: s).length by simp only [List.length_cons]; omega] at ih
        exact List.mem_append_right _ ih
    · rw [printkLoop_copy hne (hcharacter ▸ hpercent)]
      have ih := printkLoop_dangling arguments garbage s n (index + 1) arg (copyChar format c index).val hs h0'
        ((dangling_tail hpercent).symm.trans hd) (Nat.le_of_succ_le_succ hn)
      rw [show index + 1 + s.length = index + (character :: s).length by simp only [List.length_cons]; omega] at ih
      exact List.mem_append_right _ ih

/-- **When `printk` stays within its format string**: if and only if the string does not end in a '%' that
starts a conversion. -/
theorem printk_inside_iff {s : CString} (h : HoldsString format 0 s.val) :
    StaysInside (fun n => printk format arguments garbage n c) s.val.length s.val.length ↔
      dangling s.val = false := by
  constructor
  · intro hinside
    by_contra hd
    have hcopy := printkLoop_dangling arguments garbage s.val s.val.length 0 0 c h s.property
      (by simpa using hd) (Nat.le_refl _)
    rw [Nat.zero_add] at hcopy
    exact Nat.lt_irrefl _ (hinside.inside _ _ hcopy)
  · intro hd
    have := printkLoop_inside arguments garbage s.val 0 0 c h s.property hd
    rwa [Nat.zero_add] at this

end

/-- A conversion with an argument, one that `printk` does not know, and a '%' that ends the string and
starts none. -/
theorem printk_inside_conversions :
    let string : List UInt8 := "%d%q%%".toList.map Char.toUInt8
    StaysInside (fun n => printk (fun i => string.getD i 0) ⟨fun _ => 0xFFFFFFD6,
      fun _ => ⟨[], by decide⟩⟩ (fun _ => 0) n
      ⟨fun _ => 0, 0, 0⟩) 6 6 := by
  intro string
  have h : HoldsString (fun i => string.getD i 0) 0 string := ⟨rfl, rfl, rfl, rfl, rfl, rfl, rfl⟩
  exact (printk_inside_iff (s := ⟨string, by decide⟩) h).mpr (by decide)

/-- A lone '%' is followed by its NUL on the console, and what lies behind the NUL is read. -/
theorem printk_percent_leaves :
    let format : Nat → UInt8 := fun i => if i = 0 then '%'.toUInt8 else if i = 1 then 0 else '!'.toUInt8
    let r := printk format ⟨fun _ => 0, fun _ => ⟨[], by decide⟩⟩ (fun _ => 0) 2 ⟨fun _ => 0, 0, 0⟩
    HoldsString format 0 ['%'.toUInt8] ∧ printed format r.trace = ['%'.toUInt8, 0, '!'.toUInt8] ∧
      .read 2 ∈ r.trace ∧
      ¬ StaysInside (fun n => printk format ⟨fun _ => 0, fun _ => ⟨[], by decide⟩⟩ (fun _ => 0) n ⟨fun _ => 0,
      0, 0⟩) 1 1 := by
  intro format r
  have hread : .read 2 ∈ r.trace := by decide +kernel
  exact ⟨⟨rfl, rfl⟩, by decide +kernel, hread, fun h => absurd (h.inside 2 _ hread) (show ¬ 2 ≤ 1 by decide)⟩

end KernelOs
