import Mathlib.Logic.Basic

/-!
# Computations with a trace

A value together with the list of what was touched on the way to it, first touch first.
Sequencing appends the traces, so a bound on every part is a bound on the whole.
-/

namespace Lib

universe u v

structure Traced (ι : Type u) (α : Type v) where
  val : α
  trace : List ι

namespace Traced

variable {ι : Type u} {α β : Type v} {P : ι → Prop} {x : Traced ι α} {f : α → Traced ι β}

instance : Monad (Traced ι) where
  pure a := ⟨a, []⟩
  bind x f := ⟨(f x.val).val, x.trace ++ (f x.val).trace⟩

@[simp] theorem trace_pure (a : α) : (pure a : Traced ι α).trace = [] := rfl

@[simp] theorem trace_bind : (x >>= f).trace = x.trace ++ (f x.val).trace := rfl

def Within (P : ι → Prop) (x : Traced ι α) : Prop := ∀ i ∈ x.trace, P i

theorem Within.pure (a : α) : Within P (Pure.pure a : Traced ι α) := by
  simp [Within]

theorem Within.bind (h : x.Within P) (h' : (f x.val).Within P) : Within P (x >>= f) := by
  intro i hi
  rw [trace_bind, List.mem_append] at hi
  cases hi with
  | inl hi => exact h i hi
  | inr hi => exact h' i hi

/-! ## Order -/

/-- Every event is in order after those before it, the ones of `past` included. -/
def Clean (ok : List ι → ι → Prop) : List ι → List ι → Prop
  | _, [] => True
  | past, i :: trace => ok past i ∧ Clean ok (past ++ [i]) trace

variable {ok : List ι → ι → Prop}

theorem clean_append :
    ∀ {past xs ys : List ι}, Clean ok past (xs ++ ys) ↔ Clean ok past xs ∧ Clean ok (past ++ xs) ys
  | past, [], ys => by simp [Clean]
  | past, x :: xs, ys => by
    rw [List.cons_append, Clean, Clean, clean_append, List.append_assoc, List.singleton_append, and_assoc]

theorem Clean.of_forall : ∀ {past trace : List ι}, (∀ i ∈ trace, ∀ past, ok past i) → Clean ok past trace
  | _, [], _ => trivial
  | past, _ :: _, h => ⟨h _ (List.mem_cons_self ..) past, .of_forall fun i hi => h i (List.mem_cons_of_mem _ hi)⟩

theorem clean_iff_forall {P : ι → Prop} : ∀ {past trace : List ι}, Clean (fun _ => P) past trace ↔ ∀ i ∈ trace, P i
  | _, [] => by simp [Clean]
  | past, x :: xs => by rw [Clean, clean_iff_forall, List.forall_mem_cons]

/-- After `past` the computation returns `r`, and all its events are in order. -/
structure Returns (ok : List ι → ι → Prop) (past : List ι) (x : Traced ι α) (r : α) : Prop where
  val : x.val = r
  clean : Clean ok past x.trace

variable {past : List ι} {r : α} {r' : β}

theorem Returns.pure (r : α) : Returns ok past (Pure.pure r) r := ⟨rfl, trivial⟩

theorem Returns.event {i : ι} (h : ok past i) : Returns ok past ⟨r, [i]⟩ r := ⟨rfl, h, trivial⟩

theorem Returns.bind (h : Returns ok past x r) (h' : Returns ok (past ++ x.trace) (f r) r') :
    Returns ok past (x >>= f) r' := by
  obtain ⟨rfl, hx⟩ := h
  exact ⟨h'.val, clean_append.mpr ⟨hx, h'.clean⟩⟩

theorem mem_bind_left {i : ι} (h : i ∈ x.trace) : i ∈ (x >>= f).trace := List.mem_append_left _ h

theorem Returns.mem_bind {i : ι} (h : Returns ok past x r) (hi : i ∈ (f r).trace) : i ∈ (x >>= f).trace := by
  rw [← h.val] at hi
  exact List.mem_append_right _ hi

/-! ## Loops -/

/-- Every event meets `P` and the value `Q`. -/
structure Yields (P : ι → Prop) (Q : α → Prop) (x : Traced ι α) : Prop where
  within : x.Within P
  val : Q x.val

variable {Q : α → Prop} {Q' : β → Prop} {a : α}

theorem Yields.pure (h : Q a) : Yields P Q (Pure.pure a) := ⟨.pure a, h⟩

theorem Yields.event {i : ι} (hi : P i) (h : Q a) : Yields P Q ⟨a, [i]⟩ :=
  ⟨fun _ hj => List.mem_singleton.mp hj ▸ hi, h⟩

theorem Yields.bind (h : Yields P Q x) (h' : ∀ a, Q a → Yields P Q' (f a)) : Yields P Q' (x >>= f) :=
  ⟨.bind h.within (h' _ h.val).within, (h' _ h.val).val⟩

theorem Yields.mono {R : α → Prop} (h : Yields P Q x) (himp : ∀ a, Q a → R a) : Yields P R x :=
  ⟨h.within, himp _ h.val⟩

/-- `body 0`, `body 1` and so on, `n` rounds of them. -/
def forRange (body : Nat → α → Traced ι α) : Nat → α → Traced ι α
  | 0, a => Pure.pure a
  | n + 1, a => forRange body n a >>= body n

theorem yields_forRange {body : Nat → α → Traced ι α} {I : Nat → α → Prop} {n : Nat} (h0 : I 0 a)
    (hstep : ∀ i < n, ∀ a, I i a → Yields P (I (i + 1)) (body i a)) : Yields P (I n) (forRange body n a) := by
  induction n with
  | zero => exact .pure h0
  | succ n ih => exact (ih fun i hi => hstep i (Nat.lt_succ_of_lt hi)).bind (hstep n (Nat.lt_succ_self n))

/-- A fold over `l` and a pure one that it follows. -/
theorem yields_foldlM {κ τ : Type*} {body : α → κ → Traced ι α} {step : τ → κ → τ} {R : τ → α → Prop}
    (hstep : ∀ t a k, R t a → Yields P (R (step t k)) (body a k)) :
    ∀ (l : List κ) {t : τ} {a : α}, R t a → Yields P (R (l.foldl step t)) (l.foldlM body a)
  | [], _, _, h => .pure h
  | k :: l, t, a, h => by
    rw [List.foldlM_cons]
    exact (hstep t a k h).bind fun _ h' => yields_foldlM hstep l h'

end Traced

end Lib
