import Mathlib.Logic.Basic

/-!
# Runs of a labelled transition system

A run lists the labels of its steps, first step first. A property that every
step preserves holds at the end of a run that starts in it; the guarded form
lets a step assume that the state before it meets a condition.
-/

namespace Lib

variable {σ ι : Type*}

inductive Run (step : σ → ι → σ → Prop) (s : σ) : List ι → σ → Prop
  | nil : Run step s [] s
  | snoc {t u : σ} {l : List ι} {i : ι} : Run step s l t → step t i u → Run step s (l ++ [i]) u

namespace Run

variable {step step' : σ → ι → σ → Prop} {s t u : σ} {l : List ι} {i : ι}

theorem single (h : step s i t) : Run step s [i] t := Run.snoc Run.nil h

theorem eq_of_nil (h : Run step s [] t) : t = s := by
  generalize hl : ([] : List ι) = l at h
  cases h with
  | nil => rfl
  | snoc _ _ => simp at hl

theorem uncons (h : Run step s (i :: l) u) : ∃ t, step s i t ∧ Run step t l u := by
  generalize hl : i :: l = l' at h
  induction h generalizing l with
  | nil => cases hl
  | @snoc t u l' j h hs ih =>
    cases l' with
    | nil =>
      obtain ⟨rfl, rfl⟩ := List.cons.inj hl
      obtain rfl := h.eq_of_nil
      exact ⟨u, hs, nil⟩
    | cons i' l' =>
      obtain ⟨rfl, rfl⟩ := List.cons.inj hl
      obtain ⟨t', h1, h2⟩ := ih rfl
      exact ⟨t', h1, h2.snoc hs⟩

theorem invariant {I : σ → Prop} (hstep : ∀ s i t, I s → step s i t → I t) (h : Run step s l t)
    (h0 : I s) : I t := by
  induction h with
  | nil => exact h0
  | snoc _ hs ih => exact hstep _ _ _ ih hs

theorem mono (hsub : ∀ s i t, step s i t → step' s i t) (h : Run step s l t) : Run step' s l t := by
  induction h with
  | nil => exact Run.nil
  | snoc _ hs ih => exact Run.snoc ih (hsub _ _ _ hs)

end Run

/-! ## Machines that answer -/

section
variable {τ ω : Type*}

def outputs (step : σ → ι → ω × σ) : σ → List ι → List ω
  | _, [] => []
  | s, i :: l => (step s i).1 :: outputs step (step s i).2 l

def final (step : σ → ι → ω × σ) : σ → List ι → σ
  | s, [] => s
  | s, i :: l => final step (step s i).2 l

variable {step : σ → ι → ω × σ} {step' : τ → ι → ω × τ} {R : σ → τ → Prop}

/-- Machines that give equal answers from related states, and stay related, cannot be told apart. -/
theorem outputs_eq_of_simulation (hstep : ∀ s t i, R s t → (step s i).1 = (step' t i).1 ∧
      R (step s i).2 (step' t i).2) :
    ∀ (l : List ι) {s : σ} {t : τ}, R s t → outputs step s l = outputs step' t l ∧ R (final step s l)
    (final step' t l)
  | [], _, _, h => ⟨rfl, h⟩
  | i :: l, s, t, h => by
    obtain ⟨heq, hnext⟩ := hstep s t i h
    obtain ⟨hout, hfinal⟩ := outputs_eq_of_simulation hstep l hnext
    exact ⟨by rw [outputs, outputs, heq, hout], hfinal⟩

end

/-! ## What one party sees -/

section
variable {τ κ : Type*} {f : σ → ι → σ} {v : σ → τ} {m : ι → Option κ} {a : τ → κ → τ}

/-- A party's view `v` of a run is its own part of the run, if the others leave what it sees alone. -/
theorem view_foldl : ∀ {l : List ι} {s : σ}, (∀ i ∈ l, ∀ k, m i = some k → ∀ s, v (f s i) = a (v s) k) →
    (∀ i ∈ l, m i = none → ∀ s, v (f s i) = v s) → v (l.foldl f s) = (l.filterMap m).foldl a (v s)
  | [], _, _, _ => rfl
  | i :: l, s, hmine, hother => by
    have ih := view_foldl (l := l) (s := f s i) (fun j hj => hmine j (List.mem_cons_of_mem _ hj))
      fun j hj => hother j (List.mem_cons_of_mem _ hj)
    rw [List.foldl_cons, ih]
    cases hi : m i with
    | none => rw [List.filterMap_cons_none hi, hother i (List.mem_cons_self ..) hi]
    | some k => rw [List.filterMap_cons_some hi, List.foldl_cons, hmine i (List.mem_cons_self ..) k hi]

end

end Lib
