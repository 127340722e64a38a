import Mathlib.Data.List.Nodup

/-!
# Intrusive lists

Nodes of a type `α` link to one another by a `next` field. `Seg next p l q`
says that from the pointer `p` the links visit exactly `l` and arrive at `q`; a
whole list arrives at `none`.
-/

namespace Lib

variable {α : Type*}

def Seg (next : α → Option α) : Option α → List α → Option α → Prop
  | p, [], q => p = q
  | p, a :: l, q => p = some a ∧ Seg next (next a) l q

namespace Seg

variable {next next' : α → Option α} {p q r : Option α} {a b : α} {l l' : List α}

@[simp] theorem nil_iff : Seg next p [] q ↔ p = q := Iff.rfl

@[simp] theorem cons_iff : Seg next p (a :: l) q ↔ p = some a ∧ Seg next (next a) l q := Iff.rfl

theorem append_iff : Seg next p (l ++ l') r ↔ ∃ q, Seg next p l q ∧ Seg next q l' r := by
  induction l generalizing p with
  | nil => simp
  | cons a l ih => simp only [List.cons_append, cons_iff, ih]; tauto

theorem snoc_iff : Seg next p (l ++ [a]) q ↔ Seg next p l (some a) ∧ next a = q := by
  rw [append_iff]
  constructor
  · rintro ⟨r, h1, rfl, h2⟩; exact ⟨h1, h2⟩
  · rintro ⟨h1, h2⟩; exact ⟨some a, h1, rfl, h2⟩

theorem congr (h : ∀ a ∈ l, next' a = next a) (hs : Seg next p l q) : Seg next' p l q := by
  induction l generalizing p with
  | nil => exact hs
  | cons a l ih =>
    refine ⟨hs.1, ?_⟩
    rw [h a (List.mem_cons_self ..)]
    exact ih (fun b hb => h b (List.mem_cons_of_mem _ hb)) hs.2

theorem end_unique {q' : Option α} (h : Seg next p l q) (h' : Seg next p l q') : q = q' := by
  induction l generalizing p with
  | nil => exact h.symm.trans h'
  | cons a l ih => exact ih h.2 h'.2

theorem unique : ∀ {l l' : List α} {p : Option α}, Seg next p l none → Seg next p l' none → l = l'
  | [], [], _, _, _ => rfl
  | [], _ :: _, _, h, h' => by rw [h] at h'; cases h'.1
  | _ :: _, [], _, h, h' => by rw [h'] at h; cases h.1
  | a :: l, b :: l', p, h, h' => by
    have hab : a = b := Option.some.inj (h.1.symm.trans h'.1)
    subst hab
    rw [unique h.2 h'.2]

theorem start_unique {p' : Option α} (h : Seg next p l q) (h' : Seg next' p' l q) : p = p' := by
  cases l with
  | nil => exact h.trans h'.symm
  | cons a l => exact h.1.trans h'.1.symm

theorem next_eq {p' : Option α} (h : Seg next p l q) (h' : Seg next' p' l q) (ha : a ∈ l) : next a = next' a := by
  induction l generalizing p p' with
  | nil => cases ha
  | cons b l ih =>
    rcases List.mem_cons.mp ha with rfl | ha
    · exact h.2.start_unique h'.2
    · exact ih h.2 h'.2 ha

theorem nodup : ∀ {l : List α} {p : Option α}, Seg next p l none → l.Nodup
  | [], _, _ => List.nodup_nil
  | a :: l, p, h => by
    refine List.nodup_cons.mpr ⟨fun ha => ?_, nodup h.2⟩
    -- the tail from a second visit of `a` would be the whole list again
    obtain ⟨l₁, l₂, rfl⟩ := List.append_of_mem ha
    obtain ⟨q, _, hq, h2⟩ := append_iff.mp h.2
    have := congrArg List.length (unique h.2 h2)
    simp at this
    omega

theorem mem_of_seg : ∀ {l l' : List α} {p : Option α}, Seg next p l (some a) → Seg next p l' none → a ∈ l'
  | [], [], _, h, h' => by rw [show _ = some a from h] at h'; cases h'
  | [], b :: l', p, h, h' => by
    have hab : b = a := Option.some.inj (h'.1.symm.trans h)
    exact hab ▸ List.mem_cons_self ..
  | b :: l, [], p, h, h' => by rw [h.1] at h'; cases h'
  | b :: l, c :: l', p, h, h' => by
    have hbc : b = c := Option.some.inj (h.1.symm.trans h'.1)
    subst hbc
    exact List.mem_cons_of_mem _ (mem_of_seg h.2 h'.2)

theorem eq_none_iff (h : Seg next p l none) : p = none ↔ l = [] := by
  cases l with
  | nil => simp at h; simp [h]
  | cons a l => rw [h.1]; simp

end Seg

end Lib
