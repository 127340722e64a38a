import Mathlib.Data.List.Perm.Basic
import Mathlib.Data.List.Rotate
import Mathlib.Logic.Function.Iterate

/-!
# Round robin

One member has the processor, the others wait in line. Nobody enters or leaves but
by `add`: the other operations permute the members.
-/

namespace Lib

variable {α : Type*}

structure RoundRobin (α : Type*) where
  current : Option α
  ready : List α

namespace RoundRobin

def empty : RoundRobin α := ⟨none, []⟩

def members (r : RoundRobin α) : List α := r.current.toList ++ r.ready

def add (r : RoundRobin α) (a : α) : RoundRobin α := { r with ready := r.ready ++ [a] }

/-- The first in line gets a free processor. -/
def dispatch (r : RoundRobin α) : RoundRobin α :=
  match r.current, r.ready with
  | none, a :: l => ⟨some a, l⟩
  | _, _ => r

/-- The first in line gets the processor, and who had it goes to the end. -/
def rotate (r : RoundRobin α) : RoundRobin α :=
  match r.ready with
  | [] => r
  | a :: l => ⟨some a, l ++ r.current.toList⟩

variable {r : RoundRobin α} {a c : α} {l : List α}

@[simp] theorem members_empty : (empty : RoundRobin α).members = [] := rfl

theorem members_add : (r.add a).members = r.members ++ [a] := (List.append_assoc ..).symm

theorem members_dispatch : r.dispatch.members = r.members := by
  unfold dispatch
  split
  · next h1 h2 => simp [members, h1, h2]
  · rfl

theorem members_rotate : r.rotate.members.Perm r.members := by
  unfold rotate
  split
  · exact List.Perm.refl _
  · next a l h =>
    rw [members, members, h, Option.toList_some, List.singleton_append, ← List.cons_append]
    exact List.perm_append_comm

theorem rotate_eq_dispatch (h : r.current = none) : r.rotate = r.dispatch := by
  unfold rotate dispatch
  rw [h]
  cases h' : r.ready with
  | nil => rfl
  | cons a l => simp

/-! ## Turns -/

theorem members_rotate_of_current (h : r.current = some c) : r.rotate.members = r.members.rotate 1 := by
  unfold rotate
  cases h' : r.ready with
  | nil => simp [members, h, h']
  | cons a l => simp [members, h, h']

theorem current_rotate (h : r.current = some c) : ∃ a, r.rotate.current = some a := by
  unfold rotate
  cases h' : r.ready with
  | nil => exact ⟨c, h⟩
  | cons a l => exact ⟨a, rfl⟩

theorem members_iterate (h : r.current = some c) (k : Nat) :
    (∃ a, (rotate^[k] r).current = some a) ∧ (rotate^[k] r).members = r.members.rotate k := by
  induction k with
  | zero => exact ⟨⟨c, h⟩, (List.rotate_zero _).symm⟩
  | succ k ih =>
    obtain ⟨⟨a, ha⟩, hm⟩ := ih
    rw [Function.iterate_succ_apply']
    exact ⟨current_rotate ha, by rw [members_rotate_of_current ha, hm, List.rotate_rotate]⟩

theorem turn {L : List α} (hL : L.Nodup) (ha : a ∈ L) (k : Nat) :
    ∃! i, i < L.length ∧ (L.rotate (k + i)).head? = some a := by
  have hM : (L.rotate k).Nodup := List.nodup_rotate.mpr hL
  have hmem : a ∈ L.rotate k := List.mem_rotate.mpr ha
  simp only [← List.rotate_rotate]
  rw [← List.length_rotate L k]
  generalize L.rotate k = M at hM hmem
  have hhead : ∀ {i}, i < M.length → (M.rotate i).head? = M[i]? := fun hi => List.head?_rotate hi
  obtain ⟨i, hi, rfl⟩ := List.getElem_of_mem hmem
  refine ⟨i, ⟨hi, by rw [hhead hi, List.getElem?_eq_getElem hi]⟩, fun j hj => ?_⟩
  obtain ⟨hj, he⟩ := hj
  rw [hhead hj, List.getElem?_eq_getElem hj] at he
  exact (hM.getElem_inj_iff).mp (Option.some.inj he)

end RoundRobin

end Lib
