import Mathlib.Data.List.Nodup

/-!
# Bounded write-once maps

A finite map to which each key is added at most once and from which none is
removed, as the list of its entries in the order they were added.
-/

namespace Lib

structure WriteOnce (κ β : Type*) (bound : Nat) where
  entries : List (κ × β)
  nodup : (entries.map Prod.fst).Nodup
  length_le : entries.length ≤ bound

namespace WriteOnce

variable {κ β : Type*} {bound : Nat}

def empty : WriteOnce κ β bound := ⟨[], List.nodup_nil, Nat.zero_le _⟩

def keys (m : WriteOnce κ β bound) : List κ := m.entries.map Prod.fst

section
variable {m : WriteOnce κ β bound} {k : κ} {b b' : β}

theorem eq_of_mem (h : (k, b) ∈ m.entries) (h' : (k, b') ∈ m.entries) : b = b' := by
  have := List.inj_on_of_nodup_map m.nodup h h' rfl
  exact (Prod.mk.inj this).2

theorem mem_keys : k ∈ m.keys ↔ ∃ b, (k, b) ∈ m.entries := by
  simp [keys]

theorem key_ne {i j : Nat} (hi : i < m.entries.length) (hj : j < m.entries.length) (hne : i ≠ j) :
    m.entries[i].1 ≠ m.entries[j].1 := by
  have hp := List.pairwise_map.mp m.nodup
  rcases Nat.lt_or_gt_of_ne hne with hlt | hgt
  · exact List.pairwise_iff_getElem.mp hp i j hi hj hlt
  · exact (List.pairwise_iff_getElem.mp hp j i hj hi hgt).symm

theorem nodup_add (b : β) (h : k ∉ m.keys) : ((m.entries ++ [(k, b)]).map Prod.fst).Nodup := by
  rw [List.map_append, List.map_singleton, List.nodup_append]
  refine ⟨m.nodup, List.nodup_singleton _, fun a ha a' ha' he => h ?_⟩
  obtain rfl := List.mem_singleton.mp ha'
  exact he ▸ ha

end

section
variable [DecidableEq κ]

/-- `none` where the key is there already or the map is full. -/
def add (m : WriteOnce κ β bound) (k : κ) (b : β) : Option (WriteOnce κ β bound) :=
  if h : k ∉ m.keys ∧ m.entries.length < bound then
    some ⟨m.entries ++ [(k, b)], nodup_add b h.1, by rw [List.length_append]; exact h.2⟩
  else none

def get (m : WriteOnce κ β bound) (k : κ) : Option β := (m.entries.find? fun e => e.1 = k).map Prod.snd

variable {m m' : WriteOnce κ β bound} {k : κ} {b : β}

theorem add_isSome : (m.add k b).isSome ↔ k ∉ m.keys ∧ m.entries.length < bound := by
  unfold add
  split
  · next h => simpa using h
  · next h => simpa using h

theorem add_eq_none : m.add k b = none ↔ k ∈ m.keys ∨ bound ≤ m.entries.length := by
  rw [← Option.not_isSome_iff_eq_none, add_isSome, not_and_or, not_not, Nat.not_lt]

theorem add_entries (h : m.add k b = some m') : m'.entries = m.entries ++ [(k, b)] := by
  unfold add at h
  split at h
  · rw [← Option.some.inj h]
  · cases h

theorem get_eq_some : m.get k = some b ↔ (k, b) ∈ m.entries := by
  unfold get
  rw [Option.map_eq_some_iff]
  constructor
  · rintro ⟨⟨k', b'⟩, hfind, rfl⟩
    have hk : k' = k := by simpa using List.find?_some hfind
    rw [← hk]
    exact List.mem_of_find?_eq_some hfind
  · intro hmem
    cases hfind : m.entries.find? fun e => e.1 = k with
    | none =>
      have hno := List.find?_eq_none.mp hfind _ hmem
      simp at hno
    | some e =>
      have hk : e.1 = k := by simpa using List.find?_some hfind
      have he : (k, e.2) ∈ m.entries := hk ▸ List.mem_of_find?_eq_some hfind
      exact ⟨e, rfl, eq_of_mem he hmem⟩

end

end WriteOnce

end Lib
