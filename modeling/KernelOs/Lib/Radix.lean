import Mathlib.Data.List.Basic

/-!
# Radix trees over a store of nodes

Nodes have slots; a slot is empty, holds a value, or points to another node. How
a slot is read may depend on its level, counted from 0 at the last index of a
path. Nothing says that the nodes form a tree: a labelling of the nodes, which
every link extends by its index, is what keeps paths apart. The rules say how
`lookup` changes when one slot is written.
-/

namespace Lib.Radix

variable {N I V L : Type*}

inductive Slot (N V : Type*) where
  | empty
  | leaf (v : V)
  | node (n : N)

/-- The value on the path `is` from `n`, with the indices left unread. -/
def lookup (slot : Nat → N → I → Slot N V) : N → List I → Option (V × List I)
  | _, [] => none
  | n, i :: is =>
    match slot is.length n i with
    | .empty => none
    | .leaf v => some (v, is)
    | .node n' => lookup slot n' is

/-- The node that the links on the path `is` lead to, the first slot read at level `r`. -/
def follow (slot : Nat → N → I → Slot N V) : Nat → N → List I → Option N
  | _, n, [] => some n
  | r, n, i :: is =>
    match slot r n i with
    | .node n' => follow slot (r - 1) n' is
    | _ => none

/-- The places read on the path `is` from `n`, the first one at level `r`. -/
def trail (slot : Nat → N → I → Slot N V) : Nat → N → List I → List (N × I)
  | _, _, [] => []
  | r, n, i :: is => (n, i) :: match slot r n i with
    | .node n' => trail slot (r - 1) n' is
    | _ => []

/-- `label` names nodes, and the node behind slot `i` of a node named `ℓ` is named `next ℓ i`.
The level at which a named node's slots are read is a function of its name. -/
structure Labelled (slot : Nat → N → I → Slot N V) (label : N → Option L) (next : L → I → L)
    (rank : L → Nat) : Prop where
  closed : ∀ {n ℓ i n'}, label n = some ℓ → slot (rank ℓ) n i = .node n' →
    label n' = some (next ℓ i) ∧ rank (next ℓ i) + 1 = rank ℓ

section
variable {slot slot' : Nat → N → I → Slot N V} {label : N → Option L} {next : L → I → L} {rank : L → Nat}

theorem lookup_cons (n : N) (i : I) (is : List I) : lookup slot n (i :: is) =
    match slot is.length n i with
    | .empty => none
    | .leaf v => some (v, is)
    | .node n' => lookup slot n' is := rfl

/-- A lookup depends on the places that it reads only. -/
theorem lookup_congr :
    ∀ {is : List I} {n : N}, (∀ x ∈ trail slot (is.length - 1) n is, ∀ r, slot' r x.1 x.2 = slot r x.1 x.2) →
    lookup slot' n is = lookup slot n is
  | [], _, _ => rfl
  | i :: is, n, h => by
    rw [List.length_cons, Nat.add_sub_cancel, trail] at h
    rw [lookup_cons, lookup_cons, h (n, i) (List.mem_cons_self ..)]
    cases hs : slot is.length n i with
    | empty => rfl
    | leaf v => rfl
    | node n' =>
      rw [hs] at h
      exact lookup_congr fun x hx => h x (List.mem_cons_of_mem _ hx)

theorem lookup_rest_length {v : V} {rest : List I} :
    ∀ {is : List I} {n : N}, lookup slot n is = some (v, rest) → rest.length < is.length
  | [], _, h => by cases h
  | i :: is, n, h => by
    rw [lookup_cons] at h
    rw [List.length_cons]
    cases hs : slot is.length n i with
    | empty => rw [hs] at h; cases h
    | leaf w =>
      rw [hs] at h
      obtain ⟨-, rfl⟩ := Prod.mk.inj (Option.some.inj h)
      exact Nat.lt_succ_self _
    | node n' =>
      rw [hs] at h
      exact Nat.lt_succ_of_lt (lookup_rest_length h)

/-- What holds of every leaf holds of what is found. -/
theorem lookup_leaf {P : V → Prop} (hleaf : ∀ {r n i v}, slot r n i = .leaf v → P v) {v : V} {rest : List I} :
    ∀ {is : List I} {n : N}, lookup slot n is = some (v, rest) → P v
  | [], _, h => by cases h
  | i :: is, n, h => by
    rw [lookup_cons] at h
    cases hs : slot is.length n i with
    | empty => rw [hs] at h; cases h
    | leaf w =>
      rw [hs] at h
      obtain ⟨rfl, -⟩ := Prod.mk.inj (Option.some.inj h)
      exact hleaf hs
    | node n' =>
      rw [hs] at h
      exact lookup_leaf hleaf h

theorem follow_snoc {r : Nat} {n : N} {is : List I} {i : I} : follow slot r n (is ++ [i]) =
    (follow slot r n is).bind fun m => match slot (r - is.length) m i with
      | .node n' => some n'
      | _ => none := by
  induction is generalizing r n with
  | nil => simp only [List.nil_append, follow, List.length_nil, Nat.sub_zero, Option.bind_some]
  | cons j is ih =>
    simp only [List.cons_append, follow, List.length_cons]
    cases slot r n j with
    | empty => rfl
    | leaf v => rfl
    | node n' =>
      simp only [ih]
      rw [show r - 1 - is.length = r - (is.length + 1) by omega]

theorem Labelled.follow_mono (hl : Labelled slot label next rank)
    (h : ∀ {n ℓ i n'}, label n = some ℓ → slot (rank ℓ) n i = .node n' → slot' (rank ℓ) n i = .node n') :
    ∀ {is : List I} {n m : N} {ℓ : L}, label n = some ℓ → follow slot (rank ℓ) n is = some m →
      follow slot' (rank ℓ) n is = some m
  | [], _, _, _, _, hf => hf
  | i :: is, n, m, ℓ, hn, hf => by
    rw [follow] at hf ⊢
    cases hs : slot (rank ℓ) n i with
    | empty => rw [hs] at hf; cases hf
    | leaf v => rw [hs] at hf; cases hf
    | node n' =>
      rw [hs] at hf
      obtain ⟨h1, h2⟩ := hl.closed hn hs
      rw [h hn hs]
      have hr : rank ℓ - 1 = rank (next ℓ i) := by omega
      simp only [hr] at hf ⊢
      exact hl.follow_mono h h1 hf

theorem Labelled.follow_label (hl : Labelled slot label next rank) :
    ∀ {is : List I} {n m : N} {ℓ : L}, label n = some ℓ → follow slot (rank ℓ) n is = some m →
      label m = some (is.foldl next ℓ) ∧ rank (is.foldl next ℓ) + is.length = rank ℓ
  | [], _, _, _, hn, hf => by
    obtain rfl := Option.some.inj hf
    exact ⟨hn, rfl⟩
  | i :: is, n, m, ℓ, hn, hf => by
    rw [follow] at hf
    cases hs : slot (rank ℓ) n i with
    | empty => rw [hs] at hf; cases hf
    | leaf v => rw [hs] at hf; cases hf
    | node n' =>
      rw [hs] at hf
      obtain ⟨h1, h2⟩ := hl.closed hn hs
      have hr : rank ℓ - 1 = rank (next ℓ i) := by omega
      simp only [hr] at hf
      obtain ⟨k1, k2⟩ := hl.follow_label h1 hf
      refine ⟨k1, ?_⟩
      simp only [List.foldl_cons, List.length_cons]
      omega

theorem lookup_of_follow : ∀ {is : List I} {n m : N} {i : I}, follow slot is.length n is = some m →
    lookup slot n (is ++ [i]) = match slot 0 m i with
      | .leaf v => some (v, [])
      | _ => none
  | [], n, m, i, hf => by
    obtain rfl := Option.some.inj hf
    rw [List.nil_append, lookup_cons]
    cases h : slot ([] : List I).length n i <;> simp_all [lookup]
  | j :: is, n, m, i, hf => by
    rw [List.cons_append, lookup_cons]
    rw [follow] at hf
    rw [List.length_append, List.length_singleton]
    rw [List.length_cons] at hf
    cases hs : slot (is.length + 1) n j with
    | empty => rw [hs] at hf; cases hf
    | leaf v => rw [hs] at hf; cases hf
    | node n' =>
      rw [hs] at hf
      exact lookup_of_follow hf

theorem follow_of_lookup {v : V} : ∀ {is : List I} {n : N} {i : I}, lookup slot n (is ++ [i]) = some (v, []) →
    ∃ m, follow slot is.length n is = some m ∧ slot 0 m i = .leaf v
  | [], n, i, h => by
    refine ⟨n, rfl, ?_⟩
    rw [List.nil_append, lookup_cons] at h
    cases hs : slot ([] : List I).length n i with
    | empty => rw [hs] at h; cases h
    | leaf v' => rw [hs] at h; cases h; rfl
    | node n' => rw [hs] at h; cases h
  | j :: is, n, i, h => by
    rw [List.cons_append, lookup_cons, List.length_append, List.length_singleton] at h
    rw [follow, List.length_cons]
    cases hs : slot (is.length + 1) n j with
    | empty => rw [hs] at h; cases h
    | leaf v' =>
      rw [hs] at h
      simp at h
    | node n' =>
      rw [hs] at h
      exact follow_of_lookup h

/-! ## Trails -/

theorem trail_append : ∀ {is js : List I} {r : Nat} {n m : N}, follow slot r n is = some m →
    trail slot r n (is ++ js) = trail slot r n is ++ trail slot (r - is.length) m js
  | [], js, r, n, m, h => by
    obtain rfl := Option.some.inj h
    simp [trail]
  | i :: is, js, r, n, m, h => by
    rw [follow] at h
    rw [List.cons_append, trail, trail]
    cases hs : slot r n i with
    | empty => rw [hs] at h; cases h
    | leaf v => rw [hs] at h; cases h
    | node n' =>
      rw [hs] at h
      simp only [List.cons_append, List.length_cons]
      rw [trail_append h, show r - 1 - is.length = r - (is.length + 1) by omega]

theorem trail_of_none : ∀ {is js : List I} {r : Nat} {n : N}, follow slot r n is = none →
    trail slot r n (is ++ js) = trail slot r n is
  | [], _, _, _, h => by cases h
  | i :: is, js, r, n, h => by
    rw [follow] at h
    rw [List.cons_append, trail, trail]
    cases hs : slot r n i with
    | empty => rfl
    | leaf v => rfl
    | node n' =>
      rw [hs] at h
      simp only
      rw [trail_of_none h]

theorem trail_length :
    ∀ {is : List I} {r : Nat} {n m : N}, follow slot r n is = some m → (trail slot r n is).length = is.length
  | [], _, _, _, _ => rfl
  | i :: is, r, n, m, h => by
    rw [follow] at h
    rw [trail]
    cases hs : slot r n i with
    | empty => rw [hs] at h; cases h
    | leaf v => rw [hs] at h; cases h
    | node n' =>
      rw [hs] at h
      simp only [List.length_cons]
      rw [trail_length h]

theorem trail_length_le : ∀ (is : List I) (r : Nat) (n : N), (trail slot r n is).length ≤ is.length
  | [], _, _ => Nat.le_refl 0
  | i :: is, r, n => by
    rw [trail]
    cases slot r n i with
    | empty => simp
    | leaf v => simp
    | node n' =>
      have ih := trail_length_le is (r - 1) n'
      simpa using ih

theorem Labelled.trail_label (hl : Labelled slot label next rank) : ∀ {is : List I} {n : N} {ℓ : L} {x : N × I},
    label n = some ℓ → is.length ≤ rank ℓ + 1 → x ∈ trail slot (rank ℓ) n is →
    ∃ ℓ', label x.1 = some ℓ' ∧ rank ℓ < rank ℓ' + is.length
  | [], _, _, _, _, _, hx => by cases hx
  | i :: is, n, ℓ, x, hn, hlen, hx => by
    cases List.mem_cons.mp hx with
    | inl hx =>
      subst hx
      exact ⟨ℓ, hn, by simp⟩
    | inr hx =>
      cases hs : slot (rank ℓ) n i with
      | empty => rw [hs] at hx; cases hx
      | leaf v => rw [hs] at hx; cases hx
      | node n' =>
        rw [hs] at hx
        obtain ⟨h1, h2⟩ := hl.closed hn hs
        simp only [show rank ℓ - 1 = rank (next ℓ i) by omega] at hx
        obtain ⟨ℓ', h3, h4⟩ := hl.trail_label h1 (by simp at hlen; omega) hx
        exact ⟨ℓ', h3, by simp; omega⟩

theorem Labelled.trail_congr (hl : Labelled slot label next rank)
    (h : ∀ {n ℓ i n'}, label n = some ℓ → (slot' (rank ℓ) n i = .node n' ↔ slot (rank ℓ) n i = .node n')) :
    ∀ {is : List I} {n : N} {ℓ : L}, label n = some ℓ → trail slot' (rank ℓ) n is = trail slot (rank ℓ) n is
  | [], _, _, _ => rfl
  | i :: is, n, ℓ, hn => by
    rw [trail, trail]
    cases hs : slot (rank ℓ) n i with
    | node n' =>
      obtain ⟨h1, h2⟩ := hl.closed hn hs
      rw [(h hn).mpr hs]
      simp only [show rank ℓ - 1 = rank (next ℓ i) by omega]
      rw [hl.trail_congr h h1]
    | empty =>
      cases hs' : slot' (rank ℓ) n i with
      | node n' => rw [(h hn).mp hs'] at hs; cases hs
      | empty => rfl
      | leaf v => rfl
    | leaf v =>
      cases hs' : slot' (rank ℓ) n i with
      | node n' => rw [(h hn).mp hs'] at hs; cases hs
      | empty => rfl
      | leaf v => rfl

theorem Labelled.trail_of_follow (hl : Labelled slot label next rank)
    (h : ∀ {n ℓ i n'}, label n = some ℓ → slot (rank ℓ) n i = .node n' → slot' (rank ℓ) n i = .node n') :
    ∀ {is : List I} {n m : N} {ℓ : L}, label n = some ℓ → follow slot (rank ℓ) n is = some m →
      trail slot' (rank ℓ) n is = trail slot (rank ℓ) n is
  | [], _, _, _, _, _ => rfl
  | i :: is, n, m, ℓ, hn, hf => by
    rw [follow] at hf
    rw [trail, trail]
    cases hs : slot (rank ℓ) n i with
    | empty => rw [hs] at hf; cases hf
    | leaf v => rw [hs] at hf; cases hf
    | node n' =>
      rw [hs] at hf
      obtain ⟨h1, h2⟩ := hl.closed hn hs
      rw [h hn hs]
      simp only [show rank ℓ - 1 = rank (next ℓ i) by omega] at hf ⊢
      rw [hl.trail_of_follow h h1 hf]

/-- **A walk that finds a value** is the same walk wherever the slots that are not empty stay. -/
theorem Labelled.trail_of_lookup (hl : Labelled slot label next rank)
    (h : ∀ {n ℓ i}, label n = some ℓ → slot (rank ℓ) n i ≠ .empty → slot' (rank ℓ) n i = slot (rank ℓ) n i) :
    ∀ {is : List I} {n : N} {ℓ : L} {r : V × List I}, label n = some ℓ → is.length = rank ℓ + 1 →
      lookup slot n is = some r →
      lookup slot' n is = some r ∧ trail slot' (rank ℓ) n is = trail slot (rank ℓ) n is
  | [], _, _, _, _, hlen, _ => by simp at hlen
  | i :: is, n, ℓ, r, hn, hlen, hf => by
    have hr : is.length = rank ℓ := by simpa using hlen
    rw [lookup_cons, hr] at hf
    rw [lookup_cons, hr, trail, trail]
    cases hs : slot (rank ℓ) n i with
    | empty => rw [hs] at hf; cases hf
    | leaf v =>
      rw [hs] at hf
      rw [h hn (by rw [hs]; simp), hs]
      exact ⟨hf, rfl⟩
    | node n' =>
      rw [hs] at hf
      obtain ⟨h1, h2⟩ := hl.closed hn hs
      rw [h hn (by rw [hs]; simp), hs]
      simp only [show rank ℓ - 1 = rank (next ℓ i) by omega]
      obtain ⟨k1, k2⟩ := hl.trail_of_lookup h h1 (by omega) hf
      exact ⟨k1, by rw [k2]⟩

/-- A lookup that ends early has met a leaf above the last level. -/
theorem Labelled.leaf_of_lookup (hl : Labelled slot label next rank) {v : V} {rest : List I} (hrest : rest ≠ []) :
    ∀ {is : List I} {n : N} {ℓ : L}, label n = some ℓ → is.length = rank ℓ + 1 → lookup slot n is = some (v, rest) →
      ∃ x ∈ trail slot (rank ℓ) n is, ∃ ℓ', label x.1 = some ℓ' ∧ 0 < rank ℓ' ∧ slot (rank ℓ') x.1 x.2 = .leaf v
  | [], _, _, _, hlen, _ => by simp at hlen
  | i :: is, n, ℓ, hn, hlen, hf => by
    have hr : is.length = rank ℓ := by simpa using hlen
    rw [lookup_cons, hr] at hf
    rw [trail]
    cases hs : slot (rank ℓ) n i with
    | empty => rw [hs] at hf; cases hf
    | leaf w =>
      rw [hs] at hf
      obtain ⟨rfl, rfl⟩ := Prod.mk.inj (Option.some.inj hf)
      refine ⟨(n, i), List.mem_cons_self .., ℓ, hn, ?_, hs⟩
      rw [← hr]
      exact List.length_pos_of_ne_nil hrest
    | node n' =>
      rw [hs] at hf
      obtain ⟨h1, h2⟩ := hl.closed hn hs
      simp only [show rank ℓ - 1 = rank (next ℓ i) by omega]
      obtain ⟨x, hx, hleaf⟩ := hl.leaf_of_lookup hrest h1 (by omega) hf
      exact ⟨x, List.mem_cons_of_mem _ hx, hleaf⟩

/-! ## Writing one slot -/

/-- **Congruence.** Lookups from named nodes depend on the slots of named nodes only. -/
theorem Labelled.lookup_congr (hl : Labelled slot label next rank)
    (h : ∀ {n ℓ i}, label n = some ℓ → slot' (rank ℓ) n i = slot (rank ℓ) n i) :
    ∀ {is : List I} {n : N} {ℓ : L}, label n = some ℓ → is.length = rank ℓ + 1 →
      lookup slot' n is = lookup slot n is
  | [], _, _, _, hlen => by simp at hlen
  | i :: is, n, ℓ, hn, hlen => by
    have hr : is.length = rank ℓ := by simpa using hlen
    rw [lookup_cons, lookup_cons, hr, h hn]
    cases hs : slot (rank ℓ) n i with
    | empty => rfl
    | leaf v => rfl
    | node n' =>
      obtain ⟨h1, h2⟩ := hl.closed hn hs
      exact hl.lookup_congr h h1 (by omega)

/-- **Grafting.** Hanging a node without values into an empty slot changes no lookup. -/
theorem Labelled.lookup_graft (hl : Labelled slot label next rank) {n₀ g : N} {i₀ : I} {ℓ₀ : L}
    (h₀ : label n₀ = some ℓ₀) (hrank : 0 < rank ℓ₀) (hempty : slot (rank ℓ₀) n₀ i₀ = .empty)
    (hnew : slot' (rank ℓ₀) n₀ i₀ = .node g) (hg : ∀ j, slot' (rank ℓ₀ - 1) g j = .empty)
    (h : ∀ {n ℓ i}, label n = some ℓ → ¬ (n = n₀ ∧ i = i₀) → slot' (rank ℓ) n i = slot (rank ℓ) n i) :
    ∀ {is : List I} {n : N} {ℓ : L}, label n = some ℓ → is.length = rank ℓ + 1 →
      lookup slot' n is = lookup slot n is
  | [], _, _, _, hlen => by simp at hlen
  | i :: is, n, ℓ, hn, hlen => by
    have hr : is.length = rank ℓ := by simpa using hlen
    rw [lookup_cons, lookup_cons, hr]
    by_cases hat : n = n₀ ∧ i = i₀
    · obtain ⟨rfl, rfl⟩ := hat
      obtain rfl : ℓ = ℓ₀ := Option.some.inj (hn.symm.trans h₀)
      rw [hempty, hnew]
      -- the walk goes one level on and finds nothing
      cases is with
      | nil => simp at hr; omega
      | cons j is =>
        have hj : is.length = rank ℓ - 1 := by simp at hr; omega
        simp only [lookup_cons, hj, hg]
    · rw [h hn hat]
      cases hs : slot (rank ℓ) n i with
      | empty => rfl
      | leaf v => rfl
      | node n' =>
        obtain ⟨h1, h2⟩ := hl.closed hn hs
        exact hl.lookup_graft h₀ hrank hempty hnew hg h h1 (by omega)

/-- **Writing a last-level slot** changes the lookups whose walk ends there, and no other. -/
theorem Labelled.lookup_write (hl : Labelled slot label next rank) {n₀ : N} {i₀ : I} {ℓ₀ : L}
    (h₀ : label n₀ = some ℓ₀) (hrank : rank ℓ₀ = 0)
    (h : ∀ {n ℓ i}, label n = some ℓ → ¬ (n = n₀ ∧ i = i₀) → slot' (rank ℓ) n i = slot (rank ℓ) n i) :
    ∀ {is : List I} {n : N} {ℓ : L} {i : I}, label n = some ℓ → is.length = rank ℓ →
      ¬ (follow slot (rank ℓ) n is = some n₀ ∧ i = i₀) → lookup slot' n (is ++ [i]) = lookup slot n (is ++ [i])
  | [], n, ℓ, i, hn, hlen, hne => by
    have hne' : ¬ (n = n₀ ∧ i = i₀) := fun hat => hne ⟨congrArg some hat.1, hat.2⟩
    have hlen' : rank ℓ = 0 := by simpa using hlen.symm
    have hsame := h hn hne'
    rw [hlen'] at hsame
    simp only [List.nil_append, lookup_cons, List.length_nil, hsame]
    cases slot 0 n i with
    | empty => rfl
    | leaf v => rfl
    | node n' => simp only [lookup]
  | j :: is, n, ℓ, i, hn, hlen, hne => by
    have hr : (is ++ [i]).length = rank ℓ := by simpa using hlen
    have hne' : ¬ (n = n₀ ∧ j = i₀) := by
      rintro ⟨rfl, -⟩
      obtain rfl : ℓ = ℓ₀ := Option.some.inj (hn.symm.trans h₀)
      simp at hr
      omega
    rw [List.cons_append, lookup_cons, lookup_cons, hr, h hn hne']
    cases hs : slot (rank ℓ) n j with
    | empty => rfl
    | leaf v => rfl
    | node n' =>
      obtain ⟨h1, h2⟩ := hl.closed hn hs
      have hr' : rank ℓ - 1 = rank (next ℓ j) := by omega
      refine hl.lookup_write h₀ hrank h h1 (by simp at hlen; omega) fun hat => hne ⟨?_, hat.2⟩
      rw [follow, hs]
      simp only [hr']
      exact hat.1

end

end Lib.Radix
