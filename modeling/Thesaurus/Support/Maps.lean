import Mathlib.Data.Finmap

/-!
# Support — Maps

Finite maps to one value type, with the two lookups after an update stated at every key.
-/

namespace Maps

variable {K V : Type} [DecidableEq K]

/-- A finite map. -/
abbrev Map (K V : Type) : Type := Finmap fun _ : K => V

@[simp] theorem lookup_insert (m : Map K V) (k k' : K) (v : V) :
    (m.insert k v).lookup k' = if k' = k then some v else m.lookup k' := by
  split
  · next h => subst h; exact Finmap.lookup_insert m
  · next h => exact Finmap.lookup_insert_of_ne m h

@[simp] theorem lookup_erase (m : Map K V) (k k' : K) :
    (m.erase k).lookup k' = if k' = k then none else m.lookup k' := by
  split
  · next h => subst h; exact Finmap.lookup_erase _ m
  · next h => exact Finmap.lookup_erase_ne h

@[simp] theorem lookup_empty (k : K) : (∅ : Map K V).lookup k = none := Finmap.lookup_empty k

/-- Two maps with the same lookups are equal. -/
theorem ext {m m' : Map K V} (h : ∀ k, m.lookup k = m'.lookup k) : m = m' :=
  Finmap.ext_lookup h

theorem mem_keys_iff {m : Map K V} {k : K} : k ∈ m.keys ↔ (m.lookup k).isSome := by
  rw [Finmap.mem_keys, Finmap.lookup_isSome]

end Maps
