import Thesaurus.Cells.Exec

/-!
# Commands — DEL

DEL calls `Store::delete` for one key after the other and adds up what it found.  `delete` looks
whether the value is there, and not, as `exists` does, whether its deadline has passed.

* `deletedCount_eq_card`: the reply is the number of distinct keys with a value.
* `del_counts_iff`: it is the number of keys that EXISTS finds exactly when no listed key has a
  value whose deadline has passed.
-/

namespace Thesaurus
open StoreInner

/-- A key that is listed again is not found again. -/
theorem deletedCount_eq_card (keys : List String) (s : StoreInner) :
    deletedCount keys s = (keys.toFinset.filter fun k => (s.cell k).value.isSome).card := by
  induction keys generalizing s with
  | nil => rfl
  | cons key keys ih =>
      have hrest : (keys.toFinset.filter fun k =>
          ((s.setCell key Cell.empty).cell k).value.isSome) =
          (keys.toFinset.filter fun k => (s.cell k).value.isSome).erase key := by
        ext k
        rw [Finset.mem_erase, Finset.mem_filter, Finset.mem_filter, cell_setCell]
        by_cases hk : k = key <;> simp [hk, Cell.empty]
      rw [deletedCount, ih, hrest, List.toFinset_cons, Finset.filter_insert]
      by_cases hv : (s.cell key).value.isSome
      · rw [if_pos hv, hv, ← Finset.card_erase_add_one (Finset.mem_insert_self key _),
          Finset.erase_insert_eq_erase, Nat.add_comm]
        rfl
      · have hnot : key ∉ keys.toFinset.filter fun k => (s.cell k).value.isSome := fun h =>
          hv (Finset.mem_filter.mp h).2
        rw [if_neg hv, Finset.erase_eq_of_notMem hnot, Bool.eq_false_iff.mpr hv]
        exact Nat.zero_add _

variable (ex : Executor) (env : Env) (s : StoreInner)

/-- DEL replies the number of distinct listed keys that EXISTS finds, EXISTS finds none of them
afterwards, and every other key keeps its value and its deadline. -/
def CountsExisting (keys : List String) : Prop :=
  (∃ found : Finset String,
      (∀ k, k ∈ found ↔ k ∈ keys ∧ (ex.exec env (.exists [k]) s).1 = some (.integer 1)) ∧
      (ex.exec env (.delete keys) s).1 = some (.integer found.card)) ∧
    (∀ k ∈ keys, (ex.exec env (.exists [k]) (ex.exec env (.delete keys) s).2).1 =
      some (.integer 0)) ∧
    ∀ k ∉ keys, (ex.exec env (.delete keys) s).2.data.lookup k = s.data.lookup k ∧
      (ex.exec env (.delete keys) s).2.expiryIndex.lookup k = s.expiryIndex.lookup k

/-- **When DEL counts what existed.**  For every store and every list of keys: DEL counts the keys
that EXISTS finds, and removes those it lists and no other, if and only if no listed key has a value
whose deadline has passed. -/
theorem del_counts_iff (keys : List String) :
    CountsExisting ex env s keys ↔
      ∀ k ∈ keys, (s.data.lookup k).isSome → (s.get env.clock.mono k).isSome := by
  have hlive : ∀ k, (s.get env.clock.mono k).isSome → (s.data.lookup k).isSome := by
    intro k h
    obtain ⟨v, hv⟩ := Option.isSome_iff_exists.mp h
    have hcell : (s.cell k).live env.clock.mono = some v := hv
    exact Option.isSome_iff_exists.mpr ⟨v, Cell.value_of_live hcell⟩
  have hsub : (keys.toFinset.filter fun k => ((s.cell k).live env.clock.mono).isSome) ⊆
      keys.toFinset.filter fun k => (s.cell k).value.isSome := fun k hk => by
    obtain ⟨hk, hs⟩ := Finset.mem_filter.mp hk
    exact Finset.mem_filter.mpr ⟨hk, hlive k hs⟩
  have hmem : ∀ k, k ∈ (keys.toFinset.filter fun k => ((s.cell k).live env.clock.mono).isSome) ↔
      k ∈ keys ∧ (ex.exec env (.exists [k]) s).1 = some (.integer 1) := fun k => by
    rw [Finset.mem_filter, List.mem_toFinset, exec_exists_one_iff]
  have hcell : ∀ k, (ex.exec env (.delete keys) s).2.cell k =
      if k ∈ keys then Cell.empty else s.cell k := fun k => by
    rw [exec_delete, cell_deleteBulk]
  constructor
  · rintro ⟨⟨found, hfound, hreply⟩, -⟩ k hk hv
    obtain rfl : found = keys.toFinset.filter fun k => ((s.cell k).live env.clock.mono).isSome :=
      Finset.ext fun k => (hfound k).trans (hmem k).symm
    simp only [exec_delete, deletedCount_eq_card, Option.some.injEq, RespValue.integer.injEq,
      Nat.cast_inj] at hreply
    -- as many have a value as are live, so they are the same
    have heq := Finset.eq_of_subset_of_card_le hsub (Nat.le_of_eq hreply)
    have hpresent : k ∈ keys.toFinset.filter fun k => (s.cell k).value.isSome :=
      Finset.mem_filter.mpr ⟨List.mem_toFinset.mpr hk, hv⟩
    rw [← heq] at hpresent
    exact (Finset.mem_filter.mp hpresent).2
  · intro h
    refine ⟨⟨_, hmem, ?_⟩, fun k hk => ?_, fun k hk => ?_⟩
    · rw [exec_delete, deletedCount_eq_card]
      refine congrArg (fun found : Finset String => some (RespValue.integer found.card)) ?_
      refine Finset.Subset.antisymm (fun k hk => ?_) hsub
      obtain ⟨hk, hv⟩ := Finset.mem_filter.mp hk
      exact Finset.mem_filter.mpr ⟨hk, h k (List.mem_toFinset.mp hk) hv⟩
    · rw [exec_exists_zero_iff, hcell, if_pos hk, Cell.live_empty]
    · rw [lookup_data, lookup_expiryIndex, hcell, if_neg hk]
      exact ⟨rfl, rfl⟩

/-- DEL of a live key, listed twice, and a missing one. -/
theorem del_counts_live :
    CountsExisting .plain (Env.at 0 0) (Store.new.putData "k" (.str "v")) ["k", "k", "m"] :=
  (del_counts_iff .plain (Env.at 0 0) (Store.new.putData "k" (.str "v")) ["k", "k", "m"]).mpr
    fun _ _ h => h

/-- DEL of a key whose deadline has passed replies 1. -/
theorem del_counts_expired : ¬∀ (ex : Executor) (env : Env) (s : StoreInner) (keys : List String),
    CountsExisting ex env s keys := by
  intro h
  obtain ⟨⟨found, hfound, hreply⟩, -⟩ := h .plain (Env.at 0 2000)
    ((Store.new.putData "k" (.str "v")).putExpiry "k" 1000) ["k"]
  have hempty : found = ∅ := Finset.eq_empty_of_forall_notMem fun k hk => by
    obtain ⟨hk, hone⟩ := (hfound k).mp hk
    obtain rfl := List.mem_singleton.mp hk
    exact absurd (exec_exists_one_iff.mp hone) (by decide)
  rw [hempty] at hreply
  cases hreply

end Thesaurus
