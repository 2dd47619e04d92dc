import Thesaurus.Commands.Sets
import Thesaurus.Log.Replay

/-!
# Log — random removals

SPOP is logged as the client sent it, with a count but without the members it drew.  The replay
draws again.

* `spop_replays_iff`: the replay leaves the same set, whatever the two draws are, exactly when there
  is nothing to draw: no member is asked for, or every one.
-/

namespace Thesaurus
open StoreInner

/-- Draws that begin at the other end of the order. -/
def Draws.reversed : Draws :=
  { Draws.sorted with
    sample := fun s n => (Draws.sorted.iter s).reverse.take n
    sample_nodup := fun s _ =>
      (List.nodup_reverse.mpr (Draws.sorted.iter_nodup s)).sublist (List.take_sublist _ _)
    sample_subset := fun s _ _ h =>
      (Draws.sorted.mem_iter s _).mp (List.mem_reverse.mp (List.mem_of_mem_take h))
    length_sample := fun s _ => by
      rw [List.length_take, List.length_reverse, Draws.sorted, s.length_sort] }

section

variable {set : Finset String} {n : Nat}

theorem Draws.sample_zero (draws : Draws) (set : Finset String) : draws.sample set 0 = [] :=
  List.length_eq_zero_iff.mp (by rw [draws.length_sample, Nat.zero_min])

/-- A sample of every member. -/
theorem Draws.toFinset_sample (draws : Draws) (h : set.card ≤ n) :
    (draws.sample set n).toFinset = set := by
  refine Finset.eq_of_subset_of_card_le (fun a ha => ?_) ?_
  · exact draws.sample_subset set n a (List.mem_toFinset.mp ha)
  · rw [List.toFinset_card_of_nodup (draws.sample_nodup set n), draws.length_sample,
      Nat.min_eq_right h]

/-- A smaller sample leaves a member. -/
theorem Draws.sdiff_sample_ne_empty (draws : Draws) (h : n < set.card) :
    set \ (draws.sample set n).toFinset ≠ ∅ := by
  intro he
  have hle := Finset.card_le_card (Finset.sdiff_eq_empty_iff_subset.mp he)
  have hlen := List.toFinset_card_le (draws.sample set n)
  rw [draws.length_sample] at hlen
  omega

/-- Two ends of an order that do not meet: some but not all members can be drawn in two ways. -/
theorem sample_sorted_ne_reversed (h₀ : n ≠ 0) (h₁ : n < set.card) :
    (Draws.sorted.sample set n).toFinset ≠ (Draws.reversed.sample set n).toFinset := by
  have hlen : set.sort.length = set.card := set.length_sort (· ≤ ·)
  have hlast : set.card - 1 < set.sort.length := by omega
  -- the last member is drawn from the one end and not from the other
  have hmem : set.sort[set.card - 1] ∈ (Draws.reversed.sample set n).toFinset := by
    rw [List.mem_toFinset]
    show _ ∈ set.sort.reverse.take n
    refine List.mem_take_iff_getElem.mpr ⟨0, by rw [List.length_reverse]; omega, ?_⟩
    rw [List.getElem_reverse]
    congr 1
    omega
  intro he
  rw [← he, List.mem_toFinset] at hmem
  obtain ⟨i, hi, hget⟩ := List.mem_take_iff_getElem.mp
    (show set.sort[set.card - 1] ∈ set.sort.take n from hmem)
  have hinj := (List.Nodup.getElem_inj_iff (set.sort_nodup (· ≤ ·))).mp hget
  omega

theorem sdiff_sample_sorted_ne_reversed (h₀ : n ≠ 0) (h₁ : n < set.card) :
    set \ (Draws.sorted.sample set n).toFinset ≠ set \ (Draws.reversed.sample set n).toFinset := by
  have hsub : ∀ draws : Draws, (draws.sample set n).toFinset ⊆ set := fun draws a ha =>
    draws.sample_subset set n a (List.mem_toFinset.mp ha)
  intro he
  refine sample_sorted_ne_reversed h₀ h₁ ?_
  rw [← Finset.sdiff_sdiff_eq_self (hsub .sorted), he, Finset.sdiff_sdiff_eq_self (hsub .reversed)]

end

/-- The value SPOP leaves under its key. -/
theorem value_spop (ex : Executor) (c : Clock) (draws : Draws) {s : StoreInner} {key : String}
    {set : Finset String} (count : Option UInt64)
    (hlive : s.get c.mono key = some (.set set)) :
    (ex.exec ⟨c, draws⟩ (.sPop key count) s).2.data.lookup key =
      if set \ (draws.sample set (count.getD 1).toNat).toFinset = ∅ then none
      else some (.set (set \ (draws.sample set (count.getD 1).toNat).toFinset)) := by
  have hcell : (s.cell key).live c.mono = some (.set set) := hlive
  have hexec : Cell.exec ex ⟨c, draws⟩ (.sPop key count) = some (key, _) := rfl
  rw [exec_eq_at ex ⟨c, draws⟩ s hexec, keyed_at, lookup_data, cell_setCell_self]
  simp only [Cell.reply, Cell.spop, hcell, foldl_erase, Cell.shrinkSet]
  split <;> rfl

/-- **When a replayed SPOP is the same.**  For every set, every count, and a store in which the key
holds the set both when SPOP runs and when its entry is replayed: whatever the two executions draw,
they leave the same under the key, if and only if the count is zero or at least the size of the
set. -/
theorem spop_replays_iff (ex : Executor) (c c' : Clock) (s : StoreInner) (key : String)
    (count : Option UInt64) (set : Finset String)
    (hlive : s.get c.mono key = some (.set set)) (hlive' : s.get c'.mono key = some (.set set)) :
    (∀ draws draws',
        (ex.exec ⟨c', draws'⟩ ((Command.sPop key count).persisted c) s).2.data.lookup key =
          (ex.exec ⟨c, draws⟩ (.sPop key count) s).2.data.lookup key) ↔
      (count.getD 1).toNat = 0 ∨ set.card ≤ (count.getD 1).toNat := by
  simp only [Command.persisted, value_spop ex _ _ count hlive, value_spop ex _ _ count hlive']
  generalize (count.getD 1).toNat = n
  constructor
  · intro h
    by_contra hno
    obtain ⟨h₀, h₁⟩ := not_or.mp hno
    have hleft := h .sorted .reversed
    rw [if_neg (Draws.sdiff_sample_ne_empty _ (Nat.not_le.mp h₁)),
      if_neg (Draws.sdiff_sample_ne_empty _ (Nat.not_le.mp h₁)), Option.some.injEq,
      StoreValue.set.injEq] at hleft
    exact sdiff_sample_sorted_ne_reversed h₀ (Nat.not_le.mp h₁) hleft.symm
  · rintro (rfl | hle) draws draws'
    · rw [Draws.sample_zero, Draws.sample_zero]
    · rw [Draws.toFinset_sample draws hle, Draws.toFinset_sample draws' hle]

/-- Both members of two, drawn from either end. -/
theorem spop_replays_both :
    (Executor.plain.exec ⟨Clock.at 0 5, .reversed⟩
        ((Command.sPop "k" (some 2)).persisted (Clock.at 0 0))
        (Store.new.putData "k" (.set {"a", "b"}))).2.data.lookup "k" =
      (Executor.plain.exec ⟨Clock.at 0 0, .sorted⟩ (.sPop "k" (some 2))
        (Store.new.putData "k" (.set {"a", "b"}))).2.data.lookup "k" :=
  (spop_replays_iff .plain (Clock.at 0 0) (Clock.at 0 5)
    (Store.new.putData "k" (.set {"a", "b"})) "k" (some 2) {"a", "b"} rfl rfl).mpr
    (.inr (by decide)) .sorted .reversed

/-- One member of two: the replay may remove the other. -/
theorem not_forall_spop_replays :
    ¬ ∀ (s : StoreInner) (key : String) (count : Option UInt64) (set : Finset String) (c : Clock),
      s.get c.mono key = some (.set set) → ∀ draws draws',
        (Executor.plain.exec ⟨c, draws'⟩ ((Command.sPop key count).persisted c) s).2.data.lookup
            key =
          (Executor.plain.exec ⟨c, draws⟩ (.sPop key count) s).2.data.lookup key := by
  intro h
  have hlive : (Store.new.putData "k" (.set {"a", "b"})).get (Clock.at 0 0).mono "k" =
    some (.set {"a", "b"}) := rfl
  have heq := h _ "k" none {"a", "b"} (Clock.at 0 0) hlive .sorted .reversed
  have hcard : (1 : Nat) < ({"a", "b"} : Finset String).card := by decide
  simp only [Command.persisted, value_spop .plain _ _ none hlive, Option.getD_none,
    UInt64.toNat_one, if_neg (Draws.sdiff_sample_ne_empty _ hcard), Option.some.injEq,
    StoreValue.set.injEq] at heq
  exact sdiff_sample_sorted_ne_reversed (by decide) hcard heq.symm

end Thesaurus
