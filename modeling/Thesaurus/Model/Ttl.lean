import Thesaurus.Model.StoreOps

/-!
# Model — TTL daemon

`ttl.rs`: a round of the eviction daemon takes the lock twice, once to sample the expiry index
and once to delete, and reads the clock in between.
-/

namespace Thesaurus

namespace TtlEvictionDaemon

/-- `N`. -/
def sampleSize : Nat := 20

/-- The loop over the sampled pairs: the keys whose deadline has passed at `now`. -/
def keysToDelete (now : Instant) : List (String × Instant) → List String
  | []                              => []
  | (key, expirationInstant) :: rest =>
      if now ≥ expirationInstant then key :: keysToDelete now rest else keysToDelete now rest

/-- `evict_expired`, with the reading of the clock it makes between its two calls. -/
def evictExpired (now : Instant) : StoreProg Unit := do
  let samplePairs ← Atomic.Prog.invoke (.sampleEvictionIndex sampleSize)
  let _ ← Atomic.Prog.invoke (.deleteBulk (keysToDelete now samplePairs))
  return ()

theorem mem_keysToDelete {now : Instant} {sample : List (String × Instant)} {key : String} :
    key ∈ keysToDelete now sample ↔ ∃ t, (key, t) ∈ sample ∧ t ≤ now := by
  induction sample with
  | nil => simp [keysToDelete]
  | cons pair rest ih =>
      obtain ⟨k, t⟩ := pair
      unfold keysToDelete
      split
      · next h =>
          simp only [List.mem_cons, ih, Prod.mk.injEq]
          constructor
          · rintro (rfl | ⟨t', h', ht⟩)
            · exact ⟨t, .inl ⟨rfl, rfl⟩, h⟩
            · exact ⟨t', .inr h', ht⟩
          · rintro ⟨t', ⟨rfl, rfl⟩ | h', ht⟩
            · exact .inl rfl
            · exact .inr ⟨t', h', ht⟩
      · next h =>
          simp only [List.mem_cons, ih, Prod.mk.injEq]
          constructor
          · rintro ⟨t', h', ht⟩
            exact ⟨t', .inr h', ht⟩
          · rintro ⟨t', ⟨rfl, rfl⟩ | h', ht⟩
            · exact absurd ht h
            · exact ⟨t', h', ht⟩

end TtlEvictionDaemon

end Thesaurus
