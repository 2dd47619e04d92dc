/-!
# Support — Refinement

A system that answers one request after the other, and a reference to compare it with.

* `serve`: the answers of a system to a run of requests, and the state it ends in.
* `Trace`: a run of a reference whose step is a relation and may leave a choice open; for the graph
  of a function it is `serve` again (`trace_graph`).
* `Trace.of_sim`: a forward simulation carries a whole run over.
-/

namespace Refinement

variable {σ τ ι κ ο : Type}

/-- The answers to the requests of a run, and the state after them. -/
def serve (step : ι → σ → ο × σ) : List ι → σ → List ο × σ
  | [],      s => ([], s)
  | i :: is, s =>
      ((step i s).1 :: (serve step is (step i s).2).1, (serve step is (step i s).2).2)

/-- A run of a reference: its requests, the answers given, and the state after them. -/
inductive Trace (Step : τ → κ → ο → τ → Prop) : τ → List κ → List ο → τ → Prop where
  | nil (m : τ) : Trace Step m [] [] m
  | cons {m m₁ m' : τ} {k : κ} {ks : List κ} {o : ο} {os : List ο}
      (h : Step m k o m₁) (t : Trace Step m₁ ks os m') : Trace Step m (k :: ks) (o :: os) m'

variable {step : ι → σ → ο × σ} {Step : τ → κ → ο → τ → Prop} {R : σ → τ → Prop} {f : ι → κ}
  {Ok : ι → Prop} {Good : ο → Prop}

variable (Step R f) in
/-- **Runs.**  If every step from related states, of a request that is `Ok` with an answer that is
`Good`, is matched by a step of the reference, so is every run of such steps. -/
theorem Trace.of_sim
    (sim : ∀ i s m, Ok i → R s m → Good (step i s).1 →
      ∃ m', Step m (f i) (step i s).1 m' ∧ R (step i s).2 m')
    {is : List ι} (hok : ∀ i ∈ is, Ok i) {s : σ} {m : τ} (hR : R s m)
    (hgood : ∀ o ∈ (serve step is s).1, Good o) :
    ∃ m', Trace Step m (is.map f) (serve step is s).1 m' ∧ R (serve step is s).2 m' := by
  induction is generalizing s m with
  | nil => exact ⟨m, .nil m, hR⟩
  | cons i is ih =>
      rw [List.forall_mem_cons] at hok
      obtain ⟨hi, his⟩ := List.forall_mem_cons.mp hgood
      obtain ⟨m₁, hstep, hR₁⟩ := sim i s m hok.1 hR hi
      obtain ⟨m', htrace, hR'⟩ := ih hok.2 hR₁ his
      exact ⟨m', .cons hstep htrace, hR'⟩

/-- A reference whose step is a function has one run. -/
theorem trace_graph {g : κ → τ → ο × τ} {m m' : τ} {ks : List κ} {os : List ο} :
    Trace (fun m k o m' => g k m = (o, m')) m ks os m' ↔ serve g ks m = (os, m') := by
  constructor
  · intro h
    induction h with
    | nil m => rfl
    | cons h _ ih => rw [serve, h, ih]
  · intro h
    induction ks generalizing m os with
    | nil => cases h; exact .nil _
    | cons k ks ih =>
        cases h
        exact .cons rfl (ih rfl)

end Refinement
