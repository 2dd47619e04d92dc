import Thesaurus.Cells.Frame
import Thesaurus.Cells.Rewrites
import Thesaurus.Log.Sampling
import Thesaurus.Model.Server

/-!
# Expiry — eviction

A round of the eviction daemon samples the expiry index under one lock and deletes under another.
Between the two the clients go on: what was due when it was sampled may be there for good when it
is deleted.

* `evicts_expired_only`: no key with time left is deleted, if no call in between renews a key that
  was due when the daemon read the clock.
* `evicts_renewed_key`: a SET in between is enough to lose its value.
-/

namespace Thesaurus
open StoreInner

/-- What the clients and the clock do during a round. -/
inductive Interim where
  /-- An atomic call of the store. -/
  | call (draws : Draws) (op : StoreOp)
  /-- Time passes. -/
  | wait (δ : Duration)

/-- The store, and what its callers read from the monotonic clock. -/
structure Round where
  store : StoreInner
  now : Instant

namespace Round

def act (w : Round) : Interim → Round
  | .call draws op => { w with store := (op.apply w.now draws w.store).2 }
  | .wait δ        => { w with now := w.now + δ }

def run (w : Round) : List Interim → Round
  | []             => w
  | step :: steps  => (w.act step).run steps

/-- Every step meets `Q` where it is taken. -/
def All (Q : Round → Interim → Prop) (w : Round) : List Interim → Prop
  | []            => True
  | step :: steps => Q w step ∧ (w.act step).All Q steps

/-- The pairs a round of the daemon samples. -/
def sample (w : Round) (draws : Draws) : List (String × Instant) :=
  Store.sampleEvictionIndex w.store draws TtlEvictionDaemon.sampleSize

/-- The keys a round deletes that has sampled here and reads the clock after `before`. -/
def doomed (w : Round) (draws : Draws) (before : List Interim) : List String :=
  TtlEvictionDaemon.keysToDelete (w.run before).now (w.sample draws)

/-- A round with nothing in between is `evict_expired`. -/
theorem evictExpired_eq (w : Round) (draws : Draws) :
    ((TtlEvictionDaemon.evictExpired w.now).run (StoreOp.apply w.now draws) w.store).2 =
      Store.deleteBulk w.store (w.doomed draws []) := rfl

theorem run_append (w : Round) (steps steps' : List Interim) :
    w.run (steps ++ steps') = (w.run steps).run steps' := by
  induction steps generalizing w with
  | nil => rfl
  | cons step steps ih => exact ih _

theorem now_le_run (w : Round) (steps : List Interim) : w.now ≤ (w.run steps).now := by
  induction steps generalizing w with
  | nil => exact Nat.le_refl _
  | cons step steps ih =>
      refine Nat.le_trans ?_ (ih _)
      cases step with
      | call draws op => exact Nat.le_refl _
      | wait δ => exact Nat.le_add_right _ _

/-- What every step that meets `Q` preserves holds after a run of such steps. -/
theorem run_of_act {P : Round → Prop} {Q : Round → Interim → Prop}
    (hact : ∀ w step, Q w step → P w → P (w.act step)) {w : Round} (hw : P w)
    {steps : List Interim} (hQ : w.All Q steps) : P (w.run steps) := by
  induction steps generalizing w with
  | nil => exact hw
  | cons step steps ih => exact ih (hact w step hQ.1 hw) hQ.2

end Round

/-- The call gives the key a value without a deadline, or a deadline after `t`: it sets or persists
it, it lets it live beyond `t`, or it makes a new list or set where nothing was live.  SMOVE of an
only member to its own key is one of the last kind. -/
def StoreOp.Renews (now : Instant) (s : StoreInner) (key : String) (t : Instant) : StoreOp → Prop
  | .setString k _               => k = key
  | .mset items                  => key ∈ items.map Prod.fst
  | .persist k                   => k = key ∧ (s.data.lookup key).isSome
  | .setTtl k ttl                => k = key ∧ (s.data.lookup key).isSome ∧ t < ttl
  | .lpush k _ | .rpush k _
  | .sadd k _                    => k = key ∧ s.get now key = none
  | .smove source destination m  =>
      destination = key ∧ ∃ set, Moves now s source destination m set ∧
        (s.get now key = none ∨ source = key ∧ set.erase m = ∅)
  | _                            => False

/-- The step is a call that renews one of the keys beyond `t`. -/
def Interim.Renews (keys : List String) (t : Instant) (w : Round) : Interim → Prop
  | .call _ op => ∃ key ∈ keys, op.Renews w.now w.store key t
  | .wait _    => False

/-- Every one of the keys that is still there has a deadline that has passed. -/
def EvictsExpired (w : Round) (keys : List String) : Prop :=
  ∀ key ∈ keys, (w.store.data.lookup key).isSome →
    ∃ d, w.store.expiryIndex.lookup key = some d ∧ d ≤ w.now

/-! ### Keys that stay due -/

namespace Cell

/-- The cell has no value, or a deadline no later than `t`. -/
def Due (t : Instant) (x : Cell) : Prop := x.value.isSome → ∃ d, x.deadline = some d ∧ d ≤ t

variable {t now : Instant} {x : Cell}

theorem due_empty : empty.Due t := fun h => nomatch h

/-- A call that keeps the deadline of a live value. -/
theorem Due.withValue (h : x.Due t) {v : StoreValue} (hv : x.live now = some v)
    (v' : Option StoreValue) : Due t { x with value := v' } := fun _ =>
  h (by rw [value_of_live hv]; rfl)

/-- A call that does not create a value where none is live. -/
theorem Due.rewrites (h : x.Due t) {creates : Prop} {y : Cell} (hr : x.Rewrites creates now y)
    (hno : creates → x.live now ≠ none) : y.Due t := by
  cases hr with
  | same => exact h
  | value hv w => exact h.withValue hv _
  | gone => exact due_empty
  | fresh hc hx w => exact absurd hx (hno hc)

theorem Due.setTtl (h : x.Due t) {ttl : Instant} (hno : ¬(x.value.isSome ∧ t < ttl)) :
    (x.setTtl ttl).2.Due t := by
  unfold Cell.setTtl
  split
  · next hv => exact fun _ => ⟨ttl, rfl, Nat.not_lt.mp fun ht => hno ⟨hv, ht⟩⟩
  · exact h

theorem Due.persist (hno : ¬x.value.isSome) : (x.persist).2.Due t := fun hv => absurd hv hno

theorem Due.pop (h : x.Due t) {count : UInt64}
    {popFn : List String → Option (String × List String)} : (x.pop now count popFn).2.Due t := by
  rcases rewrites_pop with hr | ⟨v, hv, heq⟩
  · exact h.rewrites hr False.elim
  · exact heq ▸ h.withValue hv none

theorem Due.addMember (h : x.Due t) {set : Finset String} (hl : x.live now = some (.set set))
    (member : String) : (x.addMember now member).Due t := by
  rw [Cell.addMember, hl]
  exact h.withValue hl _

end Cell

section

variable {s : StoreInner} {key : String} {now t : Instant} {draws : Draws}

/-- A call on one cell. -/
theorem due_at {α : Type} {k : String} {g : Cell → α × Cell} {r : α × StoreInner}
    (hr : r = keyed.at k g s) (h : (s.cell key).Due t) (hg : k = key → (g (s.cell key)).2.Due t) :
    (r.2.cell key).Due t := by
  rw [hr, keyed_at, cell_setCell]
  split
  · next he => exact he ▸ hg he.symm
  · exact h

theorem due_smove {source destination member : String} (h : (s.cell key).Due t)
    (hno : ¬(StoreOp.smove source destination member).Renews now s key t) :
    ((Store.smove s now now now now source destination member).2.cell key).Due t := by
  by_cases hm : ∃ set, Moves now s source destination member set
  · obtain ⟨set, hm⟩ := hm
    rw [smove_of_moves now s hm]
    have hs' : ((s.setCell source ((s.cell source).shrinkSet (set.erase member))).cell
        key).Due t := by
      rw [cell_setCell]
      split
      · next he =>
          have hsource : (s.cell source).Due t := he ▸ h
          exact hsource.rewrites (Cell.rewrites_shrinkSet hm.1 _) False.elim
      · exact h
    dsimp only
    rw [cell_setCell]
    split
    · next he =>
        subst he
        -- the destination holds a set that is still live: neither new nor emptied
        have hlive : s.get now key ≠ none := fun hl => hno ⟨rfl, set, hm, .inl hl⟩
        by_cases hsource : key = source
        · subst hsource
          have hne : set.erase member ≠ ∅ := fun he => hno ⟨rfl, set, hm, .inr ⟨rfl, he⟩⟩
          have hl : ((s.cell key).shrinkSet (set.erase member)).live now =
              some (.set (set.erase member)) := by
            rw [Cell.shrinkSet, if_neg hne, Cell.live_withValue (Cell.not_expired_of_live hm.1)]
          rw [cell_setCell_self] at hs' ⊢
          exact hs'.addMember hl member
        · obtain ⟨v, hv⟩ := Option.ne_none_iff_exists'.mp hlive
          obtain ⟨set', rfl⟩ := hm.2.2 v hv
          rw [cell_setCell_ne s _ hsource] at hs' ⊢
          exact hs'.addMember hv member
    · exact hs'
  · rw [smove_of_not_moves now s fun set hm' => hm ⟨set, hm'⟩]
    exact h

/-- **A due key stays due** through a call that does not renew it. -/
theorem due_apply {op : StoreOp} (h : (s.cell key).Due t) (hno : ¬op.Renews now s key t) :
    ((op.apply now draws s).2.cell key).Due t := by
  cases op with
  | delete k => exact due_at (apply_delete now draws s k) h fun _ => Cell.due_empty
  | setTtl k ttl =>
      exact due_at (apply_setTtl now draws s k ttl) h fun he => h.setTtl fun hv => hno ⟨he, hv⟩
  | persist k =>
      exact due_at (apply_persist now draws s k) h fun he => .persist fun hv => hno ⟨he, hv⟩
  | deleteBulk ks =>
      show ((Store.deleteBulk s ks).cell key).Due t
      rw [cell_deleteBulk]
      split
      · exact Cell.due_empty
      · exact h
  | clear | clearAsync =>
      show (Store.new.cell key).Due t
      rw [cell_new]
      exact Cell.due_empty
  | setString k v =>
      rw [apply_setString, cell_setCell_ne s _ fun he => hno he.symm]
      exact h
  | getDelString k =>
      exact due_at (apply_getDelString now draws s k) h fun _ =>
        h.rewrites Cell.rewrites_getDelString False.elim
  | mset items =>
      show ((Store.mset s items).cell key).Due t
      rw [cell_mset hno]
      exact h
  | lpush k element =>
      exact due_at (apply_lpush now draws s k element) h fun he =>
        h.rewrites Cell.rewrites_push fun _ hl => hno ⟨he, hl⟩
  | rpush k element =>
      exact due_at (apply_rpush now draws s k element) h fun he =>
        h.rewrites Cell.rewrites_push fun _ hl => hno ⟨he, hl⟩
  | lpushx k element =>
      exact due_at (apply_lpushx now draws s k element) h fun _ =>
        h.rewrites Cell.rewrites_push fun hc => nomatch hc
  | rpushx k element =>
      exact due_at (apply_rpushx now draws s k element) h fun _ =>
        h.rewrites Cell.rewrites_push fun hc => nomatch hc
  | lpop k count => exact due_at (popInner_eq now s k count _) h fun _ => h.pop
  | rpop k count => exact due_at (popInner_eq now s k count _) h fun _ => h.pop
  | lset k index element =>
      exact due_at (lset_eq now s k _ element) h fun _ =>
        h.rewrites Cell.rewrites_lset False.elim
  | sadd k members =>
      exact due_at (sadd_eq now s k members) h fun he =>
        h.rewrites Cell.rewrites_sadd fun _ hl => hno ⟨he, hl⟩
  | smove source destination member => exact due_smove h hno
  | spop k count =>
      exact due_at (spop_eq now draws s k count) h fun _ =>
        h.rewrites Cell.rewrites_spop False.elim
  | srem k members =>
      exact due_at (srem_eq now s k members) h fun _ =>
        h.rewrites Cell.rewrites_srem False.elim
  | _ => rw [StoreOp.apply_of_isRead rfl]; exact h

theorem mem_sampleEvictionIndex {n : Nat}
    (h : (key, t) ∈ Store.sampleEvictionIndex s draws n) : (s.cell key).deadline = some t := by
  obtain ⟨k, -, hk⟩ := List.mem_filterMap.mp h
  obtain ⟨d, hd, he⟩ := Option.map_eq_some_iff.mp hk
  cases he
  exact hd

end

/-- **A run that renews none of the keys** leaves every one of them due. -/
theorem due_run {keys : List String} {t : Instant} {w : Round} {steps : List Interim}
    (hkeys : ∀ key ∈ keys, (w.store.cell key).Due t)
    (h : w.All (fun w step => ¬step.Renews keys t w) steps) {key : String} (hk : key ∈ keys) :
    ((w.run steps).store.cell key).Due t := by
  refine Round.run_of_act (P := fun w => (w.store.cell key).Due t) (fun w step hstep hw => ?_)
    (hkeys key hk) h
  cases step with
  | call draws op => exact due_apply hw fun hr => hstep ⟨key, hk, hr⟩
  | wait δ => exact hw

/-- A key that a round deletes was due when the round read the clock. -/
theorem Round.mem_doomed {w : Round} {draws : Draws} {before : List Interim} {key : String}
    (h : key ∈ w.doomed draws before) :
    ∃ t, (w.store.cell key).deadline = some t ∧ t ≤ (w.run before).now := by
  obtain ⟨t, ht, hnow⟩ := TtlEvictionDaemon.mem_keysToDelete.mp h
  exact ⟨t, mem_sampleEvictionIndex ht, hnow⟩

/-- **Eviction spares what is alive.**  From any store, a round samples, the clients make any calls
and time passes, the round reads the clock, the clients go on, the round deletes.  If no call
renews a key that was due when the round read the clock, so that it lives beyond the deleting, each
key that is there to be deleted has a deadline that has passed. -/
theorem evicts_expired_only (w : Round) (draws : Draws) (before after : List Interim)
    (h : w.All (fun w' step => ¬step.Renews (w.doomed draws before)
      (w.run (before ++ after)).now w') (before ++ after)) :
    EvictsExpired (w.run (before ++ after)) (w.doomed draws before) := by
  intro key hkey hvalue
  have hle : (w.run before).now ≤ (w.run (before ++ after)).now := by
    rw [Round.run_append]
    exact Round.now_le_run _ _
  refine due_run (fun key hk _ => ?_) h hkey hvalue
  obtain ⟨t, ht, hnow⟩ := Round.mem_doomed hk
  exact ⟨t, ht, Nat.le_trans hnow hle⟩

/-- `k` has expired and `j` has not. -/
def dueAndNot : StoreInner :=
  ((((Store.new.putData "k" (.str "v")).putExpiry "k" 1000).putData "j" (.str "v")).putExpiry "j"
    1000000000)

/-- `k` expires while a client sets `j` and lets `k` live a little longer. -/
theorem evicts_read_key :
    EvictsExpired
      ((Round.mk dueAndNot 0).run
        ([.call .sorted (.setTtl "k" 1500), .wait 2000] ++ [.call .sorted (.setString "j" "w")]))
      ((Round.mk dueAndNot 0).doomed .sorted [.call .sorted (.setTtl "k" 1500), .wait 2000]) := by
  refine evicts_expired_only (Round.mk dueAndNot 0) .sorted
    [.call .sorted (.setTtl "k" 1500), .wait 2000] [.call .sorted (.setString "j" "w")]
    ⟨?_, fun h => h, ?_, trivial⟩
  · rintro ⟨key, -, -, -, hlt⟩
    exact absurd hlt (by decide)
  · rintro ⟨key, hkey, rfl⟩
    obtain ⟨t, ht, hle⟩ := Round.mem_doomed hkey
    cases ht
    exact absurd hle (by decide)

/-- `k` had expired when it was sampled, and is set before the daemon deletes it. -/
theorem evicts_renewed_key : ¬∀ (w : Round) (draws : Draws) (before after : List Interim),
    EvictsExpired (w.run (before ++ after)) (w.doomed draws before) := by
  intro h
  have hkeys : ((Store.new.putData "k" (.str "v")).putExpiry "k" 1000).expiryIndex.keys.card ≤
    20 := by decide
  have hk : "k" ∈ Draws.sorted.sample
      ((Store.new.putData "k" (.str "v")).putExpiry "k" 1000).expiryIndex.keys 20 := by
    rw [← List.mem_toFinset, Draws.toFinset_sample _ hkeys]
    decide
  have hdoomed : "k" ∈ (Round.mk ((Store.new.putData "k" (.str "v")).putExpiry "k" 1000)
      2000).doomed .sorted [] :=
    TtlEvictionDaemon.mem_keysToDelete.mpr
      ⟨1000, List.mem_filterMap.mpr ⟨"k", hk, rfl⟩, by decide⟩
  obtain ⟨d, hd, -⟩ := h (Round.mk ((Store.new.putData "k" (.str "v")).putExpiry "k" 1000) 2000)
    .sorted [] [.call .sorted (.setString "k" "w")] "k" hdoomed rfl
  cases hd

end Thesaurus
