import Thesaurus.Expiry.Eviction
import Thesaurus.Expiry.Unobserved
import Thesaurus.Model.Server

/-!
# Expiry — the daemon is invisible

Clients that use commands on values cannot tell when the eviction daemon makes its rounds, or
whether it makes any.  Expired keys are hidden by every such command, so a round only frees memory.

* `SameUnexpired now s t`: the stores differ in expired keys at most; commands on values and the
  clock keep this (`SameUnexpired.exec`, `SameUnexpired.later`).
* `daemon_invisible`: over every run the replies are those of the run without the rounds.
-/

namespace Thesaurus
open StoreInner

/-! ### Stores without their expired keys -/

/-- The stores are the same but for what has expired. -/
def SameUnexpired (now : Instant) (s t : StoreInner) : Prop := s.dropExpired now = t.dropExpired now

/-- The same reply, or the same keys in another order. -/
inductive SameReply : Reply → Reply → Prop where
  | refl (r : Reply) : SameReply r r
  | perm {ks ks' : List String} (h : ks.Perm ks') :
      SameReply (some (bulkReply ks)) (some (bulkReply ks'))

variable {ex : Executor} {now : Instant} {s t : StoreInner}

theorem Cell.unexpired_later {now now' : Instant} (h : now ≤ now') (x : Cell) :
    (x.unexpired now).unexpired now' = x.unexpired now' := by
  by_cases hx : x.expired now = true
  · have hx' : x.expired now' = true := by
      simp only [expired, Option.any_eq_true, decide_eq_true_eq] at hx ⊢
      obtain ⟨d, hd, hle⟩ := hx
      exact ⟨d, hd, hle.trans h⟩
    rw [unexpired_of_expired hx, unexpired_of_expired hx', unexpired_empty]
  · simp [unexpired, hx]

theorem evicted_dropExpired (now : Instant) (s : StoreInner) :
    Evicted now s (s.dropExpired now) := by
  refine .deleteBulk ?_
  intro k hk
  exact (List.mem_filter.mp hk).2

namespace SameUnexpired

theorem of_evicted (h : Evicted now s t) : SameUnexpired now s t := h.dropExpired

theorem unexpired (h : SameUnexpired now s t) (k : String) :
    (s.cell k).unexpired now = (t.cell k).unexpired now := by
  rw [← cell_dropExpired, ← cell_dropExpired, h]

/-- What has expired goes on to be expired. -/
theorem later {now' : Instant} (h : SameUnexpired now s t) (hle : now ≤ now') :
    SameUnexpired now' s t := by
  refine dropExpired_congr ?_
  intro k
  rw [← Cell.unexpired_later hle, h.unexpired k, Cell.unexpired_later hle]

theorem live (h : SameUnexpired now s t) (k : String) :
    (s.cell k).live now = (t.cell k).live now := by
  rw [← (evicted_dropExpired now s).live k, h, (evicted_dropExpired now t).live k]

/-- KEYS shows a key that is live and matches. -/
theorem mem_keys {draws : Draws} {pattern : Bytes} {k : String} :
    k ∈ Store.keys s now draws pattern ↔
      ((s.cell k).live now).isSome = true ∧
        (pattern == [42] || Pattern.stringMatch k pattern) = true := by
  rw [keys_eq_filter, List.mem_filter, draws.mem_iter, mem_keys_iff_cell, shown, Cell.live]
  cases (s.cell k).expired now <;> simp

theorem keys (h : SameUnexpired now s t) (draws : Draws) (pattern : Bytes) :
    (Store.keys s now draws pattern).Perm (Store.keys t now draws pattern) := by
  refine (List.perm_ext_iff_of_nodup ?_ ?_).mpr ?_
  · exact (draws.iter_nodup _).filter _
  · exact (draws.iter_nodup _).filter _
  · intro k
    rw [mem_keys, mem_keys, h.live k]

/-- **One command.** -/
theorem exec (ex : Executor) (env : Env) {cmd : Command} (hcmd : cmd.onValues = true)
    (h : SameUnexpired env.clock.mono s t) :
    SameReply (ex.exec env cmd s).1 (ex.exec env cmd t).1 ∧
      SameUnexpired env.clock.mono (ex.exec env cmd s).2 (ex.exec env cmd t).2 := by
  by_cases hkeys : ∃ pattern, cmd = .keys pattern
  · obtain ⟨pattern, rfl⟩ := hkeys
    exact ⟨.perm (h.keys env.draws (Bytes.utf8 pattern)), h⟩
  · have hnot : ∀ pattern, cmd ≠ .keys pattern := by
      intro pattern he
      exact hkeys ⟨pattern, he⟩
    -- both stores are compared with the one that holds nothing expired
    have hdrop : ∀ s : StoreInner,
        (ex.exec env cmd (s.dropExpired env.clock.mono)).1 = (ex.exec env cmd s).1 ∧
          SameUnexpired env.clock.mono (ex.exec env cmd (s.dropExpired env.clock.mono)).2
            (ex.exec env cmd s).2 := by
      intro s
      exact exec_unobserved hcmd hnot (evicted_dropExpired env.clock.mono s)
    obtain ⟨hs, hs'⟩ := hdrop s
    obtain ⟨ht, ht'⟩ := hdrop t
    rw [h] at hs hs'
    refine ⟨?_, ?_⟩
    · rw [← hs, ht]
      exact .refl _
    · exact hs'.symm.trans ht'

end SameUnexpired

/-! ### Runs -/

/-- The action is a round of the daemon. -/
def Action.isEvict : Action → Bool
  | .evict _ => true
  | _        => false

/-- The actions without the rounds of the daemon. -/
def undisturbed (actions : List Action) : List Action := actions.filter fun a => !a.isEvict

namespace Server

/-- The replies of a run. -/
def replies (ex : Executor) (w : Server) : List Action → List Reply
  | []                            => []
  | .execute draws cmd :: actions =>
      (ex.exec ⟨w.clock, draws⟩ cmd w.store).1 ::
        replies ex (w.act ex (.execute draws cmd)) actions
  | a :: actions                  => replies ex (w.act ex a) actions

/-- The clients use commands on values, and the monotonic clock does not go back. -/
def OnValues (w : Server) : Action → Prop
  | .execute _ cmd => cmd.onValues = true
  | .evict _       => True
  | .advance c     => w.clock.mono ≤ c.mono

/-- A round deletes expired keys. -/
theorem sameUnexpired_evict (ex : Executor) (w : Server) (draws : Draws) :
    SameUnexpired w.clock.mono w.store (w.act ex (.evict draws)).store := by
  refine .of_evicted (Evicted.deleteBulk ?_)
  intro k hk
  obtain ⟨d, hd, hle⟩ := TtlEvictionDaemon.mem_keysToDelete.mp hk
  simp [Cell.expired, mem_sampleEvictionIndex hd, hle]

/-- Runs from stores that are the same but for what has expired, one of them without the daemon. -/
theorem invisible_from {w w' : Server} (hclock : w'.clock = w.clock)
    (hstore : SameUnexpired w.clock.mono w.store w'.store) {actions : List Action}
    (h : w.All ex OnValues actions) :
    List.Forall₂ SameReply (w.replies ex actions) (w'.replies ex (undisturbed actions)) ∧
      SameUnexpired (w.run ex actions).clock.mono (w.run ex actions).store
        (w'.run ex (undisturbed actions)).store := by
  induction actions generalizing w w' with
  | nil => exact ⟨.nil, hstore⟩
  | cons a actions ih =>
      cases a with
      | execute draws cmd =>
          obtain ⟨hreply, hnext⟩ := SameUnexpired.exec ex ⟨w.clock, draws⟩ h.1 hstore
          have hact : (w'.act ex (.execute draws cmd)).store =
              (ex.exec ⟨w.clock, draws⟩ cmd w'.store).2 := by rw [act, hclock]
          have hnext : SameUnexpired (w.act ex (.execute draws cmd)).clock.mono
              (w.act ex (.execute draws cmd)).store (w'.act ex (.execute draws cmd)).store := by
            rw [hact]
            exact hnext
          have hclock' : (w'.act ex (.execute draws cmd)).clock =
              (w.act ex (.execute draws cmd)).clock := hclock
          obtain ⟨hreplies, hend⟩ := ih hclock' hnext h.2
          refine ⟨.cons ?_ hreplies, hend⟩
          rw [hclock]
          exact hreply
      | evict draws =>
          have hround := sameUnexpired_evict ex w draws
          exact ih hclock (hround.symm.trans hstore) h.2
      | advance c => exact ih rfl (hstore.later h.1) h.2

end Server

/-- **The daemon is invisible.**  A run of commands on values, rounds of the daemon and advances of
the clock, from any store: the replies are those of the run without the rounds, KEYS in another
order perhaps, and the stores differ in expired keys at most. -/
theorem daemon_invisible (ex : Executor) {w : Server} {actions : List Action}
    (h : w.All ex Server.OnValues actions) :
    List.Forall₂ SameReply (w.replies ex actions) (w.replies ex (undisturbed actions)) ∧
      SameUnexpired (w.run ex actions).clock.mono (w.run ex actions).store
        (w.run ex (undisturbed actions)).store :=
  Server.invisible_from rfl rfl h

/-- LPUSH to a key that expired, after a round that deletes it. -/
theorem daemon_invisible_lPush :
    let w : Server := ⟨(Store.new.putData "k" (.str "v")).putExpiry "k" 1000, Clock.at 0 0⟩
    let actions := [Action.advance (.at 0 2000), .evict .sorted, .execute .sorted (.keys "*"),
      .execute .sorted (.lPush "k" ["a"])]
    List.Forall₂ SameReply (w.replies .plain actions) (w.replies .plain (undisturbed actions)) := by
  intro w actions
  have h : w.All .plain Server.OnValues actions := by
    refine ⟨?_, trivial, rfl, rfl, trivial⟩
    exact Nat.zero_le _
  exact (daemon_invisible .plain h).1

end Thesaurus
