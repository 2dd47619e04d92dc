import Thesaurus.Cells.Replies

/-!
# Log — the reply `0`

The handler does not append a command that was answered with `0`, as if nothing had happened.
What a client can see of a store is its live keys, with their values and deadlines; it is the
same before and after such a command, unless an absolute deadline in the past deleted a live key,
or an SADD of no member created an empty set.
-/

namespace Thesaurus
open StoreInner

/-- What a client can see of a key: its value and its deadline, if it is live. -/
def StoreInner.visible (s : StoreInner) (now : Instant) (key : String) :
    Option (StoreValue × Option Instant) :=
  (s.get now key).map fun v => (v, s.expiryIndex.lookup key)

/-- The same keys are live, with the same values and deadlines. -/
def SameVisible (now : Instant) (s s' : StoreInner) : Prop :=
  ∀ key, s.visible now key = s'.visible now key

/-- A command that replies `0` and changes what a client can see: an absolute deadline in the
past on a live key, or an SADD of no member to a key that is not live. -/
def ZeroChanges (c : Clock) (s : StoreInner) : Command → Prop
  | .expireAt key deadlineSecs => deadlineSecs.toNat ≤ c.nowSecs ∧ (s.get c.mono key).isSome
  | .pExpireAt key deadlineMs  => deadlineMs.toNat ≤ c.nowMillis ∧ (s.get c.mono key).isSome
  | .sAdd key members          => members = [] ∧ s.get c.mono key = none
  | _                          => False

/-- What a client can see of a cell. -/
def Cell.visible (now : Instant) (x : Cell) : Option (StoreValue × Option Instant) :=
  (x.live now).map fun v => (v, x.deadline)

theorem visible_eq (s : StoreInner) (now : Instant) (key : String) :
    s.visible now key = (s.cell key).visible now := rfl

theorem visible_eq_none_iff {now : Instant} {x : Cell} :
    x.visible now = none ↔ x.live now = none := by
  unfold Cell.visible
  exact Option.map_eq_none_iff

theorem sameVisible_setCell_iff {now : Instant} {s : StoreInner} {key : String} {x : Cell} :
    SameVisible now s (s.setCell key x) ↔ (s.cell key).visible now = x.visible now := by
  constructor
  · intro h
    simpa [visible_eq] using h key
  · intro h k
    rw [visible_eq, visible_eq, cell_setCell]
    split
    · next he => rw [he, h]
    · rfl

theorem live_eq_none_of_value {now : Instant} {x : Cell} (h : x.value = none) :
    x.live now = none := by
  unfold Cell.live
  split
  · rfl
  · exact h

/-- DEL replies `0` when there was none of its keys. -/
theorem sameVisible_delete {ex : Executor} {env : Env} {s : StoreInner} {keys : List String}
    (h₀ : (ex.exec env (.delete keys) s).1 = some (.integer 0)) :
    SameVisible env.clock.mono s (ex.exec env (.delete keys) s).2 := by
  rw [exec_delete] at h₀ ⊢
  have hn : deletedCount keys s = 0 := by simpa using h₀
  intro k
  rw [visible_eq, visible_eq, cell_deleteBulk]
  split
  · next hk =>
      rw [visible_eq_none_iff.mpr (live_eq_none_of_value (deletedCount_eq_zero hn k hk)),
        visible_eq_none_iff.mpr (Cell.live_empty _)]
  · rfl

/-- SMOVE replies `0` when it moves nothing. -/
theorem sMove_zero {ex : Executor} {env : Env} {s : StoreInner} {source destination member : String}
    (h₀ : (ex.exec env (.sMove source destination member) s).1 = some (.integer 0)) :
    (ex.exec env (.sMove source destination member) s).2 = s := by
  rw [exec_sMove] at h₀ ⊢
  by_cases hm : ∃ set, Moves env.clock.mono s source destination member set
  · obtain ⟨set, hm⟩ := hm
    rw [smove_of_moves _ _ hm] at h₀
    exact absurd (Option.some.inj h₀) (by simp [replyOf, boolReply])
  · rw [smove_of_not_moves env.clock.mono s fun set h => hm ⟨set, h⟩]

theorem get_isSome_iff {s : StoreInner} {now : Instant} {key : String} :
    (s.get now key).isSome ↔ ((s.cell key).visible now).isSome := by
  rw [get_eq_live, Cell.visible, Option.isSome_map]

/-- The two commands that change what is visible, on the cell of their key. -/
theorem visible_ne_of_zeroChanges {ex : Executor} {env : Env} {cmd : Command} {s : StoreInner}
    {key : String} {g : Cell → Reply × Cell} (hg : Cell.exec ex env cmd = some (key, g))
    (hz : ZeroChanges env.clock s cmd) :
    (s.cell key).visible env.clock.mono ≠ (g (s.cell key)).2.visible env.clock.mono := by
  cases cmd with
  | expireAt key deadlineSecs | pExpireAt key deadlineMs =>
      obtain ⟨hp, hl⟩ := hz
      cases hg
      have he : ∀ deadline x, (Cell.expireBy true deadline x).2 = Cell.empty := fun _ _ => rfl
      intro h
      rw [get_isSome_iff, h, decide_eq_true hp, he] at hl
      cases hl
  | sAdd key members =>
      obtain ⟨rfl, hl⟩ := hz
      cases hg
      rw [get_eq_live] at hl
      have hc : (Cell.sadd env.clock.mono [] (s.cell key)).2 = ⟨some (.set ∅), none⟩ := by
        rw [Cell.sadd, hl]
        rfl
      intro h
      rw [visible_eq_none_iff.mpr hl] at h
      have hnone : Cell.live env.clock.mono (Cell.sadd env.clock.mono [] (s.cell key)).2 = none :=
        visible_eq_none_iff.mp h.symm
      rw [hc] at hnone
      cases hnone
  | _ => exact hz.elim

/-- A reply of `0` from a command on one key. -/
theorem sameVisible_iff_of_exec {ex : Executor} {env : Env} {cmd : Command} {s : StoreInner}
    {key : String} {g : Cell → Reply × Cell} (hg : Cell.exec ex env cmd = some (key, g))
    (h₀ : (ex.exec env cmd s).1 = some (.integer 0)) :
    SameVisible env.clock.mono s (ex.exec env cmd s).2 ↔ ¬ZeroChanges env.clock s cmd := by
  rw [exec_eq_at ex env s hg, keyed_at] at h₀ ⊢
  rw [sameVisible_setCell_iff]
  refine ⟨fun h hz => visible_ne_of_zeroChanges hg hz h, fun hz => ?_⟩
  rcases Cell.exec_zero hg h₀ with h | ⟨hp, h⟩ | ⟨rfl, hl, -⟩
  · rw [h]
  · have hl : (s.cell key).live env.clock.mono = none := by
      by_contra hne
      have hsome := Option.isSome_iff_ne_none.mpr hne
      cases cmd with
      | expireAt _ _ | pExpireAt _ _ => cases hg; exact hz ⟨hp, hsome⟩
      | _ => exact hp.elim
    rw [h, visible_eq_none_iff.mpr hl, visible_eq_none_iff.mpr (Cell.live_empty _)]
  · cases hg
    exact absurd ⟨rfl, hl⟩ hz

/-- **What a reply of `0` leaves out.**  A write answered with `0` leaves what a client can see
as it was, unless it is an absolute deadline in the past on a live key, or an SADD of no member
to a key that is not live. -/
theorem zero_reply_iff (ex : Executor) (env : Env) (cmd : Command) (s : StoreInner)
    (hw : cmd.isWrite = true) (h₀ : (ex.exec env cmd s).1 = some (.integer 0)) :
    SameVisible env.clock.mono s (ex.exec env cmd s).2 ↔ ¬ZeroChanges env.clock s cmd := by
  cases cmd with
  | delete keys => exact iff_of_true (sameVisible_delete h₀) id
  | sMove source destination member =>
      exact iff_of_true (by rw [sMove_zero h₀]; exact fun _ => rfl) id
  | mSet items => rw [exec_mSet] at h₀; cases h₀
  | flushDb mode => rw [exec_flushDb] at h₀; cases h₀
  | set | getDel | lPush | rPush | lPushX | rPushX | lPop | rPop | sAdd | sPop | sRem | persist
  | expire | pExpire | expireAt | pExpireAt => exact sameVisible_iff_of_exec rfl h₀
  | _ => cases hw

/-- PERSIST on a key without a deadline. -/
theorem zero_reply_persist :
    SameVisible 0 (Store.new.putData "k" (.str "v"))
      (Executor.plain.exec (Env.at 0 0) (.persist "k") (Store.new.putData "k" (.str "v"))).2 :=
  (zero_reply_iff .plain (Env.at 0 0) (.persist "k") (Store.new.putData "k" (.str "v"))
    rfl rfl).mpr id

/-- EXPIREAT `k` 0 on a live key replies `0` and the key is gone. -/
theorem zero_reply_expireAt :
    ¬∀ (ex : Executor) (env : Env) (cmd : Command) (s : StoreInner), cmd.isWrite = true →
      (ex.exec env cmd s).1 = some (.integer 0) →
      SameVisible env.clock.mono s (ex.exec env cmd s).2 := fun h =>
  absurd (h .plain (Env.at 0 0) (.expireAt "k" 0) (Store.new.putData "k" (.str "v")) rfl rfl "k")
    (by decide)

end Thesaurus
