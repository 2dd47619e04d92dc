import Thesaurus.Cells.Frame
import Thesaurus.Model.Server

/-!
# Expiry — keys that come back

A key whose deadline has passed is missing for every read, and should be missing for the commands
on deadlines too.  But `set_ttl` and `persist` look for the key in the maps only, where it stays
until the daemon happens to delete it.

* `expired_stays_missing_iff`: such a command replies as for a missing key, and the key is missing
  ever after, exactly when the command does not find the expired key.
-/

namespace Thesaurus
open StoreInner

/-- The commands that give a key a deadline or take it away. -/
def Command.setsDeadline (key : String) : Command → Prop
  | .expire k _ | .pExpire k _ | .expireAt k _ | .pExpireAt k _ | .persist k => k = key
  | _ => False

/-- The deadline of the key has passed. -/
def Expired (w : Server) (key : String) : Prop :=
  ∃ d, w.store.expiryIndex.lookup key = some d ∧ d ≤ w.clock.mono

/-- The command finds an expired key in the maps: PERSIST its deadline, the others its value, with
a deadline that they can set. -/
def FindsExpired (w : Server) : Command → Prop
  | .persist _ => True
  | .expire key seconds =>
      (w.store.data.lookup key).isSome ∧
        (w.clock.mono.checkedAdd (Duration.fromSecs seconds.toNat)).isSome
  | .pExpire key milliseconds =>
      (w.store.data.lookup key).isSome ∧
        (w.clock.mono.checkedAdd (Duration.fromMillis milliseconds.toNat)).isSome
  | .expireAt key deadlineSecs =>
      (w.store.data.lookup key).isSome ∧ w.clock.nowSecs < deadlineSecs.toNat ∧
        (Executor.unixSecsToInstant w.clock deadlineSecs).isSome
  | .pExpireAt key deadlineMs =>
      (w.store.data.lookup key).isSome ∧ w.clock.nowMillis < deadlineMs.toNat ∧
        (Executor.unixMsToInstant w.clock deadlineMs).isSome
  | _ => False

/-- GET, EXISTS, LLEN and SCARD reply as for a missing key. -/
def ReadsMissing (ex : Executor) (w : Server) (key : String) : Prop :=
  ∀ draws,
    (ex.exec ⟨w.clock, draws⟩ (.get key) w.store).1 = some (.bulkString none) ∧
    (ex.exec ⟨w.clock, draws⟩ (.exists [key]) w.store).1 = some (.integer 0) ∧
    (ex.exec ⟨w.clock, draws⟩ (.lLen key) w.store).1 = some (.integer 0) ∧
    (ex.exec ⟨w.clock, draws⟩ (.sCard key) w.store).1 = some (.integer 0)

/-- No command writes the key, and the monotonic clock does not go back. -/
def LeavesKey (key : String) (w : Server) : Action → Prop
  | .execute _ cmd => key ∉ cmd.writeKeys
  | .evict _       => True
  | .advance c     => w.clock.mono ≤ c.mono

/-- The key is missing now and after every run that does not write it. -/
def StaysMissing (ex : Executor) (w : Server) (key : String) : Prop :=
  ∀ actions, w.All ex (LeavesKey key) actions → ReadsMissing ex (w.run ex actions) key

/-! ### Missing for good -/

/-- The cell has no value, or a deadline that has passed. -/
def Cell.Gone (now : Instant) (x : Cell) : Prop := x.value = none ∨ x.expired now = true

variable {ex : Executor}

namespace Cell

theorem Gone.live {now : Instant} {x : Cell} (h : x.Gone now) : x.live now = none := by
  unfold Cell.live
  rcases h with h | h
  · split
    · rfl
    · exact h
  · exact if_pos h

theorem Gone.mono {now now' : Instant} {x : Cell} (h : x.Gone now) (hle : now ≤ now') :
    x.Gone now' := by
  refine h.imp_right fun he => ?_
  rw [expired, Option.any_eq_true] at he ⊢
  obtain ⟨d, hd, hdn⟩ := he
  exact ⟨d, hd, decide_eq_true (Nat.le_trans (of_decide_eq_true hdn) hle)⟩

theorem gone_empty (now : Instant) : empty.Gone now := .inl rfl

end Cell

theorem readsMissing_of_gone {w : Server} {key : String}
    (h : (w.store.cell key).Gone w.clock.mono) : ReadsMissing ex w key := by
  have hl : (w.store.cell key).live w.clock.mono = none := h.live
  intro draws
  refine ⟨?_, ?_, ?_, ?_⟩
  · show some (replyOf RespValue.bulkString (Store.asString (Store.get w.store w.clock.mono key))) = _
    rw [Store.get_eq_live, hl]
    rfl
  · have he : StoreOp.apply w.clock.mono draws (.exists key) w.store = (false, w.store) := by
      rw [apply_exists, hl]
      rfl
    show some (RespValue.integer (Bool.toNat
      (StoreOp.apply w.clock.mono draws (.exists key) w.store).1 + 0 : Nat)) = _
    rw [he]
    rfl
  · show some (replyOf (fun n => RespValue.integer (Int.ofNat n))
      (Store.llen w.store w.clock.mono key)) = _
    rw [Store.llen, get_eq_live, hl]
    rfl
  · show some (replyOf (fun n => RespValue.integer (Int.ofNat n))
      (Store.scard w.store w.clock.mono key)) = _
    rw [Store.scard, get_eq_live, hl]
    rfl

/-- **A key that is gone stays gone** while no command writes it. -/
theorem gone_act {key : String} {w : Server} {a : Action} (ha : LeavesKey key w a)
    (h : (w.store.cell key).Gone w.clock.mono) :
    ((w.act ex a).store.cell key).Gone (w.act ex a).clock.mono := by
  cases a with
  | execute draws cmd =>
      have hframe := exec_frame ex ⟨w.clock, draws⟩ w.store ha
      rw [Server.act]
      rcases hframe with he | he
      · rwa [he]
      · rw [he]; exact Cell.gone_empty _
  | evict draws =>
      rw [Server.act, TtlEvictionDaemon.run_evictExpired, cell_deleteBulk]
      split
      · exact Cell.gone_empty _
      · exact h
  | advance c => exact h.mono ha

theorem staysMissing_of_gone {w : Server} {key : String}
    (h : (w.store.cell key).Gone w.clock.mono) : StaysMissing ex w key := fun _ hall =>
  readsMissing_of_gone (Server.run_of_act
    (P := fun w => (w.store.cell key).Gone w.clock.mono) (fun _ _ ha hw => gone_act ha hw) h hall)

/-! ### The commands -/

/-- On the cell `x` the command either replies otherwise than on an empty cell, which it does
when `P` holds, or replies the same and leaves the cell gone. -/
def Revives (P : Prop) (g : Cell → Reply × Cell) (now : Instant) (x : Cell) : Prop :=
  (P ∧ (g x).1 ≠ (g Cell.empty).1) ∨
    (¬P ∧ (g x).1 = (g Cell.empty).1 ∧ (g x).2.Gone now)

theorem setTtl_none {x : Cell} (h : x.value.isSome = false) (t : Instant) :
    x.setTtl t = (false, x) := by
  rw [Cell.setTtl, h]
  rfl

theorem setTtl_some {x : Cell} (h : x.value.isSome = true) (t : Instant) :
    (x.setTtl t).1 = true := by
  rw [Cell.setTtl, h]
  rfl

/-- The last call of the four EXPIRE commands. -/
theorem revives_setTtl {now t : Instant} {x : Cell} (hx : x.expired now = true) :
    Revives (x.value.isSome) (fun x => Cell.reply (fun b => some (boolReply b)) (x.setTtl t)) now
      x := by
  cases hv : x.value.isSome with
  | true =>
      refine .inl ⟨rfl, ?_⟩
      simp only [Cell.reply, setTtl_some hv]
      simp [Cell.setTtl, Cell.empty, boolReply]
  | false =>
      refine .inr ⟨Bool.false_ne_true, ?_⟩
      simp only [Cell.reply, setTtl_none hv]
      exact ⟨rfl, .inr hx⟩

/-- EXPIRE and PEXPIRE. -/
theorem revives_expireIn {c : Clock} {d : Duration} {x : Cell} (hx : x.expired c.mono = true) :
    Revives (x.value.isSome ∧ (c.mono.checkedAdd d).isSome) (Cell.expireIn c d) c.mono x := by
  have hset := fun t => revives_setTtl (t := t) hx
  unfold Revives Cell.expireIn at *
  cases c.mono.checkedAdd d with
  | none => exact .inr ⟨by simp, rfl, .inr hx⟩
  | some t => simpa using hset t

/-- EXPIREAT and PEXPIREAT. -/
theorem revives_expireBy {now : Instant} (past : Prop) [Decidable past]
    (deadline : Option Instant) {x : Cell} (hx : x.expired now = true) :
    Revives (x.value.isSome ∧ ¬past ∧ deadline.isSome) (Cell.expireBy (decide past) deadline) now
      x := by
  have hset := fun t => revives_setTtl (t := t) hx
  unfold Revives Cell.expireBy at *
  by_cases hp : past
  · exact .inr ⟨fun h => h.2.1 hp, by simp [hp], by simp [hp, Cell.gone_empty]⟩
  · cases deadline with
    | none => exact .inr ⟨by simp, by simp [hp], by simpa [hp] using .inr hx⟩
    | some t => simpa [hp] using hset t

/-- PERSIST. -/
theorem revives_persist {now : Instant} {x : Cell} (hx : x.expired now = true) :
    Revives True (fun x => Cell.reply (fun b => some (boolReply b)) x.persist) now x := by
  have hd : x.deadline.isSome := by
    rw [Cell.expired, Option.any_eq_true] at hx
    obtain ⟨d, hd, -⟩ := hx
    rw [hd]
    rfl
  refine .inl ⟨trivial, ?_⟩
  simp [Cell.reply, Cell.persist, hd, Cell.empty, boolReply]

/-- **Who revives an expired key.**  On a key whose deadline has passed, EXPIRE, PEXPIRE,
EXPIREAT, PEXPIREAT and PERSIST reply as for a missing key, and leave the key missing at every
later time, exactly when the command does not find the expired key in the maps. -/
theorem expired_stays_missing_iff (ex : Executor) (w : Server) (draws : Draws) (cmd : Command)
    (key : String) (hcmd : cmd.setsDeadline key) (hexp : Expired w key) :
    ((ex.exec ⟨w.clock, draws⟩ cmd w.store).1 =
          (ex.exec ⟨w.clock, draws⟩ cmd (Store.delete w.store key).2).1 ∧
        StaysMissing ex (w.act ex (.execute draws cmd)) key) ↔
      ¬FindsExpired w cmd := by
  obtain ⟨d, hd, hdn⟩ := hexp
  have hx : (w.store.cell key).expired w.clock.mono = true := by
    rw [Cell.expired, Option.any_eq_true]
    exact ⟨d, hd, decide_eq_true hdn⟩
  have hdel : (Store.delete w.store key).2.cell key = Cell.empty := by
    have := congrArg (fun r => r.2.cell key) (apply_delete 0 draws w.store key)
    rwa [keyed_at, cell_setCell_self] at this
  -- each of the commands is a function on the cell of its key
  have hcell : ∀ {g}, Cell.exec ex ⟨w.clock, draws⟩ cmd = some (key, g) →
      Revives (FindsExpired w cmd) g w.clock.mono (w.store.cell key) →
      (((ex.exec ⟨w.clock, draws⟩ cmd w.store).1 =
            (ex.exec ⟨w.clock, draws⟩ cmd (Store.delete w.store key).2).1 ∧
          StaysMissing ex (w.act ex (.execute draws cmd)) key) ↔ ¬FindsExpired w cmd) := by
    intro g hg hr
    have h₁ := exec_eq_at ex ⟨w.clock, draws⟩ w.store hg
    have h₂ := exec_eq_at ex ⟨w.clock, draws⟩ (Store.delete w.store key).2 hg
    rw [keyed_at] at h₁ h₂
    rw [hdel] at h₂
    rw [Server.act, h₁, h₂]
    rcases hr with ⟨hf, hne⟩ | ⟨hf, hr, hgone⟩
    · exact iff_of_false (fun h => hne h.1) (fun h => h hf)
    · refine iff_of_true ⟨hr, staysMissing_of_gone ?_⟩ hf
      rwa [cell_setCell_self]
  cases cmd with
  | persist k => cases hcmd; exact hcell rfl (revives_persist hx)
  | expire k seconds => cases hcmd; exact hcell rfl (revives_expireIn hx)
  | pExpire k milliseconds => cases hcmd; exact hcell rfl (revives_expireIn hx)
  | expireAt k deadlineSecs =>
      cases hcmd
      have hr := revives_expireBy (deadlineSecs.toNat ≤ w.clock.nowSecs)
        (Executor.unixSecsToInstant w.clock deadlineSecs) hx
      simp only [Nat.not_le] at hr
      exact hcell rfl hr
  | pExpireAt k deadlineMs =>
      cases hcmd
      have hr := revives_expireBy (deadlineMs.toNat ≤ w.clock.nowMillis)
        (Executor.unixMsToInstant w.clock deadlineMs) hx
      simp only [Nat.not_le] at hr
      exact hcell rfl hr
  | _ => exact hcmd.elim

/-- EXPIRE on a ghost: the value is gone, the deadline has passed. -/
theorem expired_stays_missing_ghost :
    Expired ⟨Store.new.putExpiry "k" 5, Clock.at 0 5⟩ "k" ∧
      StaysMissing .plain (Server.act .plain ⟨Store.new.putExpiry "k" 5, Clock.at 0 5⟩
        (.execute .sorted (.expire "k" 10))) "k" :=
  ⟨⟨5, rfl, le_refl 5⟩,
    ((expired_stays_missing_iff .plain ⟨Store.new.putExpiry "k" 5, Clock.at 0 5⟩ .sorted
      (.expire "k" 10) "k" rfl ⟨5, rfl, le_refl 5⟩).mpr fun h => Bool.false_ne_true h.1).2⟩

/-- The deadline of `k` passed at 5, and PERSIST `k` brings it back. -/
theorem persist_revives :
    ¬∀ (ex : Executor) (w : Server) (draws : Draws) (cmd : Command) (key : String),
      cmd.setsDeadline key → Expired w key →
      (ex.exec ⟨w.clock, draws⟩ cmd w.store).1 =
          (ex.exec ⟨w.clock, draws⟩ cmd (Store.delete w.store key).2).1 ∧
        StaysMissing ex (w.act ex (.execute draws cmd)) key := fun h => by
  have hmissing := (h .plain ⟨(Store.new.putData "k" (.str "v")).putExpiry "k" 5, Clock.at 0 5⟩
    .sorted (.persist "k") "k" rfl ⟨5, rfl, le_refl 5⟩).2 [] trivial .sorted
  have hget : some (RespValue.bulkString (some "v")) = some (.bulkString none) := hmissing.1
  cases hget

end Thesaurus
