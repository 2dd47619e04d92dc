import Thesaurus.Expiry.Absolute
import Thesaurus.Log.Replay

/-!
# Expiry — relative deadlines in the log

EXPIRE and PEXPIRE are logged as PEXPIREAT: the handler reads the wall clock again and adds the
milliseconds as a `u64`, where the executor had checked the sum on the monotonic clock.  The two
bounds are not the same.

* `logs_deadline_iff`: the entry carries the deadline, and an immediate replay keeps the key,
  exactly when the sum fits in a `u64` and the command asked for some time.
* `set_deadline_replays_iff`: SET is logged with its offset as it is, so the replay gives the key
  the same deadline only at the wall time of the command itself.
-/

namespace Thesaurus
open Bytes StoreInner

/-- The key of EXPIRE or PEXPIRE, and the milliseconds it asks for. -/
def Command.relative : Command → Option (String × Nat)
  | .expire key seconds       => some (key, 1000 * seconds.toNat)
  | .pExpire key milliseconds => some (key, milliseconds.toNat)
  | _                         => none

/-- The entry of the command carries its deadline, and its replay at the same moment keeps the
key. -/
def LogsDeadline (ex : Executor) (env : Env) (frame : RespValue) (s : StoreInner) (cmd : Command)
    (key : String) (millis : Nat) : Prop :=
  aofBytes env.clock frame cmd = encode (pexpireatFrame key (env.clock.nowMillis + millis)) ∧
    ((ex.exec env (cmd.persisted env.clock) (ex.exec env cmd s).2).2.data.lookup key).isSome

/-! ### Entries carry one number -/

theorem encodeBulkString_inj {s t : String}
    (h : encodeBulkString (some s) = encodeBulkString (some t)) : s = t := by
  have hline : ∀ s : String,
      readLine (encodeLine 36 (decimal (utf8 s).length) ++ (utf8 s ++ crlf)) =
        (encodeLine 36 (decimal (utf8 s).length), utf8 s ++ crlf) := fun s =>
    readLine_encodeLine (by decide) (not_mem_decimal (utf8 s).length) (utf8 s ++ crlf)
  have hrest := congrArg (fun bs => (readLine bs).2) h
  simp only [encodeBulkString, hline] at hrest
  exact utf8_injective (List.append_cancel_right hrest)

theorem decimal_inj {m n : Nat} (h : decimal m = decimal n) : m = n := by
  have hdigits := digits_decimal m
  rw [h, digits_decimal] at hdigits
  exact (Option.some.inj hdigits).symm

theorem encode_pexpireatFrame_inj {key : String} {m n : Nat}
    (h : encode (pexpireatFrame key m) = encode (pexpireatFrame key n)) : m = n := by
  simp only [pexpireatFrame, bulkArray, List.map_cons, List.map_nil, encode, encodeItems,
    List.isEmpty_cons, Bool.false_eq_true, if_false, List.length_cons, List.length_nil,
    List.append_cancel_left_eq, List.append_nil] at h
  exact decimal_inj (congrArg utf8 (encodeBulkString_inj h))

/-! ### The command and its entry -/

section

variable {ex : Executor} {env : Env} {s : StoreInner} {cmd : Command} {key : String} {millis : Nat}

/-- The number the entry carries: the product saturates, the sum wraps. -/
def loggedMillis (c : Clock) (millis : Nat) : Nat :=
  (c.nowMillis + min millis (2 ^ 64 - 1)) % 2 ^ 64

theorem min_u64 (n : UInt64) : min n.toNat (2 ^ 64 - 1) = n.toNat :=
  Nat.min_eq_left (Nat.le_pred_of_lt n.toNat_lt)

theorem fromSecs_eq (secs : Nat) : Duration.fromSecs secs = Duration.fromMillis (1000 * secs) := by
  show secs * 1000000000 = 1000 * secs * 1000000
  omega

theorem aofBytes_relative (h : cmd.relative = some (key, millis)) (frame : RespValue) :
    aofBytes env.clock frame cmd =
      encode (pexpireatFrame key (loggedMillis env.clock millis)) := by
  cases cmd with
  | expire k seconds =>
      cases h
      rw [loggedMillis, Nat.mul_comm]
      rfl
  | pExpire k milliseconds =>
      cases h
      rw [loggedMillis, min_u64 milliseconds]
      rfl
  | _ => cases h

theorem persisted_relative (h : cmd.relative = some (key, millis)) :
    cmd.persisted env.clock = .pExpireAt key (UInt64.ofNat (loggedMillis env.clock millis)) := by
  cases cmd with
  | expire k seconds =>
      cases h
      rw [loggedMillis, Nat.mul_comm]
      rfl
  | pExpire k milliseconds =>
      cases h
      rw [loggedMillis, min_u64 milliseconds]
      rfl
  | _ => cases h

/-- EXPIRE and PEXPIRE reply 1: the key has a value, and the deadline is an instant. -/
theorem Cell.expireIn_one {c : Clock} {d : Duration} {x : Cell}
    (h : (expireIn c d x).1 = some (.integer 1)) :
    x.value.isSome ∧ (∃ t, c.mono.checkedAdd d = some t) ∧ (expireIn c d x).2.value = x.value := by
  unfold expireIn at h ⊢
  cases ht : c.mono.checkedAdd d with
  | none => rw [ht] at h; cases h
  | some t =>
      rw [ht] at h
      simp only [reply, setTtl] at h ⊢
      cases hv : x.value with
      | none => rw [hv] at h; cases h
      | some v => exact ⟨rfl, ⟨t, rfl⟩, by simp⟩

theorem exec_relative (h : cmd.relative = some (key, millis)) :
    Cell.exec ex env cmd =
      some (key, Cell.expireIn env.clock (Duration.fromMillis millis)) := by
  cases cmd with
  | expire k seconds =>
      cases h
      rw [← fromSecs_eq]
      rfl
  | pExpire k milliseconds => cases h; rfl
  | _ => cases h

/-- A reply of 1, from the cell of the key.  The duration is any: with a product of literals in its
place, the check of this proof would multiply it out. -/
theorem exec_expireIn_one {d : Duration}
    (hcell : Cell.exec ex env cmd = some (key, Cell.expireIn env.clock d))
    (hreply : (ex.exec env cmd s).1 = some (.integer 1)) :
    (s.cell key).value.isSome ∧ env.clock.mono + d < Instant.limit ∧
      ((ex.exec env cmd s).2.cell key).value = (s.cell key).value := by
  have hexec := exec_eq_at ex env s hcell
  rw [keyed_at] at hexec
  rw [hexec] at hreply
  obtain ⟨hv, ⟨t, ht⟩, hkept⟩ := Cell.expireIn_one hreply
  refine ⟨hv, (Instant.checkedAdd_eq_some.mp ht).1, ?_⟩
  rw [hexec, cell_setCell_self, hkept]

/-- PEXPIREAT with a deadline that is an instant keeps a key with a value exactly when the deadline
is to come. -/
theorem pExpireAt_keeps_iff {deadline : UInt64} (hv : (s.cell key).value.isSome) (hfit :
      env.clock.mono + TimeUnit.millis.offset env.clock deadline < Instant.limit) :
    ((ex.exec env (.pExpireAt key deadline) s).2.data.lookup key).isSome ↔
      env.clock.nowMillis < deadline.toNat := by
  have habs : (Command.pExpireAt key deadline).absolute = some (key, .millis, deadline) := rfl
  have hstep := absolute_step ex env s habs
  rw [lookup_data]
  generalize (ex.exec env (.pExpireAt key deadline) s).1 = reply,
    (ex.exec env (.pExpireAt key deadline) s).2.cell key = x at hstep ⊢
  cases hstep with
  | panics x reach overflow => exact absurd hfit (Nat.not_lt.mpr overflow)
  | stops r x stop past =>
      obtain ⟨-, rfl⟩ := past hv
      exact iff_of_false Bool.false_ne_true stop
  | sets r x reach fits set =>
      obtain ⟨v, rfl⟩ := set hv
      exact iff_of_true rfl reach

end

/-- **When the log has the deadline.**  EXPIRE or PEXPIRE replied 1.  Its entry carries exactly the
milliseconds of the wall clock plus those it asks for, and an immediate replay keeps the key, if and
only if it asks for some and the sum is below `2⁶⁴`. -/
theorem logs_deadline_iff (ex : Executor) (env : Env) (frame : RespValue) (s : StoreInner)
    (cmd : Command) (key : String) (millis : Nat) (h : cmd.relative = some (key, millis))
    (hreply : (ex.exec env cmd s).1 = some (.integer 1)) :
    LogsDeadline ex env frame s cmd key millis ↔
      millis ≠ 0 ∧ env.clock.nowMillis + millis < 2 ^ 64 := by
  obtain ⟨hv, hlimit, hkept⟩ := exec_expireIn_one (exec_relative h) hreply
  have hentry : aofBytes env.clock frame cmd =
      encode (pexpireatFrame key (env.clock.nowMillis + millis)) ↔
      loggedMillis env.clock millis = env.clock.nowMillis + millis := by
    rw [aofBytes_relative h]
    exact ⟨encode_pexpireatFrame_inj, fun he => by rw [he]⟩
  have hnow : env.clock.nowMillis < 2 ^ 64 := Nat.mod_lt _ (by decide)
  have hlogged : (UInt64.ofNat (loggedMillis env.clock millis)).toNat =
      loggedMillis env.clock millis :=
    UInt64.toNat_ofNat_of_lt (Nat.mod_lt _ (by decide))
  -- the sum wraps below the reading it starts from
  have hle : loggedMillis env.clock millis ≤ env.clock.nowMillis + millis := by
    unfold loggedMillis
    omega
  have hfit : env.clock.mono + TimeUnit.millis.offset env.clock
      (UInt64.ofNat (loggedMillis env.clock millis)) < Instant.limit := by
    rw [TimeUnit.offset, hlogged]
    refine Nat.lt_of_le_of_lt (Nat.add_le_add_left (Nat.mul_le_mul_right _ ?_) _) hlimit
    exact Nat.sub_le_iff_le_add'.mpr hle
  unfold LogsDeadline
  rw [hentry, persisted_relative h, pExpireAt_keeps_iff (by rw [hkept]; exact hv) hfit, hlogged]
  unfold loggedMillis
  generalize env.clock.nowMillis = now at hnow ⊢
  omega

/-- EXPIRE `k` 10. -/
theorem logs_deadline_ten :
    LogsDeadline .plain (Env.at 0 0) (bulkArray ["EXPIRE", "k", "10"])
      (Store.new.putData "k" (.str "v")) (.expire "k" 10) "k" 10000 :=
  (logs_deadline_iff .plain (Env.at 0 0) (bulkArray ["EXPIRE", "k", "10"])
    (Store.new.putData "k" (.str "v")) (.expire "k" 10) "k" 10000 rfl rfl).mpr (by decide)

/-- EXPIRE `k` 18446744073709552 at one second: the entry carries 999. -/
theorem logged_deadline_wraps :
    ¬∀ (ex : Executor) (env : Env) (frame : RespValue) (s : StoreInner) (cmd : Command)
      (key : String) (millis : Nat), cmd.relative = some (key, millis) →
      (ex.exec env cmd s).1 = some (.integer 1) → LogsDeadline ex env frame s cmd key millis := by
  intro h
  have hlogs := h .plain (Env.at 1000000000 0) (bulkArray ["EXPIRE", "k", "18446744073709552"])
    (Store.new.putData "k" (.str "v")) (.expire "k" 18446744073709552) "k" 18446744073709552000 rfl
    rfl
  have hentry := hlogs.1
  have hrel : (Command.expire "k" 18446744073709552).relative = some ("k", 18446744073709552000) :=
    rfl
  rw [aofBytes_relative hrel] at hentry
  exact absurd (encode_pexpireatFrame_inj hentry) (by decide +kernel)

/-! ### EX and PX of SET -/

/-- The offset of EX and PX. -/
def SetExpiry.relative : SetExpiry → Option Duration
  | .ex secs   => some (Duration.fromSecs secs.toNat)
  | .px millis => some (Duration.fromMillis millis.toNat)
  | _          => none

theorem SetExpiry.offset_of_relative {e : SetExpiry} {d : Duration} (h : e.relative = some d)
    (c : Clock) : e.offset c = some d := by
  cases e with
  | ex secs => exact h
  | px millis => exact h
  | _ => cases h

namespace Cell

/-- SET finds its condition met. -/
def Accepts (ex : Executor) (c : Clock) (condition : Option SetCondition) (x : Cell) : Prop :=
  ∃ prev, Store.asString (x.live c.mono) = .ok prev ∧ ex.conditionMet condition prev = true

/-- The deadline lies at `deadline` on the wall clock, and the key is live until then. -/
def DeadlineAt (c : Clock) (deadline : Nat) (x : Cell) : Prop :=
  (∃ d, x.deadline = some d ∧ c.wall + d = deadline + c.mono) ∧
    ∀ δ, (x.live (c.after δ).mono).isSome ↔ (c.after δ).wall < deadline

/-- A deadline of the monotonic clock, on the wall clock. -/
theorem deadlineAt_iff {c : Clock} {v : StoreValue} {offset : Duration} {deadline : Nat} :
    DeadlineAt c deadline ⟨some v, some (c.mono + offset)⟩ ↔ deadline = c.wall + offset := by
  have hsum : ∀ m w o d : Nat, w + (m + o) = d + m ↔ d = w + o := by omega
  have hafter : ∀ m w o δ : Nat, m + δ < m + o ↔ w + δ < w + o := by omega
  constructor
  · rintro ⟨⟨d, hd, hwall⟩, -⟩
    cases hd
    exact (hsum _ _ _ _).mp hwall
  · rintro rfl
    refine ⟨⟨_, rfl, (hsum _ _ _ _).mpr rfl⟩, fun δ => ?_⟩
    rw [live_isSome_iff]
    exact hafter c.mono c.wall offset δ

theorem not_deadlineAt_noDeadline {c : Clock} {v : Option StoreValue} {deadline : Nat} :
    ¬DeadlineAt c deadline ⟨v, none⟩ := by
  rintro ⟨⟨d, hd, -⟩, -⟩
  cases hd

/-- What an accepted SET with an offset writes: an offset that does not fit leaves no deadline. -/
theorem set_of_accepts {ex : Executor} {c : Clock} {condition : Option SetCondition}
    {e : SetExpiry} {offset : Duration} {x : Cell} (he : e.relative = some offset)
    (h : x.Accepts ex c condition) (value : String) (g : Bool) :
    (set ex c value condition (some e) g x).2 =
      ⟨some (.str value),
        if c.mono + offset < Instant.limit then some (c.mono + offset) else none⟩ := by
  obtain ⟨prev, hprev, hmet⟩ := h
  have hoff := SetExpiry.offset_of_relative he c
  rw [set, hprev]
  dsimp only
  rw [if_pos hmet]
  by_cases hfit : c.mono + offset < Instant.limit
  · rw [Executor.setDeadline_of_fits hoff hfit, if_pos hfit]
    rfl
  · rw [Executor.setDeadline_of_not_fits hoff (Nat.not_lt.mp hfit), if_neg hfit]
    cases e with
    | ex secs => rfl
    | px millis => rfl
    | _ => cases he

end Cell

theorem cell_set_of_accepts {ex : Executor} {env : Env} {s : StoreInner} {key value : String}
    {condition : Option SetCondition} {e : SetExpiry} {g : Bool} {offset : Duration}
    (he : e.relative = some offset) (h : (s.cell key).Accepts ex env.clock condition) :
    (ex.exec env (.set key value condition (some e) g) s).2.cell key =
      ⟨some (.str value), if env.clock.mono + offset < Instant.limit
        then some (env.clock.mono + offset) else none⟩ := by
  have hcmd : Cell.exec ex env (.set key value condition (some e) g) =
    some (key, Cell.set ex env.clock value condition (some e) g) := rfl
  rw [exec_eq_at ex env s hcmd, keyed_at, cell_setCell_self, Cell.set_of_accepts he h]

/-- **When a replayed SET has its deadline.**  A SET with EX or PX was accepted and its deadline
fits, and the replay of its entry is accepted as well.  The two keys then have one deadline on the
wall clock, and are live until then, if and only if the wall clock of the replay reads what it read
for the command, and the deadline fits there too. -/
theorem set_deadline_replays_iff (ex : Executor) (env env' : Env) (s s' : StoreInner)
    (key value : String) (condition : Option SetCondition) (e : SetExpiry) (g : Bool)
    (offset : Duration) (he : e.relative = some offset)
    (hlive : (s.cell key).Accepts ex env.clock condition)
    (hfit : env.clock.mono + offset < Instant.limit)
    (hlive' : (s'.cell key).Accepts ex env'.clock condition) :
    (∃ deadline,
        ((ex.exec env (.set key value condition (some e) g) s).2.cell key).DeadlineAt env.clock
          deadline ∧
        ((ex.exec env' ((Command.set key value condition (some e) g).persisted env.clock)
          s').2.cell key).DeadlineAt env'.clock deadline) ↔
      env'.clock.wall = env.clock.wall ∧ env'.clock.mono + offset < Instant.limit := by
  have hentry : (Command.set key value condition (some e) g).persisted env.clock =
    .set key value condition (some e) g := rfl
  rw [hentry, cell_set_of_accepts he hlive, cell_set_of_accepts he hlive', if_pos hfit]
  by_cases hfit' : env'.clock.mono + offset < Instant.limit
  · rw [if_pos hfit']
    simp only [Cell.deadlineAt_iff, exists_eq_left, hfit', and_true]
    exact ⟨fun h => (Nat.add_right_cancel h).symm, fun h => by rw [h]⟩
  · rw [if_neg hfit']
    exact iff_of_false (fun ⟨_, _, h⟩ => Cell.not_deadlineAt_noDeadline h) fun h => hfit' h.2

/-- SET `k` EX 10, replayed at the same wall time by a process that has just started. -/
theorem set_deadline_replays_at_once :
    ∃ deadline,
      ((Executor.plain.exec (Env.at 0 5) (.set "k" "v" none (some (.ex 10)) false)
        Store.new).2.cell "k").DeadlineAt (Env.at 0 5).clock deadline ∧
      ((Executor.plain.exec (Env.at 5 0)
        ((Command.set "k" "v" none (some (.ex 10)) false).persisted (Env.at 0 5).clock)
          Store.new).2.cell "k").DeadlineAt (Env.at 5 0).clock deadline :=
  (set_deadline_replays_iff .plain (Env.at 0 5) (Env.at 5 0) Store.new Store.new "k" "v" none
    (.ex 10) false 10000000000 rfl ⟨none, rfl, rfl⟩ (by decide) ⟨none, rfl, rfl⟩).mpr
    ⟨by decide, by decide⟩

/-- SET `k` EX 10, replayed a second later: the key lives a second longer. -/
theorem set_deadline_moves :
    ¬∀ (ex : Executor) (env env' : Env) (s s' : StoreInner) (key value : String)
      (condition : Option SetCondition) (e : SetExpiry) (g : Bool) (offset : Duration),
      e.relative = some offset → (s.cell key).Accepts ex env.clock condition →
      env.clock.mono + offset < Instant.limit → (s'.cell key).Accepts ex env'.clock condition →
      env.clock.wall ≤ env'.clock.wall → ∃ deadline,
        ((ex.exec env (.set key value condition (some e) g) s).2.cell key).DeadlineAt env.clock
          deadline ∧
        ((ex.exec env' ((Command.set key value condition (some e) g).persisted env.clock)
          s').2.cell key).DeadlineAt env'.clock deadline := by
  intro h
  have hrel : (SetExpiry.ex 10).relative = some 10000000000 := rfl
  have haccepts : ∀ env : Env, (Store.new.cell "k").Accepts .plain env.clock none := fun _ =>
    ⟨none, rfl, rfl⟩
  obtain ⟨deadline, hd, hd'⟩ := h .plain (Env.at 0 0) (Env.at 0 1000000000) Store.new Store.new "k"
    "v" none (.ex 10) false 10000000000 hrel (haccepts _) (by decide) (haccepts _) (by decide)
  have hentry : (Command.set "k" "v" none (some (.ex 10)) false).persisted (Env.at 0 0).clock =
    .set "k" "v" none (some (.ex 10)) false := rfl
  rw [cell_set_of_accepts hrel (haccepts _), if_pos (by decide), Cell.deadlineAt_iff] at hd
  rw [hentry, cell_set_of_accepts hrel (haccepts _), if_pos (by decide), Cell.deadlineAt_iff] at hd'
  exact absurd (hd.symm.trans hd') (by decide)

end Thesaurus
