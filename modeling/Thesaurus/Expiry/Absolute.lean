import Thesaurus.Cells.Deadline
import Thesaurus.Expiry.Queries

/-!
# Expiry — absolute deadlines

EXPIREAT, PEXPIREAT and the EXAT and PXAT of SET take a point of the wall clock, in seconds or
milliseconds.  The executor rounds the wall clock down to that unit, takes the difference and adds
it to the monotonic clock as it is: the deadline lies late by what the rounding dropped, and the
sum is not checked.

* `absolute_replies_iff`: such a command replies unless it sets a deadline that no instant has.
* `visible_until_iff`: the key is visible until its deadline, and no longer, exactly when nothing
  was dropped or the deadline had passed.
* `expireTime_reports_iff`: EXPIRETIME and PEXPIRETIME report the deadline until the fraction of
  the wall clock exceeds the fraction that was dropped.
-/

namespace Thesaurus
open StoreInner

/-- The unit of a Unix time. -/
inductive TimeUnit where
  | secs
  | millis
  deriving DecidableEq, Repr

namespace TimeUnit

/-- Its length in nanoseconds. -/
def nanos : TimeUnit → Nat
  | secs   => 1000000000
  | millis => 1000000

/-- The wall clock in this unit, as the executor reads it. -/
def now (u : TimeUnit) (c : Clock) : Nat :=
  match u with
  | secs   => c.nowSecs
  | millis => c.nowMillis

theorem nanos_pos (u : TimeUnit) : 0 < u.nanos := by
  cases u <;> decide

/-- The reading is the wall clock rounded down, apart from the cast to `u64`. -/
theorem now_emod (u : TimeUnit) (c : Clock) : u.now c % 2 ^ 64 = c.wall / u.nanos % 2 ^ 64 := by
  cases u with
  | secs => rfl
  | millis => exact Nat.mod_mod _ _

theorem now_le (u : TimeUnit) (c : Clock) : u.now c ≤ c.wall / u.nanos := by
  cases u with
  | secs => exact Nat.le_refl _
  | millis => exact Nat.mod_le _ _

theorem now_mul_le (u : TimeUnit) (c : Clock) : u.now c * u.nanos ≤ c.wall :=
  Nat.le_trans (Nat.mul_le_mul_right _ (u.now_le c)) (Nat.div_mul_le_self _ _)

/-- What the conversion to an instant adds to the monotonic clock. -/
def offset (u : TimeUnit) (c : Clock) (deadline : UInt64) : Duration :=
  (deadline.toNat - u.now c) * u.nanos

end TimeUnit

/-- Both clocks, `δ` nanoseconds later. -/
def Clock.after (c : Clock) (δ : Nat) : Clock := ⟨c.mono + δ, c.wall + δ⟩

/-- The key, the unit and the deadline of a command that takes an absolute one. -/
def Command.absolute : Command → Option (String × TimeUnit × UInt64)
  | .expireAt key deadlineSecs               => some (key, .secs, deadlineSecs)
  | .pExpireAt key deadlineMs                => some (key, .millis, deadlineMs)
  | .set key _ _ (some (.exAt deadlineSecs)) _ => some (key, .secs, deadlineSecs)
  | .set key _ _ (some (.pxAt deadlineMs)) _   => some (key, .millis, deadlineMs)
  | _                                        => none

/-- The command reaches the conversion of its deadline: EXPIREAT and PEXPIREAT with a deadline to
come, SET where its condition holds. -/
def Command.Converts (ex : Executor) (c : Clock) (s : StoreInner) : Command → Prop
  | .expireAt _ deadlineSecs => c.nowSecs < deadlineSecs.toNat
  | .pExpireAt _ deadlineMs  => c.nowMillis < deadlineMs.toNat
  | .set key _ condition _ _ =>
      ∃ prev, Store.getString s c.mono key = .ok prev ∧ ex.conditionMet condition prev = true
  | _ => False

/-- The command finds a key to give its deadline to. -/
def Command.Applies (ex : Executor) (c : Clock) (s : StoreInner) : Command → Prop
  | .expireAt key _ | .pExpireAt key _ => (s.data.lookup key).isSome
  | .set key _ condition _ _ =>
      ∃ prev, Store.getString s c.mono key = .ok prev ∧ ex.conditionMet condition prev = true
  | _ => False

variable {ex : Executor} {env : Env} {s : StoreInner} {cmd : Command} {key : String}
  {u : TimeUnit} {deadline : UInt64}

/-! ### What a command with an absolute deadline does -/

/-- The reply of such a command, and the cell it leaves. -/
inductive AbsoluteStep (converts applies : Prop) (c : Clock) (u : TimeUnit) (deadline : UInt64) :
    Reply × Cell → Prop where
  /-- It ends before the conversion; a key with a value was deleted. -/
  | stops (r : RespValue) (x : Cell) (stop : ¬converts)
      (past : applies → deadline.toNat ≤ u.now c ∧ x = Cell.empty) :
      AbsoluteStep converts applies c u deadline (some r, x)
  /-- The conversion panics. -/
  | panics (x : Cell) (reach : converts) (overflow : Instant.limit ≤ c.mono + u.offset c deadline) :
      AbsoluteStep converts applies c u deadline (none, x)
  /-- The deadline is set. -/
  | sets (r : RespValue) (x : Cell) (reach : converts)
      (fits : c.mono + u.offset c deadline < Instant.limit)
      (set : applies → ∃ v, x = ⟨some v, some (c.mono + u.offset c deadline)⟩) :
      AbsoluteStep converts applies c u deadline (some r, x)

namespace AbsoluteStep

/-- EXPIREAT and PEXPIREAT. -/
theorem of_expireBy (u : TimeUnit) (c : Clock) (deadline : UInt64) (x : Cell) :
    AbsoluteStep (u.now c < deadline.toNat) (x.value.isSome) c u deadline
      (Cell.expireBy (decide (deadline.toNat ≤ u.now c))
        (c.mono.checkedAdd (u.offset c deadline)) x) := by
  unfold Cell.expireBy
  by_cases hpast : deadline.toNat ≤ u.now c
  · rw [if_pos (decide_eq_true hpast)]
    exact .stops _ _ (Nat.not_lt.mpr hpast) fun _ => ⟨hpast, rfl⟩
  rw [if_neg (fun h => hpast (of_decide_eq_true h))]
  have hreach : u.now c < deadline.toNat := Nat.not_le.mp hpast
  by_cases hfit : c.mono + u.offset c deadline < Instant.limit
  · rw [Instant.checkedAdd_eq_some.mpr ⟨hfit, rfl⟩]
    refine .sets _ _ hreach hfit fun hv => ?_
    obtain ⟨v, hv⟩ := Option.isSome_iff_exists.mp hv
    refine ⟨v, ?_⟩
    rw [Cell.setTtl, hv]
    rfl
  · rw [Instant.checkedAdd, if_neg hfit]
    exact .panics _ hreach (Nat.not_lt.mp hfit)

/-- SET with an absolute deadline. -/
theorem of_set {c : Clock} {x : Cell} {value : String} {condition : Option SetCondition}
    {e : SetExpiry} {g : Bool}
    (habs : e.isAbsolute = true) (hoff : e.offset c = some (u.offset c deadline)) :
    AbsoluteStep
      (∃ prev, Store.asString (x.live c.mono) = .ok prev ∧ ex.conditionMet condition prev = true)
      (∃ prev, Store.asString (x.live c.mono) = .ok prev ∧ ex.conditionMet condition prev = true)
      c u deadline (Cell.set ex c value condition (some e) g x) := by
  unfold Cell.set
  cases hprev : Store.asString (x.live c.mono) with
  | error err =>
      have hno : ¬∃ prev, (.error err : Except StoreError (Option String)) = .ok prev ∧
          ex.conditionMet condition prev = true := fun ⟨_, h, _⟩ => nomatch h
      exact .stops _ _ hno fun h => absurd h hno
  | ok prev =>
      dsimp only
      by_cases hmet : ex.conditionMet condition prev = true
      · have hreach : ∃ prev', (.ok prev : Except StoreError (Option String)) = .ok prev' ∧
            ex.conditionMet condition prev' = true := ⟨prev, rfl, hmet⟩
        rw [if_pos hmet]
        by_cases hfit : c.mono + u.offset c deadline < Instant.limit
        · rw [Executor.setDeadline_of_fits hoff hfit]
          exact .sets _ _ hreach hfit fun _ => ⟨_, rfl⟩
        · rw [Executor.setDeadline_of_not_fits hoff (Nat.not_lt.mp hfit), if_pos habs]
          exact .panics _ hreach (Nat.not_lt.mp hfit)
      · have hno : ¬∃ prev', (.ok prev : Except StoreError (Option String)) = .ok prev' ∧
            ex.conditionMet condition prev' = true := by
          rintro ⟨prev', he, h⟩
          cases he
          exact hmet h
        rw [if_neg hmet]
        exact .stops _ _ hno fun h => absurd h hno

end AbsoluteStep

/-- **A command with an absolute deadline** takes one of the three steps. -/
theorem absolute_step (ex : Executor) (env : Env) (s : StoreInner)
    (h : cmd.absolute = some (key, u, deadline)) :
    AbsoluteStep (cmd.Converts ex env.clock s) (cmd.Applies ex env.clock s) env.clock u deadline
      ((ex.exec env cmd s).1, (ex.exec env cmd s).2.cell key) := by
  -- the command is its function on the cell of its key
  have hcell : ∀ {g : Cell → Reply × Cell}, Cell.exec ex env cmd = some (key, g) →
      AbsoluteStep (cmd.Converts ex env.clock s) (cmd.Applies ex env.clock s) env.clock u deadline
        (g (s.cell key)) →
      AbsoluteStep (cmd.Converts ex env.clock s) (cmd.Applies ex env.clock s) env.clock u deadline
        ((ex.exec env cmd s).1, (ex.exec env cmd s).2.cell key) := by
    intro g hg hstep
    rw [exec_eq_at ex env s hg, keyed_at, cell_setCell_self]
    exact hstep
  cases cmd with
  | expireAt _ _ =>
      cases h
      exact hcell rfl (.of_expireBy .secs env.clock deadline (s.cell key))
  | pExpireAt _ _ =>
      cases h
      exact hcell rfl (.of_expireBy .millis env.clock deadline (s.cell key))
  | set k value condition expiry g =>
      rcases expiry with _ | _ | _ | t | t | _
      case some.exAt =>
        cases h
        refine hcell rfl ?_
        simp only [Command.Converts, Command.Applies, Store.getString, Store.get_eq_live]
        exact .of_set rfl rfl
      case some.pxAt =>
        cases h
        refine hcell rfl ?_
        simp only [Command.Converts, Command.Applies, Store.getString, Store.get_eq_live]
        exact .of_set rfl rfl
      all_goals cases h
  | _ => cases h

/-! ### The deadline overflows -/

/-- The command replies, with an error where it should set a deadline that no instant has. -/
def RepliesToDeadline (ex : Executor) (env : Env) (s : StoreInner) (cmd : Command) (u : TimeUnit)
    (deadline : UInt64) : Prop :=
  ∃ r, (ex.exec env cmd s).1 = some r ∧
    (cmd.Converts ex env.clock s → Instant.limit ≤ env.clock.mono + u.offset env.clock deadline →
      ∃ text, r = .simpleError text)

/-- **When an absolute deadline panics.**  EXPIREAT, PEXPIREAT and SET with EXAT or PXAT reply
exactly when they do not reach the conversion or the instant of the deadline exists. -/
theorem absolute_replies_iff (ex : Executor) (env : Env) (s : StoreInner) (cmd : Command)
    (key : String) (u : TimeUnit) (deadline : UInt64)
    (h : cmd.absolute = some (key, u, deadline)) :
    RepliesToDeadline ex env s cmd u deadline ↔
      (cmd.Converts ex env.clock s →
        env.clock.mono + u.offset env.clock deadline < Instant.limit) := by
  have hstep := absolute_step ex env s h
  unfold RepliesToDeadline
  generalize (ex.exec env cmd s).1 = reply, (ex.exec env cmd s).2.cell key = x at hstep ⊢
  cases hstep with
  | stops r x stop past =>
      exact iff_of_true ⟨r, rfl, fun hc => absurd hc stop⟩ fun hc => absurd hc stop
  | panics x reach overflow =>
      refine iff_of_false (fun ⟨r, hr, _⟩ => nomatch hr) fun hfit => ?_
      exact absurd (hfit reach) (Nat.not_lt.mpr overflow)
  | sets r x reach fits set =>
      exact iff_of_true ⟨r, rfl, fun _ hover => absurd fits (Nat.not_lt.mpr hover)⟩ fun _ => fits

theorem absolute_panics (h : cmd.absolute = some (key, u, deadline))
    (hc : cmd.Converts ex env.clock s)
    (hover : Instant.limit ≤ env.clock.mono + u.offset env.clock deadline) :
    (ex.exec env cmd s).1 = none := by
  have hstep := absolute_step ex env s h
  generalize (ex.exec env cmd s).1 = reply, (ex.exec env cmd s).2.cell key = x at hstep ⊢
  cases hstep with
  | stops r x stop past => exact absurd hc stop
  | panics x reach overflow => rfl
  | sets r x reach fits set => exact absurd fits (Nat.not_lt.mpr hover)

/-- EXPIREAT with a deadline that has passed. -/
theorem absolute_replies_past :
    RepliesToDeadline .plain (Env.at 5000000000 0) Store.new (.expireAt "k" 5) .secs 5 :=
  (absolute_replies_iff .plain (Env.at 5000000000 0) Store.new (.expireAt "k" 5) "k" .secs 5
    rfl).mpr fun h => absurd h (Nat.lt_irrefl 5)

/-- EXPIREAT with the largest argument. -/
theorem expireAt_panics :
    ¬∀ (ex : Executor) (env : Env) (s : StoreInner) (cmd : Command) (key : String) (u : TimeUnit)
      (deadline : UInt64), cmd.absolute = some (key, u, deadline) →
      RepliesToDeadline ex env s cmd u deadline := fun h => by
  obtain ⟨r, hr, -⟩ := h .plain (Env.at 0 0) (Store.new.putData "k" (.str "v"))
    (.expireAt "k" 18446744073709551615) "k" .secs 18446744073709551615 rfl
  have hpanic : (Executor.plain.exec (Env.at 0 0) (.expireAt "k" 18446744073709551615)
      (Store.new.putData "k" (.str "v"))).1 = none := by
    refine absolute_panics (u := .secs) rfl ?_ ?_
    · exact Nat.zero_lt_succ _
    · decide +kernel
  rw [hpanic] at hr
  cases hr

/-! ### The deadline lies late -/

theorem Cell.live_isSome_iff {now d : Instant} {v : StoreValue} :
    ((Cell.mk (some v) (some d)).live now).isSome ↔ now < d := by
  unfold Cell.live Cell.expired
  rw [Option.any_some]
  by_cases h : d ≤ now
  · simp [h]
  · simp [h, Nat.not_le.mp h]

/-- **When an absolute deadline is honoured.**  After EXPIREAT, PEXPIREAT or SET with EXAT or PXAT
gave the key the deadline, and until the key is written again, the key is visible exactly before
that deadline, if and only if the deadline had passed or the wall clock stood at a whole unit. -/
theorem visible_until_iff (ex : Executor) (env : Env) (s : StoreInner) (cmd : Command)
    (key : String) (u : TimeUnit) (deadline : UInt64)
    (h : cmd.absolute = some (key, u, deadline)) (happ : cmd.Applies ex env.clock s)
    (hreply : (ex.exec env cmd s).1.isSome) :
    (∀ (δ : Nat) (s' : StoreInner), s'.cell key = (ex.exec env cmd s).2.cell key →
        ((s'.get (env.clock.after δ).mono key).isSome ↔
          (env.clock.after δ).wall < deadline.toNat * u.nanos)) ↔
      deadline.toNat ≤ u.now env.clock ∨ env.clock.wall = u.now env.clock * u.nanos := by
  have hnow := u.now_mul_le env.clock
  have hpast : deadline.toNat ≤ u.now env.clock →
      ∀ δ, ¬(env.clock.after δ).wall < deadline.toNat * u.nanos := fun hle δ => by
    have hmul := Nat.mul_le_mul_right u.nanos hle
    exact Nat.not_lt.mpr (Nat.le_trans hmul (Nat.le_trans hnow (Nat.le_add_right _ _)))
  have hstep := absolute_step ex env s h
  generalize (ex.exec env cmd s).1 = reply, hx : (ex.exec env cmd s).2 = after at hstep hreply ⊢
  generalize hc : after.cell key = x at hstep
  cases hstep with
  | panics x reach overflow => cases hreply
  | stops r x stop past =>
      obtain ⟨hle, rfl⟩ := past happ
      refine iff_of_true (fun δ s' hs => ?_) (.inl hle)
      have hnone : s'.get (env.clock.after δ).mono key = none := by
        rw [get_eq_live, hs]
        rfl
      rw [hnone]
      exact iff_of_false Bool.false_ne_true (hpast hle δ)
  | sets r x reach fits set =>
      obtain ⟨v, rfl⟩ := set happ
      -- what is live is decided by the offset
      have hvisible : ∀ (δ : Nat) (s' : StoreInner),
          s'.cell key = ⟨some v, some (env.clock.mono + u.offset env.clock deadline)⟩ →
          ((s'.get (env.clock.after δ).mono key).isSome ↔ δ < u.offset env.clock deadline) := by
        intro δ s' hs
        rw [get_eq_live, hs]
        exact Cell.live_isSome_iff.trans Nat.add_lt_add_iff_left
      constructor
      · intro hall
        by_contra hno
        obtain ⟨hlt, hne⟩ := not_or.mp hno
        have hw : u.now env.clock * u.nanos < env.clock.wall :=
          Nat.lt_of_le_of_ne hnow (Ne.symm hne)
        have hmul := Nat.mul_lt_mul_of_pos_right (Nat.not_le.mp hlt) u.nanos_pos
        -- at the deadline on the wall clock, or now if it has passed, the key is still visible
        have hat := (hall (deadline.toNat * u.nanos - env.clock.wall) after hc).mp
          ((hvisible _ after hc).mpr ?_)
        · exact Nat.not_lt.mpr (Nat.sub_le_iff_le_add'.mp (Nat.le_refl _)) hat
        · rw [TimeUnit.offset, Nat.sub_mul]
          exact Nat.sub_lt_sub_left hmul hw
      · intro hcond δ s' hs
        rw [hvisible δ s' hs, TimeUnit.offset, Nat.sub_mul]
        rcases hcond with hle | hw
        · refine iff_of_false ?_ (hpast hle δ)
          rw [Nat.sub_eq_zero_of_le (Nat.mul_le_mul_right u.nanos hle)]
          exact Nat.not_lt_zero δ
        · rw [← hw]
          exact Nat.lt_sub_iff_add_lt'

/-- EXPIREAT `k` 5 on the stroke of a second. -/
theorem visible_until_five :
    ((Executor.plain.exec (Env.at 0 0) (.expireAt "k" 5) (Store.new.putData "k" (.str "v"))).2.get
        ((Clock.at 0 0).after 4999999999).mono "k").isSome ↔
      ((Clock.at 0 0).after 4999999999).wall < 5 * 1000000000 :=
  (visible_until_iff .plain (Env.at 0 0) (Store.new.putData "k" (.str "v")) (.expireAt "k" 5) "k"
    .secs 5 rfl rfl (by decide +kernel)).mpr (.inr rfl) 4999999999 _ rfl

/-- EXPIREAT `k` 2 at 1.5 s: the key is still visible at 2.1 s. -/
theorem visible_after_deadline :
    ¬∀ (ex : Executor) (env : Env) (s : StoreInner) (cmd : Command) (key : String) (u : TimeUnit)
      (deadline : UInt64), cmd.absolute = some (key, u, deadline) →
      cmd.Applies ex env.clock s → (ex.exec env cmd s).1.isSome →
      ∀ (δ : Nat) (s' : StoreInner), s'.cell key = (ex.exec env cmd s).2.cell key →
        ((s'.get (env.clock.after δ).mono key).isSome ↔
          (env.clock.after δ).wall < deadline.toNat * u.nanos) := fun h => by
  have hat := h .plain (Env.at 1500000000 0) (Store.new.putData "k" (.str "v")) (.expireAt "k" 2)
    "k" .secs 2 rfl rfl (by decide +kernel) 600000000 _ rfl
  exact absurd (hat.mp (by decide +kernel)) (by decide +kernel)

/-! ### The deadline reported back -/

/-- The query in this unit. -/
def TimeUnit.query : TimeUnit → TtlQuery
  | secs   => .expireTime
  | millis => .pexpireTime

theorem TimeUnit.report_query (u : TimeUnit) (c : Clock) (remaining : Duration) :
    u.query.report c remaining = c.wall / u.nanos + remaining / u.nanos := by
  cases u <;> rfl

/-- Two roundings of a sum and a difference: `k` whole units lie `δ` further on, and one is lost
when the fraction has grown. -/
theorem div_add_div_sub {n k δ : Nat} (wall : Nat) (hn : 0 < n) (hδ : δ ≤ k * n) :
    (wall + δ) / n + (k * n - δ) / n + (if (wall + δ) % n ≤ wall % n then 0 else 1) =
      wall / n + k := by
  have hw := Nat.div_add_mod wall n
  have ht := Nat.div_add_mod (wall + δ) n
  have hr := Nat.mod_lt wall hn
  have hr' := Nat.mod_lt (wall + δ) hn
  generalize wall / n = q, wall % n = r, (wall + δ) / n = q', (wall + δ) % n = r' at *
  have hle : q' ≤ q + k := by
    by_contra hgt
    have hmul : n * (q + k + 1) ≤ n * q' := Nat.mul_le_mul_left n (Nat.not_le.mp hgt)
    rw [Nat.mul_add, Nat.mul_add, Nat.mul_comm n k] at hmul
    omega
  obtain ⟨m, hm⟩ := Nat.exists_eq_add_of_le hle
  have hmul : n * q + k * n = n * q' + n * m := by
    rw [← Nat.mul_add, ← hm, Nat.mul_add, Nat.mul_comm n k]
  split_ifs with hphase
  · have hdiv : (k * n - δ) / n = m := by
      rw [show k * n - δ = (r - r') + n * m by omega, Nat.add_mul_div_left _ _ hn,
        Nat.div_eq_of_lt (by omega), Nat.zero_add]
    omega
  · obtain ⟨m, rfl⟩ : ∃ m', m = m' + 1 := by
      refine Nat.exists_eq_add_one.mpr (Nat.pos_of_ne_zero fun h0 => ?_)
      rw [h0] at hmul
      omega
    have hdiv : (k * n - δ) / n = m := by
      rw [Nat.mul_add, Nat.mul_one] at hmul
      rw [show k * n - δ = (n + r - r') + n * m by omega, Nat.add_mul_div_left _ _ hn,
        Nat.div_eq_of_lt (by omega), Nat.zero_add]
    omega

/-- A deadline and whole turns of a `u64`, with a unit lost or not, cast to `i64`. -/
theorem toI64_report_iff {report deadline lost z : Nat} (hlost : lost ≤ 1)
    (h : report + lost = deadline + 2 ^ 64 * z) :
    toI64 report = deadline ↔ deadline < 2 ^ 63 ∧ lost = 0 := by
  have hcast : (report : Int) = ((deadline : Int) - lost) + (2 ^ 64 : Nat) * z := by
    push_cast
    omega
  have hturn : toI64 report = toI64 ((deadline : Int) - lost) := by
    rw [hcast]
    exact Int.add_mul_bmod_self_left _ _ _
  rw [hturn]
  rcases Nat.le_one_iff_eq_zero_or_eq_one.mp hlost with rfl | rfl
  · have hzero : (deadline : Int) - (0 : Nat) = deadline := Int.sub_zero _
    rw [hzero, toI64_natCast_iff]
    simp
  · refine iff_of_false (fun he => ?_) fun h => Nat.one_ne_zero h.2
    have hemod : toI64 ((deadline : Int) - (1 : Nat)) % (2 ^ 64 : Nat) =
        ((deadline : Int) - (1 : Nat)) % (2 ^ 64 : Nat) := Int.bmod_emod
    rw [he] at hemod
    omega

/-- The two roundings together: of the wall clock now, and of what remains of a deadline that was
placed `deadline - now` units away when the wall clock read `wall`. -/
theorem reported_iff {n wall now deadline δ : Nat} (hn : 0 < n)
    (hmod : now % 2 ^ 64 = wall / n % 2 ^ 64) (hle : now ≤ wall / n) (hfuture : now < deadline)
    (hδ : δ ≤ (deadline - now) * n) :
    toI64 ((wall + δ) / n + ((deadline - now) * n - δ) / n : Nat) = deadline ↔
      deadline < 2 ^ 63 ∧ (wall + δ) % n ≤ wall % n := by
  have hsum := div_add_div_sub wall hn hδ
  obtain ⟨z, hz⟩ : ∃ z, wall / n = now + 2 ^ 64 * z := ⟨(wall / n - now) / 2 ^ 64, by omega⟩
  have hlost : (if (wall + δ) % n ≤ wall % n then 0 else 1) ≤ 1 := by
    split_ifs <;> decide
  have hturns : (wall + δ) / n + ((deadline - now) * n - δ) / n +
      (if (wall + δ) % n ≤ wall % n then 0 else 1) = deadline + 2 ^ 64 * z := by
    rw [hsum, hz]
    omega
  rw [toI64_report_iff hlost hturns]
  split_ifs with hphase <;> simp [hphase]

/-- **When the deadline is reported back.**  A command has set a deadline to come, and nothing has
written the key since.  While the key is live, EXPIRETIME replies the deadline of EXPIREAT and SET
with EXAT, and PEXPIRETIME that of PEXPIREAT and SET with PXAT, exactly when it fits in an `i64` and
the fraction of the wall clock is not above what it was then. -/
theorem expireTime_reports_iff (ex : Executor) (env : Env) (s : StoreInner) (cmd : Command)
    (key : String) (u : TimeUnit) (deadline : UInt64)
    (h : cmd.absolute = some (key, u, deadline)) (happ : cmd.Applies ex env.clock s)
    (hfuture : u.now env.clock < deadline.toNat) (hreply : (ex.exec env cmd s).1.isSome)
    (δ : Nat) (draws : Draws) (s' : StoreInner)
    (hkept : s'.cell key = (ex.exec env cmd s).2.cell key)
    (hlive : (s'.get (env.clock.after δ).mono key).isSome) :
    (ex.exec ⟨env.clock.after δ, draws⟩ (u.query.command key) s').1 =
        some (.integer deadline.toNat) ↔
      deadline.toNat < 2 ^ 63 ∧ (env.clock.wall + δ) % u.nanos ≤ env.clock.wall % u.nanos := by
  have hstep := absolute_step ex env s h
  generalize (ex.exec env cmd s).1 = reply, hx : (ex.exec env cmd s).2 = after
    at hstep hreply hkept ⊢
  rw [← hkept] at hstep
  generalize hc : s'.cell key = x at hstep
  cases hstep with
  | panics x reach overflow => cases hreply
  | stops r x stop past => exact absurd (past happ).1 (Nat.not_le.mpr hfuture)
  | sets r x reach fits set =>
      obtain ⟨v, rfl⟩ := set happ
      have hd : s'.expiryIndex.lookup key = some (env.clock.mono + u.offset env.clock deadline) :=
        congrArg Cell.deadline hc
      have hδ : env.clock.mono + δ < env.clock.mono + u.offset env.clock deadline := by
        rw [get_eq_live, hc] at hlive
        exact Cell.live_isSome_iff.mp hlive
      rw [exec_query_of_le hd (Nat.le_of_lt hδ), Option.some.injEq, RespValue.integer.injEq,
        TimeUnit.report_query]
      have hrem : (env.clock.after δ).remaining (env.clock.mono + u.offset env.clock deadline) =
          (deadline.toNat - u.now env.clock) * u.nanos - δ := Nat.add_sub_add_left _ _ _
      rw [hrem]
      exact reported_iff u.nanos_pos (u.now_emod _) (u.now_le _) hfuture
        (Nat.le_of_lt (Nat.lt_of_add_lt_add_left hδ))

/-- EXPIREAT `k` 5 on the stroke of a second, and EXPIRETIME `k` on the next. -/
theorem expireTime_reports_five :
    (Executor.plain.exec ⟨(Clock.at 0 0).after 1000000000, .sorted⟩ (.expireTime "k")
        (Executor.plain.exec (Env.at 0 0) (.expireAt "k" 5)
          (Store.new.putData "k" (.str "v"))).2).1 =
      some (.integer (5 : UInt64).toNat) :=
  (expireTime_reports_iff .plain (Env.at 0 0) (Store.new.putData "k" (.str "v")) (.expireAt "k" 5)
    "k" .secs 5 rfl rfl (by decide) (by decide +kernel) 1000000000 .sorted _ rfl
    (by decide +kernel)).mpr (by decide)

/-- EXPIREAT `k` 5 at 0 s: EXPIRETIME `k` replies 4 at 0.5 s. -/
theorem expireTime_reports_less :
    ¬∀ (ex : Executor) (env : Env) (s : StoreInner) (cmd : Command) (key : String) (u : TimeUnit)
      (deadline : UInt64), cmd.absolute = some (key, u, deadline) →
      cmd.Applies ex env.clock s → u.now env.clock < deadline.toNat →
      (ex.exec env cmd s).1.isSome →
      ∀ (δ : Nat) (draws : Draws) (s' : StoreInner),
        s'.cell key = (ex.exec env cmd s).2.cell key →
        (s'.get (env.clock.after δ).mono key).isSome →
        (ex.exec ⟨env.clock.after δ, draws⟩ (u.query.command key) s').1 =
          some (.integer deadline.toNat) := fun h => by
  have hreply := h .plain (Env.at 0 0) (Store.new.putData "k" (.str "v")) (.expireAt "k" 5) "k"
    .secs 5 rfl rfl (by decide) (by decide +kernel) 500000000 .sorted _ rfl (by decide +kernel)
  have hd : (Executor.plain.exec (Env.at 0 0) (.expireAt "k" 5)
      (Store.new.putData "k" (.str "v"))).2.expiryIndex.lookup "k" = some 5000000000 := by
    decide +kernel
  rw [exec_query_of_le hd (by decide)] at hreply
  exact absurd (RespValue.integer.inj (Option.some.inj hreply)) (by decide)

end Thesaurus
