import Thesaurus.Cells.Bounded

/-!
# Expiry — queries

TTL, PTTL, EXPIRETIME and PEXPIRETIME.  They read the deadline of a key from the index, without
the value and without the test of liveness that every other read makes, and they cast what they
compute to `i64`.

* `exec_query`: the reply of a query, from the cell of its key.
* `exact_queries_iff`: the four replies are exact while the wall clock of the deadline is below
  `2⁶³` milliseconds.
* `queries_agree_iff`: in a reachable store the queries agree with EXISTS unless the clock stands
  at a deadline or before one that has no value.
-/

namespace Thesaurus
open StoreInner

/-- How far away a deadline is. -/
def Clock.remaining (c : Clock) (d : Instant) : Duration := d - c.mono

/-- One of the four queries. -/
inductive TtlQuery where
  | ttl
  | pttl
  | expireTime
  | pexpireTime
  deriving DecidableEq, Repr

namespace TtlQuery

/-- Its command. -/
def command (key : String) : TtlQuery → Command
  | ttl         => .ttl key
  | pttl        => .pTtl key
  | expireTime  => .expireTime key
  | pexpireTime => .pExpireTime key

/-- What it should report of a deadline that is `remaining` away. -/
def report (c : Clock) (remaining : Duration) : TtlQuery → Nat
  | ttl         => remaining.asSecs
  | pttl        => remaining.asMillis
  | expireTime  => c.nowSecs + remaining.asSecs
  | pexpireTime => c.wall.asMillis + remaining.asMillis

/-- What it computes. -/
def compute (c : Clock) (remaining : Duration) : TtlQuery → Int
  | ttl         => toI64 remaining.asSecs
  | pttl        => toI64 remaining.asMillis
  | expireTime  => toI64 (toI64 c.nowSecs + toI64 remaining.asSecs)
  | pexpireTime => toI64 (toI64 c.wall.asMillis + toI64 remaining.asMillis)

end TtlQuery

/-! ### Casts -/

theorem toI64_add (a b : Int) : toI64 (toI64 a + toI64 b) = toI64 (a + b) := by
  rw [toI64, toI64, toI64, Int.bmod_add_bmod, Int.add_bmod_bmod, toI64]

theorem toI64_natCast_iff (n : Nat) : toI64 n = n ↔ n < 2 ^ 63 := by
  constructor
  · intro h
    have hlt : toI64 n < ((2 ^ 64 : Nat) + 1) / 2 := Int.bmod_lt (by decide)
    rw [h] at hlt
    omega
  · intro h
    refine Int.bmod_eq_of_le ?_ ?_ <;> omega

namespace TtlQuery

variable {c : Clock} {remaining : Duration}

theorem compute_eq (q : TtlQuery) : q.compute c remaining = toI64 (q.report c remaining) := by
  cases q with
  | ttl | pttl => rfl
  | expireTime | pexpireTime => exact toI64_add _ _

/-- The milliseconds on the wall clock are the largest of the four. -/
theorem report_le (q : TtlQuery) : q.report c remaining ≤ pexpireTime.report c remaining := by
  cases q <;>
    simp only [report, Clock.nowSecs, Duration.asSecs, Duration.asMillis] <;> omega

end TtlQuery

/-! ### The replies -/

/-- `resolve_expiry`, from the cell of the key. -/
def Cell.resolveExpiry (now : Instant) (f : Duration → Int) (x : Cell) : Int :=
  match x.deadline with
  | some d => if now ≤ d then f (d - now) else -2
  | none   => if (x.live now).isSome then -1 else -2

section

variable (ex : Executor) (env : Env) (s : StoreInner) (key : String)

theorem run_resolveExpiry (f : Duration → Int) :
    (Executor.resolveExpiry env.clock key f).run env.apply s =
      (some (.integer ((s.cell key).resolveExpiry env.clock.mono f)), s) := by
  rw [Executor.resolveExpiry, Atomic.Prog.invoke_bind, Atomic.Prog.run_call, Env.apply,
    apply_getTtl]
  unfold Cell.resolveExpiry
  cases (s.cell key).deadline with
  | some d =>
      dsimp only
      unfold Instant.checkedDurationSince
      by_cases h : env.clock.mono ≤ d
      · rw [if_pos h, if_pos h]
        rfl
      · rw [if_neg h, if_neg h]
        rfl
  | none =>
      dsimp only
      rw [Atomic.Prog.invoke_bind, Atomic.Prog.run_call, apply_exists]
      rfl

/-- **The reply of a query**, from the cell of its key. -/
theorem exec_query (q : TtlQuery) :
    (ex.exec env (q.command key) s).1 =
      some (.integer ((s.cell key).resolveExpiry env.clock.mono (q.compute env.clock))) := by
  have hrun := fun f => congrArg Prod.fst (run_resolveExpiry env s key f)
  cases q with
  | ttl | pttl | expireTime | pexpireTime => exact hrun _

end

/-! ### A live key with a deadline -/

/-- The four replies are the numbers to report, TTL is PTTL in whole seconds, and no cast or sum on
the way leaves an `i64`. -/
def ExactQueries (ex : Executor) (env : Env) (s : StoreInner) (key : String)
    (remaining : Duration) : Prop :=
  (∀ q : TtlQuery, (ex.exec env (q.command key) s).1 =
      some (.integer (q.report env.clock remaining))) ∧
    TtlQuery.ttl.report env.clock remaining = TtlQuery.pttl.report env.clock remaining / 1000 ∧
    ∀ n ∈ [env.clock.nowSecs, env.clock.wall.asMillis, remaining.asSecs, remaining.asMillis,
        env.clock.nowSecs + remaining.asSecs, env.clock.wall.asMillis + remaining.asMillis],
      toI64 (n : Nat) = n

/-- A query before the deadline, or at it. -/
theorem exec_query_of_le {ex : Executor} {env : Env} {s : StoreInner} {key : String} {d : Instant}
    (hd : s.expiryIndex.lookup key = some d) (hle : env.clock.mono ≤ d) (q : TtlQuery) :
    (ex.exec env (q.command key) s).1 =
      some (.integer (toI64 (q.report env.clock (env.clock.remaining d)))) := by
  rw [exec_query, Cell.resolveExpiry, show (s.cell key).deadline = some d from hd,
    ← TtlQuery.compute_eq]
  dsimp only
  rw [if_pos hle]
  rfl

/-- A reply that is the number to report was not cut off. -/
theorem report_lt_of_exec {ex : Executor} {env : Env} {s : StoreInner} {key : String} {d : Instant}
    (hd : s.expiryIndex.lookup key = some d) (hle : env.clock.mono ≤ d) {q : TtlQuery}
    (h : (ex.exec env (q.command key) s).1 =
      some (.integer (q.report env.clock (env.clock.remaining d)))) :
    q.report env.clock (env.clock.remaining d) < 2 ^ 63 := by
  rw [exec_query_of_le hd hle] at h
  exact (toI64_natCast_iff _).mp (RespValue.integer.inj (Option.some.inj h))

/-- **Exact replies.**  For a live key with a deadline, TTL, PTTL, EXPIRETIME and PEXPIRETIME reply
what they should exactly when the deadline lies below `2⁶³` milliseconds on the wall clock. -/
theorem exact_queries_iff (ex : Executor) (env : Env) (s : StoreInner) (key : String)
    (d : Instant) (hd : s.expiryIndex.lookup key = some d) (hlt : env.clock.mono < d) :
    ExactQueries ex env s key (env.clock.remaining d) ↔
      env.clock.wall.asMillis + (env.clock.remaining d).asMillis < 2 ^ 63 := by
  have hle : env.clock.mono ≤ d := Nat.le_of_lt hlt
  constructor
  · intro h
    exact report_lt_of_exec hd hle (h.1 .pexpireTime)
  · intro h
    have hlt : ∀ q : TtlQuery, q.report env.clock (env.clock.remaining d) < 2 ^ 63 := fun q =>
      Nat.lt_of_le_of_lt q.report_le h
    refine ⟨fun q => ?_, ?_, fun n hn => ?_⟩
    · rw [exec_query_of_le hd hle, (toI64_natCast_iff _).mpr (hlt q)]
    · exact (Nat.div_div_eq_div_mul _ 1000000 1000).symm
    · -- every number on the way is at most the milliseconds of the deadline
      rw [toI64_natCast_iff]
      have hsecs := hlt .expireTime
      have hle : (env.clock.remaining d).asSecs ≤ (env.clock.remaining d).asMillis := by
        simp only [Duration.asSecs, Duration.asMillis]
        omega
      simp only [TtlQuery.report] at hsecs
      simp only [List.mem_cons, List.not_mem_nil, or_false] at hn
      rcases hn with rfl | rfl | rfl | rfl | rfl | rfl <;> omega

/-- A key that expires in ten seconds. -/
theorem exact_queries_ten_seconds :
    ExactQueries .plain (Env.at 0 0) ((Store.new.putData "k" (.str "v")).putExpiry "k" 10000000000)
      "k" 10000000000 :=
  (exact_queries_iff .plain (Env.at 0 0)
    ((Store.new.putData "k" (.str "v")).putExpiry "k" 10000000000) "k" 10000000000 rfl
    (by decide)).mpr (by decide)

/-- EXPIRE `k` 9223372036854776 is accepted, and its deadline is `2⁶³` milliseconds away. -/
theorem pttl_negative :
    ¬∀ (ex : Executor) (env : Env) (s : StoreInner) (key : String) (seconds : UInt64) (d : Instant),
      (ex.exec env (.expire key seconds) s).1 = some (.integer 1) →
      (ex.exec env (.expire key seconds) s).2.expiryIndex.lookup key = some d →
      env.clock.mono < d →
      ExactQueries ex env (ex.exec env (.expire key seconds) s).2 key (env.clock.remaining d) := by
  intro h
  have hexec := exec_eq_at .plain (Env.at 0 0) (Store.new.putData "k" (.str "v"))
    (show Cell.exec .plain (Env.at 0 0) (.expire "k" 9223372036854776) = some ("k", _) from rfl)
  have hfit : (0 : Instant).checkedAdd (Duration.fromSecs (9223372036854776 : UInt64).toNat) =
      some 9223372036854776000000000 := Instant.checkedAdd_eq_some.mpr ⟨by decide +kernel, rfl⟩
  rw [keyed_at, Cell.expireIn, show (Env.at 0 0).clock.mono = 0 from rfl, hfit] at hexec
  have hexact := h .plain (Env.at 0 0) (Store.new.putData "k" (.str "v")) "k" 9223372036854776
    9223372036854776000000000
  rw [hexec] at hexact
  have hlookup : ((Store.new.putData "k" (.str "v")).setCell "k"
      ⟨some (.str "v"), some 9223372036854776000000000⟩).expiryIndex.lookup "k" =
      some 9223372036854776000000000 := by
    rw [lookup_expiryIndex, cell_setCell_self]
  have hlt := report_lt_of_exec hlookup (Nat.zero_le _) ((hexact rfl hlookup (by decide)).1 .pttl)
  exact absurd hlt (by decide +kernel)

/-! ### The queries and EXISTS -/

/-- The query replies −2 for a key that EXISTS does not find, −1 for one without a deadline, and
else reports the deadline of a key that EXISTS finds. -/
def AgreesWithExists (ex : Executor) (env : Env) (s : StoreInner) (key : String) (q : TtlQuery) :
    Prop :=
  ((ex.exec env (q.command key) s).1 = some (.integer (-2)) ↔
      (ex.exec env (.exists [key]) s).1 = some (.integer 0)) ∧
    ((ex.exec env (q.command key) s).1 = some (.integer (-1)) ↔
      (ex.exec env (.exists [key]) s).1 = some (.integer 1) ∧ s.expiryIndex.lookup key = none) ∧
    ((ex.exec env (q.command key) s).1 ≠ some (.integer (-2)) →
      (ex.exec env (q.command key) s).1 ≠ some (.integer (-1)) →
      (ex.exec env (.exists [key]) s).1 = some (.integer 1) ∧
        ∃ d, s.expiryIndex.lookup key = some d ∧
          (ex.exec env (q.command key) s).1 =
            some (.integer (q.report env.clock (env.clock.remaining d))))

section

variable {ex : Executor} {env : Env} {s : StoreInner} {key : String}

/-- Without a deadline, a query asks what EXISTS asks. -/
theorem agrees_of_noDeadline (hd : s.expiryIndex.lookup key = none) (q : TtlQuery) :
    AgreesWithExists ex env s key q := by
  have hreply : (ex.exec env (q.command key) s).1 =
      some (.integer (if ((s.cell key).live env.clock.mono).isSome then -1 else -2)) := by
    rw [exec_query, Cell.resolveExpiry, show (s.cell key).deadline = none from hd]
  unfold AgreesWithExists
  rw [hreply, exec_exists_zero_iff, exec_exists_one_iff, hd]
  cases (s.cell key).live env.clock.mono <;> simp

variable {d : Instant} (hd : s.expiryIndex.lookup key = some d)

include hd

/-- Past the deadline both find nothing. -/
theorem agrees_of_past (hlt : d < env.clock.mono) (q : TtlQuery) :
    AgreesWithExists ex env s key q := by
  have hreply : (ex.exec env (q.command key) s).1 = some (.integer (-2)) := by
    rw [exec_query, Cell.resolveExpiry, show (s.cell key).deadline = some d from hd]
    dsimp only
    rw [if_neg (Nat.not_le.mpr hlt)]
  have hnone : (s.cell key).live env.clock.mono = none := by
    rw [Cell.live, if_pos]
    rw [Cell.expired, show (s.cell key).deadline = some d from hd, Option.any_some]
    exact decide_eq_true (Nat.le_of_lt hlt)
  unfold AgreesWithExists
  rw [hreply, exec_exists_zero_iff, exec_exists_one_iff, hnone, hd]
  simp

/-- Before the deadline both find the key, and the query reports what fits. -/
theorem agrees_of_live (hlt : env.clock.mono < d) (hv : (s.data.lookup key).isSome)
    (hfit : env.clock.wall.asMillis + (env.clock.remaining d).asMillis < 2 ^ 63) (q : TtlQuery) :
    AgreesWithExists ex env s key q := by
  have hreply : (ex.exec env (q.command key) s).1 =
      some (.integer (q.report env.clock (env.clock.remaining d))) := by
    rw [exec_query_of_le hd (Nat.le_of_lt hlt),
      (toI64_natCast_iff _).mpr (Nat.lt_of_le_of_lt q.report_le hfit)]
  have hlive : ((s.cell key).live env.clock.mono).isSome := by
    rw [Cell.live, if_neg]
    · exact hv
    · rw [Cell.expired, show (s.cell key).deadline = some d from hd, Option.any_some]
      exact fun h => Nat.not_le.mpr hlt (of_decide_eq_true h)
  unfold AgreesWithExists
  obtain ⟨v, hlive⟩ := Option.isSome_iff_exists.mp hlive
  rw [hreply, exec_exists_zero_iff, exec_exists_one_iff, hlive, hd]
  simp

/-- A query that agrees with EXISTS where the clock has not passed the deadline. -/
theorem live_of_agrees (hle : env.clock.mono ≤ d) (hlim : d < Instant.limit)
    (h : ∀ q, AgreesWithExists ex env s key q) :
    env.clock.mono < d ∧ (s.data.lookup key).isSome ∧
      env.clock.wall.asMillis + (env.clock.remaining d).asMillis < 2 ^ 63 := by
  -- TTL replies no sentinel: the seconds of an instant fit in an `i64`
  have hsecs : TtlQuery.ttl.report env.clock (env.clock.remaining d) < 2 ^ 63 := by
    have hle : env.clock.remaining d ≤ d := Nat.sub_le _ _
    exact Nat.div_lt_of_lt_mul (Nat.mul_comm _ _ ▸ Nat.lt_of_le_of_lt hle hlim)
  have hreply : (ex.exec env (TtlQuery.ttl.command key) s).1 = _ := exec_query_of_le hd hle .ttl
  rw [(toI64_natCast_iff _).mpr hsecs] at hreply
  have hexists : (ex.exec env (.exists [key]) s).1 = some (.integer 1) := by
    refine ((h .ttl).2.2 ?_ ?_).1 <;> rw [hreply] <;> simp
  obtain ⟨v, hlive⟩ := Option.isSome_iff_exists.mp (exec_exists_one_iff.mp hexists)
  refine ⟨?_, ?_, ?_⟩
  · rw [Cell.live] at hlive
    split at hlive
    · cases hlive
    · next he =>
        rw [Cell.expired, show (s.cell key).deadline = some d from hd, Option.any_some] at he
        exact Nat.not_le.mp fun hle => he (decide_eq_true hle)
  · rw [lookup_data, Cell.value_of_live hlive]
    rfl
  · -- PEXPIRETIME may reply no sentinel either, so it reports the deadline
    have hp := h .pexpireTime
    have h₂ : (ex.exec env (TtlQuery.pexpireTime.command key) s).1 ≠ some (.integer (-2)) := by
      intro he
      have hzero := hp.1.mp he
      rw [hexists] at hzero
      cases hzero
    have h₁ : (ex.exec env (TtlQuery.pexpireTime.command key) s).1 ≠ some (.integer (-1)) := by
      intro he
      have hnone := (hp.2.1.mp he).2
      rw [hd] at hnone
      cases hnone
    obtain ⟨-, d', hd', hrep⟩ := hp.2.2 h₂ h₁
    obtain rfl : d = d' := Option.some.inj (hd.symm.trans hd')
    exact report_lt_of_exec hd hle hrep

end

/-- **When the queries agree with EXISTS.**  In every store a server reaches, at every reading of
the clocks: exactly when the key has no deadline, or one that has passed, or a value with a deadline
to come that lies below `2⁶³` milliseconds on the wall clock. -/
theorem queries_agree_iff (ex : Executor) (c : Clock) (actions : List Action) (env : Env)
    (key : String) :
    (∀ q, AgreesWithExists ex env (Server.run ex ⟨Store.new, c⟩ actions).store key q) ↔
      ∀ d, (Server.run ex ⟨Store.new, c⟩ actions).store.expiryIndex.lookup key = some d →
        env.clock.mono ≤ d →
        env.clock.mono < d ∧
          ((Server.run ex ⟨Store.new, c⟩ actions).store.data.lookup key).isSome ∧
          env.clock.wall.asMillis + (env.clock.remaining d).asMillis < 2 ^ 63 := by
  have hbound := run_bounded ex c actions key
  generalize (Server.run ex ⟨Store.new, c⟩ actions).store = s at hbound ⊢
  constructor
  · intro h d hd hle
    exact live_of_agrees hd hle (hbound d hd) h
  · intro h q
    cases hd : s.expiryIndex.lookup key with
    | none => exact agrees_of_noDeadline hd q
    | some d =>
        rcases Nat.lt_or_ge d env.clock.mono with hlt | hle
        · exact agrees_of_past hd hlt q
        · obtain ⟨hlt, hv, hfit⟩ := h d hd hle
          exact agrees_of_live hd hlt hv hfit q

/-- RPUSH `k` `a`, EXPIRE `k` 100, LPOP `k`: TTL `k` replies 100, EXISTS `k` replies 0. -/
theorem ttl_of_missing_key :
    ¬∀ (ex : Executor) (c : Clock) (actions : List Action) (env : Env) (key : String) (q : TtlQuery),
      AgreesWithExists ex env (Server.run ex ⟨Store.new, c⟩ actions).store key q := fun h => by
  have hagrees := h .plain (Clock.at 0 0)
    [.execute .sorted (.rPush "k" ["a"]), .execute .sorted (.expire "k" 100),
      .execute .sorted (.lPop "k" none)] (Env.at 0 0) "k" .ttl
  have hd : (Server.run .plain ⟨Store.new, Clock.at 0 0⟩
      [.execute .sorted (.rPush "k" ["a"]), .execute .sorted (.expire "k" 100),
        .execute .sorted (.lPop "k" none)]).store.expiryIndex.lookup "k" =
      some 100000000000 := by decide +kernel
  have hmissing := hagrees.1.mpr rfl
  rw [exec_query_of_le hd (Nat.zero_le _)] at hmissing
  exact absurd (RespValue.integer.inj (Option.some.inj hmissing)) (by decide)

end Thesaurus
