import Thesaurus.Log.Appends
import Thesaurus.Log.Crash
import Thesaurus.Model.Main

/-!
# Log — shutdown

The accept loop of `main`, its semaphore and the shutdown, over every run.

* `connections_limited`: a permit for each handler, and none is started after the signal.
* `graceful_shutdown`: when the connections were drained and the last fsync succeeded, every entry
  that was accepted is on the disk.
* `signal_forgotten`: while a connection waits for a permit, signals are of no effect, then or
  later.
-/

namespace Thesaurus
open AppendFile

namespace Ledger

variable {l : Ledger}

@[simp] theorem fsyncMode_step (call : AofCall) :
    (l.step call).writer.fsyncMode = l.writer.fsyncMode := by
  cases call with
  | append io cmdBytes => exact AofWriter.fsyncMode_append
  | fsync ok => exact AofWriter.fsyncMode_fsyncTask ok

/-- With an fsync for each append, what is accepted is durable. -/
theorem durable_step_always (hmode : l.writer.fsyncMode = .always) (h : l.durable = l.accepted)
    (call : AofCall) : (l.step call).durable = (l.step call).accepted := by
  cases call with
  | append io cmdBytes =>
      have hm : (l.writer.append io cmdBytes).2.fsyncMode = .always :=
        AofWriter.fsyncMode_append.trans hmode
      simp only [step, hm, and_true]
      split_ifs
      · rfl
      · exact h
  | fsync ok => simp [step, hmode, h]

theorem durable_step_everySec (hmode : l.writer.fsyncMode = .everySec) :
    (l.step (.fsync true)).durable = (l.step (.fsync true)).accepted := by
  simp [step, hmode]

theorem run_append (l : Ledger) (calls calls' : List AofCall) :
    l.run (calls ++ calls') = (l.run calls).run calls' := by
  induction calls generalizing l with
  | nil => rfl
  | cons call calls ih => exact ih _

end Ledger

/-- The call of the writer that an event makes. -/
def MainEvent.calls : MainEvent → List AofCall
  | .append io cmdBytes       => [.append io cmdBytes]
  | .tick ok | .lastFsync ok  => [.fsync ok]
  | _                         => []

/-- SIGINT or SIGTERM. -/
def MainEvent.isSignal : MainEvent → Bool
  | .signal => true
  | _       => false

namespace Main

/-- What holds at every moment of a run. -/
structure Inv (maxConnections : Nat) (fsyncMode : AppendFSyncMode) (w : Main) : Prop where
  permits : w.permits + w.running = maxConnections
  opened : w.phase = .accepting ∨ w.phase = .acquiring → w.closed = false
  idle : w.phase = .syncing ∨ (∃ ok, w.phase = .complete ok) → w.aborted = false → w.running = 0
  mode : w.ledger.writer.fsyncMode = fsyncMode
  always : fsyncMode = .always → w.ledger.durable = w.ledger.accepted
  everySec : fsyncMode = .everySec → w.phase = .complete true → w.aborted = false →
    w.ledger.durable = w.ledger.accepted

variable {maxConnections : Nat} {fsyncMode : AppendFSyncMode} {w w' : Main}

theorem inv_start (maxConnections : Nat) (bytes : Bytes) (fsyncMode : AppendFSyncMode) :
    Inv maxConnections fsyncMode (start maxConnections bytes fsyncMode) where
  permits := rfl
  opened _ := rfl
  idle h := by simp [start] at h
  mode := rfl
  always _ := rfl
  everySec _ h := by simp [start] at h

/-- The events that only move `main`, or the tasks that it counts. -/
theorem Inv.moves (h : w.Inv maxConnections fsyncMode) (hledger : w'.ledger = w.ledger)
    (hpermits : w'.permits + w'.running = w.permits + w.running)
    (hopened : w'.phase = .accepting ∨ w'.phase = .acquiring → w'.closed = false)
    (hidle : w'.phase = .syncing ∨ (∃ ok, w'.phase = .complete ok) → w'.aborted = false →
      w'.running = 0)
    (hdone : w'.phase = .complete true → w'.aborted = false →
      w.phase = .complete true ∧ w.aborted = false) :
    w'.Inv maxConnections fsyncMode where
  permits := hpermits.trans h.permits
  opened := hopened
  idle := hidle
  mode := hledger ▸ h.mode
  always hm := hledger ▸ h.always hm
  everySec hm hp ha := hledger ▸ h.everySec hm (hdone hp ha).1 (hdone hp ha).2

/-- **One event.** -/
theorem Inv.act {event : MainEvent} (h : w.Inv maxConnections fsyncMode)
    (hact : w.act event = some w') : w'.Inv maxConnections fsyncMode := by
  cases event with
  | accepted =>
      simp only [Main.act, Option.ite_none_right_eq_some, Option.some.injEq] at hact
      obtain ⟨hphase, rfl⟩ := hact
      exact h.moves rfl rfl (fun _ => h.opened (.inl hphase)) (by simp) (by simp)
  | acceptFails =>
      simp only [Main.act, Option.ite_none_right_eq_some, Option.some.injEq] at hact
      obtain ⟨hphase, rfl⟩ := hact
      exact h.moves rfl rfl (by simp) (by simp) (by simp)
  | signal =>
      simp only [Main.act] at hact
      split_ifs at hact
      · cases hact
        exact h.moves rfl rfl (by simp) (by simp) (by simp)
      · cases hact
        exact h
  | acquired =>
      simp only [Main.act, Option.ite_none_right_eq_some] at hact
      obtain ⟨hphase, hact⟩ := hact
      -- the semaphore is closed behind the loop only
      rw [if_neg (by simp [h.opened (.inr hphase)])] at hact
      simp only [Option.ite_none_right_eq_some, Option.some.injEq] at hact
      obtain ⟨hpos, rfl⟩ := hact
      refine h.moves rfl ?_ (fun _ => h.opened (.inr hphase)) (by simp) (by simp)
      simp only
      omega
  | append io cmdBytes =>
      simp only [Main.act, Option.ite_none_right_eq_some, Option.some.injEq] at hact
      obtain ⟨hpos, rfl⟩ := hact
      refine ⟨h.permits, h.opened, h.idle, ?_, ?_, ?_⟩
      · exact (Ledger.fsyncMode_step _).trans h.mode
      · intro hm
        exact Ledger.durable_step_always (h.mode.trans hm) (h.always hm) _
      · intro _ hphase haborted
        have hidle := h.idle (.inr ⟨true, hphase⟩) haborted
        omega
  | finished =>
      simp only [Main.act, Option.ite_none_right_eq_some, Option.some.injEq] at hact
      obtain ⟨hpos, rfl⟩ := hact
      refine h.moves rfl ?_ h.opened ?_ fun hp ha => ⟨hp, ha⟩
      · simp only
        omega
      · intro hphase haborted
        have hidle := h.idle hphase haborted
        omega
  | tick ok =>
      have hphase : (∀ b, w.phase ≠ .complete b) ∧
          w' = { w with ledger := w.ledger.step (.fsync ok) } := by
        simp only [Main.act] at hact
        split at hact
        · cases hact
        · cases hact
        · next hcomplete =>
          cases hact
          exact ⟨hcomplete, rfl⟩
      obtain ⟨hphase, rfl⟩ := hphase
      refine ⟨h.permits, h.opened, h.idle, ?_, ?_, ?_⟩
      · exact (Ledger.fsyncMode_step _).trans h.mode
      · intro hm
        exact Ledger.durable_step_always (h.mode.trans hm) (h.always hm) _
      · intro _ hcomplete
        exact absurd hcomplete (hphase true)
  | drained =>
      simp only [Main.act, Option.ite_none_right_eq_some, Option.some.injEq] at hact
      obtain ⟨⟨hphase, hidle⟩, rfl⟩ := hact
      exact h.moves rfl rfl (by simp) (fun _ _ => hidle) (by simp)
  | timeout =>
      simp only [Main.act, Option.ite_none_right_eq_some, Option.some.injEq] at hact
      obtain ⟨hphase, rfl⟩ := hact
      exact h.moves rfl rfl (by simp) (by simp) (by simp)
  | lastFsync ok =>
      simp only [Main.act, Option.ite_none_right_eq_some, Option.some.injEq] at hact
      obtain ⟨hphase, rfl⟩ := hact
      refine ⟨h.permits, by simp, fun _ => h.idle (.inl hphase), ?_, ?_, ?_⟩
      · exact (Ledger.fsyncMode_step _).trans h.mode
      · intro hm
        exact Ledger.durable_step_always (h.mode.trans hm) (h.always hm) _
      · intro hm hcomplete _
        obtain rfl : ok = true := Phase.complete.inj hcomplete
        exact Ledger.durable_step_everySec (h.mode.trans hm)

theorem Inv.run {events : List MainEvent} (h : w.Inv maxConnections fsyncMode)
    (hrun : w.run events = some w') : w'.Inv maxConnections fsyncMode :=
  run_of_act (fun _ _ _ hact h => Inv.act h hact) hrun h

/-- The AOF of a run is that of the calls its events make. -/
theorem ledger_act {event : MainEvent} (hact : w.act event = some w') :
    w'.ledger = w.ledger.run event.calls := by
  cases event with
  | signal =>
      simp only [Main.act] at hact
      split_ifs at hact <;> cases hact <;> rfl
  | acquired =>
      simp only [Main.act] at hact
      split_ifs at hact <;> cases hact <;> rfl
  | tick ok =>
      simp only [Main.act] at hact
      split at hact <;> cases hact
      rfl
  | _ =>
      simp only [Main.act, Option.ite_none_right_eq_some, Option.some.injEq] at hact
      obtain ⟨-, rfl⟩ := hact
      rfl

theorem ledger_run {events : List MainEvent} (hrun : w.run events = some w') :
    w'.ledger = w.ledger.run (events.flatMap MainEvent.calls) := by
  induction events generalizing w with
  | nil =>
      obtain rfl := Option.some.inj hrun
      rfl
  | cons event events ih =>
      obtain ⟨w₁, hstep, hrun⟩ := Option.bind_eq_some_iff.mp hrun
      rw [ih hrun, ledger_act hstep, List.flatMap_cons, Ledger.run_append]

/-- A handler starts while `main` waits for its permit, and the semaphore stays closed. -/
theorem act_running {event : MainEvent} (hact : w.act event = some w') :
    (w'.running ≤ w.running ∨ w.phase = .acquiring ∧ w.closed = false) ∧
      (w.closed = true → w'.closed = true) := by
  cases event with
  | signal =>
      simp only [Main.act] at hact
      split_ifs at hact <;> cases hact <;> simp
  | acquired =>
      simp only [Main.act] at hact
      split_ifs at hact with hphase hclosed hpos
      · cases hact
        exact ⟨.inl le_rfl, fun h => h⟩
      · cases hact
        exact ⟨.inr ⟨hphase, by simpa using hclosed⟩, fun h => h⟩
  | tick ok =>
      simp only [Main.act] at hact
      split at hact <;> cases hact
      exact ⟨.inl le_rfl, fun h => h⟩
  | _ =>
      simp only [Main.act, Option.ite_none_right_eq_some, Option.some.injEq] at hact
      obtain ⟨-, rfl⟩ := hact
      simp

/-- `main` waits for a permit, and there is none. -/
def Waiting (w : Main) : Prop := w.phase = .acquiring ∧ w.closed = false ∧ w.permits = 0

/-- `main` goes on waiting for a permit until a handler is over, and a signal changes nothing. -/
theorem act_waiting {event : MainEvent} (hact : w.act event = some w') (he : event ≠ .finished)
    (h : w.Waiting) : w'.Waiting ∧ (event.isSignal = true → w' = w) := by
  obtain ⟨hphase, hclosed, hpermits⟩ := h
  cases event with
  | finished => exact absurd rfl he
  | signal =>
      simp only [Main.act, hphase, reduceCtorEq, if_false, Option.some.injEq] at hact
      subst hact
      exact ⟨⟨hphase, hclosed, hpermits⟩, fun _ => rfl⟩
  | append io cmdBytes =>
      simp only [Main.act, Option.ite_none_right_eq_some, Option.some.injEq] at hact
      obtain ⟨-, rfl⟩ := hact
      exact ⟨⟨hphase, hclosed, hpermits⟩, fun hs => nomatch hs⟩
  | tick ok =>
      simp only [Main.act] at hact
      split at hact <;> cases hact
      exact ⟨⟨hphase, hclosed, hpermits⟩, fun hs => nomatch hs⟩
  | _ => simp [Main.act, hphase, hclosed, hpermits] at hact

/-- **While `main` waits** for a handler to be over, the run is the one without the signals. -/
theorem run_waiting {later : List MainEvent} (h : w.Waiting)
    (hno : ∀ event ∈ later, event ≠ .finished) (hlater : w.run later = some w') :
    w'.Waiting ∧ w.run (later.filter fun event => !event.isSignal) = some w' := by
  induction later generalizing w with
  | nil =>
      obtain rfl := Option.some.inj hlater
      exact ⟨h, rfl⟩
  | cons event later ih =>
      obtain ⟨v, hact, hlater⟩ := Option.bind_eq_some_iff.mp hlater
      obtain ⟨hv, hsame⟩ := act_waiting hact (hno event List.mem_cons_self) h
      obtain ⟨hw', hrun⟩ := ih hv (fun e he => hno e (List.mem_cons_of_mem _ he)) hlater
      refine ⟨hw', ?_⟩
      cases hs : event.isSignal with
      | true =>
          rw [List.filter_cons_of_neg (by simp [hs]), ← hsame hs]
          exact hrun
      | false =>
          rw [List.filter_cons_of_pos (by simp [hs]), Main.run, hact]
          exact hrun

/-- Then the connection gets its permit, and `main` accepts again. -/
theorem acquired_of_finished (h : w.Waiting) {v : Main} (hact : w.act .finished = some v) :
    ∃ u, v.act .acquired = some u ∧ u.phase = .accepting ∧ u.closed = false := by
  obtain ⟨hphase, hclosed, -⟩ := h
  simp only [Main.act, Option.ite_none_right_eq_some, Option.some.injEq] at hact
  obtain ⟨-, rfl⟩ := hact
  let u : Main := ⟨.accepting, w.closed, w.permits, w.running - 1 + 1, w.aborted, w.ledger⟩
  refine ⟨u, ?_, rfl, hclosed⟩
  simp only [Main.act]
  rw [if_pos hphase, if_neg (by simp [hclosed]), if_pos (Nat.succ_pos _)]
  rfl

end Main

/-! ### Whole runs -/

section Runs

variable {maxConnections : Nat} {fsyncMode : AppendFSyncMode} {bytes : Bytes}
  {events : List MainEvent} {w : Main}

/-- **The connections are limited.**  At every moment each handler holds one of the permits; a
connection that waits for its permit never finds the semaphore closed; and once it is closed, no
handler starts. -/
theorem connections_limited
    (hrun : (Main.start maxConnections bytes fsyncMode).run events = some w) :
    w.permits + w.running = maxConnections ∧ (w.phase = .acquiring → w.closed = false) ∧
      (w.closed = true → ∀ later w', w.run later = some w' → w'.running ≤ w.running) := by
  have hinv : w.Inv maxConnections fsyncMode := (Main.inv_start _ _ _).run hrun
  refine ⟨hinv.permits, fun hphase => hinv.opened (.inr hphase), ?_⟩
  intro hclosed later w' hlater
  suffices h : w'.Inv maxConnections fsyncMode ∧ w'.closed = true ∧ w'.running ≤ w.running from
    h.2.2
  refine Main.run_of_act (P := fun w' =>
    w'.Inv maxConnections fsyncMode ∧ w'.closed = true ∧ w'.running ≤ w.running) ?_ hlater
    ⟨hinv, hclosed, le_rfl⟩
  rintro v event v' hact ⟨hv, hopen, hle⟩
  obtain ⟨hrunning, hstays⟩ := Main.act_running hact
  refine ⟨hv.act hact, hstays hopen, ?_⟩
  rcases hrunning with h | ⟨hphase, hnot⟩
  · exact h.trans hle
  · rw [hopen] at hnot
    cases hnot

/-- One handler runs when the signal comes. -/
theorem connections_limited_one :
    let w : Main := ⟨.draining, true, 0, 1, false, .start [] .everySec⟩
    w.permits + w.running = 1 ∧ ∀ later w', w.run later = some w' → w'.running ≤ 1 := by
  intro w
  have hrun : (Main.start 1 [] .everySec).run [.accepted, .acquired, .signal] = some w := rfl
  obtain ⟨hpermits, -, hclosed⟩ := connections_limited hrun
  exact ⟨hpermits, hclosed rfl⟩

/-- **A graceful shutdown loses nothing.**  `main` returned, all connections were drained and the
last fsync succeeded, with `appendfsync` at `always` or `everysec`.  Then whatever a power failure
leaves of the AOF holds every entry that was accepted. -/
theorem graceful_shutdown (hmode : fsyncMode ≠ .no)
    (hrun : (Main.start maxConnections bytes fsyncMode).run events = some w)
    (hdone : w.phase = .complete true) (hdrained : w.aborted = false)
    (hw : ∀ call ∈ events.flatMap MainEvent.calls, call.Whole) {p : Bytes}
    (hp : w.ledger.writer.file.file.Leaves p) :
    ∃ kept rest : List Bytes,
      bytes ++ kept.flatten <+: p ∧ p <+: bytes ++ (kept ++ rest).flatten ∧
      w.ledger.accepted.Sublist kept ∧
      (kept ++ rest).Sublist (AofCall.entries (events.flatMap MainEvent.calls)) := by
  have hinv : w.Inv maxConnections fsyncMode := (Main.inv_start _ _ _).run hrun
  have hdurable : w.ledger.durable = w.ledger.accepted := by
    cases fsyncMode with
    | always => exact hinv.always rfl
    | everySec => exact hinv.everySec rfl hdone hdrained
    | no => exact absurd rfl hmode
  have hintact : w.ledger.Intact bytes
      ([] ++ AofCall.entries (events.flatMap MainEvent.calls)) := by
    rw [Main.ledger_run hrun]
    exact (Ledger.intact_start bytes fsyncMode).run hw
  obtain ⟨kept, rest, hkept, hrest, hd, -, hsub⟩ := hintact.survives hp
  exact ⟨kept, rest, hkept, hrest, hdurable ▸ hd, hsub⟩

/-- A SET that is still on its way when the signal comes. -/
theorem graceful_shutdown_set :
    ∃ kept rest : List Bytes, kept.flatten <+: encode (bulkArray ["SET", "k", "v"]) ∧
      encode (bulkArray ["SET", "k", "v"]) <+: (kept ++ rest).flatten ∧
      [encode (bulkArray ["SET", "k", "v"])].Sublist kept := by
  let set : AofCall := .append ⟨0, 64, 64, true⟩ (encode (bulkArray ["SET", "k", "v"]))
  let ledger := ((Ledger.start [] .everySec).step set).step (.fsync true)
  have hrun : (Main.start 1 [] .everySec).run [.accepted, .acquired, .signal,
      .append ⟨0, 64, 64, true⟩ (encode (bulkArray ["SET", "k", "v"])), .finished, .drained,
      .lastFsync true] = some ⟨.complete true, true, 1, 0, false, ledger⟩ := rfl
  have hw : ∀ call ∈ [set, .fsync true], call.Whole := by
    intro call hc
    simp only [List.mem_cons, List.not_mem_nil, or_false] at hc
    rcases hc with rfl | rfl
    · exact .inl (by decide)
    · trivial
  have hp : ledger.writer.file.file.Leaves (encode (bulkArray ["SET", "k", "v"])) :=
    ⟨by decide, by decide⟩
  obtain ⟨kept, rest, hkept, hrest, hsub, -⟩ :=
    graceful_shutdown (by decide) hrun rfl rfl hw hp
  exact ⟨kept, rest, hkept, hrest, hsub⟩

/-- **A signal is forgotten** that comes while all permits are taken and one more connection waits:
whatever comes, `main` goes on waiting until a handler is over, the run is the one without the
signals, and when a handler is over the connection gets its permit and `main` accepts again. -/
theorem signal_forgotten
    (hrun : (Main.start maxConnections bytes fsyncMode).run events = some w)
    (hphase : w.phase = .acquiring) (hfull : w.running = maxConnections)
    {later : List MainEvent} (hno : ∀ event ∈ later, event ≠ .finished) {w' : Main}
    (hlater : w.run later = some w') :
    w'.phase = .acquiring ∧ w'.permits = 0 ∧
      w.run (later.filter fun event => !event.isSignal) = some w' ∧
      ∀ v, w'.act .finished = some v →
        ∃ u, v.act .acquired = some u ∧ u.phase = .accepting ∧ u.closed = false := by
  have hinv : w.Inv maxConnections fsyncMode := (Main.inv_start _ _ _).run hrun
  have hpermits : w.permits = 0 := by
    have := hinv.permits
    omega
  have hwaiting : w.Waiting := ⟨hphase, hinv.opened (.inr hphase), hpermits⟩
  obtain ⟨hw', hsame⟩ := Main.run_waiting hwaiting hno hlater
  exact ⟨hw'.1, hw'.2.2, hsame, fun v => Main.acquired_of_finished hw'⟩

/-- Two signals and a tick, with one permit and two connections. -/
theorem signal_forgotten_two :
    let w : Main := ⟨.acquiring, false, 0, 1, false, .start [] .no⟩
    ∃ w', w.run [.signal, .tick true, .signal] = some w' ∧ w.run [.tick true] = some w' ∧
      w'.phase = .acquiring := by
  intro w
  have hrun : (Main.start 1 [] .no).run [.accepted, .acquired, .accepted] = some w := rfl
  have hlater : w.run [.signal, .tick true, .signal] =
      some { w with ledger := w.ledger.step (.fsync true) } := rfl
  obtain ⟨hphase, -, hsame, -⟩ := signal_forgotten hrun rfl rfl (by simp) hlater
  exact ⟨_, hlater, hsame, hphase⟩

end Runs

end Thesaurus
