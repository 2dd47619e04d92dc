import Thesaurus.Log.TornTail
import Thesaurus.Log.TtlFree
import Thesaurus.Model.Aof
import Thesaurus.Wire.Framing

/-!
# Log — crashes

A machine that crashes at any moment of a run with one connection, also in the middle of an
append.

* `crash_is_clean_stop`: the next startup does what it would do had the server stopped after one
  of its frames, and not before the last fsync; or the file is cut within a header and the startup
  fails.
* `crash_ttlFree`: without deadlines, what comes back is the store the clients saw at that frame.
-/

namespace Thesaurus
open AppendFile

variable {ex : Executor} {unprintable : Char → Bool}

namespace AofWriter

variable {w : AofWriter} {io : AppendIo} {entry : Bytes}

theorem grows_append : w.file.file.Grows (w.append io entry).2.file.file := by
  have hg : w.file.file.Grows (w.file.writeAll io.room io.direct entry).2.file :=
    BufWriter.grows_writeAll
  rcases append_cases io entry w with ⟨v, hv, he⟩ | ⟨v, hv, -, he⟩ | ⟨v, hv, -, he⟩
  all_goals rw [hv] at hg
  · rw [he]
    exact hg
  · rw [he]
    exact hg.trans BufWriter.grows_flushBuf
  · have hg' := hg.trans (BufWriter.grows_flushBuf (n := io.flush))
    rw [he]
    split
    · exact hg'.trans (grows_syncData (w := { w with file := (v.flushBuf io.flush).2 }) _)
    · exact hg'

/-- An append adds bytes of its entry. -/
theorem content_append_prefix : (w.append io entry).2.content <+: w.content ++ entry := by
  have hc : (w.file.writeAll io.room io.direct entry).2.content <+: w.content ++ entry :=
    BufWriter.content_writeAll_prefix
  have hflush : ∀ v : BufWriter UInt8, v.content <+: w.content ++ entry →
      (v.flushBuf io.flush).2.content <+: w.content ++ entry := fun v h => by
    rwa [BufWriter.content_flushBuf]
  rcases append_cases io entry w with ⟨v, hv, he⟩ | ⟨v, hv, -, he⟩ | ⟨v, hv, -, he⟩
  all_goals rw [hv] at hc
  · rw [he]
    exact hc
  · rw [he]
    exact hflush v hc
  · rw [he]
    split
    · rw [content_syncData]
      exact hflush v hc
    · exact hflush v hc

theorem fsyncMode_append : (w.append io entry).2.fsyncMode = w.fsyncMode := by
  rcases append_cases io entry w with ⟨v, -, he⟩ | ⟨v, -, -, he⟩ | ⟨v, -, -, he⟩
  · rw [he]
  · rw [he]
  · rw [he]
    split
    · exact fsyncMode_syncData _
    · rfl

/-- An append that succeeds leaves the file with the entry at its end. -/
theorem append_ok (h : (w.append io entry).1 = true) :
    (w.append io entry).2.written = w.content ++ entry ∧
      (w.append io entry).2.file.buf = [] ∧
      (w.fsyncMode = .always →
        (w.append io entry).2.file.file.synced = (w.content ++ entry).length) := by
  rcases append_cases io entry w with ⟨v, -, he⟩ | ⟨v, -, -, he⟩ | ⟨v, hv, hf, he⟩
  · rw [he] at h
    cases h
  · rw [he] at h
    cases h
  · have hc : (w.file.writeAll io.room io.direct entry).2.content = w.content ++ entry :=
      BufWriter.content_writeAll_of_ok (by rw [hv])
    rw [hv] at hc
    have hw : (v.flushBuf io.flush).2.file.written = w.content ++ entry :=
      (BufWriter.written_flushBuf hf).trans hc
    by_cases hm : w.fsyncMode = .always
    · rw [he, if_pos hm] at h ⊢
      rw [show io.sync = true from h]
      exact ⟨hw, BufWriter.buf_flushBuf hf, fun _ => congrArg List.length hw⟩
    · rw [he, if_neg hm]
      exact ⟨hw, BufWriter.buf_flushBuf hf, fun h => absurd h hm⟩

theorem grows_log (e : Option Bytes) : w.file.file.Grows (w.log io e).file.file := by
  cases e with
  | none => exact .refl _
  | some entry => exact grows_append

theorem content_log_prefix (e : Option Bytes) :
    (w.log io e).content <+: w.content ++ e.getD [] := by
  cases e with
  | none => exact List.prefix_append _ _
  | some entry => exact content_append_prefix

@[simp] theorem fsyncMode_log (e : Option Bytes) : (w.log io e).fsyncMode = w.fsyncMode := by
  cases e with
  | none => rfl
  | some entry => exact fsyncMode_append

/-- The writer after a turn whose append succeeds, if there is one. -/
theorem log_ok {e : Option Bytes} (hbuf : w.file.buf = [])
    (hok : ∀ entry, e = some entry → (w.append io entry).1 = true)
    (halways : w.fsyncMode = .always → w.written.length ≤ w.file.file.synced) :
    (w.log io e).written = w.written ++ e.getD [] ∧ (w.log io e).file.buf = [] ∧
      (w.fsyncMode = .always →
        (w.log io e).written.length ≤ (w.log io e).file.file.synced) := by
  cases e with
  | none => exact ⟨(List.append_nil _).symm, hbuf, halways⟩
  | some entry =>
      have hc : w.content = w.written := by
        rw [content, BufWriter.content, hbuf, List.append_nil]
      obtain ⟨hw, hb, hs⟩ := append_ok (hok entry rfl)
      rw [hc] at hw hs
      refine ⟨hw, hb, fun hm => ?_⟩
      show (w.append io entry).2.written.length ≤ (w.append io entry).2.file.file.synced
      rw [hs hm, hw]

theorem grows_fsyncTask (ok : Bool) : w.file.file.Grows (w.fsyncTask ok).file.file := by
  rw [fsyncTask]
  split
  · exact grows_syncData ok
  · exact .refl _

@[simp] theorem content_fsyncTask (ok : Bool) : (w.fsyncTask ok).content = w.content := by
  rw [fsyncTask]
  split
  · exact content_syncData ok
  · rfl

@[simp] theorem buf_fsyncTask (ok : Bool) : (w.fsyncTask ok).file.buf = w.file.buf := by
  rw [fsyncTask]
  split
  · exact buf_syncData ok
  · rfl

@[simp] theorem fsyncMode_fsyncTask (ok : Bool) : (w.fsyncTask ok).fsyncMode = w.fsyncMode := by
  rw [fsyncTask]
  split
  · exact fsyncMode_syncData ok
  · rfl

end AofWriter

/-! ### Sessions -/

theorem Session.run_snoc (w : Session) (steps : List (Env × RespValue)) (env : Env)
    (frame : RespValue) :
    w.run ex unprintable (steps ++ [(env, frame)]) =
      (w.run ex unprintable steps).step ex unprintable env frame := by
  induction steps generalizing w with
  | nil => rfl
  | cons p steps ih => exact ih _

/-- The AOF of a session after its first `i` frames. -/
def Session.aofAfter (ex : Executor) (unprintable : Char → Bool) (w : Session)
    (steps : List (Env × RespValue)) (i : Nat) : Bytes :=
  (w.run ex unprintable (steps.take i)).aof

/-- One more frame adds nothing, or the entry of a command. -/
theorem Session.aofAfter_succ {w : Session} {steps : List (Env × RespValue)}
    (hr : ∀ p ∈ steps, Received p.2) {i : Nat} (hi : i < steps.length) :
    w.aofAfter ex unprintable steps (i + 1) = w.aofAfter ex unprintable steps i ∨
    ∃ args cmd, LoggedAs args cmd ∧ w.aofAfter ex unprintable steps (i + 1) =
      w.aofAfter ex unprintable steps i ++ encode (bulkArray args) := by
  obtain ⟨⟨env, frame⟩, hp⟩ : ∃ p, steps[i] = p := ⟨_, rfl⟩
  have hmem : (env, frame) ∈ steps := hp ▸ List.getElem_mem hi
  simp only [aofAfter]
  rw [List.take_add_one, List.getElem?_eq_getElem hi, hp, Option.toList_some, run_snoc, step]
  split
  · rcases handle_cases env frame (w.run ex unprintable (steps.take i)).store with
      ⟨-, response, hh⟩ | ⟨cmd, s', -, -, hh⟩ | ⟨cmd, response, s', hcmd, -, hh⟩
    all_goals rw [hh]
    · exact .inl (List.append_nil _)
    · exact .inl (List.append_nil _)
    · dsimp only
      split
      · obtain ⟨frame', hb, ha⟩ := aofBytes_accepted (c := env.clock) ⟨(hr _ hmem).fits, hcmd⟩
        obtain ⟨a, as, rfl, -⟩ := Command.fromResp2_eq_ok ha.2
        exact .inr ⟨_, _, ha, by rw [Option.getD_some, hb]⟩
      · exact .inl (List.append_nil _)
  · exact .inl rfl

theorem Session.aofAfter_prefix {w : Session} {steps : List (Env × RespValue)}
    (hr : ∀ p ∈ steps, Received p.2) {i : Nat} (hi : i < steps.length) :
    w.aofAfter ex unprintable steps i <+: w.aofAfter ex unprintable steps (i + 1) := by
  rcases @aofAfter_succ ex unprintable w steps hr i hi with h | ⟨args, cmd, -, h⟩
  · rw [h]
  · rw [h]
    exact List.prefix_append _ _

theorem Session.isLog_aofAfter {w : Session} {cmds : List Command} (hw : IsLog w.aof cmds)
    {steps : List (Env × RespValue)} (hr : ∀ p ∈ steps, Received p.2) (i : Nat) :
    ∃ cmds', IsLog (w.aofAfter ex unprintable steps i) cmds' := by
  obtain ⟨cmds', h, -⟩ := Session.run_log (P := fun _ _ => True) (Q := fun _ _ => Fits)
    (fun _ _ _ h => h) (fun _ _ _ _ _ _ _ _ _ _ _ => trivial)
    (fun _ _ _ _ _ _ _ _ _ _ => trivial) hw trivial
    (Session.all_of_forall
      (fun p hp _ => (hr p (List.mem_of_mem_take hp)).fits) w)
  exact ⟨cmds', h⟩

/-! ### Runs of the server -/

namespace Persisted

/-- The append of the turn, if it has one, returns `Ok`. -/
def Succeeds (ex : Executor) (unprintable : Char → Bool) (w : Persisted) : Turn → Prop
  | .serve env frame io => ∀ entry, (handle ex unprintable env frame w.store).entry = some entry →
      (w.writer.append io entry).1 = true
  | .fsync _            => True

/-- Every append of the run returns `Ok`. -/
def AllSucceed (ex : Executor) (unprintable : Char → Bool) : Persisted → List Turn → Prop
  | _, []         => True
  | w, t :: turns =>
      w.Succeeds ex unprintable t ∧ AllSucceed ex unprintable (w.turn ex unprintable t) turns

end Persisted

/-- The frame of the turn, if it has one, came over the wire. -/
def Turn.FromWire : Turn → Prop
  | .serve _ frame _ => Received frame
  | .fsync _         => True

namespace Persisted

/-- The server is where its frames take the session `w₀`, and its file lags behind nothing: all
entries are with the kernel, and those of the saved frames are on the disk. -/
structure Logged (ex : Executor) (unprintable : Char → Bool) (w₀ : Session) (w : Persisted) :
    Prop where
  received : ∀ p ∈ w.served, Received p.2
  session : w₀.run ex unprintable w.served = ⟨w.store, w.writer.written, w.alive⟩
  buf : w.writer.file.buf = []
  always : w.writer.fsyncMode = .always →
    w.writer.written.length ≤ w.writer.file.file.synced
  saved_le : w.saved ≤ w.served.length
  saved : (w₀.aofAfter ex unprintable w.served w.saved).length ≤ w.writer.file.file.synced
  old : w₀.aof.length ≤ w.writer.file.file.synced

variable {w₀ : Session} {w : Persisted} {t : Turn}

theorem logged_start (s : StoreInner) (bytes : Bytes) (fsyncMode : AppendFSyncMode) :
    Logged ex unprintable ⟨s, bytes, true⟩ (start s bytes fsyncMode) where
  received := fun _ hp => absurd hp List.not_mem_nil
  session := rfl
  buf := rfl
  always := fun _ => le_rfl
  saved_le := le_rfl
  saved := le_rfl
  old := le_rfl

theorem Logged.aofAfter_length (h : Logged ex unprintable w₀ w) :
    w₀.aofAfter ex unprintable w.served w.served.length = w.writer.written := by
  rw [Session.aofAfter, List.take_length, h.session]

theorem Logged.content (h : Logged ex unprintable w₀ w) : w.writer.content = w.writer.written := by
  rw [AofWriter.content, BufWriter.content, h.buf, List.append_nil]

/-- The entries of frames that were served stay where they are. -/
theorem aofAfter_snoc (steps : List (Env × RespValue)) (p : Env × RespValue) {i : Nat}
    (hi : i ≤ steps.length) :
    w₀.aofAfter ex unprintable (steps ++ [p]) i = w₀.aofAfter ex unprintable steps i := by
  rw [Session.aofAfter, List.take_append_of_le_length hi]
  rfl

/-- A turn whose append succeeds, if there is one. -/
theorem Logged.turn (h : Logged ex unprintable w₀ w) (hwire : t.FromWire)
    (hok : w.Succeeds ex unprintable t) :
    Logged ex unprintable w₀ (w.turn ex unprintable t) := by
  cases t with
  | fsync ok =>
      have hg := AofWriter.grows_fsyncTask (w := w.writer) ok
      have hwritten : (w.writer.fsyncTask ok).written = w.writer.written := by
        rw [AofWriter.fsyncTask]
        split
        · exact AofWriter.written_syncData ok
        · rfl
      refine ⟨h.received, hwritten ▸ h.session, (AofWriter.buf_fsyncTask ok).trans h.buf,
        ?_, ?_, ?_, h.old.trans hg.synced⟩
      · intro hm
        rw [Persisted.turn] at hm ⊢
        rw [hwritten]
        exact (h.always ((AofWriter.fsyncMode_fsyncTask ok).symm.trans hm)).trans hg.synced
      · simp only [Persisted.turn]
        split
        · exact le_rfl
        · exact h.saved_le
      · simp only [Persisted.turn]
        split
        · next hs =>
            rw [h.aofAfter_length, AofWriter.fsyncTask, if_pos hs.2, hs.1]
            exact le_rfl
        · exact h.saved.trans hg.synced
  | serve env frame io =>
      rw [Persisted.turn]
      by_cases halive : w.alive = true
      · rw [if_pos halive]
        obtain ⟨hwritten, hbuf, halways⟩ :=
          @AofWriter.log_ok w.writer io _ h.buf hok h.always
        have hg : w.writer.file.file.Grows
            (w.writer.log io (handle ex unprintable env frame w.store).entry).file.file :=
          AofWriter.grows_log _
        have hsession : w₀.run ex unprintable (w.served ++ [(env, frame)]) =
            ⟨(handle ex unprintable env frame w.store).store,
              (w.writer.log io (handle ex unprintable env frame w.store).entry).written,
              (handle ex unprintable env frame w.store).response.isSome⟩ := by
          rw [Session.run_snoc, h.session, Session.step, if_pos halive, hwritten]
        have hlast : w₀.aofAfter ex unprintable (w.served ++ [(env, frame)])
            (w.served.length + 1) =
            (w.writer.log io (handle ex unprintable env frame w.store).entry).written := by
          rw [Session.aofAfter, List.take_of_length_le (by simp), hsession]
        refine ⟨?_, hsession, hbuf, fun hm => halways ((AofWriter.fsyncMode_log _).symm.trans hm),
          ?_, ?_, h.old.trans hg.synced⟩
        · intro p hp
          rcases List.mem_append.mp hp with hp | hp
          · exact h.received p hp
          · rw [List.mem_singleton.mp hp]
            exact hwire
        · simp only [List.length_append, List.length_singleton]
          split
          · exact le_rfl
          · exact h.saved_le.trans (Nat.le_succ _)
        · dsimp only
          split
          · next hm =>
              rw [hlast]
              exact halways hm
          · rw [aofAfter_snoc _ _ h.saved_le]
            exact h.saved.trans hg.synced
      · rw [if_neg halive]
        exact h

theorem Logged.run (h : Logged ex unprintable w₀ w) {turns : List Turn}
    (hwire : ∀ t ∈ turns, t.FromWire) (hok : w.AllSucceed ex unprintable turns) :
    Logged ex unprintable w₀ (w.run ex unprintable turns) := by
  induction turns generalizing w with
  | nil => exact h
  | cons t turns ih =>
      exact ih (h.turn (hwire t List.mem_cons_self) hok.1)
        (fun t ht => hwire t (List.mem_cons_of_mem _ ht)) hok.2

/-- What the file can hold after one more turn, whatever its append comes to. -/
theorem Logged.turn_prefix (h : Logged ex unprintable w₀ w) (hwire : t.FromWire) :
    (∀ p ∈ (w.turn ex unprintable t).served, Received p.2) ∧
      w.saved ≤ (w.turn ex unprintable t).served.length ∧
      w₀.aofAfter ex unprintable (w.turn ex unprintable t).served w.saved =
        w₀.aofAfter ex unprintable w.served w.saved ∧
      w.writer.file.file.Grows (w.turn ex unprintable t).writer.file.file ∧
      (w.turn ex unprintable t).writer.written <+:
        w₀.aofAfter ex unprintable (w.turn ex unprintable t).served
          (w.turn ex unprintable t).served.length := by
  cases t with
  | fsync ok =>
      have hg := AofWriter.grows_fsyncTask (w := w.writer) ok
      refine ⟨h.received, h.saved_le, rfl, hg, ?_⟩
      show (w.writer.fsyncTask ok).written <+: _
      have hc : (w.writer.fsyncTask ok).written <+: (w.writer.fsyncTask ok).content :=
        List.prefix_append _ _
      rw [AofWriter.content_fsyncTask, h.content, ← h.aofAfter_length] at hc
      exact hc
  | serve env frame io =>
      rw [Persisted.turn]
      by_cases halive : w.alive = true
      · rw [if_pos halive]
        refine ⟨?_, ?_, aofAfter_snoc _ _ h.saved_le, AofWriter.grows_log _, ?_⟩
        · intro p hp
          rcases List.mem_append.mp hp with hp | hp
          · exact h.received p hp
          · rw [List.mem_singleton.mp hp]
            exact hwire
        · rw [List.length_append]
          exact h.saved_le.trans (Nat.le_add_right _ _)
        · rw [Session.aofAfter, List.take_length, Session.run_snoc, h.session, Session.step,
            if_pos halive]
          have hc : (w.writer.log io (handle ex unprintable env frame w.store).entry).written <+:
              (w.writer.log io (handle ex unprintable env frame w.store).entry).content :=
            List.prefix_append _ _
          have hp := @AofWriter.content_log_prefix w.writer io
            (handle ex unprintable env frame w.store).entry
          rw [h.content] at hp
          exact hc.trans hp
      · rw [if_neg halive]
        refine ⟨h.received, h.saved_le, rfl, .refl _, ?_⟩
        rw [h.aofAfter_length]

end Persisted

/-! ### The startup -/

/-- The startup on a log with a torn entry behind it. -/
theorem sync_torn {bytes : Bytes} {cmds : List Command} (h : IsLog bytes cmds)
    {args : List String} {cmd : Command} (ha : LoggedAs args cmd) {q : Bytes}
    (hq : q <+: encode (bulkArray args)) (hne : q ≠ encode (bulkArray args)) (envs : Nat → Env)
    (s : StoreInner) :
    syncStoreWithAof ex true envs (some (bytes ++ q)) s =
        syncStoreWithAof ex true envs (some bytes) s ∨
      (CutsHeader args q ∧ ∃ e, syncStoreWithAof ex true envs (some (bytes ++ q)) s = .err e) := by
  have hclean := @sync_eq_replay ex _ _ h envs s
  obtain ⟨frames, rfl, hf⟩ := h
  obtain ⟨fuel, hfuel, hloop⟩ := @syncLoop_append ex envs _ _ hf q _ (Nat.lt_succ_self _) s
  have hsync : syncStoreWithAof ex true envs (some (encodeItems frames ++ q)) s =
      (replay ex envs cmds s).elim .panic
        (syncLoop ex fuel (fun i => envs (i + cmds.length)) q) := hloop
  rw [hsync, hclean]
  cases replay ex envs cmds s with
  | none => exact .inl rfl
  | some s' =>
      rcases syncLoop_torn ha hq hne hfuel (fun i => envs (i + cmds.length)) s' with
        ⟨-, he⟩ | ⟨hc, e, he⟩
      · exact .inl he
      · exact .inr ⟨hc, e, he⟩

/-- What a crash in the turn `t` leaves of the file: the entries of the first `j` frames, and a
part of the next one. -/
theorem Persisted.Logged.crash {w₀ : Session} {w : Persisted} {t : Turn}
    (hw : w.Logged ex unprintable w₀) {cmds : List Command} (hlog : IsLog w₀.aof cmds)
    (ht : t.FromWire) {p : Bytes}
    (hp : (w.turn ex unprintable t).writer.file.file.Leaves p) (envs : Nat → Env)
    (s : StoreInner) :
    ∃ j q, w.saved ≤ j ∧ j ≤ (w.turn ex unprintable t).served.length ∧
      p = w₀.aofAfter ex unprintable (w.turn ex unprintable t).served j ++ q ∧
      (syncStoreWithAof ex true envs (some p) s = syncStoreWithAof ex true envs
          (some (w₀.aofAfter ex unprintable (w.turn ex unprintable t).served j)) s ∨
        ∃ args e, CutsHeader args q ∧ syncStoreWithAof ex true envs (some p) s = .err e) := by
  obtain ⟨hr, hsaved, hkeep, hg, hpre⟩ := hw.turn_prefix ht
  generalize (w.turn ex unprintable t).served = served at *
  have hsteps : ∀ i, i < served.length →
      w₀.aofAfter ex unprintable served i <+: w₀.aofAfter ex unprintable served (i + 1) :=
    fun i hi => Session.aofAfter_prefix hr hi
  have hpn : p <+: w₀.aofAfter ex unprintable served served.length := hp.1.trans hpre
  -- what is on the disk is left
  have hkept : ∀ i, i ≤ served.length →
      (w₀.aofAfter ex unprintable served i).length ≤ w.writer.file.file.synced →
      w₀.aofAfter ex unprintable served i <+: p := fun i hi h =>
    List.prefix_of_prefix_length_le (prefix_of_le hsteps hi le_rfl) hpn
      ((h.trans hg.synced).trans hp.2)
  obtain ⟨j, hj, hjp, hmax, hlast⟩ := exists_last_prefix hsteps
    (hkept 0 (Nat.zero_le _) hw.old) hpn
  have hsj : w.saved ≤ j := hmax _ hsaved (hkept _ hsaved (hkeep ▸ hw.saved))
  refine ⟨j, ?_⟩
  rcases hlast with rfl | ⟨hlt, hnext, hne⟩
  · exact ⟨[], hsj, hj, (List.append_nil _).symm, .inl rfl⟩
  obtain ⟨q, rfl⟩ := hjp
  refine ⟨q, hsj, hj, rfl, ?_⟩
  rcases Session.aofAfter_succ (w := w₀) hr hlt with h | ⟨args, cmd, ha, h⟩
  all_goals rw [h] at hnext hne
  · exact absurd (hnext.eq_of_length_le (List.prefix_append _ q).length_le) hne
  · obtain ⟨cmds', hlog'⟩ := @Session.isLog_aofAfter ex unprintable w₀ cmds hlog _ hr j
    rcases sync_torn hlog' ha ((List.prefix_append_right_inj _).mp hnext)
      (fun hq => hne (hq ▸ rfl)) envs s with h | ⟨hc, e, he⟩
    · exact .inl h
    · exact .inr ⟨args, e, hc, he⟩

/-- **A crash is a clean stop.**  A server with one connection starts on a complete log and runs;
all its appends succeed, but for the last one, which the crash may cut anywhere.  Whatever the
crash leaves of the file, the next startup is the one on the log after some frame `j`, no earlier
than the last fsync; or it fails, and then the file ends within a header. -/
theorem crash_is_clean_stop (ex : Executor) (unprintable : Char → Bool)
    (fsyncMode : AppendFSyncMode) {bytes : Bytes} {cmds : List Command} (hlog : IsLog bytes cmds)
    (s : StoreInner) {turns : List Turn} (hturns : ∀ t ∈ turns, t.FromWire)
    (hok : (Persisted.start s bytes fsyncMode).AllSucceed ex unprintable turns) {last : Turn}
    (hlast : last.FromWire) {p : Bytes}
    (hp : (((Persisted.start s bytes fsyncMode).run ex unprintable turns).turn ex unprintable
      last).writer.file.file.Leaves p) (envs : Nat → Env) (s' : StoreInner) :
    let w := (Persisted.start s bytes fsyncMode).run ex unprintable turns
    let log := (Session.mk s bytes true).aofAfter ex unprintable (w.turn ex unprintable last).served
    ∃ j q, w.saved ≤ j ∧ j ≤ (w.turn ex unprintable last).served.length ∧ p = log j ++ q ∧
      (syncStoreWithAof ex true envs (some p) s' =
          syncStoreWithAof ex true envs (some (log j)) s' ∨
        ∃ args e, CutsHeader args q ∧ syncStoreWithAof ex true envs (some p) s' = .err e) :=
  ((Persisted.logged_start s bytes fsyncMode).run hturns hok).crash hlog hlast hp envs s'

/-- A SET and its fsync, and a DEL of which three bytes are left. -/
theorem crash_is_clean_stop_set :
    let w := (Persisted.start Store.new [] .always).run .plain (fun _ => false)
      [.serve (Env.at 0 0) (bulkArray ["SET", "k", "v"]) ⟨0, 0, 64, true⟩]
    let w' := w.turn .plain (fun _ => false)
      (.serve (Env.at 0 1) (bulkArray ["DEL", "k"]) ⟨0, 0, 3, true⟩)
    let log := (Session.mk Store.new [] true).aofAfter .plain (fun _ => false) w'.served
    let p := encode (bulkArray ["SET", "k", "v"]) ++ [42, 50, 13]
    ∃ j q, w.saved ≤ j ∧ j ≤ w'.served.length ∧ p = log j ++ q ∧
      (syncStoreWithAof .plain true (fun _ => Env.at 0 2) (some p) Store.new =
          syncStoreWithAof .plain true (fun _ => Env.at 0 2) (some (log j)) Store.new ∨
        ∃ args e, CutsHeader args q ∧
          syncStoreWithAof .plain true (fun _ => Env.at 0 2) (some p) Store.new = .err e) := by
  have hset : Received (bulkArray ["SET", "k", "v"]) :=
    received_bulkArray (Command.fits_bulkArray.mpr ⟨by decide, by decide⟩)
  have hdel : Received (bulkArray ["DEL", "k"]) :=
    received_bulkArray (Command.fits_bulkArray.mpr ⟨by decide, by decide⟩)
  have hok : (Persisted.start Store.new [] .always).AllSucceed .plain (fun _ => false)
      [.serve (Env.at 0 0) (bulkArray ["SET", "k", "v"]) ⟨0, 0, 64, true⟩] := by
    refine ⟨fun entry h => ?_, trivial⟩
    obtain rfl : encode (bulkArray ["SET", "k", "v"]) = entry := Option.some.inj h
    decide
  exact crash_is_clean_stop .plain (fun _ => false) .always IsLog.nil Store.new
    (fun t ht => by rw [List.mem_singleton.mp ht]; exact hset) hok
    (show Turn.FromWire (.serve (Env.at 0 1) (bulkArray ["DEL", "k"]) ⟨0, 0, 3, true⟩) from hdel)
    ⟨⟨[], rfl⟩, by decide⟩ _ _

/-! ### Without deadlines -/

/-- The frame of the turn, if it has one, is of the fragment without deadlines. -/
def Turn.TtlFree : Turn → Prop
  | .serve _ frame _ => TtlFreeFrame frame
  | .fsync _         => True

theorem Turn.TtlFree.fromWire {t : Turn} (h : t.TtlFree) : t.FromWire := by
  cases t with
  | serve => exact h.1
  | fsync => trivial

namespace Persisted

theorem served_turn {Q : RespValue → Prop} {w : Persisted} {t : Turn}
    (ht : ∀ env frame io, t = .serve env frame io → Q frame) (hw : ∀ p ∈ w.served, Q p.2) :
    ∀ p ∈ (w.turn ex unprintable t).served, Q p.2 := by
  cases t with
  | fsync => exact hw
  | serve env frame io =>
      rw [turn]
      split
      · intro p hp
        rcases List.mem_append.mp hp with hp | hp
        · exact hw p hp
        · rw [List.mem_singleton.mp hp]
          exact ht _ _ _ rfl
      · exact hw

theorem served_run {Q : RespValue → Prop} {w : Persisted} {turns : List Turn}
    (ht : ∀ env frame io, .serve env frame io ∈ turns → Q frame) (hw : ∀ p ∈ w.served, Q p.2) :
    ∀ p ∈ (w.run ex unprintable turns).served, Q p.2 := by
  induction turns generalizing w with
  | nil => exact hw
  | cons t turns ih =>
      exact ih (fun env frame io h => ht env frame io (List.mem_cons_of_mem _ h))
        (served_turn (fun env frame io h => ht env frame io (h ▸ List.mem_cons_self)) hw)

end Persisted

/-- The replay of what such frames leave is the store they leave. -/
theorem sync_ttlFree {steps : List (Env × RespValue)} (hsteps : ∀ p ∈ steps, TtlFreeFrame p.2)
    (envs : Nat → Env) (j : Nat) :
    syncStoreWithAof ex true envs (some (Session.start.aofAfter ex unprintable steps j))
        Store.new =
      .ok (Session.start.run ex unprintable (steps.take j)).store := by
  obtain ⟨cmds, hlog, -, hreplay⟩ := Session.run_log
    (P := fun s cmds => NoDeadlines s ∧ replay ex envs cmds Store.new = some s)
    (Q := fun _ _ frame => TtlFreeFrame frame)
    (fun _ _ _ h => Received.fits h.1) (fun _ _ _ _ _ _ _ => step_ttlFree envs)
    (fun s cmds env frame cmd s' hP hQ hcmd hexec => by
      rw [exec_panic (hQ.2 cmd hcmd) hexec]
      exact hP)
    (w := .start) IsLog.nil ⟨noDeadlines_new, rfl⟩
    (Session.all_of_forall (fun p hp _ => hsteps p (List.mem_of_mem_take hp)) _)
  rw [Session.aofAfter, sync_eq_replay hlog, hreplay]
  rfl

/-- In the mode `always` every frame is saved when its append has succeeded. -/
theorem Persisted.saved_always {w : Persisted} (hm : w.writer.fsyncMode = .always)
    (hs : w.saved = w.served.length) (turns : List Turn) :
    (w.run ex unprintable turns).saved = (w.run ex unprintable turns).served.length := by
  induction turns generalizing w with
  | nil => exact hs
  | cons t turns ih =>
      have hstep : (w.turn ex unprintable t).writer.fsyncMode = .always ∧
          (w.turn ex unprintable t).saved = (w.turn ex unprintable t).served.length := by
        cases t with
        | fsync ok =>
            refine ⟨(AofWriter.fsyncMode_fsyncTask ok).trans hm, ?_⟩
            simp [turn, hs]
        | serve env frame io =>
            rw [turn]
            by_cases ha : w.alive = true
            · rw [if_pos ha]
              refine ⟨(AofWriter.fsyncMode_log _).trans hm, (if_pos hm).trans ?_⟩
              simp only [List.length_append, List.length_singleton]
            · rw [if_neg ha]
              exact ⟨hm, hs⟩
      exact ih hstep.1 hstep.2

/-- **No answered write is lost.**  Without deadlines and random draws, the startup after a crash
at any moment brings back a store of the run: the one after frame `j`, no earlier than the last
fsync; or it fails on a file that ends within a header.  In the mode `always` every frame that was
answered is saved. -/
theorem crash_ttlFree (ex : Executor) (unprintable : Char → Bool) (fsyncMode : AppendFSyncMode)
    {turns : List Turn} (hturns : ∀ t ∈ turns, t.TtlFree)
    (hok : (Persisted.start Store.new [] fsyncMode).AllSucceed ex unprintable turns) {last : Turn}
    (hlast : last.TtlFree) {p : Bytes}
    (hp : (((Persisted.start Store.new [] fsyncMode).run ex unprintable turns).turn ex unprintable
      last).writer.file.file.Leaves p) (envs : Nat → Env) :
    let w := (Persisted.start Store.new [] fsyncMode).run ex unprintable turns
    let served := (w.turn ex unprintable last).served
    (fsyncMode = .always → w.saved = w.served.length) ∧
      ∃ j, w.saved ≤ j ∧ j ≤ served.length ∧
        (syncStoreWithAof ex true envs (some p) Store.new =
            .ok (Session.start.run ex unprintable (served.take j)).store ∨
          ∃ args q e, CutsHeader args q ∧
            p = Session.start.aofAfter ex unprintable served j ++ q ∧
            syncStoreWithAof ex true envs (some p) Store.new = .err e) := by
  intro w served
  refine ⟨fun hm => Persisted.saved_always hm rfl turns, ?_⟩
  have hw : w.Logged ex unprintable Session.start :=
    (Persisted.logged_start Store.new [] fsyncMode).run (fun t ht => (hturns t ht).fromWire) hok
  obtain ⟨j, q, hsj, hj, hpq, hsync⟩ := hw.crash IsLog.nil hlast.fromWire hp envs Store.new
  have hserved : ∀ p ∈ served, TtlFreeFrame p.2 :=
    Persisted.served_turn (fun _ _ _ h => (h ▸ hlast :)) (Persisted.served_run
      (fun _ _ _ h => hturns _ h) fun _ hp => absurd hp List.not_mem_nil)
  refine ⟨j, hsj, hj, ?_⟩
  rcases hsync with h | ⟨args, e, hc, he⟩
  · exact .inl (h.trans (sync_ttlFree hserved envs j))
  · exact .inr ⟨args, q, e, hc, hpq, he⟩

/-- The answered SET is there after a crash in the append of the DEL. -/
theorem crash_ttlFree_set :
    let w := (Persisted.start Store.new [] .always).run .plain (fun _ => false)
      [.serve (Env.at 0 0) (bulkArray ["SET", "k", "v"]) ⟨0, 0, 64, true⟩]
    let served := (w.turn .plain (fun _ => false)
      (.serve (Env.at 0 1) (bulkArray ["DEL", "k"]) ⟨0, 0, 3, true⟩)).served
    let p := encode (bulkArray ["SET", "k", "v"]) ++ [42, 50, 13]
    ∃ j, 1 ≤ j ∧ j ≤ 2 ∧
      (syncStoreWithAof .plain true (fun _ => Env.at 0 2) (some p) Store.new =
          .ok (Session.start.run .plain (fun _ => false) (served.take j)).store ∨
        ∃ args q e, CutsHeader args q ∧
          p = Session.start.aofAfter .plain (fun _ => false) served j ++ q ∧
          syncStoreWithAof .plain true (fun _ => Env.at 0 2) (some p) Store.new = .err e) := by
  have hset : TtlFreeFrame (bulkArray ["SET", "k", "v"]) := by
    refine ⟨received_bulkArray (Command.fits_bulkArray.mpr ⟨by decide, by decide⟩), fun cmd h => ?_⟩
    cases (show Outcome.ok (Command.set "k" "v" none none false) = .ok cmd from h)
    rfl
  have hdel : TtlFreeFrame (bulkArray ["DEL", "k"]) := by
    refine ⟨received_bulkArray (Command.fits_bulkArray.mpr ⟨by decide, by decide⟩), fun cmd h => ?_⟩
    cases (show Outcome.ok (Command.delete ["k"]) = .ok cmd from h)
    trivial
  have hok : (Persisted.start Store.new [] .always).AllSucceed .plain (fun _ => false)
      [.serve (Env.at 0 0) (bulkArray ["SET", "k", "v"]) ⟨0, 0, 64, true⟩] := by
    refine ⟨fun entry h => ?_, trivial⟩
    obtain rfl : encode (bulkArray ["SET", "k", "v"]) = entry := Option.some.inj h
    decide
  exact (crash_ttlFree .plain (fun _ => false) .always
    (fun t ht => by rw [List.mem_singleton.mp ht]; exact hset) hok
    (show Turn.TtlFree (.serve (Env.at 0 1) (bulkArray ["DEL", "k"]) ⟨0, 0, 3, true⟩) from hdel)
    ⟨⟨[], rfl⟩, by decide⟩ _).2

end Thesaurus
