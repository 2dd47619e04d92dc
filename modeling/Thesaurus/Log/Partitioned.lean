import Thesaurus.Commands.Isolation
import Thesaurus.Log.TtlFree
import Thesaurus.Model.Logging
import Thesaurus.Support.RelyGuarantee

/-!
# Log — partitioned keys

The entries of several connections need not be in the order of the executions.  They do for clients
that write different keys: each then relies on the others to leave its keys alone, in the store and
in what the file replays to, and guarantees the same.  What a client reads is of no matter.

* `ends_execute`: a write of the fragment without deadlines, alone, whatever the clock says at each
  of its calls.
* `runFrame_meets`: one turn of `run_handler` brings the file in step with the store again.
* `partitioned_restart`: whatever the interleaving of the calls and the appends, the replay of the
  file has what the store has, for the keys of every client that is done.
-/

namespace Thesaurus
open StoreInner Atomic

/-! ### Calls without deadlines -/

/-- On a store without deadlines the call is the same at all readings, and sets none. -/
def StoreOp.Timeless (op : StoreOp) : Prop :=
  ∀ s, NoDeadlines s → ∀ env env', op.at env s = op.at env' s ∧ NoDeadlines (op.at env s).2

section Calls

variable {key : String}

theorem timeless_of_read {op : StoreOp} {f : Instant → StoreInner → op.Res}
    (hop : ∀ now draws s, op.apply now draws s = (f now s, s))
    (hf : ∀ s, NoDeadlines s → ∀ now now', f now s = f now' s) : op.Timeless := by
  intro s hs env env'
  rw [StoreOp.at, StoreOp.at, hop, hop, hf s hs env.clock.mono env'.clock.mono]
  exact ⟨rfl, hs⟩

/-- A call of one key. -/
theorem timeless_of_cell {op : StoreOp} {g : Instant → Cell → op.Res × Cell}
    (hop : ∀ now draws s, op.apply now draws s = keyed.at key (g now) s)
    (hg : ∀ v now now', g now ⟨v, none⟩ = g now' ⟨v, none⟩ ∧ (g now ⟨v, none⟩).2.deadline = none) :
    op.Timeless := by
  intro s hs env env'
  have hx : s.cell key = ⟨(s.cell key).value, none⟩ := by rw [← hs key]
  obtain ⟨h₁, h₂⟩ := hg (s.cell key).value env.clock.mono env'.clock.mono
  rw [← hx] at h₁ h₂
  rw [StoreOp.at, StoreOp.at, hop, hop, keyed_at, keyed_at, ← h₁]
  exact ⟨rfl, noDeadlines_setCell hs h₂⟩

theorem push_congr (createIfMissing : Bool) (pushFn : List String → String → List String)
    (element : String) (v : Option StoreValue) (now now' : Instant) :
    Cell.push now element createIfMissing pushFn ⟨v, none⟩ =
        Cell.push now' element createIfMissing pushFn ⟨v, none⟩ ∧
      (Cell.push now element createIfMissing pushFn ⟨v, none⟩).2.deadline = none := by
  refine ⟨by simp only [Cell.push, Cell.live_noDeadline], ?_⟩
  simp only [Cell.push, Cell.live_noDeadline]
  rcases v with _ | _ | _ | _
  · cases createIfMissing <;> rfl
  · rfl
  · rfl
  · rfl

theorem timeless_getString : (StoreOp.getString key).Timeless :=
  timeless_of_read (fun now draws s => apply_getString now draws s key) fun s hs now now' => by
    rw [hs.live now, hs.live now']

theorem timeless_setString (value : String) : (StoreOp.setString key value).Timeless :=
  timeless_of_cell (g := fun _ _ => ((), Cell.setString value))
    (fun now draws s => apply_setString now draws s key value) fun _ _ _ => ⟨rfl, rfl⟩

theorem timeless_delete : (StoreOp.delete key).Timeless :=
  timeless_of_cell (fun now draws s => apply_delete now draws s key) fun _ _ _ => ⟨rfl, rfl⟩

theorem timeless_lpush (element : String) : (StoreOp.lpush key element).Timeless :=
  timeless_of_cell (fun now draws s => apply_lpush now draws s key element) (push_congr _ _ _)

theorem timeless_rpush (element : String) : (StoreOp.rpush key element).Timeless :=
  timeless_of_cell (fun now draws s => apply_rpush now draws s key element) (push_congr _ _ _)

theorem timeless_lpushx (element : String) : (StoreOp.lpushx key element).Timeless :=
  timeless_of_cell (fun now draws s => apply_lpushx now draws s key element) (push_congr _ _ _)

theorem timeless_rpushx (element : String) : (StoreOp.rpushx key element).Timeless :=
  timeless_of_cell (fun now draws s => apply_rpushx now draws s key element) (push_congr _ _ _)

theorem timeless_mset (items : List (String × String)) : (StoreOp.mset items).Timeless :=
  fun _ hs _ _ => ⟨rfl, noDeadlines_mset hs items⟩

theorem timeless_smove (source destination member : String) :
    (StoreOp.smove source destination member).Timeless :=
  fun _ hs env env' => smove_congr hs env.clock.mono env'.clock.mono source destination member

end Calls

/-! ### Commands without deadlines -/

section Commands

variable {ex : Executor} {c : Clock} {P : String → Prop}

theorem timeless_set (key value : String) (condition : Option SetCondition) (g : Bool) :
    (ex.set c key value condition none g).All StoreOp.Timeless := by
  rw [Executor.set, Prog.invoke_bind]
  refine ⟨timeless_getString, fun found => ?_⟩
  cases found with
  | error e => trivial
  | ok prev =>
      dsimp only
      split
      · exact ⟨timeless_setString value, fun _ => trivial⟩
      · trivial

/-- The writes of the fragment make calls whose readings do not matter. -/
theorem timeless_execute {cmd : Command} (h : TtlFree cmd) (hw : cmd.isWrite = true)
    (hin : cmd.Within P) : (ex.execute c cmd).All StoreOp.Timeless := by
  cases cmd with
  | set key value condition expiry g =>
      obtain rfl : expiry = none := h
      exact timeless_set key value condition g
  | mSet items => exact ⟨timeless_mset items, fun _ => trivial⟩
  | delete keys =>
      exact Prog.all_bind (all_deleteLoop fun _ _ => timeless_delete) fun _ => trivial
  | lPush key elements =>
      exact all_pushLoop (fun element => show (Prog.invoke (StoreOp.lpush key element)).All _ from
        ⟨timeless_lpush element, fun _ => trivial⟩) elements 0
  | rPush key elements =>
      exact all_pushLoop (fun element => show (Prog.invoke (StoreOp.rpush key element)).All _ from
        ⟨timeless_rpush element, fun _ => trivial⟩) elements 0
  | lPushX key elements =>
      exact all_pushLoop (fun element => show (Prog.invoke (StoreOp.lpushx key element)).All _ from
        ⟨timeless_lpushx element, fun _ => trivial⟩) elements 0
  | rPushX key elements =>
      exact all_pushLoop (fun element => show (Prog.invoke (StoreOp.rpushx key element)).All _ from
        ⟨timeless_rpushx element, fun _ => trivial⟩) elements 0
  | lPop key count | rPop key count =>
      exact ⟨timeless_of_cell (fun now _ s => popInner_eq now s key _ _)
        (fun v now now' => pop_congr v now now' _ _), fun _ => trivial⟩
  | sAdd key members =>
      exact ⟨timeless_of_cell (fun now _ s => sadd_eq now s key members)
        (fun v now now' => sadd_congr v now now' _), fun _ => trivial⟩
  | sRem key members =>
      exact ⟨timeless_of_cell (fun now _ s => srem_eq now s key members)
        (fun v now now' => srem_congr v now now' _), fun _ => trivial⟩
  | sMove source destination member =>
      exact ⟨timeless_smove source destination member, fun _ => trivial⟩
  | flushDb mode =>
      obtain ⟨keys, hkeys, -⟩ := hin
      cases hkeys
  | getDel | sPop | persist | expire | pExpire | expireAt | pExpireAt => cases h
  | _ => cases hw

/-- How a command that began on `s` ends: with its effect on `s`, or without one when its handler
does not append it. -/
def Settles (ex : Executor) (cmd : Command) (s : StoreInner) : Reply → StoreInner → Prop
  | none,          t => t = s
  | some response, t =>
      if appends cmd response then ∀ env, ex.exec env cmd s = (some response, t) else t = s

/-- **A write alone**, whatever the clock says at each of its calls. -/
theorem ends_execute {cmd : Command} {args : List RespValue} (h : TtlFree cmd)
    (hw : cmd.isWrite = true) (hin : cmd.Within P) (hshape : Command.Shaped args cmd)
    {s : StoreInner} (hs : NoDeadlines s) :
    (ex.execute c cmd).Ends StoreOp.at (Settles ex cmd s) s := by
  refine Prog.ends_of_free (I := NoDeadlines) ⟨c, .sorted⟩ (fun op s hop hs env => ?_)
    (timeless_execute h hw hin) hs ?_
  · exact hop s hs env ⟨c, .sorted⟩
  · have hexec : (ex.execute c cmd).run (StoreOp.at ⟨c, .sorted⟩) s =
      ex.exec ⟨c, .sorted⟩ cmd s := rfl
    rw [hexec]
    obtain ⟨⟨r, t⟩, hrun⟩ : ∃ x, ex.exec ⟨c, .sorted⟩ cmd s = x := ⟨_, rfl⟩
    rw [hrun]
    cases r with
    | none => exact exec_panic h hrun
    | some response =>
        rw [Settles]
        split
        · intro env
          rw [← hrun]
          exact ((exec_congr h hw hs ⟨c, .sorted⟩ env).1).symm
        · next happ => exact exec_unlogged h hshape hs hrun (Bool.eq_false_of_not_eq_true happ)

/-- A command stays within the keys it names. -/
theorem confined_exec {cmd : Command} (h : cmd.Within P) (env : Env) :
    keyed.Confined P (ex.exec env cmd) :=
  Prog.confined_run ((within_execute h).mono fun _ hop =>
    confined_apply hop env.clock.mono env.draws)

theorem TtlFree.aofBytes_eq {cmd : Command} (h : TtlFree cmd) (frame : RespValue) :
    aofBytes c frame cmd = encode frame := by
  cases cmd with
  | expire | pExpire => cases h
  | _ => rfl

end Commands

/-! ### What a client relies on -/

/-- The stores hold the same under the keys of `P`. -/
def Agree (P : String → Prop) (s t : StoreInner) : Prop := ∀ k, P k → s.cell k = t.cell k

/-- The file replays to the store, whatever the execution of its entries reads. -/
structure Replays (ex : Executor) (aof : Bytes) (s : StoreInner) : Prop where
  noDeadlines : NoDeadlines s
  log : ∃ cmds, IsLog aof cmds ∧ ∀ envs, replay ex envs cmds Store.new = some s

/-- The store, and what the file replays to, stay as they are under the keys of `P`. -/
def Spares (ex : Executor) (P : String → Prop) (w w' : Shared) : Prop :=
  Agree P w.store w'.store ∧
    ∀ s, Replays ex w.aof s → ∃ s', Replays ex w'.aof s' ∧ Agree P s s'

/-- Under the keys of `P`, the file replays to what the store holds. -/
def InStep (ex : Executor) (P : String → Prop) (w : Shared) : Prop :=
  ∃ s, Replays ex w.aof s ∧ Agree P w.store s

/-- The same while a command is under way that began on `s`, and has come to `t`. -/
def Between (ex : Executor) (P : String → Prop) (s t : StoreInner) (w : Shared) : Prop :=
  Agree P w.store t ∧ ∃ s', Replays ex w.aof s' ∧ Agree P s s'

section Contracts

variable {ex : Executor} {P P' : String → Prop} {aof : Bytes} {s t u : StoreInner}
  {w w' w'' : Shared}

theorem Agree.refl (s : StoreInner) : Agree P s s := fun _ _ => rfl

theorem Agree.symm (h : Agree P s t) : Agree P t s := fun k hk => (h k hk).symm

theorem Agree.trans (h : Agree P s t) (h' : Agree P t u) : Agree P s u :=
  fun k hk => (h k hk).trans (h' k hk)

theorem Replays.start : Replays ex [] Store.new :=
  ⟨noDeadlines_new, [], .nil, fun _ => rfl⟩

theorem Replays.sync (h : Replays ex aof s) (envs : Nat → Env) :
    syncStoreWithAof ex true envs (some aof) Store.new = .ok s := by
  obtain ⟨cmds, hlog, hreplay⟩ := h.log
  rw [sync_eq_replay hlog, hreplay]
  rfl

theorem Replays.unique (h : Replays ex aof s) (h' : Replays ex aof t) : s = t := by
  have hsync := (h.sync fun _ => Env.at 0 0).symm.trans (h'.sync fun _ => Env.at 0 0)
  cases hsync
  rfl

/-- One more entry. -/
theorem Replays.append (h : Replays ex aof s) {frame : RespValue} {cmd : Command}
    {response : RespValue} (hacc : Accepted frame cmd)
    (hexec : ∀ env, ex.exec env cmd s = (some response, t)) (ht : NoDeadlines t) :
    Replays ex (aof ++ encode frame) t := by
  obtain ⟨cmds, hlog, hreplay⟩ := h.log
  exact ⟨ht, cmds ++ [cmd], hlog.append hacc, fun envs => replay_snoc (hreplay envs) (hexec _)⟩

theorem Spares.refl (w : Shared) : Spares ex P w w := ⟨.refl _, fun s hs => ⟨s, hs, .refl _⟩⟩

theorem Spares.trans (h : Spares ex P w w') (h' : Spares ex P w' w'') : Spares ex P w w'' := by
  refine ⟨h.1.trans h'.1, fun s hs => ?_⟩
  obtain ⟨s', hs', hag⟩ := h.2 s hs
  obtain ⟨s'', hs'', hag'⟩ := h'.2 s' hs'
  exact ⟨s'', hs'', hag.trans hag'⟩

theorem Spares.mono (h : Spares ex P w w') (hP : ∀ k, P' k → P k) : Spares ex P' w w' := by
  refine ⟨fun k hk => h.1 k (hP k hk), fun s hs => ?_⟩
  obtain ⟨s', hs', hag⟩ := h.2 s hs
  exact ⟨s', hs', fun k hk => hag k (hP k hk)⟩

theorem Between.keeps (h : Between ex P s t w) (hw : Spares ex P w w') : Between ex P s t w' := by
  obtain ⟨hlive, s₁, hs₁, hag⟩ := h
  obtain ⟨s₂, hs₂, hag'⟩ := hw.2 s₁ hs₁
  exact ⟨hw.1.symm.trans hlive, s₂, hs₂, hag.trans hag'⟩

theorem Between.inStep (h : Between ex P s s w) : InStep ex P w := by
  obtain ⟨hlive, s', hs', hag⟩ := h
  exact ⟨s', hs', hlive.trans hag⟩

theorem InStep.keeps (h : InStep ex P w) (hw : Spares ex P w w') : InStep ex P w' := by
  obtain ⟨s, hs, hag⟩ := h
  exact Between.inStep (Between.keeps ⟨hag, s, hs, .refl s⟩ hw)

end Contracts

/-- A client that writes the keys of `P` relies on the others to leave them alone, and leaves them
the other keys. -/
def keyContract (ex : Executor) (P : String → Prop) : Contract Shared where
  rely := Spares ex P
  guarantee := Spares ex fun k => ¬P k
  rely_refl := Spares.refl
  rely_trans := Spares.trans

/-! ### One client -/

/-- The frame came in over the wire.  The command it is, if any, is of the fragment without
deadlines, and what it writes is under keys of `P`. -/
def OwnWrites (P : String → Prop) (frame : RespValue) : Prop :=
  TtlFreeFrame frame ∧
    ∀ cmd, Command.fromResp2 frame = .ok cmd → cmd.isWrite = true → cmd.Within P

section Clients

variable {ex : Executor} {unprintable : Char → Bool} {P : String → Prop} {α : Type}
  {s t : StoreInner} {w : Shared}

/-- The calls of a write, among those of the others. -/
theorem called_meets {p : StoreProg α} {Q : α → StoreInner → Prop}
    (hp : p.All (StoreOp.Within P)) (hQ : p.Ends StoreOp.at Q t) (hw : Between ex P s t w) :
    (StoreProg.called p).Meets HandlerOp.at (keyContract ex P)
      (fun a w' => ∃ t', Q a t' ∧ Between ex P s t' w') w := by
  induction p generalizing t w with
  | ret a => exact fun w' hkeep => ⟨t, hQ, hw.keeps hkeep⟩
  | call op next ih =>
      intro w₁ env hkeep
      have hb : Between ex P s t w₁ := hw.keeps hkeep
      have hc := confined_apply hp.1 env.clock.mono env.draws
      have hresult : (op.at env w₁.store).1 = (op.at env t).1 := hc.result _ _ hb.1
      refine ⟨⟨fun k hk => (hc.frame w₁.store k hk).symm, fun s hs => ⟨s, hs, .refl s⟩⟩, ?_⟩
      show (StoreProg.called (next (op.at env w₁.store).1)).Meets _ _ _ _
      rw [hresult]
      exact ih _ (hp.2 _) (hQ env) ⟨hc.own _ _ hb.1, hb.2⟩

/-- The calls of a read leave everything as it is, whatever keys they read. -/
theorem called_meets_read {p : StoreProg α} (hp : ReadsOnly p) (hw : InStep ex P w) :
    (StoreProg.called p).Meets HandlerOp.at (keyContract ex P) (fun _ w' => InStep ex P w') w := by
  induction p generalizing w with
  | ret a => exact fun w' hkeep => hw.keeps hkeep
  | call op next ih =>
      intro w₁ env hkeep
      have hsame : (op.at env w₁.store).2 = w₁.store := StoreOp.apply_of_isRead hp.1 _ _ _
      have hstep : ((HandlerOp.store op).at env w₁).2 = w₁ := by rw [HandlerOp.at, hsame]
      rw [hstep]
      exact ⟨Spares.refl w₁, ih _ (hp.2 _) (hw.keeps hkeep)⟩

/-- The append of a write brings the file in step again. -/
theorem persistCommand_meets {c : Clock} {frame : RespValue} {cmd : Command} {r : Reply}
    (hacc : Accepted frame cmd) (h : TtlFree cmd) (hin : cmd.Within P)
    (ht : Settles ex cmd s r t) (hw : Between ex P s t w) :
    (persistCommand c frame cmd r).Meets HandlerOp.at (keyContract ex P)
      (fun _ w' => InStep ex P w') w := by
  cases r with
  | none =>
      obtain rfl : t = s := ht
      exact fun w' hkeep => hw.inStep.keeps hkeep
  | some response =>
      rw [Settles] at ht
      rw [persistCommand]
      split at ht
      swap
      · next happ =>
          subst ht
          rw [if_neg happ]
          exact fun w' hkeep => hw.inStep.keeps hkeep
      next happ =>
        rw [if_pos happ, h.aofBytes_eq]
        intro w₁ env hkeep
        have hwrite : cmd.isWrite = true := by
          rw [appends, Bool.and_eq_true, Bool.and_eq_true] at happ
          exact happ.1.1
        obtain ⟨hlive, s₁, hs₁, hag⟩ := hw.keeps hkeep
        have hc : keyed.Confined P (ex.exec env cmd) := confined_exec hin env
        -- on what the file replays to, the command comes to what it came to on the store
        have hexec : ∀ env', ex.exec env' cmd s₁ = (some response, (ex.exec env cmd s₁).2) := by
          intro env'
          rw [(exec_congr h hwrite hs₁.noDeadlines env' env).1]
          refine Prod.ext ?_ rfl
          rw [← hc.result s s₁ hag, ht env]
        have hafter := hs₁.append hacc hexec
          (exec_congr h hwrite hs₁.noDeadlines env env).2
        refine ⟨⟨.refl _, fun s' hs' => ?_⟩, fun w₂ hkeep₂ => ?_⟩
        · obtain rfl := hs'.unique hs₁
          exact ⟨_, hafter, fun k hk => (hc.frame s' k hk).symm⟩
        · have hstep : InStep ex P ⟨w₁.store, w₁.aof ++ encode frame⟩ := by
            refine ⟨_, hafter, hlive.trans fun k hk => ?_⟩
            have hk' := hc.own s s₁ hag k hk
            rwa [ht env] at hk'
          exact hstep.keeps hkeep₂

/-- **One turn of `run_handler`**, among those of the others. -/
theorem runFrame_meets {c : Clock} {frame : RespValue} (h : OwnWrites P frame)
    (hw : InStep ex P w) :
    (runFrame ex unprintable c frame).Meets HandlerOp.at (keyContract ex P)
      (fun _ w' => InStep ex P w') w := by
  rw [runFrame]
  cases hcmd : Command.fromResp2 frame with
  | panic => exact fun w' hkeep => hw.keeps hkeep
  | err e => exact fun w' hkeep => hw.keeps hkeep
  | ok cmd =>
      have hfree := h.1.2 cmd hcmd
      refine Prog.Meets.bind ?_
      cases hwrite : cmd.isWrite with
      | false =>
          have hlset : ∀ key index element, cmd ≠ .lSet key index element := by
            rintro key index element rfl
            exact hfree
          refine (called_meets_read (reads_only ex c hwrite hlset) hw).mono fun r w' hw' => ?_
          cases r with
          | none => exact fun w'' hkeep => hw'.keeps hkeep
          | some response =>
              rw [persistCommand, if_neg (by simp [appends, hwrite])]
              exact fun w'' hkeep => hw'.keeps hkeep
      | true =>
          have hin := h.2 cmd hcmd hwrite
          obtain ⟨s, hs, hag⟩ := hw
          obtain ⟨a, as, rfl, -⟩ := Command.fromResp2_eq_ok hcmd
          have hends : (ex.execute c cmd).Ends StoreOp.at (Settles ex cmd s) s :=
            ends_execute hfree hwrite hin (Command.fromResp2_shaped hcmd) hs.noDeadlines
          refine (called_meets (within_execute hin) hends ⟨hag, s, hs, .refl s⟩).mono ?_
          rintro r w' ⟨t, ht, hw'⟩
          exact persistCommand_meets ⟨h.1.1.fits, hcmd⟩ hfree hin ht hw'

/-- A client that writes its own keys. -/
theorem handler_meets {sender : Sender α} (h : sender.All fun call => OwnWrites P call.2)
    (hw : InStep ex P w) :
    (sender.handler ex unprintable).Meets HandlerOp.at (keyContract ex P)
      (fun _ w' => InStep ex P w') w := by
  induction sender generalizing w with
  | ret a => exact fun w' hkeep => hw.keeps hkeep
  | call call next ih =>
      obtain ⟨c, frame⟩ := call
      refine Prog.Meets.bind ((runFrame_meets h.1 hw).mono fun r w' hw' => ?_)
      cases r with
      | none => exact fun w'' hkeep => hw'.keeps hkeep
      | some response => exact ih response (h.2 response) hw'

end Clients

/-! ### All clients -/

/-- **Partitioned keys.**  Every client writes keys of its own region only, by commands of the
fragment without deadlines, and no two regions share a key; they read what they like.  After every
schedule of the calls and the appends the file replays to a store.  It is the live one under the
keys of every client that is done, and the live one altogether when all are done. -/
theorem partitioned_restart {ι α : Type} [DecidableEq ι] (ex : Executor) (unprintable : Char → Bool)
    {senders : ι → Sender α} {region : ι → String → Prop}
    (hown : ∀ i, (senders i).All fun call => OwnWrites (region i) call.2)
    (hdisj : ∀ i j k, region i k → region j k → i = j) (schedule : List (ι × Env)) :
    let all := (Sender.start ex unprintable senders).run HandlerOp.at schedule
    ∃ s, (∀ envs, syncStoreWithAof ex true envs (some all.state.aof) Store.new = .ok s) ∧
      (∀ i a, all.prog i = .ret a → ∀ k, region i k → s.cell k = all.state.store.cell k) ∧
      ((∀ i, ∃ a, all.prog i = .ret a) → s = all.state.store) := by
  intro all
  have hstart : ∀ P, InStep ex P ⟨Store.new, []⟩ := fun P => ⟨_, .start, .refl _⟩
  have hmeets : ∀ i, ((Sender.start ex unprintable senders).prog i).Meets HandlerOp.at
      (keyContract ex (region i)) (fun _ w => InStep ex (region i) w)
      (Sender.start ex unprintable senders).state := fun i => handler_meets (hown i) (hstart _)
  have hrely : ∀ i j, i ≠ j → ∀ w w', (keyContract ex (region i)).guarantee w w' →
      (keyContract ex (region j)).rely w w' := fun i j hij w w' h =>
    Spares.mono h fun k hj hi => hij (hdisj i j k hi hj)
  -- no client touches a key outside every region
  have houter : Spares ex (fun k => ∀ i, ¬region i k) (Sender.start ex unprintable senders).state
      all.state :=
    Pool.run_guarantee Spares.refl Spares.trans
      (fun i _ _ (h : Spares ex _ _ _) => h.mono fun k hk => hk i) hrely hmeets schedule
  obtain ⟨s, hs, hag⟩ := (hstart _).keeps houter
  have hdone : ∀ i a, all.prog i = .ret a →
      ∀ k, region i k → s.cell k = all.state.store.cell k := by
    intro i a ha k hk
    obtain ⟨s', hs', hag'⟩ := Pool.run_ended hrely hmeets ha
    rw [hs.unique hs']
    exact (hag' k hk).symm
  refine ⟨s, hs.sync, hdone, fun hall => ext_cell fun k => ?_⟩
  by_cases hk : ∃ i, region i k
  · obtain ⟨i, hi⟩ := hk
    obtain ⟨a, ha⟩ := hall i
    exact hdone i a ha k hi
  · exact (hag k fun i hi => hk ⟨i, hi⟩).symm

/-- One client pushes two elements, the other adds a member to a set. -/
def pushAdd (b : Bool) : Sender Unit :=
  .call (Clock.at 0 0, bulkArray (if b then ["RPUSH", "l", "x", "y"] else ["SADD", "s", "m"]))
    fun _ => .ret ()

/-- The set is added to, and its entry appended, between the two elements. -/
theorem partitioned_restart_two :
    let all := (Sender.start .plain (fun _ => false) pushAdd).run HandlerOp.at
      [(true, Env.at 0 0), (false, Env.at 0 1), (false, Env.at 0 2), (true, Env.at 0 3),
        (true, Env.at 0 4)]
    syncStoreWithAof .plain true (fun _ => Env.at 0 9) (some all.state.aof) Store.new =
      .ok all.state.store := by
  intro all
  have hown : ∀ b, (pushAdd b).All fun call =>
      OwnWrites (· = if b then "l" else "s") call.2 := by
    intro b
    refine ⟨⟨⟨received_bulkArray (Command.fits_bulkArray.mpr ?_), ?_⟩, ?_⟩, fun _ => trivial⟩
    · cases b <;> exact ⟨by decide, by decide⟩
    · intro cmd h
      cases b
      · cases (show Outcome.ok (Command.sAdd "s" ["m"]) = .ok cmd from h)
        trivial
      · cases (show Outcome.ok (Command.rPush "l" ["x", "y"]) = .ok cmd from h)
        trivial
    · intro cmd h _
      cases b
      · cases (show Outcome.ok (Command.sAdd "s" ["m"]) = .ok cmd from h)
        exact ⟨_, rfl, fun k hk => List.mem_singleton.mp hk⟩
      · cases (show Outcome.ok (Command.rPush "l" ["x", "y"]) = .ok cmd from h)
        exact ⟨_, rfl, fun k hk => List.mem_singleton.mp hk⟩
  have hdisj : ∀ (b b' : Bool) (k : String), (k = if b then "l" else "s") →
      (k = if b' then "l" else "s") → b = b' := by
    rintro b b' k rfl h
    revert b b'
    decide
  obtain ⟨s, hsync, -, hall⟩ := partitioned_restart .plain (fun _ => false) hown hdisj
    [(true, Env.at 0 0), (false, Env.at 0 1), (false, Env.at 0 2), (true, Env.at 0 3),
      (true, Env.at 0 4)]
  rw [hsync, hall fun b => ?_]
  cases b <;> exact ⟨some (), rfl⟩

end Thesaurus
