import Thesaurus.Cells.Deadline
import Thesaurus.Cells.Replies
import Thesaurus.Log.Replay
import Thesaurus.Log.WriteSet

/-!
# Log — the fragment without deadlines

A connection whose commands set no deadline and draw nothing at random.  Its store has an empty
expiry index, so a command has one reply and one effect whatever the clock says, and a command
that was answered with an error or with `0` changed nothing.

* `exec_congr`: the execution does not depend on the environment.
* `exec_unlogged`: a command the handler does not append left the store alone.
* `sync_run_ttlFree`: after any run of such commands, the replay of the AOF is the live store.
-/

namespace Thesaurus
open StoreInner

/-- The commands of the fragment: the writes that set no deadline and draw nothing at random, and
the reads. -/
def TtlFree : Command → Prop
  | .set _ _ _ expiry _ => expiry = none
  | .mSet _ | .delete _ | .lPush .. | .rPush .. | .lPushX .. | .rPushX .. | .lPop .. | .rPop ..
  | .sAdd .. | .sMove .. | .sRem .. | .flushDb _ => True
  | .lSet .. => False
  | cmd => cmd.isWrite = false

/-- No key has a deadline. -/
def NoDeadlines (s : StoreInner) : Prop := ∀ key, (s.cell key).deadline = none

theorem noDeadlines_new : NoDeadlines Store.new := fun key => by simp [Cell.empty]

theorem noDeadlines_setCell {s : StoreInner} {key : String} {x : Cell} (hs : NoDeadlines s)
    (hx : x.deadline = none) : NoDeadlines (s.setCell key x) := fun k => by
  rw [cell_setCell]
  split
  · exact hx
  · exact hs k

theorem NoDeadlines.live {s : StoreInner} (hs : NoDeadlines s) (now : Instant) (key : String) :
    (s.cell key).live now = (s.cell key).value := by
  rw [Cell.live, Cell.expired, hs key]
  rfl

/-! ### One key -/

section Cells

variable (v : Option StoreValue) (now now' : Instant)

theorem pushLoop_congr (createIfMissing : Bool) (pushFn : List String → String → List String)
    (elements : List String) (size : Nat) :
    Cell.pushLoop now createIfMissing pushFn elements size ⟨v, none⟩ =
        Cell.pushLoop now' createIfMissing pushFn elements size ⟨v, none⟩ ∧
      (Cell.pushLoop now createIfMissing pushFn elements size ⟨v, none⟩).2.deadline = none := by
  induction elements generalizing v size with
  | nil => exact ⟨rfl, rfl⟩
  | cons element elements ih =>
      simp only [Cell.pushLoop, Cell.push, Cell.live_noDeadline]
      rcases v with _ | _ | l | _
      · cases createIfMissing <;> exact ih _ _
      · exact ⟨rfl, rfl⟩
      · exact ih _ _
      · exact ⟨rfl, rfl⟩

theorem pop_congr (count : UInt64) (popFn : List String → Option (String × List String)) :
    Cell.pop now count popFn ⟨v, none⟩ = Cell.pop now' count popFn ⟨v, none⟩ ∧
      (Cell.pop now count popFn ⟨v, none⟩).2.deadline = none := by
  refine ⟨by simp only [Cell.pop, Cell.live_noDeadline], ?_⟩
  simp only [Cell.pop, Cell.live_noDeadline]
  split
  · rfl
  · rcases v with _ | _ | _ | _ <;> rfl

theorem sadd_congr (members : List String) :
    Cell.sadd now members ⟨v, none⟩ = Cell.sadd now' members ⟨v, none⟩ ∧
      (Cell.sadd now members ⟨v, none⟩).2.deadline = none := by
  refine ⟨by simp only [Cell.sadd, Cell.live_noDeadline], ?_⟩
  simp only [Cell.sadd, Cell.live_noDeadline]
  rcases v with _ | _ | _ | _ <;> rfl

theorem srem_congr (members : List String) :
    Cell.srem now members ⟨v, none⟩ = Cell.srem now' members ⟨v, none⟩ ∧
      (Cell.srem now members ⟨v, none⟩).2.deadline = none := by
  refine ⟨by simp only [Cell.srem, Cell.live_noDeadline], ?_⟩
  simp only [Cell.srem, Cell.live_noDeadline]
  rcases v with _ | _ | _ | _ <;> rfl

theorem set_congr (ex : Executor) (c c' : Clock) (value : String)
    (condition : Option SetCondition) (g : Bool) :
    Cell.set ex c value condition none g ⟨v, none⟩ =
        Cell.set ex c' value condition none g ⟨v, none⟩ ∧
      (Cell.set ex c value condition none g ⟨v, none⟩).2.deadline = none := by
  refine ⟨by simp only [Cell.set, Cell.live_noDeadline, Executor.setDeadline_none], ?_⟩
  simp only [Cell.set, Cell.live_noDeadline, Executor.setDeadline_none]
  cases Store.asString v with
  | error e => rfl
  | ok prev =>
      dsimp only
      split <;> rfl

end Cells

variable {ex : Executor} {unprintable : Char → Bool}

/-- A command on one key. -/
theorem cellExec_congr {env : Env} (env' : Env) {cmd : Command} {key : String}
    {g : Cell → Reply × Cell} (hg : Cell.exec ex env cmd = some (key, g)) (h : TtlFree cmd) :
    ∃ g', Cell.exec ex env' cmd = some (key, g') ∧
      ∀ v, g ⟨v, none⟩ = g' ⟨v, none⟩ ∧ (g ⟨v, none⟩).2.deadline = none := by
  cases cmd with
  | set key value condition expiry b =>
      obtain rfl : expiry = none := h
      cases hg
      exact ⟨_, rfl, fun v => set_congr v ex _ _ _ _ _⟩
  | lPush | rPush | lPushX | rPushX =>
      cases hg
      exact ⟨_, rfl, fun v => pushLoop_congr v _ _ _ _ _ _⟩
  | lPop | rPop =>
      cases hg
      refine ⟨_, rfl, fun v => ?_⟩
      obtain ⟨h₁, h₂⟩ := pop_congr v env.clock.mono env'.clock.mono _ _
      exact ⟨congrArg (Cell.reply _) h₁, h₂⟩
  | sAdd =>
      cases hg
      refine ⟨_, rfl, fun v => ?_⟩
      obtain ⟨h₁, h₂⟩ := sadd_congr v env.clock.mono env'.clock.mono _
      exact ⟨congrArg (Cell.reply _) h₁, h₂⟩
  | sRem =>
      cases hg
      refine ⟨_, rfl, fun v => ?_⟩
      obtain ⟨h₁, h₂⟩ := srem_congr v env.clock.mono env'.clock.mono _
      exact ⟨congrArg (Cell.reply _) h₁, h₂⟩
  | getDel | sPop | persist | expire | pExpire | expireAt | pExpireAt => cases h
  | lSet => exact h.elim
  | _ => cases hg

/-! ### Several keys -/

theorem noDeadlines_deleteBulk {s : StoreInner} (hs : NoDeadlines s) (keys : List String) :
    NoDeadlines (Store.deleteBulk s keys) := fun k => by
  rw [cell_deleteBulk]
  split
  · rfl
  · exact hs k

theorem noDeadlines_mset {s : StoreInner} (hs : NoDeadlines s) (items : List (String × String)) :
    NoDeadlines (Store.mset s items) := by
  rw [mset_eq]
  induction items generalizing s with
  | nil => exact hs
  | cons item items ih => exact ih (noDeadlines_setCell hs rfl)

theorem moves_congr {s : StoreInner} (hs : NoDeadlines s) (now now' : Instant)
    {source destination member : String} {set : Finset String}
    (h : Moves now s source destination member set) :
    Moves now' s source destination member set := by
  unfold Moves at h ⊢
  rw [hs.live now, hs.live now] at h
  rw [hs.live now', hs.live now']
  exact h

theorem shrinkSet_noDeadline {x : Cell} (hx : x.deadline = none) (set : Finset String) :
    (x.shrinkSet set).deadline = none := by
  unfold Cell.shrinkSet
  split
  · rfl
  · exact hx

theorem addMember_congr {x : Cell} (hx : x.deadline = none) (now now' : Instant)
    (member : String) :
    x.addMember now member = x.addMember now' member ∧
      (x.addMember now member).deadline = none := by
  obtain ⟨v, d⟩ := x
  obtain rfl : d = none := hx
  refine ⟨by simp only [Cell.addMember, Cell.live_noDeadline], ?_⟩
  simp only [Cell.addMember, Cell.live_noDeadline]
  rcases v with _ | _ | _ | _ <;> rfl

/-- What an SMOVE that does not move replies does not depend on the clock. -/
theorem smove_congr {s : StoreInner} (hs : NoDeadlines s) (now now' : Instant)
    (source destination member : String) :
    Store.smove s now now now now source destination member =
        Store.smove s now' now' now' now' source destination member ∧
      NoDeadlines (Store.smove s now now now now source destination member).2 := by
  by_cases hm : ∃ set, Moves now s source destination member set
  · obtain ⟨set, hm⟩ := hm
    rw [smove_of_moves now s hm, smove_of_moves now' s (moves_congr hs now now' hm)]
    have hs' : NoDeadlines (s.setCell source ((s.cell source).shrinkSet (set.erase member))) :=
      noDeadlines_setCell hs (shrinkSet_noDeadline (hs source) (set.erase member))
    obtain ⟨h₁, h₂⟩ := addMember_congr (hs' destination) now now' member
    dsimp only
    exact ⟨by rw [h₁], noDeadlines_setCell hs' h₂⟩
  · have hm' : ¬∃ set, Moves now' s source destination member set := fun ⟨set, h⟩ =>
      hm ⟨set, moves_congr hs now' now h⟩
    rw [smove_of_not_moves now s fun set h => hm ⟨set, h⟩,
      smove_of_not_moves now' s fun set h => hm' ⟨set, h⟩, hs.live now, hs.live now, hs.live now',
      hs.live now']
    exact ⟨rfl, hs⟩

/-! ### Commands -/

/-- **The clock does not matter.**  A write of the fragment on a store without deadlines has the
same reply and effect in every environment, and sets no deadline. -/
theorem exec_congr {cmd : Command} (h : TtlFree cmd) (hw : cmd.isWrite = true) {s : StoreInner}
    (hs : NoDeadlines s) (env env' : Env) :
    ex.exec env cmd s = ex.exec env' cmd s ∧ NoDeadlines (ex.exec env cmd s).2 := by
  have hcell : ∀ {key g}, Cell.exec ex env cmd = some (key, g) →
      ex.exec env cmd s = ex.exec env' cmd s ∧ NoDeadlines (ex.exec env cmd s).2 := by
    intro key g hg
    obtain ⟨g', hg', hgg⟩ := cellExec_congr env' hg h
    have hx : s.cell key = ⟨(s.cell key).value, none⟩ := by rw [← hs key]
    obtain ⟨h₁, h₂⟩ := hgg (s.cell key).value
    rw [← hx] at h₁ h₂
    rw [exec_eq_at ex env s hg, exec_eq_at ex env' s hg', keyed_at, keyed_at, h₁]
    exact ⟨rfl, noDeadlines_setCell hs (h₁ ▸ h₂)⟩
  cases cmd with
  | delete keys =>
      rw [exec_delete, exec_delete]
      exact ⟨rfl, noDeadlines_deleteBulk hs keys⟩
  | mSet items => exact ⟨rfl, noDeadlines_mset hs items⟩
  | flushDb mode =>
      rw [exec_flushDb, exec_flushDb]
      exact ⟨rfl, noDeadlines_new⟩
  | sMove source destination member =>
      obtain ⟨h₁, h₂⟩ := smove_congr hs env.clock.mono env'.clock.mono source destination member
      rw [exec_sMove, exec_sMove]
      exact ⟨by rw [h₁], h₂⟩
  | set | lPush | rPush | lPushX | rPushX | lPop | rPop | sAdd | sRem => exact hcell rfl
  | getDel | sPop | persist | expire | pExpire | expireAt | pExpireAt => cases h
  | _ => cases hw

/-! ### Replies -/

theorem isSimpleError_iff {v : RespValue} :
    v.isSimpleError = true ↔ ∃ text, v = .simpleError text := by
  cases v <;> simp [RespValue.isSimpleError]

theorem isIntegerZero_iff {v : RespValue} : v.isIntegerZero = true ↔ v = .integer 0 := by
  cases v <;> simp [RespValue.isIntegerZero]

/-- A write is not appended when it was answered with an error or with `0`. -/
theorem not_appends_iff {cmd : Command} {response : RespValue} (hw : cmd.isWrite = true) :
    appends cmd response = false ↔
      (∃ text, response = .simpleError text) ∨ response = .integer 0 := by
  rw [← isSimpleError_iff, ← isIntegerZero_iff, appends, hw]
  cases response.isSimpleError <;> cases response.isIntegerZero <;> simp

theorem deleteBulk_eq_self {s : StoreInner} (hs : NoDeadlines s) {keys : List String}
    (h : deletedCount keys s = 0) : Store.deleteBulk s keys = s := ext_cell fun k => by
  rw [cell_deleteBulk]
  split
  · next hk =>
      rw [Cell.empty, ← deletedCount_eq_zero h k hk, ← hs k]
  · rfl

theorem sMove_unlogged {s : StoreInner} {env : Env} {source destination member : String}
    {response : RespValue} {s' : StoreInner}
    (hexec : ex.exec env (.sMove source destination member) s = (some response, s'))
    (hr : (∃ text, response = .simpleError text) ∨ response = .integer 0) : s' = s := by
  rw [exec_sMove] at hexec
  by_cases hm : ∃ set, Moves env.clock.mono s source destination member set
  · obtain ⟨set, hm⟩ := hm
    rw [smove_of_moves _ _ hm] at hexec
    cases hexec
    rcases hr with ⟨text, h⟩ | h <;> simp [replyOf, boolReply] at h
  · rw [smove_of_not_moves _ _ fun set h => hm ⟨set, h⟩] at hexec
    exact (congrArg Prod.snd hexec).symm

/-- The reads of the fragment. -/
theorem TtlFree.exec_read {cmd : Command} (h : TtlFree cmd) (hw : cmd.isWrite = false) (env : Env)
    (s : StoreInner) : (ex.exec env cmd s).2 = s := by
  refine run_readsOnly (reads_only ex env.clock hw ?_) env s
  rintro key index element rfl
  exact h

/-- **The filter drops nothing.**  A command of the fragment that is not appended left the store
as it was. -/
theorem exec_unlogged {cmd : Command} {args : List RespValue} (h : TtlFree cmd)
    (hshape : Command.Shaped args cmd) {s s' : StoreInner} (hs : NoDeadlines s) {env : Env}
    {response : RespValue} (hexec : ex.exec env cmd s = (some response, s'))
    (happ : appends cmd response = false) : s' = s := by
  by_cases hw : cmd.isWrite = true
  · have hr := (not_appends_iff hw).mp happ
    have hcell : ∀ {key g}, Cell.exec ex env cmd = some (key, g) → s' = s := by
      intro key g hg
      rw [exec_eq_at ex env s hg, keyed_at] at hexec
      obtain ⟨hreply, rfl⟩ := Prod.ext_iff.mp hexec
      have hsame : (g (s.cell key)).2 = s.cell key := by
        -- what is not appended is an error or a reply of zero
        rcases hr with ⟨text, rfl⟩ | rfl
        · refine Cell.exec_error hg ?_ ?_ hreply
          · rintro k v c e b rfl
            exact absurd h (by simp [TtlFree])
          · rintro k rfl
            exact absurd h (by simp [TtlFree, Command.isWrite])
        · rcases Cell.exec_zero hg hreply with h' | ⟨hp, -⟩ | ⟨rfl, -, -⟩
          · exact h'
          · cases cmd with
            | expireAt | pExpireAt => cases h
            | _ => exact hp.elim
          · exact absurd rfl hshape
      rw [hsame, setCell_cell]
    cases cmd with
    | delete keys =>
        rw [exec_delete] at hexec
        cases hexec
        rcases hr with ⟨text, hr⟩ | hr
        · cases hr
        · exact deleteBulk_eq_self hs (by simpa using hr)
    | mSet items =>
        rw [exec_mSet] at hexec
        cases hexec
        rcases hr with ⟨text, hr⟩ | hr <;> cases hr
    | flushDb mode =>
        rw [exec_flushDb] at hexec
        cases hexec
        rcases hr with ⟨text, hr⟩ | hr <;> cases hr
    | sMove source destination member => exact sMove_unlogged hexec hr
    | set | lPush | rPush | lPushX | rPushX | lPop | rPop | sAdd | sRem => exact hcell rfl
    | getDel | sPop | persist | expire | pExpire | expireAt | pExpireAt => cases h
    | _ => cases hw
  · have hread : (ex.exec env cmd s).2 = s :=
      h.exec_read (Bool.eq_false_of_not_eq_true hw) env s
    rwa [hexec] at hread

theorem pop_panic {now : Instant} {count : UInt64}
    {popFn : List String → Option (String × List String)} {x : Cell}
    (h : (x.pop now count popFn).1 = none) : (x.pop now count popFn).2 = x := by
  unfold Cell.pop at h ⊢
  split
  · rfl
  · next hc =>
      rw [if_neg hc] at h
      cases hv : x.live now with
      | none => rfl
      | some v => rw [hv] at h; cases v <;> cases h

theorem pushLoop_ne_panic {now : Instant} {createIfMissing : Bool}
    {pushFn : List String → String → List String} {elements : List String} {size : Nat} {x : Cell} :
    (x.pushLoop now createIfMissing pushFn elements size).1 ≠ none := by
  cases elements with
  | nil => simp [Cell.pushLoop]
  | cons element elements =>
      rcases Cell.pushLoop_cases now createIfMissing pushFn x element elements size with
        ⟨l, -, h⟩ | ⟨-, -, h⟩ | ⟨-, -, h⟩ | ⟨v, -, -, h⟩ <;> rw [h] <;> simp

theorem set_ne_panic (ex : Executor) (c : Clock) (value : String)
    (condition : Option SetCondition) (g : Bool) (x : Cell) :
    (Cell.set ex c value condition none g x).1 ≠ none := by
  simp only [Cell.set, Executor.setDeadline_none]
  cases Store.asString (x.live c.mono) with
  | error e => exact Option.some_ne_none _
  | ok prev =>
      dsimp only
      split <;> exact Option.some_ne_none _

/-- A command of the fragment that panics left the store as it was. -/
theorem exec_panic {cmd : Command} (h : TtlFree cmd) {s s' : StoreInner} {env : Env}
    (hexec : ex.exec env cmd s = (none, s')) : s' = s := by
  by_cases hw : cmd.isWrite = true
  · have hcell : ∀ {key g}, Cell.exec ex env cmd = some (key, g) →
        ((g (s.cell key)).1 = none → (g (s.cell key)).2 = s.cell key) → s' = s := by
      intro key g hg hp
      rw [exec_eq_at ex env s hg, keyed_at] at hexec
      obtain ⟨hreply, rfl⟩ := Prod.ext_iff.mp hexec
      dsimp only at hreply ⊢
      rw [hp hreply, setCell_cell]
    cases cmd with
    | delete keys => rw [exec_delete] at hexec; cases hexec
    | mSet items => rw [exec_mSet] at hexec; cases hexec
    | flushDb mode => rw [exec_flushDb] at hexec; cases hexec
    | sMove source destination member =>
        rw [exec_sMove] at hexec
        by_cases hm : ∃ set, Moves env.clock.mono s source destination member set
        · obtain ⟨set, hm⟩ := hm
          rw [smove_of_moves _ _ hm] at hexec
          cases hexec
        · rw [smove_of_not_moves _ _ fun set h => hm ⟨set, h⟩] at hexec
          cases hexec
    | set key value condition expiry g =>
        obtain rfl : expiry = none := h
        exact hcell rfl fun hp => absurd hp (set_ne_panic ex env.clock value condition g _)
    | lPush | rPush | lPushX | rPushX => exact hcell rfl fun hp => absurd hp pushLoop_ne_panic
    | lPop | rPop => exact hcell rfl fun hp => pop_panic (Option.map_eq_none_iff.mp hp)
    | sAdd | sRem => exact hcell rfl fun hp => absurd hp (by simp [Cell.reply])
    | getDel | sPop | persist | expire | pExpire | expireAt | pExpireAt => cases h
    | _ => cases hw
  · have hread : (ex.exec env cmd s).2 = s :=
      h.exec_read (Bool.eq_false_of_not_eq_true hw) env s
    rwa [hexec] at hread

/-! ### Runs -/

/-- The frame came in over the wire, and the command it is, if any, is of the fragment. -/
def TtlFreeFrame (frame : RespValue) : Prop :=
  Received frame ∧ ∀ cmd, Command.fromResp2 frame = .ok cmd → TtlFree cmd

/-- A command of the fragment is logged as it is. -/
theorem TtlFree.persisted {cmd : Command} (h : TtlFree cmd) (c : Clock) :
    cmd.persisted c = cmd := by
  cases cmd with
  | expire | pExpire => cases h
  | _ => rfl

theorem step_ttlFree (envs : Nat → Env) {s s' : StoreInner} {cmds : List Command} {env : Env}
    {frame response : RespValue} {cmd : Command}
    (hP : NoDeadlines s ∧ replay ex envs cmds Store.new = some s) (hQ : TtlFreeFrame frame)
    (hcmd : Command.fromResp2 frame = .ok cmd) (hexec : ex.exec env cmd s = (some response, s')) :
    NoDeadlines s' ∧ replay ex envs (cmds ++ logged env cmd response) Store.new = some s' := by
  obtain ⟨hs, hreplay⟩ := hP
  have hfree := hQ.2 cmd hcmd
  unfold logged
  cases happ : appends cmd response with
  | true =>
      have hw : cmd.isWrite = true := by
        rw [appends, Bool.and_eq_true, Bool.and_eq_true] at happ
        exact happ.1.1
      have hcongr : ex.exec env cmd s = ex.exec (envs cmds.length) cmd s ∧
          NoDeadlines (ex.exec env cmd s).2 := exec_congr hfree hw hs env (envs cmds.length)
      rw [hexec] at hcongr
      rw [if_pos rfl, hfree.persisted]
      exact ⟨hcongr.2, replay_snoc hreplay hcongr.1.symm⟩
  | false =>
      obtain ⟨a, as, rfl, -⟩ := Command.fromResp2_eq_ok hcmd
      rw [exec_unlogged hfree (Command.fromResp2_shaped hcmd) hs hexec happ]
      simpa using ⟨hs, hreplay⟩

/-- **The log of the fragment is exact.**  After any run of such frames from an empty store and an
empty file, the replay of the file on an empty store is the live store. -/
theorem sync_run_ttlFree (steps : List (Env × RespValue))
    (hsteps : ∀ p ∈ steps, TtlFreeFrame p.2) (envs : Nat → Env) :
    syncStoreWithAof ex true envs (some (Session.start.run ex unprintable steps).aof) Store.new =
      .ok (Session.start.run ex unprintable steps).store := by
  -- kept: the index is empty, and the commands logged so far replay to the store
  obtain ⟨cmds, hlog, -, hreplay⟩ := Session.run_log
    (P := fun s cmds => NoDeadlines s ∧ replay ex envs cmds Store.new = some s)
    (Q := fun _ _ frame => TtlFreeFrame frame)
    (fun _ _ _ h => Received.fits h.1) (fun _ _ _ _ _ _ _ => step_ttlFree envs)
    (fun s cmds env frame cmd s' hP hQ hcmd hexec => by
      rw [exec_panic (hQ.2 cmd hcmd) hexec]
      exact hP)
    (w := .start) IsLog.nil ⟨noDeadlines_new, rfl⟩
    (Session.all_of_forall (fun p hp _ => hsteps p hp) _)
  rw [sync_eq_replay hlog, hreplay]
  rfl

/-- A frame of words that fit comes in over the wire. -/
theorem received_bulkArray {words : List String} (h : Fits (bulkArray words)) :
    Received (bulkArray words) :=
  ⟨_, [], decode_encode h (Command.lineSafe_bulkArray words) []⟩

/-- SET `k` `v` and GET `k`. -/
theorem sync_run_set_get :
    syncStoreWithAof .plain true (fun _ => Env.at 0 5)
        (some (Session.start.run .plain (fun _ => false)
          [(Env.at 0 0, bulkArray ["SET", "k", "v"]), (Env.at 0 1, bulkArray ["GET", "k"])]).aof)
        Store.new =
      .ok (Session.start.run .plain (fun _ => false)
        [(Env.at 0 0, bulkArray ["SET", "k", "v"]), (Env.at 0 1, bulkArray ["GET", "k"])]).store :=
  sync_run_ttlFree [(Env.at 0 0, bulkArray ["SET", "k", "v"]), (Env.at 0 1, bulkArray ["GET", "k"])]
    (fun p hp => by
      rcases List.mem_cons.mp hp with rfl | hp
      · refine ⟨received_bulkArray (Command.fits_bulkArray.mpr ⟨by decide, by decide⟩),
          fun cmd h => ?_⟩
        cases (show Outcome.ok (Command.set "k" "v" none none false) = .ok cmd from h)
        rfl
      · obtain rfl := List.mem_singleton.mp hp
        refine ⟨received_bulkArray (Command.fits_bulkArray.mpr ⟨by decide, by decide⟩),
          fun cmd h => ?_⟩
        cases (show Outcome.ok (Command.get "k") = .ok cmd from h)
        rfl)
    fun _ => Env.at 0 5

end Thesaurus
