import Thesaurus.Commands.Delete
import Thesaurus.Commands.Set
import Thesaurus.Commands.Sets
import Thesaurus.Expiry.Invisible
import Thesaurus.Expiry.Queries

/-!
# Commands — strings

A keyspace of strings without deadlines against a finite map: `strings_refine_map` says that a run
of the commands that keep it one, those on the whole keyspace included, is a run on the map with
the same replies.
-/

namespace Thesaurus
open StoreInner Refinement Bytes

/-! ### The reference -/

/-- A string for each key that is there. -/
abbrev Strings : Type := Maps.Map String String

/-- The commands that leave strings without deadlines where there were no others. -/
def Command.onStrings : Command → Bool
  | .get _ | .set _ _ _ none _ | .getDel _ | .mGet _ | .mSet _ | .strLen _ | .digest _
  | .delete _ | .exists _ | .keys _ | .dbSize | .flushDb _ | .ttl _ | .pTtl _ | .expireTime _
  | .pExpireTime _ | .persist _ => true
  | _ => false

/-- What a command replies on a map of strings, and which it leaves.  KEYS may list them in any
order. -/
def Strings.Step (ex : Executor) (m : Strings) : Command → RespValue → Strings → Prop
  | .get key, r, m' => r = .bulkString (m.lookup key) ∧ m' = m
  | .set key value condition _ g, r, m' =>
      let met := ∀ c, condition = some c → c.Holds ex (m.lookup key)
      (met → r = (if g then .bulkString (m.lookup key) else okReply) ∧ m' = m.insert key value) ∧
        (¬met → r = .bulkString (if g then m.lookup key else none) ∧ m' = m)
  | .getDel key, r, m' => r = .bulkString (m.lookup key) ∧ m' = m.erase key
  | .mGet ks, r, m' =>
      r = .array (some (ks.map fun key => .bulkString (m.lookup key))) ∧ m' = m
  | .mSet items, r, m' =>
      r = okReply ∧ m' = items.foldl (fun m item => m.insert item.1 item.2) m
  | .strLen key, r, m' =>
      r = .integer (((m.lookup key).map fun v => (utf8 v).length).getD 0) ∧ m' = m
  | .digest key, r, m' =>
      r = .bulkString ((m.lookup key).map fun v => Executor.hex16 (ex.xxh3_64 (utf8 v))) ∧ m' = m
  | .delete ks, r, m' =>
      r = .integer (ks.toFinset ∩ m.keys).card ∧ m' = ks.foldl (fun m key => m.erase key) m
  | .exists ks, r, m' => r = .integer (ks.countP (· ∈ m.keys)) ∧ m' = m
  | .keys pattern, r, m' =>
      ∃ ks : List String, ks.Nodup ∧
        (∀ key, key ∈ ks ↔
          key ∈ m.keys ∧ (utf8 pattern = [42] ∨ Pattern.stringMatch key (utf8 pattern))) ∧
        r = bulkReply ks ∧ m' = m
  | .dbSize, r, m' => r = .integer m.keys.card ∧ m' = m
  | .flushDb _, r, m' => r = okReply ∧ m' = ∅
  | .ttl key, r, m' | .pTtl key, r, m' | .expireTime key, r, m' | .pExpireTime key, r, m' =>
      r = .integer (if key ∈ m.keys then -1 else -2) ∧ m' = m
  | .persist _, r, m' => r = .integer 0 ∧ m' = m
  | _, _, _ => False

/-! ### Cells that hold a string -/

/-- The cell of a string without a deadline, or of no key. -/
def Cell.ofOption (v : Option String) : Cell := ⟨v.map .str, none⟩

namespace Cell

variable (now : Instant) (v : Option String)

theorem live_ofOption : (ofOption v).live now = v.map .str := rfl

theorem asString_ofOption : Store.asString ((ofOption v).live now) = .ok v := by
  cases v <;> rfl

theorem live_ofOption_isSome : ((ofOption v).live now).isSome = v.isSome := by
  cases v <;> rfl

end Cell

/-- The store holds the strings of the map and nothing else. -/
def HoldsStrings (s : StoreInner) (m : Strings) : Prop :=
  ∀ key, s.cell key = Cell.ofOption (m.lookup key)

namespace HoldsStrings

variable {s : StoreInner} {m : Strings}

theorem new : HoldsStrings Store.new ∅ := by
  intro key
  rw [cell_new, Maps.lookup_empty]
  rfl

theorem insert (h : HoldsStrings s m) (key value : String) :
    HoldsStrings (s.setCell key (Cell.setString value)) (m.insert key value) := by
  intro k
  rw [cell_setCell, Maps.lookup_insert]
  split
  · rfl
  · exact h k

theorem erase (h : HoldsStrings s m) (key : String) :
    HoldsStrings (s.setCell key Cell.empty) (m.erase key) := by
  intro k
  rw [cell_setCell, Maps.lookup_erase]
  split
  · rfl
  · exact h k

theorem mset (h : HoldsStrings s m) (items : List (String × String)) :
    HoldsStrings (Store.mset s items)
      (items.foldl (fun m item => m.insert item.1 item.2) m) := by
  rw [mset_eq]
  induction items generalizing s m with
  | nil => exact h
  | cons item items ih => exact ih (h.insert item.1 item.2)

theorem deleteBulk (h : HoldsStrings s m) (ks : List String) :
    HoldsStrings (Store.deleteBulk s ks) (ks.foldl (fun m key => m.erase key) m) := by
  rw [deleteBulk_eq]
  induction ks generalizing s m with
  | nil => exact h
  | cons key ks ih => exact ih (h.erase key)

theorem value_isSome (h : HoldsStrings s m) (key : String) :
    (s.cell key).value.isSome ↔ key ∈ m.keys := by
  rw [h key, Maps.mem_keys_iff, Cell.ofOption, Option.isSome_map]

theorem keys (h : HoldsStrings s m) : s.data.keys = m.keys := by
  ext key
  rw [Maps.mem_keys_iff, lookup_data, h.value_isSome]

end HoldsStrings

/-! ### One command -/

variable (ex : Executor) (env : Env) {s : StoreInner} {m : Strings}

/-- The loop of EXISTS. -/
theorem run_existsLoop (h : HoldsStrings s m) (ks : List String) :
    (Executor.existsLoop ks).run env.apply s = (ks.countP (· ∈ m.keys), s) := by
  induction ks with
  | nil => rfl
  | cons key ks ih =>
      have hstep : env.apply (.exists key) s = (decide (key ∈ m.keys), s) := by
        rw [Env.apply, apply_exists, h key, Cell.live_ofOption_isSome]
        simp [Maps.mem_keys_iff]
      rw [Executor.existsLoop, Atomic.Prog.invoke_bind, Atomic.Prog.run_call, hstep,
        Atomic.Prog.run_bind, ih]
      simp only [List.countP_cons, Atomic.Prog.pure_def, Atomic.Prog.run_ret]
      by_cases hk : key ∈ m.keys <;> simp [hk, Nat.add_comm]

theorem exec_exists (h : HoldsStrings s m) (ks : List String) :
    ex.exec env (.exists ks) s = (some (.integer (ks.countP (· ∈ m.keys))), s) := by
  show ((Executor.existsLoop ks) >>= fun count => Atomic.Prog.ret (some (RespValue.integer
    count))).run env.apply s = _
  rw [Atomic.Prog.run_bind, run_existsLoop env h]
  rfl

/-- The four queries of a deadline that is not there. -/
theorem exec_query_noDeadline (h : HoldsStrings s m) (q : TtlQuery) (key : String) :
    (ex.exec env (q.command key) s).1 = some (.integer (if key ∈ m.keys then -1 else -2)) := by
  rw [exec_query, h key]
  show some (RespValue.integer
    (if ((Cell.ofOption (m.lookup key)).live env.clock.mono).isSome then -1 else -2)) = _
  simp only [Cell.live_ofOption_isSome, Maps.mem_keys_iff]

theorem exec_set_noExpiry (h : HoldsStrings s m) (key value : String)
    (condition : Option SetCondition) (g : Bool) :
    ex.exec env (.set key value condition none g) s =
      if ex.conditionMet condition (m.lookup key) then
        (some (Executor.setReply g true (m.lookup key)), s.setCell key (Cell.setString value))
      else (some (Executor.setReply g false (m.lookup key)), s) := by
  rw [exec_set, keyed_at, Cell.set, h key, Cell.asString_ofOption]
  dsimp only
  split
  · rfl
  · rw [← h key, setCell_cell]

/-- **One command** on a keyspace of strings is a step of the reference. -/
theorem exec_holdsStrings {cmd : Command} (hcmd : cmd.onStrings = true) (h : HoldsStrings s m) :
    ∃ m', (∃ r, (ex.exec env cmd s).1 = some r ∧ m.Step ex cmd r m') ∧
      HoldsStrings (ex.exec env cmd s).2 m' := by
  have hread : ∀ r, (ex.exec env cmd s).1 = some r → (ex.exec env cmd s).2 = s →
      m.Step ex cmd r m → ∃ m', (∃ r, (ex.exec env cmd s).1 = some r ∧ m.Step ex cmd r m') ∧
        HoldsStrings (ex.exec env cmd s).2 m' := by
    intro r hr hs hstep
    refine ⟨m, ⟨r, hr, hstep⟩, ?_⟩
    rw [hs]
    exact h
  have hquery : ∀ (q : TtlQuery) key, cmd = q.command key →
      (ex.exec env cmd s).1 = some (.integer (if key ∈ m.keys then -1 else -2)) := by
    rintro q key rfl
    exact exec_query_noDeadline ex env h q key
  have hkeeps : cmd.isWrite = false → (∀ key index element, cmd ≠ .lSet key index element) →
      (ex.exec env cmd s).2 = s := by
    intro hw hl
    rw [exec_of_not_isWrite ex env hw hl]
  cases cmd with
  | get key =>
      refine hread _ ?_ rfl ⟨rfl, rfl⟩
      show some (replyOf RespValue.bulkString ((StoreOp.getString key).apply env.clock.mono
        env.draws s).1) = _
      rw [apply_getString, h key, Cell.asString_ofOption]
      rfl
  | set key value condition expiry g =>
      cases expiry with
      | some e => cases hcmd
      | none =>
          rw [exec_set_noExpiry ex env h]
          have hmet := conditionMet_iff ex condition (m.lookup key)
          split
          · next hc =>
              refine ⟨_, ⟨_, rfl, ?_, ?_⟩, h.insert key value⟩
              · intro _
                refine ⟨?_, rfl⟩
                cases g <;> rfl
              · exact fun hno => absurd (hmet.mp hc) hno
          · next hc =>
              refine ⟨m, ⟨_, rfl, ?_, ?_⟩, h⟩
              · exact fun hyes => absurd (hmet.mpr hyes) hc
              · intro _
                refine ⟨?_, rfl⟩
                cases g <;> rfl
  | getDel key =>
      have hg : Cell.exec ex env (.getDel key) = some (key, fun x =>
        Cell.reply (fun r => some (replyOf .bulkString r)) (x.getDelString env.clock.mono)) := rfl
      rw [exec_eq_at ex env s hg, keyed_at, h key]
      refine ⟨_, ⟨_, ?_, rfl, rfl⟩, h.erase key⟩
      simp only [Cell.reply, Cell.getDelString, Cell.asString_ofOption]
      rfl
  | mGet ks =>
      refine hread _ ?_ rfl ⟨rfl, rfl⟩
      show some (RespValue.array (some ((Store.mget s env.clock.mono ks).map .bulkString))) = _
      rw [Store.mget, List.map_map]
      refine congrArg (fun l => some (RespValue.array (some l))) (List.map_congr_left fun k _ => ?_)
      rw [Function.comp_apply, get_eq_live, h k, Cell.live_ofOption]
      cases m.lookup k <;> rfl
  | mSet items => exact ⟨_, ⟨_, rfl, rfl, rfl⟩, h.mset items⟩
  | strLen key =>
      refine hread _ ?_ rfl ⟨rfl, rfl⟩
      show some (replyOf _ ((StoreOp.getString key).apply env.clock.mono env.draws s).1) = _
      rw [apply_getString, h key, Cell.asString_ofOption]
      rfl
  | digest key =>
      refine hread _ ?_ rfl ⟨rfl, rfl⟩
      show some (replyOf _ ((StoreOp.getString key).apply env.clock.mono env.draws s).1) = _
      rw [apply_getString, h key, Cell.asString_ofOption]
      rfl
  | delete ks =>
      rw [exec_delete, deletedCount_eq_card]
      refine ⟨_, ⟨_, rfl, ?_, rfl⟩, h.deleteBulk ks⟩
      simp only [h.value_isSome, Finset.filter_mem_eq_inter]
  | «exists» ks =>
      rw [exec_exists ex env h]
      exact ⟨m, ⟨_, rfl, rfl, rfl⟩, h⟩
  | keys pattern =>
      refine hread (bulkReply (Store.keys s env.clock.mono env.draws (utf8 pattern))) rfl rfl
        ⟨Store.keys s env.clock.mono env.draws (utf8 pattern), ?_, ?_, rfl, rfl⟩
      · exact (env.draws.iter_nodup _).filter _
      intro key
      rw [SameUnexpired.mem_keys, h key, Cell.live_ofOption_isSome, ← Maps.mem_keys_iff]
      simp
  | dbSize =>
      refine hread (.integer s.data.keys.card) rfl rfl ⟨?_, rfl⟩
      rw [h.keys]
  | flushDb mode =>
      rw [exec_flushDb]
      exact ⟨∅, ⟨_, rfl, rfl, rfl⟩, .new⟩
  | ttl key => exact hread _ (hquery .ttl key rfl) (hkeeps rfl (by simp)) ⟨rfl, rfl⟩
  | pTtl key => exact hread _ (hquery .pttl key rfl) (hkeeps rfl (by simp)) ⟨rfl, rfl⟩
  | expireTime key => exact hread _ (hquery .expireTime key rfl) (hkeeps rfl (by simp)) ⟨rfl, rfl⟩
  | pExpireTime key =>
      exact hread _ (hquery .pexpireTime key rfl) (hkeeps rfl (by simp)) ⟨rfl, rfl⟩
  | persist key =>
      have hg : Cell.exec ex env (.persist key) = some (key, fun x =>
        Cell.reply (fun b => some (boolReply b)) x.persist) := rfl
      refine hread _ ?_ ?_ ⟨rfl, rfl⟩
      · rw [exec_eq_at ex env s hg, keyed_at, h key]
        rfl
      · rw [exec_eq_at ex env s hg, keyed_at, h key]
        exact (congrArg (s.setCell key) (h key).symm).trans (setCell_cell s key)
  | _ => cases hcmd

/-! ### Runs -/

/-- **Strings are a finite map.**  On a store that holds strings without deadlines, a run of the
commands that keep it so is a run on the map, with the same replies, and leaves the store that
holds the map it leaves. -/
theorem strings_refine_map (run : List (Env × Command))
    (hrun : ∀ call ∈ run, call.2.onStrings = true) (h : HoldsStrings s m) :
    ∃ m' : Strings,
      Trace (fun m c reply m' => ∃ r, reply = some r ∧ Strings.Step ex m c r m') m
        (run.map Prod.snd) (ex.serveAll run s).1 m' ∧
      HoldsStrings (ex.serveAll run s).2 m' :=
  Trace.of_sim (fun m c reply m' => ∃ r, reply = some r ∧ Strings.Step ex m c r m') HoldsStrings
    Prod.snd (fun call _ _ hcall h (_ : True) => exec_holdsStrings ex call.1 hcall h) hrun h
    fun _ _ => trivial

/-- SET, KEYS and DBSIZE on an empty store. -/
theorem strings_refine_map_new : ∃ m' : Strings,
    Trace (fun m c reply m' => ∃ r, reply = some r ∧ Strings.Step .plain m c r m') ∅
      [.set "k" "v" (some .nx) none false, .keys "*", .dbSize]
      (Executor.plain.serveAll [(.at 0 0, .set "k" "v" (some .nx) none false),
        (.at 0 1, .keys "*"), (.at 0 2, .dbSize)] Store.new).1 m' := by
  obtain ⟨m', htrace, -⟩ := strings_refine_map .plain
    [(.at 0 0, .set "k" "v" (some .nx) none false), (.at 0 1, .keys "*"), (.at 0 2, .dbSize)]
    (by simp [Command.onStrings]) .new
  exact ⟨m', htrace⟩

end Thesaurus
