import Thesaurus.Model.Handler
import Thesaurus.Wire.Parse

/-!
# Log — replay

The AOF as a list of commands.  A handler appends whole encoded frames, so the file it leaves is
the encoding of the commands it logged, and the replay of that file is the execution of those
commands one after the other.

* `IsLog bytes cmds`: `bytes` is a log of `cmds`.  `IsLog.append` adds an entry.
* `sync_eq_replay`: on a log, `sync_store_with_aof` is `replay`.
* `Session.run_log`: what each executed frame preserves of the store and the logged commands
  holds after every run; `Session.run_log_noting` is the same with a note on the frames so far.
-/

namespace Thesaurus
open Bytes

/-! ### Logs -/

/-- A frame that a reader can deliver. -/
def Received (frame : RespValue) : Prop := ∃ bytes rest, decode bytes = .ok (frame, rest)

theorem Received.fits {frame : RespValue} (h : Received frame) : Fits frame := by
  obtain ⟨bytes, rest, h⟩ := h
  exact decode_fits h

/-- The frame fits the machine and is the command. -/
def Accepted (frame : RespValue) (cmd : Command) : Prop :=
  Fits frame ∧ Command.fromResp2 frame = .ok cmd

theorem Accepted.lineSafe {frame : RespValue} {cmd : Command} (h : Accepted frame cmd) :
    LineSafe frame := by
  obtain ⟨s, ss, rfl, -⟩ := Command.fromResp2_eq_ok h.2
  exact Command.lineSafe_bulkArray _

/-- `bytes` is the encoding, one after the other, of frames that are the commands `cmds`. -/
def IsLog (bytes : Bytes) (cmds : List Command) : Prop :=
  ∃ frames, bytes = encodeItems frames ∧ List.Forall₂ Accepted frames cmds

theorem IsLog.nil : IsLog [] [] := ⟨[], rfl, .nil⟩

theorem encodeItems_append (vs ws : List RespValue) :
    encodeItems (vs ++ ws) = encodeItems vs ++ encodeItems ws := by
  induction vs with
  | nil => rfl
  | cons v vs ih => rw [List.cons_append, encodeItems, encodeItems, ih, List.append_assoc]

/-- A log with one more entry. -/
theorem IsLog.append {bytes : Bytes} {cmds : List Command} {frame : RespValue} {cmd : Command}
    (h : IsLog bytes cmds) (ha : Accepted frame cmd) :
    IsLog (bytes ++ encode frame) (cmds ++ [cmd]) := by
  obtain ⟨frames, rfl, hf⟩ := h
  refine ⟨frames ++ [frame], ?_, List.rel_append hf (.cons ha .nil)⟩
  rw [encodeItems_append, encodeItems, encodeItems, List.append_nil]

/-! ### Replay -/

/-- The commands executed one after the other, the `i`-th at `envs i`; `none` when one panics. -/
def replay (ex : Executor) : (Nat → Env) → List Command → StoreInner → Option StoreInner
  | _,    [],          s => some s
  | envs, cmd :: cmds, s =>
      match ex.exec (envs 0) cmd s with
      | (some _, s) => replay ex (fun i => envs (i + 1)) cmds s
      | (none, _)   => none

variable {ex : Executor} {unprintable : Char → Bool}

theorem replay_append (envs : Nat → Env) (cmds cmds' : List Command) (s : StoreInner) :
    replay ex envs (cmds ++ cmds') s =
      (replay ex envs cmds s).bind (replay ex (fun i => envs (i + cmds.length)) cmds') := by
  induction cmds generalizing envs s with
  | nil => rfl
  | cons cmd cmds ih =>
      simp only [List.cons_append, replay]
      split
      · rw [ih, List.length_cons]
        simp only [Nat.add_assoc]
      · rfl

/-- One more command. -/
theorem replay_snoc {envs : Nat → Env} {cmds : List Command} {s s' s'' : StoreInner}
    {cmd : Command} {response : RespValue} (h : replay ex envs cmds s = some s')
    (he : ex.exec (envs cmds.length) cmd s' = (some response, s'')) :
    replay ex envs (cmds ++ [cmd]) s = some s'' := by
  rw [replay_append, h, Option.bind_some, replay]
  simp [he, replay]

/-- The loop executes the entries at the front of the file, and goes on with what follows them. -/
theorem syncLoop_append (envs : Nat → Env) {frames : List RespValue} {cmds : List Command}
    (h : List.Forall₂ Accepted frames cmds) (tail : Bytes) {fuel : Nat}
    (hf : (encodeItems frames ++ tail).length < fuel) (s : StoreInner) :
    ∃ fuel', tail.length < fuel' ∧ syncLoop ex fuel envs (encodeItems frames ++ tail) s =
      (replay ex envs cmds s).elim .panic
        (syncLoop ex fuel' (fun i => envs (i + cmds.length)) tail) := by
  induction h generalizing fuel envs s with
  | nil => exact ⟨fuel, hf, rfl⟩
  | @cons frame cmd frames cmds ha _ ih =>
      obtain ⟨fuel, rfl⟩ : ∃ n, fuel = n + 1 := ⟨fuel - 1, by omega⟩
      have hpos := encode_ne_nil frame
      rw [encodeItems, List.append_assoc, List.length_append] at hf
      rw [encodeItems, List.append_assoc, syncLoop, decode_encode ha.1 ha.lineSafe]
      simp only [ha.2, replay]
      cases ex.exec (envs 0) cmd s with
      | mk r s' =>
          cases r with
          | none => exact ⟨tail.length + 1, Nat.lt_succ_self _, rfl⟩
          | some response =>
              have hlt : (encodeItems frames ++ tail).length < fuel := by omega
              obtain ⟨fuel', hfuel, he⟩ := ih (fun i => envs (i + 1)) hlt s'
              exact ⟨fuel', hfuel, he⟩

/-- **The replay of a log** is the execution of its commands. -/
theorem sync_eq_replay {bytes : Bytes} {cmds : List Command} (h : IsLog bytes cmds)
    (envs : Nat → Env) (s : StoreInner) :
    syncStoreWithAof ex true envs (some bytes) s = (replay ex envs cmds s).elim .panic .ok := by
  obtain ⟨frames, rfl, hf⟩ := h
  have hloop := @syncLoop_append ex envs _ _ hf [] _ (Nat.lt_succ_self _) s
  rw [List.append_nil] at hloop
  obtain ⟨fuel, hfuel, he⟩ := hloop
  obtain ⟨fuel, rfl⟩ : ∃ n, fuel = n + 1 := ⟨fuel - 1, by omega⟩
  exact he

/-! ### Entries -/

/-- The command that the entry of a command is read back as. -/
def Command.persisted (c : Clock) : Command → Command
  | .expire key seconds => .pExpireAt key (UInt64.ofNat
      ((c.nowMillis + min (seconds.toNat * 1000) (2 ^ 64 - 1)) % 2 ^ 64))
  | .pExpire key milliseconds =>
      .pExpireAt key (UInt64.ofNat ((c.nowMillis + milliseconds.toNat) % 2 ^ 64))
  | cmd => cmd

theorem accepted_pexpireatFrame {key : String} {n : Nat}
    (hk : (utf8 key).length + 2 ≤ 2 ^ 63 - 1) :
    Accepted (pexpireatFrame key (n % 2 ^ 64)) (.pExpireAt key (UInt64.ofNat (n % 2 ^ 64))) := by
  have hn : n % 2 ^ 64 < 2 ^ 64 := Nat.mod_lt _ (by decide)
  exact ⟨Command.fits_pexpireatFrame hk hn, Command.fromResp2_pexpireatFrame key hn⟩

/-- **What the handler appends is an entry.** -/
theorem aofBytes_accepted {c : Clock} {frame : RespValue} {cmd : Command}
    (h : Accepted frame cmd) :
    ∃ frame', aofBytes c frame cmd = encode frame' ∧ Accepted frame' (cmd.persisted c) := by
  have hkey : ∀ {key : String}, (∀ s ss, frame = bulkArray (s :: ss) →
      ((s :: ss).map fun s => RespValue.bulkString (some s))[1]? =
        some (.bulkString (some key))) → (utf8 key).length + 2 ≤ 2 ^ 63 - 1 := by
    intro key hk
    obtain ⟨s, ss, rfl, -⟩ := Command.fromResp2_eq_ok h.2
    have hmem := hk s ss rfl
    rw [List.getElem?_map, Option.map_eq_some_iff] at hmem
    obtain ⟨a, ha, he⟩ := hmem
    cases he
    exact (Command.fits_bulkArray.mp h.1).2 key (List.mem_of_getElem? ha)
  have hshape : ∀ s ss, frame = bulkArray (s :: ss) →
      Command.Shaped ((s :: ss).map fun s => .bulkString (some s)) cmd := by
    rintro s ss rfl
    exact Command.fromResp2_shaped h.2
  cases cmd with
  | expire key seconds =>
      exact ⟨_, rfl, accepted_pexpireatFrame (hkey hshape)⟩
  | pExpire key milliseconds =>
      exact ⟨_, rfl, accepted_pexpireatFrame (hkey hshape)⟩
  | _ => exact ⟨frame, rfl, h⟩

/-! ### Runs of a connection -/

/-- **What a frame does**: nothing, being no command, or it is a command that panics, or one that
replies. -/
theorem handle_cases (env : Env) (frame : RespValue) (s : StoreInner) :
    ((∀ cmd, Command.fromResp2 frame ≠ .ok cmd) ∧
      ∃ response, handle ex unprintable env frame s = ⟨response, s, none⟩) ∨
    (∃ cmd s', Command.fromResp2 frame = .ok cmd ∧ ex.exec env cmd s = (none, s') ∧
      handle ex unprintable env frame s = ⟨none, s', none⟩) ∨
    (∃ cmd response s', Command.fromResp2 frame = .ok cmd ∧
      ex.exec env cmd s = (some response, s') ∧
      handle ex unprintable env frame s = ⟨some response, s',
        if appends cmd response then some (aofBytes env.clock frame cmd) else none⟩) := by
  unfold handle
  cases hcmd : Command.fromResp2 frame with
  | panic => exact .inl ⟨nofun, none, rfl⟩
  | err e => exact .inl ⟨nofun, _, rfl⟩
  | ok cmd =>
      cases hexec : ex.exec env cmd s with
      | mk r s' =>
          cases r with
          | none => exact .inr (.inl ⟨cmd, s', rfl, hexec, by simp [hexec]⟩)
          | some response => exact .inr (.inr ⟨cmd, response, s', rfl, hexec, by simp [hexec]⟩)

/-- The commands a frame adds to the log. -/
def logged (env : Env) (cmd : Command) (response : RespValue) : List Command :=
  if appends cmd response then [cmd.persisted env.clock] else []

theorem IsLog.append_logged {bytes : Bytes} {cmds : List Command} {env : Env} {frame : RespValue}
    {cmd : Command} (h : IsLog bytes cmds) (ha : Accepted frame cmd) (response : RespValue) :
    IsLog (bytes ++
      (if appends cmd response then some (aofBytes env.clock frame cmd) else none).getD [])
      (cmds ++ logged env cmd response) := by
  unfold logged
  split
  · obtain ⟨frame', hb, ha'⟩ := aofBytes_accepted (c := env.clock) ha
    rw [Option.getD_some, hb]
    exact h.append ha'
  · simpa using h

/-- Every frame that is executed in the run meets `Q`, in the store it is executed on. -/
def Session.All (ex : Executor) (unprintable : Char → Bool)
    (Q : StoreInner → Env → RespValue → Prop) (w : Session) : List (Env × RespValue) → Prop
  | []                   => True
  | (env, frame) :: tail =>
      (w.alive = true → Q w.store env frame) ∧
        Session.All ex unprintable Q (w.step ex unprintable env frame) tail

theorem Session.all_of_forall {Q : StoreInner → Env → RespValue → Prop}
    {steps : List (Env × RespValue)} (h : ∀ p ∈ steps, ∀ s, Q s p.1 p.2) (w : Session) :
    w.All ex unprintable Q steps := by
  induction steps generalizing w with
  | nil => trivial
  | cons p steps ih =>
      exact ⟨fun _ => h p List.mem_cons_self _, ih (fun p hp => h p (List.mem_cons_of_mem _ hp)) _⟩

section Noting

variable {G : Type} {next : G → StoreInner → Env → RespValue → G}

/-- Every frame that is executed in the run meets `Q`, in the store it is executed on and with what
`next` has noted of the frames before it. -/
def Session.AllNoting (ex : Executor) (unprintable : Char → Bool)
    (next : G → StoreInner → Env → RespValue → G) (Q : G → StoreInner → Env → RespValue → Prop)
    (g : G) (w : Session) : List (Env × RespValue) → Prop
  | []                   => True
  | (env, frame) :: tail =>
      w.alive = true → Q g w.store env frame ∧
        AllNoting ex unprintable next Q (next g w.store env frame)
          (w.step ex unprintable env frame) tail

theorem Session.All.noting {Q : StoreInner → Env → RespValue → Prop} {w : Session}
    {steps : List (Env × RespValue)} (h : w.All ex unprintable Q steps) (g : G) :
    w.AllNoting ex unprintable next (fun _ => Q) g steps := by
  induction steps generalizing w g with
  | nil => trivial
  | cons p steps ih => exact fun ha => ⟨h.1 ha, ih h.2 _⟩

theorem Session.run_dead {w : Session} (h : w.alive = false) (steps : List (Env × RespValue)) :
    w.run ex unprintable steps = w := by
  induction steps with
  | nil => rfl
  | cons p steps ih =>
      have hstep : w.step ex unprintable p.1 p.2 = w := if_neg (by rw [h]; exact Bool.false_ne_true)
      rw [Session.run, hstep, ih]

/-- **Runs.**  A relation between what is noted, the store and the commands logged so far, kept by
every executed frame, holds after the run, and the file is a log of the logged commands. -/
theorem Session.run_log_noting {P : G → StoreInner → List Command → Prop}
    {Q : G → StoreInner → Env → RespValue → Prop}
    (hfits : ∀ g s env frame, Q g s env frame → Fits frame)
    (hother : ∀ g s cmds env frame, P g s cmds →
      (∀ cmd, Command.fromResp2 frame ≠ .ok cmd) → P (next g s env frame) s cmds)
    (hstep : ∀ g s cmds env frame cmd response s', P g s cmds → Q g s env frame →
      Command.fromResp2 frame = .ok cmd → ex.exec env cmd s = (some response, s') →
      P (next g s env frame) s' (cmds ++ logged env cmd response))
    (hpanic : ∀ g s cmds env frame cmd s', P g s cmds → Q g s env frame →
      Command.fromResp2 frame = .ok cmd → ex.exec env cmd s = (none, s') →
      P (next g s env frame) s' cmds)
    {g : G} {w : Session} {cmds : List Command} (hlog : IsLog w.aof cmds) (hP : P g w.store cmds)
    {steps : List (Env × RespValue)} (hQ : w.AllNoting ex unprintable next Q g steps) :
    ∃ g' cmds', IsLog (w.run ex unprintable steps).aof cmds' ∧
      P g' (w.run ex unprintable steps).store cmds' := by
  induction steps generalizing g w cmds with
  | nil => exact ⟨g, cmds, hlog, hP⟩
  | cons p steps ih =>
      obtain ⟨env, frame⟩ := p
      cases ha : w.alive with
      | false =>
          rw [Session.run_dead ha]
          exact ⟨g, cmds, hlog, hP⟩
      | true =>
          obtain ⟨hq, hQ⟩ := hQ ha
          have hs : w.step ex unprintable env frame =
              ⟨(handle ex unprintable env frame w.store).store,
                w.aof ++ (handle ex unprintable env frame w.store).entry.getD [],
                (handle ex unprintable env frame w.store).response.isSome⟩ := if_pos ha
          rw [Session.run]
          rw [hs] at hQ ⊢
          rcases handle_cases env frame w.store with
            ⟨hno, response, hh⟩ | ⟨cmd, s', hcmd, hexec, hh⟩ |
            ⟨cmd, response, s', hcmd, hexec, hh⟩
          all_goals rw [hh] at hQ ⊢
          · exact ih (by simpa using hlog) (hother _ _ _ _ _ hP hno) hQ
          · exact ih (by simpa using hlog) (hpanic _ _ _ _ _ _ _ hP hq hcmd hexec) hQ
          · exact ih (hlog.append_logged ⟨hfits _ _ _ _ hq, hcmd⟩ response)
              (hstep _ _ _ _ _ _ _ _ hP hq hcmd hexec) hQ

end Noting

/-- **Runs.**  A relation between the store and the commands logged so far, kept by every executed
command and by a command that panics, holds after the run, and the file is a log of the logged
commands. -/
theorem Session.run_log {P : StoreInner → List Command → Prop}
    {Q : StoreInner → Env → RespValue → Prop}
    (hfits : ∀ s env frame, Q s env frame → Fits frame)
    (hstep : ∀ s cmds env frame cmd response s', P s cmds → Q s env frame →
      Command.fromResp2 frame = .ok cmd → ex.exec env cmd s = (some response, s') →
      P s' (cmds ++ logged env cmd response))
    (hpanic : ∀ s cmds env frame cmd s', P s cmds → Q s env frame →
      Command.fromResp2 frame = .ok cmd → ex.exec env cmd s = (none, s') → P s' cmds)
    {w : Session} {cmds : List Command} (hlog : IsLog w.aof cmds) (hP : P w.store cmds)
    {steps : List (Env × RespValue)} (hQ : w.All ex unprintable Q steps) :
    ∃ cmds', IsLog (w.run ex unprintable steps).aof cmds' ∧
      P (w.run ex unprintable steps).store cmds' := by
  have hQ : w.AllNoting ex unprintable (fun g : Unit => fun _ _ _ => g) (fun _ => Q) () steps :=
    hQ.noting ()
  obtain ⟨-, h⟩ := Session.run_log_noting (P := fun _ => P) (fun _ => hfits)
    (fun _ _ _ _ _ h _ => h) (fun _ => hstep) (fun _ => hpanic) hlog hP hQ
  exact h

end Thesaurus
