import Thesaurus.Cells.Frame
import Thesaurus.Log.Settled

/-!
# Log — the order of the entries

A handler executes a command under the lock of the store and appends its entry under the lock of
the file, so the file has the entries in the order of the appends.

* `World.Reached`: the servers reached by steps that meet a condition.
* `sync_reached_inOrder`: if no entry is appended before one of the same keys whose command was
  executed earlier, the replay of the file has the data of the live store once all entries are
  appended.
* `sync_reached_reversed`: two SETs of one key, appended in the other order.
-/

namespace Thesaurus
open Bytes StoreInner

/-- The connections with an entry to append, in the order of their executions, after a step that
leads to `w`. -/
def World.pending (w : World) (order : List Nat) : Event → List Nat
  | .append conn      => order.erase conn
  | .execute conn _ _ =>
      match w.conns conn with
      | .holding _ => order ++ [conn]
      | _          => order

/-- The servers that steps meeting `Q` lead to, with the connections that have an entry to append,
in the order of their executions. -/
inductive World.Reached (ex : Executor) (unprintable : Char → Bool)
    (Q : World → List Nat → Event → Prop) : World → List Nat → Prop where
  | start : Reached ex unprintable Q .start []
  | step {w w' : World} {order : List Nat} {e : Event} (h : Reached ex unprintable Q w order)
      (hQ : Q w order e) (hstep : World.Step ex unprintable w e w') :
      Reached ex unprintable Q w' (w'.pending order e)

/-- A frame that came in over the wire and is one of the commands. -/
def PlainFrame (frame : RespValue) (cmd : Command) : Prop :=
  Received frame ∧ Command.fromResp2 frame = .ok cmd ∧ cmd.plainWrite = true

/-- The commands can change places: they are the same, both are DEL, or they share no key. -/
def Command.Swaps (cmd cmd' : Command) : Prop :=
  cmd = cmd' ∨ (∃ keys keys', cmd = .delete keys ∧ cmd' = .delete keys') ∨
    List.Disjoint cmd.writeKeys cmd'.writeKeys

/-- No deadline of a SET tells the run at `now` from a replay at `clocks` that ends at `now'`, and
an entry is appended only if it can change places with those that connections that executed before
have still to append. -/
def InOrder (ex : Executor) (now : Instant) (clocks : Nat → Clock) (now' : Instant) (w : World)
    (order : List Nat) : Event → Prop
  | .execute _ env frame => env.clock.mono ≤ now ∧
      ∃ cmd, PlainFrame frame cmd ∧ CommandAlike ex env.clock now clocks now' w.store cmd
  | .append conn         => ∀ before after, order = before ++ conn :: after → ∀ conn' ∈ before,
      ∀ frame cmd frame' cmd',
        w.conns conn = .holding (encode frame) → PlainFrame frame cmd →
        w.conns conn' = .holding (encode frame') → PlainFrame frame' cmd' → cmd'.Swaps cmd

/-- The frames executed are such commands; the entries are appended in any order. -/
def InAnyOrder (now : Instant) (_ : World) (_ : List Nat) : Event → Prop
  | .execute _ env frame => env.clock.mono ≤ now ∧ ∃ cmd, PlainFrame frame cmd
  | .append _            => True

/-! ### Commands that change places -/

section

variable {ex : Executor} {cmd : Command} {s t : StoreInner}

theorem plain_persisted (h : cmd.plainWrite = true) (frame : RespValue) (c : Clock) :
    aofBytes c frame cmd = encode frame := by
  cases cmd with
  | expire | pExpire => cases h
  | _ => rfl

/-- The cell a command leaves under a key comes from the cell that was there. -/
theorem cell_plain_congr (h : cmd.plainWrite = true) (env : Env) {k : String}
    (hk : s.cell k = t.cell k) : (ex.exec env cmd s).2.cell k = (ex.exec env cmd t).2.cell k := by
  have hcell : ∀ {key g}, Cell.exec ex env cmd = some (key, g) →
      (ex.exec env cmd s).2.cell k = (ex.exec env cmd t).2.cell k := by
    intro key g hg
    rw [exec_eq_at ex env s hg, exec_eq_at ex env t hg, keyed_at, keyed_at, cell_setCell,
      cell_setCell]
    split
    · next he => rw [← he, hk]
    · exact hk
  cases cmd with
  | set | rPush => exact hcell rfl
  | delete keys => rw [exec_delete, exec_delete, cell_deleteBulk, cell_deleteBulk, hk]
  | mSet items =>
      show (Store.mset s items).cell k = (Store.mset t items).cell k
      rw [mset_eq, mset_eq]
      clear h hcell
      induction items generalizing s t with
      | nil => exact hk
      | cons item items ih =>
          refine ih ?_
          rw [cell_setCell, cell_setCell, hk]
  | _ => cases h

/-- A command leaves the keys it does not write. -/
theorem cell_plain_frame (h : cmd.plainWrite = true) (env : Env) {k : String}
    (hk : k ∉ cmd.writeKeys) : (ex.exec env cmd s).2.cell k = s.cell k := by
  have hcell : ∀ {key g}, Cell.exec ex env cmd = some (key, g) →
      (ex.exec env cmd s).2.cell k = s.cell k := by
    intro key g hg
    rw [writeKeys_of_exec hg, List.mem_singleton] at hk
    rw [exec_eq_at ex env s hg, keyed_at, cell_setCell_ne s _ hk]
  cases cmd with
  | set | rPush => exact hcell rfl
  | delete keys => rw [exec_delete, cell_deleteBulk]; exact if_neg hk
  | mSet items => exact cell_mset hk s
  | _ => cases h

/-- **Commands on different keys commute.** -/
theorem exec_plain_comm {cmd' : Command} (h : cmd.plainWrite = true) (h' : cmd'.plainWrite = true)
    (hdisj : List.Disjoint cmd.writeKeys cmd'.writeKeys) (env : Env) :
    (ex.exec env cmd' (ex.exec env cmd s).2).2 = (ex.exec env cmd (ex.exec env cmd' s).2).2 := by
  refine ext_cell fun k => ?_
  by_cases hk : k ∈ cmd.writeKeys
  · have hk' : k ∉ cmd'.writeKeys := fun hk' => hdisj hk hk'
    rw [cell_plain_frame h' env hk']
    exact cell_plain_congr h env (cell_plain_frame h' env hk').symm
  · rw [cell_plain_frame h env hk]
    exact cell_plain_congr h' env (cell_plain_frame h env hk)

end

section

variable {ex : Executor} {clocks : Nat → Clock} {now' : Instant} {cmd cmd' : Command}
  {a : StoreInner}

@[simp] theorem plainWrite_settled (r : Clock) (cmd : Command) :
    (cmd.settled r).plainWrite = cmd.plainWrite := by
  cases cmd <;> rfl

@[simp] theorem writeKeys_settled (r : Clock) (cmd : Command) :
    (cmd.settled r).writeKeys = cmd.writeKeys := by
  cases cmd <;> rfl

theorem exec_swaps (h : cmd.plainWrite = true) (h' : cmd'.plainWrite = true)
    (hswaps : cmd'.Swaps cmd) (r : Clock) (a : StoreInner) :
    (ex.exec (Env.at 0 0) (cmd.settled r) (ex.exec (Env.at 0 0) (cmd'.settled r) a).2).2 =
      (ex.exec (Env.at 0 0) (cmd'.settled r) (ex.exec (Env.at 0 0) (cmd.settled r) a).2).2 := by
  rcases hswaps with rfl | ⟨keys, keys', rfl, rfl⟩ | hdisj
  · rfl
  · refine ext_cell fun k => ?_
    show (ex.exec (Env.at 0 0) (.delete keys')
        (ex.exec (Env.at 0 0) (.delete keys) a).2).2.cell k =
      (ex.exec (Env.at 0 0) (.delete keys) (ex.exec (Env.at 0 0) (.delete keys') a).2).2.cell k
    simp only [exec_delete, cell_deleteBulk]
    split <;> split <;> rfl
  · refine exec_plain_comm ?_ ?_ ?_ (Env.at 0 0) <;> simpa

/-- Whether a SET is steady depends on its key only. -/
theorem steadyOn_congr {b : StoreInner} (hcell : ∀ k ∈ cmd.writeKeys, a.cell k = b.cell k)
    (h : cmd.SteadyOn ex clocks now' a) : cmd.SteadyOn ex clocks now' b := by
  cases cmd with
  | set key value condition expiry g =>
      intro hacc
      rw [← hcell key (List.mem_singleton_self key)] at hacc
      exact h hacc
  | _ => trivial

theorem steadyOn_swaps (h : cmd.plainWrite = true) (h' : cmd'.plainWrite = true)
    (hswaps : cmd'.Swaps cmd) (hfirst : cmd'.SteadyOn ex clocks now' a)
    (hsecond : cmd.SteadyOn ex clocks now'
      (ex.exec (Env.at 0 0) (cmd'.settled (clocks 0)) a).2) :
    cmd.SteadyOn ex clocks now' a ∧ cmd'.SteadyOn ex clocks now'
      (ex.exec (Env.at 0 0) (cmd.settled (clocks 0)) a).2 := by
  rcases hswaps with rfl | ⟨keys, keys', rfl, rfl⟩ | hdisj
  · exact ⟨hfirst, hsecond⟩
  · exact ⟨trivial, trivial⟩
  · refine ⟨steadyOn_congr (fun k hk => ?_) hsecond, steadyOn_congr (fun k hk => ?_) hfirst⟩
    · exact cell_plain_frame (by simpa) _ (by simpa using fun hk' => hdisj hk' hk)
    · exact (cell_plain_frame (by simpa) _ (by simpa using fun hk' => hdisj hk hk')).symm

/-- A command moved before commands it can change places with. -/
theorem effects_swap {before : List Command} (h : cmd.plainWrite = true)
    (hbefore : ∀ cmd' ∈ before, cmd'.plainWrite = true ∧ cmd'.Swaps cmd) (a : StoreInner) :
    effects ex (clocks 0) (before ++ [cmd]) a = effects ex (clocks 0) (cmd :: before) a ∧
      (SteadyAll ex clocks now' (before ++ [cmd]) a →
        SteadyAll ex clocks now' (cmd :: before) a) := by
  induction before generalizing a with
  | nil => exact ⟨rfl, id⟩
  | cons cmd' before ih =>
      obtain ⟨h', hswaps⟩ := hbefore cmd' List.mem_cons_self
      obtain ⟨heffects, hsteady⟩ := ih (fun c hc => hbefore c (List.mem_cons_of_mem _ hc))
        (ex.exec (Env.at 0 0) (cmd'.settled (clocks 0)) a).2
      have hcomm := @exec_swaps ex cmd cmd' h h' hswaps (clocks 0) a
      refine ⟨?_, fun hall => ?_⟩
      · rw [List.cons_append, effects, heffects, effects, effects, effects, hcomm]
      · obtain ⟨hsecond, hrest⟩ := hsteady hall.2
        obtain ⟨hon, hon'⟩ := steadyOn_swaps h h' hswaps hall.1 hsecond
        rw [hcomm] at hrest
        exact ⟨hon, hon', hrest⟩

end

/-! ### Runs of the server -/

/-- What a connection has executed and still has to append. -/
structure Held where
  conn : Nat
  frame : RespValue
  cmd : Command

/-- The file is a log of `cmds`, the connections hold `held`, and the store is as all of these,
settled, leave an empty one in this order. -/
structure World.Ordered (ex : Executor) (now : Instant) (clocks : Nat → Clock) (now' : Instant)
    (w : World) (cmds : List Command) (held : List Held) : Prop where
  log : IsLog w.aof cmds
  plain : ∀ cmd ∈ cmds, cmd.plainWrite = true
  accepted : ∀ h ∈ held, PlainFrame h.frame h.cmd
  store : Alike now w.store (effects ex (clocks 0) (cmds ++ held.map Held.cmd) Store.new)
  steady : SteadyAll ex clocks now' (cmds ++ held.map Held.cmd) Store.new
  holds : ∀ conn entry, w.conns conn = .holding entry ↔
    ∃ h ∈ held, h.conn = conn ∧ entry = encode h.frame
  nodup : (held.map Held.conn).Nodup

namespace World.Ordered

variable {ex : Executor} {unprintable : Char → Bool} {now now' : Instant} {clocks : Nat → Clock}
  {w : World} {cmds : List Command} {held : List Held}

theorem start : Ordered ex now clocks now' .start [] [] where
  log := IsLog.nil
  plain _ h := nomatch h
  accepted _ h := nomatch h
  store key := by
    show Cell.Alike now (Store.new.cell key) (Store.new.cell key)
    rw [cell_new]
    exact .noDeadline none
  steady := trivial
  holds _ _ := ⟨fun h => (nomatch h), fun ⟨_, h, _⟩ => (nomatch h)⟩
  nodup := .nil

/-- Nothing is held by an idle connection. -/
theorem not_held (h : Ordered ex now clocks now' w cmds held) {conn : Nat}
    (hidle : w.conns conn = .idle) : ∀ x ∈ held, x.conn ≠ conn := by
  rintro x hx rfl
  have hh := (h.holds x.conn (encode x.frame)).mpr ⟨x, hx, rfl, rfl⟩
  rw [hidle] at hh
  cases hh

/-- A connection that executes a command and has nothing to append. -/
theorem execute_unlogged (h : Ordered ex now clocks now' w cmds held) {conn : Nat}
    (hidle : w.conns conn = .idle) {t : StoreInner}
    (ht : Alike now t (effects ex (clocks 0) (cmds ++ held.map Held.cmd) Store.new))
    {state : ConnState} (hstate : ∀ entry, state ≠ .holding entry) :
    Ordered ex now clocks now' { w with store := t, conns := Function.update w.conns conn state }
      cmds held where
  log := h.log
  plain := h.plain
  accepted := h.accepted
  store := ht
  steady := h.steady
  holds c entry := by
    dsimp only
    by_cases hc : c = conn
    · subst hc
      rw [Function.update_self]
      exact iff_of_false (hstate entry) fun ⟨x, hx, hxc, _⟩ => h.not_held hidle x hx hxc
    · rw [Function.update_of_ne hc]
      exact h.holds c entry
  nodup := h.nodup

/-- A connection that executes a command and has its entry to append. -/
theorem execute_logged (h : Ordered ex now clocks now' w cmds held) {conn : Nat}
    (hidle : w.conns conn = .idle) {frame : RespValue} {cmd : Command}
    (hframe : PlainFrame frame cmd) {t : StoreInner}
    (hsteady : cmd.SteadyOn ex clocks now'
      (effects ex (clocks 0) (cmds ++ held.map Held.cmd) Store.new))
    (ht : Alike now t (ex.exec (Env.at 0 0) (cmd.settled (clocks 0))
      (effects ex (clocks 0) (cmds ++ held.map Held.cmd) Store.new)).2) :
    Ordered ex now clocks now'
      { w with
        store := t
        conns := Function.update w.conns conn (.holding (encode frame)) }
      cmds (held ++ [⟨conn, frame, cmd⟩]) where
  log := h.log
  plain := h.plain
  accepted x hx := by
    rcases List.mem_append.mp hx with hx | hx
    · exact h.accepted x hx
    · obtain rfl := List.mem_singleton.mp hx
      exact hframe
  store := by
    rw [List.map_append, ← List.append_assoc, effects_append]
    exact ht
  steady := by
    rw [List.map_append, ← List.append_assoc, steadyAll_append]
    exact ⟨h.steady, hsteady, trivial⟩
  holds c entry := by
    dsimp only
    by_cases hc : c = conn
    -- the connection held nothing before
    · subst hc
      rw [Function.update_self]
      constructor
      · intro he
        cases he
        exact ⟨_, List.mem_append_right _ (List.mem_singleton_self _), rfl, rfl⟩
      · rintro ⟨x, hx, hxc, rfl⟩
        rcases List.mem_append.mp hx with hx | hx
        · exact absurd hxc (h.not_held hidle x hx)
        · obtain rfl := List.mem_singleton.mp hx
          rfl
    · rw [Function.update_of_ne hc, h.holds]
      constructor
      · rintro ⟨x, hx, hxc, he⟩
        exact ⟨x, List.mem_append_left _ hx, hxc, he⟩
      · rintro ⟨x, hx, hxc, he⟩
        rcases List.mem_append.mp hx with hx | hx
        · exact ⟨x, hx, hxc, he⟩
        · obtain rfl := List.mem_singleton.mp hx
          exact absurd hxc.symm hc
  nodup := by
    rw [List.map_append, List.nodup_append]
    refine ⟨h.nodup, List.nodup_singleton _, ?_⟩
    rintro a ha b hb rfl
    obtain ⟨x, hx, rfl⟩ := List.mem_map.mp ha
    exact h.not_held hidle x hx (List.mem_singleton.mp hb)

/-- A connection that appends its entry, which can change places with those executed before it. -/
theorem append {before after : List Held} {x : Held}
    (h : Ordered ex now clocks now' w cmds (before ++ x :: after))
    (hswaps : ∀ y ∈ before, y.cmd.Swaps x.cmd) :
    Ordered ex now clocks now'
      { w with aof := w.aof ++ encode x.frame, conns := Function.update w.conns x.conn .idle }
      (cmds ++ [x.cmd]) (before ++ after) := by
  have hacc := h.accepted x (List.mem_append_right _ List.mem_cons_self)
  have hnodup := h.nodup
  rw [List.map_append, List.map_cons, List.nodup_middle, List.nodup_cons, List.mem_append,
    not_or] at hnodup
  obtain ⟨⟨hbefore, hafter⟩, hrest⟩ := hnodup
  have hsub : ∀ y, y ∈ before ++ after → y ∈ before ++ x :: after := fun y hy =>
    (List.mem_append.mp hy).elim (fun hy => List.mem_append_left _ hy)
      fun hy => List.mem_append_right _ (List.mem_cons_of_mem _ hy)
  -- the command is executed before those that stay held
  obtain ⟨heffects, hsteady⟩ := @effects_swap ex clocks now' x.cmd (before.map Held.cmd) hacc.2.2
    (fun cmd hcmd => by
      obtain ⟨y, hy, rfl⟩ := List.mem_map.mp hcmd
      exact ⟨(h.accepted y (List.mem_append_left _ hy)).2.2, hswaps y hy⟩)
    (effects ex (clocks 0) cmds Store.new)
  have hmap : cmds ++ (before ++ x :: after).map Held.cmd =
      cmds ++ ((before.map Held.cmd ++ [x.cmd]) ++ after.map Held.cmd) := by simp
  have hmap' : cmds ++ [x.cmd] ++ (before ++ after).map Held.cmd =
      cmds ++ (x.cmd :: before.map Held.cmd ++ after.map Held.cmd) := by simp
  exact {
    log := h.log.append ⟨hacc.1.fits, hacc.2.1⟩
    plain := fun cmd hcmd => (List.mem_append.mp hcmd).elim (h.plain cmd) fun hcmd => by
      rw [List.mem_singleton.mp hcmd]
      exact hacc.2.2
    accepted := fun y hy => h.accepted y (hsub y hy)
    store := by
      have hstore := h.store
      rw [hmap, effects_append, effects_append, heffects] at hstore
      rw [hmap', effects_append, effects_append]
      exact hstore
    steady := by
      have hall := h.steady
      rw [hmap, steadyAll_append, steadyAll_append, heffects] at hall
      rw [hmap', steadyAll_append, steadyAll_append]
      exact ⟨hall.1, hsteady hall.2.1, hall.2.2⟩
    holds := fun c entry => by
      dsimp only
      by_cases hc : c = x.conn
      -- the connection is idle now, and held no other entry
      · subst hc
        rw [Function.update_self]
        refine ⟨fun he => (nomatch he), ?_⟩
        rintro ⟨y, hy, hyc, -⟩
        rcases List.mem_append.mp hy with hy | hy
        · exact absurd (List.mem_map.mpr ⟨y, hy, hyc⟩) hbefore
        · exact absurd (List.mem_map.mpr ⟨y, hy, hyc⟩) hafter
      · rw [Function.update_of_ne hc, h.holds]
        constructor
        · rintro ⟨y, hy, rfl, he⟩
          rcases List.mem_append.mp hy with hy | hy
          · exact ⟨y, List.mem_append_left _ hy, rfl, he⟩
          · rcases List.mem_cons.mp hy with rfl | hy
            · exact absurd rfl hc
            · exact ⟨y, List.mem_append_right _ hy, rfl, he⟩
        · rintro ⟨y, hy, hyc, he⟩
          exact ⟨y, hsub y hy, hyc, he⟩
    nodup := by rwa [List.map_append] }

/-- **Every step in order** keeps the server ordered. -/
theorem step (h : Ordered ex now clocks now' w cmds held) (hend : ∀ i, (clocks i).mono ≤ now')
    {e : Event} {w' : World} (hQ : InOrder ex now clocks now' w (held.map Held.conn) e)
    (hstep : World.Step ex unprintable w e w') :
    ∃ cmds' held', Ordered ex now clocks now' w' cmds' held' ∧
      w'.pending (held.map Held.conn) e = held'.map Held.conn := by
  cases hstep with
  | append conn entry hheld =>
      -- the entry of a held command: it can change places with those executed before it
      obtain ⟨x, hx, rfl, rfl⟩ := (h.holds conn entry).mp hheld
      obtain ⟨before, after, rfl⟩ := List.append_of_mem hx
      have hnot : x.conn ∉ before.map Held.conn := by
        have hnodup := h.nodup
        rw [List.map_append, List.map_cons, List.nodup_middle, List.nodup_cons,
          List.mem_append, not_or] at hnodup
        exact hnodup.1.1
      refine ⟨_, _, h.append fun y hy => ?_, ?_⟩
      · have hy' : y ∈ before ++ x :: after := List.mem_append_left _ hy
        exact hQ (before.map Held.conn) (after.map Held.conn) List.map_append y.conn
          (List.mem_map_of_mem hy) x.frame x.cmd y.frame y.cmd hheld (h.accepted x hx)
          ((h.holds _ _).mpr ⟨y, hy', rfl, rfl⟩) (h.accepted y hy')
      · rw [World.pending, List.map_append, List.map_cons, List.erase_append_right _ hnot,
          List.erase_cons_head, List.map_append]
  | execute conn env frame hidle =>
      obtain ⟨hle, cmd, hframe, halike⟩ := hQ
      have hcmd : Command.fromResp2 frame = .ok cmd := hframe.2.1
      have hplain : cmd.plainWrite = true := hframe.2.2
      cases hexec : ex.exec env cmd w.store with
      | mk r t =>
          obtain ⟨hlogged, hunlogged⟩ := exec_alike hplain hle hend h.store halike hexec
          cases r with
          | none =>
              have hhandle : handle ex unprintable env frame w.store = ⟨none, t, none⟩ := by
                rw [handle, hcmd]
                dsimp only
                rw [hexec]
              rw [hhandle]
              have hgone : ∀ entry, ConnState.gone ≠ .holding entry := nofun
              refine ⟨_, _, h.execute_unlogged hidle (hunlogged nofun) hgone, ?_⟩
              rw [World.pending, Handled.next]
              dsimp only
              rw [Function.update_self]
          | some response =>
              have hhandle : handle ex unprintable env frame w.store = ⟨some response, t,
                  if appends cmd response then some (aofBytes env.clock frame cmd) else none⟩ := by
                rw [handle, hcmd]
                dsimp only
                rw [hexec]
              rw [hhandle]
              cases happ : appends cmd response with
              | true =>
                  -- the reply tells of a change, so that an entry is held from here on
                  obtain ⟨hsteady, ht⟩ := hlogged response rfl happ
                  rw [if_pos rfl, plain_persisted hplain]
                  refine ⟨_, _, h.execute_logged hidle hframe hsteady ht, ?_⟩
                  rw [World.pending, Handled.next]
                  dsimp only
                  rw [Function.update_self, List.map_append]
                  rfl
              | false =>
                  have ht := hunlogged fun response' he => by
                    cases he
                    exact happ
                  have hready : ∀ entry, ConnState.idle ≠ .holding entry := nofun
                  rw [if_neg Bool.false_ne_true]
                  refine ⟨_, _, h.execute_unlogged hidle ht hready, ?_⟩
                  rw [World.pending, Handled.next]
                  dsimp only
                  rw [Function.update_self]

end World.Ordered

/-- **Entries in order.**  Any number of connections execute and append MSET, SET, DEL and RPUSH,
in any interleaving in which each entry can change places with those that were executed before it
and are appended after it, and no deadline tells the run from the replay.  When nothing is left to
append, the replay of the file on an empty store, whose clock does not go back, succeeds and ends
with the data that the live store has at `now`. -/
theorem sync_reached_inOrder (ex : Executor) (unprintable : Char → Bool) (now : Instant)
    (envs : Nat → Env) (now' : Instant) (hend : ∀ i, (envs i).clock.mono ≤ now')
    (hmono : ∀ i, (envs i).clock.mono ≤ (envs (i + 1)).clock.mono) (w : World) (order : List Nat)
    (h : World.Reached ex unprintable (InOrder ex now (fun i => (envs i).clock) now') w order)
    (hdone : ∀ conn entry, w.conns conn ≠ .holding entry) :
    ∃ s, syncStoreWithAof ex true envs (some w.aof) Store.new = .ok s ∧
      ∀ key, s.get now' key = w.store.get now key := by
  obtain ⟨cmds, held, hw, -⟩ : ∃ cmds held,
      World.Ordered ex now (fun i => (envs i).clock) now' w cmds held ∧
        order = held.map Held.conn := by
    clear hdone
    induction h with
    | start => exact ⟨[], [], .start, rfl⟩
    | step _ hQ hstep ih =>
        obtain ⟨cmds, held, hw, rfl⟩ := ih
        exact hw.step hend hQ hstep
  have hheld : held = [] := List.eq_nil_iff_forall_not_mem.mpr fun x hx =>
    hdone x.conn (encode x.frame) ((hw.holds _ _).mpr ⟨x, hx, rfl, rfl⟩)
  subst hheld
  have hstore := hw.store
  have hsteady := hw.steady
  rw [List.map_nil, List.append_nil] at hstore hsteady
  have hnew : Settled 0 now' Store.new Store.new := fun key => by
    rw [cell_new]
    exact .noDeadline none
  obtain ⟨s, hreplay, hs⟩ := replay_settled hw.plain hend (fun i => ⟨i, rfl⟩) hmono
    (Nat.zero_le _) hnew hsteady
  refine ⟨s, ?_, fun key => ?_⟩
  · rw [sync_eq_replay hw.log, hreplay]
    rfl
  · rw [hs key, get_eq_live, get_eq_live, (hstore key).live]

/-! ### Two SETs -/

section

variable {ex : Executor} {unprintable : Char → Bool}

theorem fromResp2_set (key value : String) :
    Command.fromResp2 (bulkArray ["SET", key, value]) = .ok (.set key value none none false) := rfl

/-- A connection executes SET. -/
theorem step_set {s : StoreInner} {aof : Bytes} {conns : Nat → ConnState} {conn : Nat}
    (hidle : conns conn = .idle) (env : Env) {key : String}
    (hset : ¬HoldsCollection env.clock.mono s key) (value : String) :
    World.Step ex unprintable ⟨s, aof, conns⟩ (.execute conn env (bulkArray ["SET", key, value]))
      ⟨s.setCell key (Cell.setString value), aof,
        Function.update conns conn (.holding (encode (bulkArray ["SET", key, value])))⟩ := by
  have hhandle : handle ex unprintable env (bulkArray ["SET", key, value]) s =
      ⟨some okReply, s.setCell key (Cell.setString value),
        some (encode (bulkArray ["SET", key, value]))⟩ := by
    rw [handle, fromResp2_set]
    dsimp only
    rw [exec_set_plain ex env s key value hset]
    rfl
  have hstep : World.Step ex unprintable ⟨s, aof, conns⟩
      (.execute conn env (bulkArray ["SET", key, value])) _ :=
    .execute conn env (bulkArray ["SET", key, value]) hidle
  dsimp only at hstep
  rw [hhandle] at hstep
  exact hstep

theorem idle_of_two {conns : Nat → ConnState} (h₀ : conns 0 = .idle) (h₁ : conns 1 = .idle)
    (h : ∀ n, conns (n + 2) = .idle) (conn : Nat) (entry : Bytes) :
    conns conn ≠ .holding entry := by
  match conn with
  | 0     => rw [h₀]; nofun
  | 1     => rw [h₁]; nofun
  | n + 2 => rw [h n]; nofun

/-- A connection appends what it holds. -/
theorem step_append (s : StoreInner) (aof : Bytes) {conns : Nat → ConnState} {conn : Nat}
    {entry : Bytes} (hheld : conns conn = .holding entry) :
    World.Step ex unprintable ⟨s, aof, conns⟩ (.append conn)
      ⟨s, aof ++ entry, Function.update conns conn .idle⟩ :=
  .append conn entry hheld

theorem plainFrame_set {key value : String} (h : Fits (bulkArray ["SET", key, value])) :
    PlainFrame (bulkArray ["SET", key, value]) (.set key value none none false) :=
  ⟨received_bulkArray h, fromResp2_set key value, rfl⟩

/-- An entry tells the frame. -/
theorem PlainFrame.eq_of_encode {frame frame' : RespValue} {cmd cmd' : Command}
    (h : PlainFrame frame cmd) (h' : PlainFrame frame' cmd')
    (he : ConnState.holding (encode frame) = .holding (encode frame')) : cmd = cmd' := by
  have hdecode : ∀ {frame cmd}, PlainFrame frame cmd →
      decode (encode frame ++ []) = .ok (frame, []) := fun h =>
    decode_encode h.1.fits (show Accepted _ _ from ⟨h.1.fits, h.2.1⟩).lineSafe []
  have hread := hdecode h
  rw [ConnState.holding.inj he, hdecode h'] at hread
  cases hread
  exact Outcome.ok.inj (h.2.1.symm.trans h'.2.1)

/-- A plain SET is the same in the run and at the replay. -/
theorem commandAlike_set {c : Clock} {now now' : Instant} {clocks : Nat → Clock} {s : StoreInner}
    (key value : String) :
    CommandAlike ex c now clocks now' s (.set key value none none false) := fun _ _ _ _ =>
  ⟨fun _ h => absurd nofun h,
    fun _ => ⟨fun _ => ⟨fun _ => nofun, .inl fun _ => rfl⟩, fun _ => Iff.rfl⟩⟩

theorem not_holdsCollection_new (now : Instant) (key : String) :
    ¬HoldsCollection now Store.new key := fun h => by
  rw [HoldsCollection, cell_new] at h
  cases h

theorem not_holdsCollection_set (now : Instant) (key value : String) :
    ¬HoldsCollection now (Store.new.setCell key (Cell.setString value)) key := fun h => by
  rw [HoldsCollection, cell_setCell_self] at h
  cases h

end

/-- Connection 0 sets `k` to a for ten seconds, connection 1 sets `l` to b, and 1 appends first. -/
theorem sync_reached_set : ∃ (w : World) (s : StoreInner),
    w.store = (Store.new.setCell "k" ⟨some (.str "a"), some 10000000000⟩).setCell "l"
      (Cell.setString "b") ∧
    syncStoreWithAof .plain true (fun _ => Env.at 0 5) (some w.aof) Store.new = .ok s ∧
      ∀ key, s.get 5 key = w.store.get 5 key := by
  have ha : Fits (bulkArray ["SET", "k", "a", "EX", "10"]) :=
    Command.fits_bulkArray.mpr ⟨by decide, by decide⟩
  have hb : Fits (bulkArray ["SET", "l", "b"]) :=
    Command.fits_bulkArray.mpr ⟨by decide, by decide⟩
  have hfirst : handle .plain (fun _ => false) (Env.at 0 0)
      (bulkArray ["SET", "k", "a", "EX", "10"]) Store.new =
        ⟨some okReply, Store.new.setCell "k" ⟨some (.str "a"), some 10000000000⟩,
          some (encode (bulkArray ["SET", "k", "a", "EX", "10"]))⟩ := by
    rfl
  have hframe : PlainFrame (bulkArray ["SET", "k", "a", "EX", "10"])
      (.set "k" "a" none (some (.ex 10)) false) := ⟨received_bulkArray ha, rfl, rfl⟩
  have halike : CommandAlike .plain (Clock.at 0 0) 5 (fun _ => Clock.at 0 5) 5 Store.new
      (.set "k" "a" none (some (.ex 10)) false) := by
    intro prev prev' _ _
    have hfits : ∀ t ≤ 5, SetExpiry.Fits (Clock.at 0 t) (some (.ex 10)) := by
      intro t ht e d he hd
      cases he
      cases hd
      exact Nat.lt_of_le_of_lt (Nat.add_le_add_right ht _) (by decide +kernel)
    have hahead : SetExpiry.overdue (Clock.at 0 5) 5 none (some (.ex 10)) = false := by
      decide +kernel
    exact ⟨fun _ h => absurd (hfits 0 (by decide)) h,
      fun _ => ⟨fun _ => ⟨fun _ => hfits 5 (Nat.le_refl 5), .inl fun _ => hahead⟩,
        fun _ => iff_of_true ⟨rfl, by decide +kernel⟩ ⟨rfl, by decide +kernel⟩⟩⟩
  have hstep : World.Step .plain (fun _ => false) .start
      (.execute 0 (Env.at 0 0) (bulkArray ["SET", "k", "a", "EX", "10"])) _ :=
    .execute 0 (Env.at 0 0) _ rfl
  have hset : ¬HoldsCollection 0
      (Store.new.setCell "k" ⟨some (.str "a"), some 10000000000⟩) "l" := fun h => by
    rw [HoldsCollection, cell_setCell_ne _ _ (by decide), cell_new] at h
    cases h
  rw [World.start, hfirst] at hstep
  have h₁ : World.Reached .plain (fun _ => false) (InOrder .plain 5 (fun _ => Clock.at 0 5) 5) _
      [0] :=
    .step .start (e := .execute 0 (Env.at 0 0) (bulkArray ["SET", "k", "a", "EX", "10"]))
      ⟨Nat.zero_le 5, _, hframe, halike⟩ hstep
  have h₂ : World.Reached .plain (fun _ => false) (InOrder .plain 5 (fun _ => Clock.at 0 5) 5) _
      [0, 1] :=
    h₁.step (e := .execute 1 (Env.at 0 0) (bulkArray ["SET", "l", "b"]))
      ⟨Nat.zero_le 5, _, plainFrame_set hb, commandAlike_set "l" "b"⟩
      (step_set rfl (Env.at 0 0) hset "b")
  have h₃ : World.Reached .plain (fun _ => false) (InOrder .plain 5 (fun _ => Clock.at 0 5) 5) _
      [0] :=
    h₂.step (e := .append 1) (fun before after he conn' hc _ _ _ _ hl hcmd hk hcmd' => by
      obtain rfl : conn' = 0 := by
        rcases before with _ | ⟨c, _ | ⟨d, before⟩⟩ <;> simp at he hc
        exact hc.trans he.1.symm
      obtain rfl := hcmd.eq_of_encode (plainFrame_set hb) (hl.symm.trans rfl)
      obtain rfl := hcmd'.eq_of_encode hframe (hk.symm.trans rfl)
      exact .inr (.inr (by simp [Command.writeKeys]))) (step_append _ _ rfl)
  have h₄ : World.Reached .plain (fun _ => false) (InOrder .plain 5 (fun _ => Clock.at 0 5) 5) _
      [] :=
    h₃.step (e := .append 0) (fun before after he conn' hc => by
      cases before with
      | nil => cases hc
      | cons b before => simp at he) (step_append _ _ rfl)
  obtain ⟨s, hs⟩ := sync_reached_inOrder .plain (fun _ => false) 5 (fun _ => Env.at 0 5) 5
    (fun _ => Nat.le_refl 5) (fun _ => Nat.le_refl 5) _ [] h₄ (idle_of_two rfl rfl fun _ => rfl)
  exact ⟨_, s, rfl, hs⟩

/-- Connection 0 sets `k` to a, connection 1 to b, and 1 appends first: the replay leaves a. -/
theorem sync_reached_reversed :
    ¬∀ (ex : Executor) (unprintable : Char → Bool) (now : Instant) (envs : Nat → Env)
      (now' : Instant), (∀ i, (envs i).clock.mono ≤ now') →
      (∀ i, (envs i).clock.mono ≤ (envs (i + 1)).clock.mono) →
      ∀ (w : World) (order : List Nat), World.Reached ex unprintable (InAnyOrder now) w order →
      (∀ conn entry, w.conns conn ≠ .holding entry) →
      ∃ s, syncStoreWithAof ex true envs (some w.aof) Store.new = .ok s ∧
        ∀ key, s.get now' key = w.store.get now key := by
  intro h
  have ha : Fits (bulkArray ["SET", "k", "a"]) :=
    Command.fits_bulkArray.mpr ⟨by decide, by decide⟩
  have hb : Fits (bulkArray ["SET", "k", "b"]) :=
    Command.fits_bulkArray.mpr ⟨by decide, by decide⟩
  have h₁ : World.Reached .plain (fun _ => false) (InAnyOrder 0) _ [0] :=
    .step .start (e := .execute 0 (Env.at 0 0) (bulkArray ["SET", "k", "a"]))
      ⟨Nat.le_refl 0, _, plainFrame_set ha⟩
      (step_set rfl (Env.at 0 0) (not_holdsCollection_new _ "k") "a")
  have h₂ : World.Reached .plain (fun _ => false) (InAnyOrder 0) _ [0, 1] :=
    h₁.step (e := .execute 1 (Env.at 0 0) (bulkArray ["SET", "k", "b"]))
      ⟨Nat.le_refl 0, _, plainFrame_set hb⟩
      (step_set rfl (Env.at 0 0) (not_holdsCollection_set _ "k" "a") "b")
  have h₃ : World.Reached .plain (fun _ => false) (InAnyOrder 0) _ [0] :=
    h₂.step (e := .append 1) trivial (step_append _ _ rfl)
  have h₄ : World.Reached .plain (fun _ => false) (InAnyOrder 0) _ [] :=
    h₃.step (e := .append 0) trivial (step_append _ _ rfl)
  obtain ⟨s, hsync, hget⟩ := h .plain (fun _ => false) 0 (fun _ => Env.at 0 0) 0
    (fun _ => Nat.le_refl 0) (fun _ => Nat.le_refl 0) _ [] h₄ (idle_of_two rfl rfl fun _ => rfl)
  have hlog : IsLog ([] ++ encode (bulkArray ["SET", "k", "b"]) ++
      encode (bulkArray ["SET", "k", "a"])) _ :=
    (IsLog.nil.append ⟨hb, fromResp2_set "k" "b"⟩).append ⟨ha, fromResp2_set "k" "a"⟩
  rw [sync_eq_replay hlog] at hsync
  rw [List.nil_append, List.cons_append, List.nil_append, replay,
    exec_set_plain _ _ _ _ _ (not_holdsCollection_new _ "k")] at hsync
  dsimp only at hsync
  rw [replay, exec_set_plain _ _ _ _ _ (not_holdsCollection_set _ "k" "b")] at hsync
  dsimp only at hsync
  rw [replay] at hsync
  injection hsync with hsync
  have hk := hget "k"
  rw [← hsync, get_eq_live, get_eq_live, cell_setCell_self, cell_setCell_self] at hk
  simp [Cell.setString, Cell.live, Cell.expired] at hk

end Thesaurus
