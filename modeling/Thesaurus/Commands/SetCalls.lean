import Thesaurus.Cells.Deadline
import Thesaurus.Cells.Replies
import Thesaurus.Support.Atomic

/-!
# Commands — the steps of SET

SET takes the lock of the store once for each of its calls: it reads the string, with KEEPTTL it
reads the deadline, it writes the string, and it sets the deadline if there is one.  `SetCall` is
a SET but for its key, `SetCall.prog` its program.  Two clients read the clocks at times of their
own, so each call of a program carries what its client reads.

* `run_prog`: the program alone is the SET of the executor, at what its client reads.
* `run_met`, `run_idle`: what it replies and leaves, when its condition holds of what it finds and
  when it does not write.
* `reply_ne_refusal`, `deaf_of_reply`, `get_of_refusal`: what its reply tells of what it has found.
-/

namespace Thesaurus
open StoreInner
open Atomic (Prog)

/-- A program whose calls carry what their client reads. -/
abbrev ClientProg (α : Type) := Prog (fun o : Env × StoreOp => o.2.Res) α

/-- The meaning of a call, for what its client reads. -/
abbrev applyEach : (o : Env × StoreOp) → StoreInner → o.2.Res × StoreInner :=
  fun o => Env.apply o.1 o.2

/-- A SET, but for its key, with what its client reads. -/
structure SetCall where
  env : Env
  value : String
  condition : Option SetCondition
  expiry : Option SetExpiry
  get : Bool

namespace SetCall

/-! ### What a SET does -/

section

variable (ex : Executor) (key : String) (p : SetCall)

/-- The program of the SET. -/
def prog : ClientProg Reply :=
  (ex.set p.env.clock key p.value p.condition p.expiry p.get).stamp p.env

/-- The SET reads `r` from the cell. -/
def Reads (x : Cell) (r : Option String) : Prop :=
  Store.asString (x.live p.env.clock.mono) = .ok r

/-- The SET writes when it reads `r`. -/
def Met (r : Option String) : Prop :=
  ex.conditionMet p.condition r = true

/-- The SET reads `r` from the cell, and writes over it. -/
def WritesOver (x : Cell) (r : Option String) : Prop := p.Reads x r ∧ p.Met ex r

/-- The SET writes over the cell. -/
def Writes (x : Cell) : Prop := ∃ r, p.WritesOver ex x r

/-- The SET keeps the deadline of the key. -/
def Keeps : Prop := p.expiry = some .keepTtl

/-- What the SET leaves, with its deadline. -/
def cell (deadline : Option Instant) : Cell := ⟨some (.str p.value), deadline⟩

/-- The deadline that the SET sets when it writes over the cell. -/
def deadline (x : Cell) : Option Instant :=
  match Executor.setDeadline p.env.clock p.expiry x.deadline with
  | .ok d => d
  | _     => none

/-- Its reply when it writes, and has read `r`. -/
def reply (r : Option String) : Reply :=
  match Executor.setDeadline p.env.clock p.expiry none with
  | .panic    => none
  | .err text => some (.simpleError text)
  | .ok _     => some (Executor.setReply p.get true r)

/-- Its reply when it does not write. -/
def refusal (r : Option String) : Reply :=
  some (Executor.setReply p.get false r)

/-- Its reply over a cell that it does not write over. -/
def idle (x : Cell) : Reply :=
  match Store.asString (x.live p.env.clock.mono) with
  | .error e => some (errorReply e)
  | .ok r    => p.refusal r

/-- The reply of the SET does not show what it has read over. -/
def Deaf : Prop :=
  p.get = false ∨ ∀ d, Executor.setDeadline p.env.clock p.expiry none ≠ .ok d

/-- The part of the SET after its value is written. -/
def finish (deadline : Option Instant) (a : Reply) : ClientProg Reply :=
  match deadline with
  | none   => .ret a
  | some d => .call (p.env, .setTtl key d) fun _ => .ret a

/-- The part of the SET that writes. -/
def write (deadline : Option Instant) (a : Reply) : ClientProg Reply :=
  .call (p.env, .setString key p.value) fun _ => p.finish key deadline a

/-- The part of the SET after its first read, when it writes. -/
def go (r : Option String) : ClientProg Reply :=
  (Executor.setWrite p.env.clock key p.value p.expiry (Executor.setReply p.get true r)).stamp p.env

/-- The part of the SET after its first read. -/
def next : Except StoreError (Option String) → ClientProg Reply
  | .error e => .ret (some (errorReply e))
  | .ok r    => if ex.conditionMet p.condition r then p.go key r else .ret (p.refusal r)

end

variable {ex : Executor} {key : String} {p : SetCall} {r r' : Option String}

theorem prog_eq : p.prog ex key = .call (p.env, .getString key) (p.next ex key) := by
  unfold prog Executor.set
  rw [Prog.invoke_bind, Prog.stamp]
  congr 1
  funext found
  cases found with
  | error e => rfl
  | ok r =>
      rw [next]
      dsimp only
      split <;> rfl

theorem next_met (h : p.Met ex r) : p.next ex key (.ok r) = p.go key r := if_pos h

theorem next_refused (h : ¬p.Met ex r) : p.next ex key (.ok r) = .ret (p.refusal r) := if_neg h

/-- A SET that does not write over the cell ends with what it reads of it. -/
theorem next_idle {x : Cell} (h : ¬p.Writes ex x) :
    p.next ex key (Store.asString (x.live p.env.clock.mono)) = .ret (p.idle x) := by
  unfold idle
  cases hr : Store.asString (x.live p.env.clock.mono) with
  | error e => rfl
  | ok r => exact next_refused fun hm => h ⟨r, hr, hm⟩

/-- The outcome of the deadline is the same over every cell, but for the deadline that is kept. -/
theorem setDeadline_cases (x : Cell) :
    (∃ d, Executor.setDeadline p.env.clock p.expiry x.deadline = .ok d ∧
      ∃ d', Executor.setDeadline p.env.clock p.expiry none = .ok d') ∨
    Executor.setDeadline p.env.clock p.expiry x.deadline =
      Executor.setDeadline p.env.clock p.expiry none := by
  by_cases h : p.expiry = some .keepTtl
  · rw [h]
    exact .inl ⟨_, rfl, _, rfl⟩
  · exact .inr (setDeadline_of_ne h _ _)

theorem deadline_keeps (h : p.Keeps) (x : Cell) : p.deadline x = x.deadline := by
  unfold deadline
  rw [show p.expiry = some .keepTtl from h]
  rfl

theorem deadline_congr (h : ¬p.Keeps) (x y : Cell) : p.deadline x = p.deadline y := by
  unfold deadline
  rw [setDeadline_of_ne h x.deadline y.deadline]

/-- A deadline of its own is not before the time it is set. -/
theorem le_deadline (h : ¬p.Keeps) {x : Cell} {d : Instant} (hd : p.deadline x = some d) :
    p.env.clock.mono ≤ d := by
  unfold deadline at hd
  rcases Executor.setDeadline_outcome p.env.clock p.expiry x.deadline with
    ho | ⟨hk, -⟩ | ⟨ahead, ho⟩ | ho | ho
  · rw [ho] at hd
    cases hd
  · exact absurd hk h
  · rw [ho] at hd
    cases hd
    exact Nat.le_add_right _ _
  · rw [ho] at hd
    cases hd
  · rw [ho] at hd
    cases hd

theorem setExpire_eq (x : Cell) :
    (Executor.setExpire key (Executor.setDeadline p.env.clock p.expiry x.deadline)
        (Executor.setReply p.get true r)).stamp p.env =
      p.finish key (p.deadline x) (p.reply r) := by
  unfold deadline reply
  rcases setDeadline_cases (p := p) x with ⟨d, hd, d', hd'⟩ | h
  · rw [hd, hd']
    cases d <;> rfl
  · rw [h]
    rcases Executor.setDeadline p.env.clock p.expiry none with (_ | d) | text | _ <;> rfl

/-- Without KEEPTTL, the SET writes as soon as it has read. -/
theorem go_eq (h : ¬p.Keeps) (x : Cell) :
    p.go key r = p.write key (p.deadline x) (p.reply r) := by
  unfold go Executor.setWrite
  split
  · next he => exact absurd he h
  · rw [Prog.invoke_bind, setDeadline_of_ne h none x.deadline, Prog.stamp, setExpire_eq]
    rfl

/-- With KEEPTTL, it reads the deadline first. -/
theorem go_keeps (h : p.Keeps) :
    p.go key r = .call (p.env, .getTtl key) fun old => p.write key old (p.reply r) := by
  unfold go reply
  rw [show p.expiry = some .keepTtl from h, Executor.setWrite, Prog.invoke_bind, Prog.stamp]
  congr 1
  funext old
  cases old <;> rfl

/-! ### What the replies tell -/

theorem reply_of_deaf (h : p.Deaf) (r r' : Option String) : p.reply r = p.reply r' := by
  unfold reply
  rcases h with h | h
  · rw [h]
    rfl
  · split
    · rfl
    · rfl
    · next hd => exact absurd hd (h _)

theorem deaf_of_reply (h : p.reply r = p.reply r') : p.Deaf ∨ r = r' := by
  cases hg : p.get with
  | false => exact .inl (.inl hg)
  | true =>
      unfold reply at h
      cases hd : Executor.setDeadline p.env.clock p.expiry none with
      | panic => exact .inl (.inr fun d => by rw [hd]; exact fun h => nomatch h)
      | err text => exact .inl (.inr fun d => by rw [hd]; exact fun h => nomatch h)
      | ok d =>
          rw [hd, hg] at h
          exact .inr (RespValue.bulkString.inj (Option.some.inj h))

theorem refusal_of_get (h : p.get = false) (r r' : Option String) : p.refusal r = p.refusal r' := by
  unfold refusal
  rw [h]
  rfl

theorem get_of_refusal (h : p.refusal r = p.refusal r') : p.get = false ∨ r = r' := by
  cases hg : p.get with
  | false => exact .inl rfl
  | true =>
      unfold refusal at h
      rw [hg] at h
      exact .inr (RespValue.bulkString.inj (Option.some.inj h))

theorem reply_ne_refusal (h : p.Met ex r) (h' : ¬p.Met ex r') : p.reply r ≠ p.refusal r' := by
  intro heq
  unfold reply refusal at heq
  split at heq
  · cases heq
  · exact Cell.setReply_ne_error _ _ _ _ (Option.some.inj heq).symm
  · cases hg : p.get with
    | false =>
        rw [hg] at heq
        cases heq
    | true =>
        rw [hg] at heq
        exact h' (RespValue.bulkString.inj (Option.some.inj heq) ▸ h)

theorem reply_ne_idle {x : Cell} (h : p.Met ex r) (h' : ¬p.Writes ex x) :
    p.reply r ≠ p.idle x := by
  unfold idle
  cases hx : Store.asString (x.live p.env.clock.mono) with
  | ok r' => exact reply_ne_refusal h fun hm => h' ⟨r', hx, hm⟩
  | error e =>
      intro heq
      unfold reply at heq
      rcases Executor.setDeadline_outcome p.env.clock p.expiry none with
        ho | ⟨-, ho⟩ | ⟨ahead, ho⟩ | ho | ho
      · rw [ho] at heq
        exact Cell.setReply_ne_error _ _ _ _ (Option.some.inj heq)
      · rw [ho] at heq
        exact Cell.setReply_ne_error _ _ _ _ (Option.some.inj heq)
      · rw [ho] at heq
        exact Cell.setReply_ne_error _ _ _ _ (Option.some.inj heq)
      · rw [ho] at heq
        cases heq
      · rw [ho] at heq
        have he := RespValue.simpleError.inj (Option.some.inj heq)
        cases e with
        | wrongType | outOfIndex | noSuchKey => exact absurd he (by decide)

/-- A condition that a missing key and some string meet is none at all. -/
theorem Met.all (h : p.Met ex none) {v : String} (hv : p.Met ex (some v)) (r : Option String) :
    p.Met ex r := by
  unfold Met at h hv ⊢
  cases hc : p.condition with
  | none => rfl
  | some cond =>
      rw [hc] at h hv
      cases cond with
      | nx => cases hv
      | xx | ifEq | ifNe | ifDeq | ifDne => cases h

end SetCall

/-! ### What it reads and leaves -/

/-- What a string with a deadline is read as. -/
def asRead (now : Instant) (value : String) (deadline : Option Instant) : Option String :=
  if deadline.any (· ≤ now) then none else some value

theorem asString_asRead (now : Instant) (value : String) (deadline : Option Instant) :
    Store.asString (Cell.live now ⟨some (.str value), deadline⟩) =
      .ok (asRead now value deadline) := by
  unfold Cell.live Cell.expired asRead
  split <;> rfl

theorem asRead_of_le {now d : Instant} (h : d ≤ now) (value : String) :
    asRead now value (some d) = none := if_pos (decide_eq_true h)

theorem asRead_of_lt {now d : Instant} (h : now < d) (value : String) :
    asRead now value (some d) = some value :=
  if_neg fun hd => Nat.not_le.mpr h (of_decide_eq_true hd)

section

variable {ex : Executor} {key : String} {s t : StoreInner} {p q : SetCall}
  {r r' : Option String}

variable (q) in
/-- What `q` reads of what `p` has left. -/
def SetCall.after (p : SetCall) (deadline : Option Instant) : Option String :=
  asRead q.env.clock.mono p.value deadline

theorem reads_setCell (s : StoreInner) (p q : SetCall) (deadline : Option Instant) :
    q.Reads ((s.setCell key (p.cell deadline)).cell key) (q.after p deadline) := by
  rw [SetCall.Reads, cell_setCell_self]
  exact asString_asRead _ _ _

theorem apply_get (p : SetCall) (s : StoreInner) : applyEach (p.env, .getString key) s =
    (Store.asString ((s.cell key).live p.env.clock.mono), s) :=
  apply_getString p.env.clock.mono p.env.draws s key

theorem apply_reads (h : p.Reads (s.cell key) r) :
    applyEach (p.env, .getString key) s = (.ok r, s) := by
  have hread : applyEach (p.env, .getString key) s = _ := apply_get p s
  rw [h] at hread
  exact hread

theorem apply_set (s : StoreInner) (p : SetCall) :
    applyEach (p.env, .setString key p.value) s = ((), s.setCell key (p.cell none)) :=
  apply_setString p.env.clock.mono p.env.draws s key p.value

theorem apply_ttl (s : StoreInner) (p q : SetCall) (old : Option Instant) (d : Instant) :
    (applyEach (p.env, .setTtl key d) (s.setCell key (q.cell old))).2 =
      s.setCell key (q.cell (some d)) := by
  rw [applyEach, Env.apply, apply_setTtl, keyed_at, cell_setCell_self, setCell_setCell]
  rfl

theorem run_finish_some (s : StoreInner) (p q : SetCall) (old : Option Instant) (d : Instant)
    (a : Reply) :
    (p.finish key (some d) a).run applyEach (s.setCell key (q.cell old)) =
      (a, s.setCell key (q.cell (some d))) := by
  rw [SetCall.finish, Prog.run_call, apply_ttl]
  rfl

theorem run_finish (s : StoreInner) (p q : SetCall) (deadline : Option Instant) (a : Reply) :
    (p.finish key deadline a).run applyEach (s.setCell key (q.cell none)) =
      (a, s.setCell key (q.cell deadline)) := by
  cases deadline with
  | none => rfl
  | some d => exact run_finish_some s p q none d a

theorem run_write (s : StoreInner) (deadline : Option Instant) (a : Reply) :
    (p.write key deadline a).run applyEach s = (a, s.setCell key (p.cell deadline)) := by
  rw [SetCall.write, Prog.run_call, apply_set, run_finish]

/-- A SET that writes. -/
theorem run_met (h : p.WritesOver ex (s.cell key) r) :
    (p.prog ex key).run applyEach s =
      (p.reply r, s.setCell key (p.cell (p.deadline (s.cell key)))) := by
  rw [SetCall.prog_eq, Prog.run_call, apply_reads h.1, SetCall.next_met h.2]
  by_cases hk : p.Keeps
  · rw [SetCall.go_keeps hk, SetCall.deadline_keeps hk]
    exact run_write s _ _
  · rw [SetCall.go_eq hk (s.cell key)]
    exact run_write s _ _

/-- Alone, it runs as the executor runs SET at what its client reads. -/
theorem run_prog (ex : Executor) (key : String) (p : SetCall) (s : StoreInner) :
    (p.prog ex key).run applyEach s =
      ex.exec p.env (.set key p.value p.condition p.expiry p.get) s :=
  Prog.run_stamp Env.apply p.env _ s

/-- A SET that does not. -/
theorem run_idle (h : ¬p.Writes ex (s.cell key)) :
    (p.prog ex key).run applyEach s = (p.idle (s.cell key), s) := by
  rw [SetCall.prog_eq, Prog.run_call, apply_get, SetCall.next_idle h]
  rfl

theorem not_writes (h : p.Reads (s.cell key) r) (hm : ¬p.Met ex r) : ¬p.Writes ex (s.cell key) := by
  rintro ⟨r', hr, hm'⟩
  cases Except.ok.inj (h.symm.trans hr)
  exact hm hm'

theorem idle_of_reads (h : p.Reads (s.cell key) r) : p.idle (s.cell key) = p.refusal r := by
  rw [SetCall.idle, h]

/-- A SET that writes over what another has left. -/
theorem run_met_after {deadline : Option Instant} (hm : q.Met ex (q.after p deadline)) :
    (q.prog ex key).run applyEach (s.setCell key (p.cell deadline)) =
      (q.reply (q.after p deadline), s.setCell key (q.cell (q.deadline (p.cell deadline)))) := by
  rw [run_met ⟨reads_setCell s p q deadline, hm⟩, cell_setCell_self, setCell_setCell]

theorem run_refused_after {deadline : Option Instant} (hm : ¬q.Met ex (q.after p deadline)) :
    (q.prog ex key).run applyEach (s.setCell key (p.cell deadline)) =
      (q.refusal (q.after p deadline), s.setCell key (p.cell deadline)) := by
  have hread : q.Reads ((s.setCell key (p.cell deadline)).cell key) _ :=
    reads_setCell s p q deadline
  rw [run_idle (not_writes hread hm), idle_of_reads hread]

end

end Thesaurus
