import Thesaurus.Commands.Isolation
import Thesaurus.Commands.Lists
import Thesaurus.Log.WriteSet

/-!
# Runs — queues

A list as a queue between clients.  Any number of clients push to a key and pop from it, in any
interleaving of their calls, and read it; their other commands name other keys.

* `leads_run`: the list goes through the pushes and pops of the clients' calls, one by one.
* `queue_conserved`: nothing that was pushed is lost, and nothing is popped twice.
* `queue_fifo`: what is pushed at one end and popped at the other comes out in order.
-/

namespace Thesaurus
open StoreInner Atomic Sequence

variable {key : String} {pushes pops : End → Prop}

/-- A push is seen by the length it returns; LPUSHX and RPUSHX return zero when there is no list. -/
def ofPush (key k : String) (e : End) (element : String) :
    Except StoreError Nat → List (Passage String)
  | .ok (_ + 1) => if k = key then [.pushed e [element]] else []
  | _           => []

/-- A pop is seen by the elements it returns. -/
def ofPop (key k : String) (e : End) :
    Option (Except StoreError (Option (List String))) → List (Passage String)
  | some (.ok (some elements)) => if k = key then [.popped e elements] else []
  | _                          => []

/-- What a call did to the list at `key`, by its result. -/
def onQueue (key : String) : Called StoreOp.Res → List (Passage String)
  | ⟨.lpush k element, r⟩  => ofPush key k .front element r
  | ⟨.rpush k element, r⟩  => ofPush key k .back element r
  | ⟨.lpushx k element, r⟩ => ofPush key k .front element r
  | ⟨.rpushx k element, r⟩ => ofPush key k .back element r
  | ⟨.lpop k _, r⟩         => ofPop key k .front r
  | ⟨.rpop k _, r⟩         => ofPop key k .back r
  | _                      => []

/-- The call uses `key` as a queue, with pushes at `pushes` and pops at `pops`; or it only reads,
or names other keys. -/
def StoreOp.Queueing (key : String) (pushes pops : End → Prop) : StoreOp → Prop
  | .lpush k _ | .lpushx k _ => k = key → pushes .front
  | .rpush k _ | .rpushx k _ => k = key → pushes .back
  | .lpop k _                => k = key → pops .front
  | .rpop k _                => k = key → pops .back
  | op                       => op.isRead = true ∨ op.Within (· ≠ key)

/-- The command uses `key` as a queue; or it only reads, or names other keys.  LSET writes, though
it is no write command. -/
def Command.Queueing (key : String) (pushes pops : End → Prop) : Command → Prop
  | .lPush k _ | .lPushX k _ => k = key → pushes .front
  | .rPush k _ | .rPushX k _ => k = key → pushes .back
  | .lPop k _                => k = key → pops .front
  | .rPop k _                => k = key → pops .back
  | .lSet k _ _              => k ≠ key
  | cmd                      => cmd.isWrite = false ∨ cmd.Within (· ≠ key)

/-! ### Calls -/

theorem StoreOp.Queueing.of_within {op : StoreOp} (h : op.Within (· ≠ key)) :
    op.Queueing key pushes pops := by
  cases op with
  | lpush k | rpush k | lpushx k | rpushx k | lpop k | rpop k =>
      obtain ⟨keys, hk, hP⟩ := h
      cases hk
      intro he
      exact absurd he (hP _ (List.mem_singleton_self _))
  | _ => exact .inr h

theorem StoreOp.Queueing.of_isRead {op : StoreOp} (h : op.isRead = true) :
    op.Queueing key pushes pops := by
  cases op <;> first | exact .inl h | cases h

namespace Cell

variable {now : Instant}

/-- A push to a sequence. -/
theorem push_sequence {pushFn : List String → String → List String} {e : End}
    (hpush : ∀ l a, pushFn l a = e.pushAll [a] l) (element : String) (create : Bool)
    (l : List String) :
    push now element create pushFn (sequence l) = (.ok 0, sequence l) ∨
      ∃ n, push now element create pushFn (sequence l) =
        (.ok (n + 1), sequence (e.pushAll [element] l)) := by
  have hlength : ∀ l, (e.pushAll [element] l).length = l.length + 1 := by
    intro l
    exact End.length_pushAll e [element] l
  have hne : e.pushAll [element] l ≠ [] := by
    intro h
    have := hlength l
    simp [h] at this
  by_cases hl : l = []
  · subst hl
    have hone : e.pushAll [element] [] = [element] := by cases e <;> rfl
    cases create with
    | false => exact .inl rfl
    | true => exact .inr ⟨0, by simp [push, live_sequence, hone]; rfl⟩
  · refine .inr ⟨l.length, ?_⟩
    simp only [push, live_sequence, hl, if_false, hpush, hlength]
    simp [sequence, hl, hne]

/-- A pop from a sequence takes elements, or returns none. -/
theorem pop_sequence_cases {popFn : List String → Option (String × List String)} {e : End}
    (hpop : ∀ n l, Store.popLoop popFn n l = (e.taken n l, e.left n l)) (count : UInt64)
    (l : List String) :
    (∃ r, (∀ elements, r ≠ some (.ok (some elements))) ∧
        pop now count popFn (sequence l) = (r, sequence l)) ∨
      pop now count popFn (sequence l) =
        (some (.ok (some (e.taken count.toNat l))), sequence (e.left count.toNat l)) := by
  rw [pop]
  split
  · exact .inl ⟨none, by simp, rfl⟩
  · rw [live_sequence]
    cases l with
    | nil => exact .inl ⟨some (.ok none), by simp, rfl⟩
    | cons a l =>
        refine .inr ?_
        simp only [reduceCtorEq, if_false, hpop]
        cases h : e.left count.toNat (a :: l) <;> simp [shrinkList, sequence]

end Cell

section Calls

variable {l : List String} {s : StoreInner}

/-- A call with the result `r` leads from the list that was there to the one that is there. -/
abbrev Advances (key : String) (pushes pops : End → Prop) (l : List String)
    (passages : List (Passage String)) (s : StoreInner) : Prop :=
  ∃ l', s.cell key = Cell.sequence l' ∧ Leads passages l l' ∧
    ∀ passage ∈ passages, passage.At pushes pops

/-- A call that leaves the list. -/
theorem advances_of_frame {s' : StoreInner} (h : s.cell key = Cell.sequence l)
    (hkeep : s'.cell key = s.cell key) : Advances key pushes pops l [] s' :=
  ⟨l, hkeep.trans h, .refl l, by simp⟩

/-- A call that pushes one element. -/
theorem advances_push {now : Instant} {k element : String} {create : Bool} {e : End}
    {pushFn : List String → String → List String} {r : Except StoreError Nat × StoreInner}
    (hr : r = keyed.at k (Cell.push now element create pushFn) s)
    (hpush : ∀ l a, pushFn l a = e.pushAll [a] l) (hend : k = key → pushes e)
    (h : s.cell key = Cell.sequence l) :
    Advances key pushes pops l (ofPush key k e element r.1) r.2 := by
  subst hr
  rw [keyed_at]
  by_cases hk : k = key
  · subst hk
    rw [h]
    rcases Cell.push_sequence hpush element create l with he | ⟨n, he⟩
    · rw [he]
      exact advances_of_frame h (by simp [h])
    · rw [he]
      refine ⟨_, cell_setCell_self _ _ _, ?_, ?_⟩
      · simp only [ofPush, if_true]
        exact .one rfl
      · simpa [ofPush, Passage.At] using hend
  · have hnone : ∀ r, ofPush key k e element r = [] := by
      intro r
      rcases r with _ | _ | _ <;> simp [ofPush, hk]
    rw [hnone]
    exact advances_of_frame h (cell_setCell_ne _ _ (Ne.symm hk))

/-- A call that pops. -/
theorem advances_pop {now : Instant} {k : String} {count : UInt64} {e : End}
    {popFn : List String → Option (String × List String)}
    {r : Option (Except StoreError (Option (List String))) × StoreInner}
    (hr : r = keyed.at k (Cell.pop now count popFn) s)
    (hpop : ∀ n l, Store.popLoop popFn n l = (e.taken n l, e.left n l)) (hend : k = key → pops e)
    (h : s.cell key = Cell.sequence l) :
    Advances key pushes pops l (ofPop key k e r.1) r.2 := by
  subst hr
  rw [keyed_at]
  by_cases hk : k = key
  · subst hk
    rw [h]
    rcases Cell.pop_sequence_cases hpop count l with ⟨r, hr, he⟩ | he
    · have hnone : ofPop k k e r = [] := by
        rw [ofPop]
        exact hr
      rw [he, hnone]
      exact advances_of_frame h (by simp [h])
    · rw [he]
      refine ⟨_, cell_setCell_self _ _ _, ?_, ?_⟩
      · simp only [ofPop, if_true]
        exact .one (e.pushAll_taken_left count.toNat l).symm
      · simpa [ofPop, Passage.At] using hend
  · have hnone : ∀ r, ofPop key k e r = [] := by
      intro r
      rcases r with _ | _ | _ | _ <;> simp [ofPop, hk]
    rw [hnone]
    exact advances_of_frame h (cell_setCell_ne _ _ (Ne.symm hk))

/-- **One call.** -/
theorem advances_at (env : Env) {op : StoreOp} (hop : op.Queueing key pushes pops)
    (h : s.cell key = Cell.sequence l) :
    Advances key pushes pops l (onQueue key ⟨op, (op.at env s).1⟩) (op.at env s).2 := by
  have hother : op.isRead = true ∨ op.Within (· ≠ key) →
      (op.at env s).2.cell key = s.cell key := by
    rintro (hread | hwithin)
    · exact congrArg (cell · key) (StoreOp.apply_of_isRead hread _ _ s)
    · exact (confined_apply hwithin env.clock.mono env.draws).frame s key (by simp)
  cases op with
  | lpush k element =>
      exact advances_push (apply_lpush env.clock.mono env.draws s k element) (fun _ _ => rfl) hop h
  | rpush k element =>
      exact advances_push (apply_rpush env.clock.mono env.draws s k element) (fun _ _ => rfl) hop h
  | lpushx k element =>
      exact advances_push (apply_lpushx env.clock.mono env.draws s k element) (fun _ _ => rfl) hop h
  | rpushx k element =>
      exact advances_push (apply_rpushx env.clock.mono env.draws s k element) (fun _ _ => rfl) hop h
  | lpop k count =>
      exact advances_pop (popInner_eq env.clock.mono s k count _) Cell.popLoop_front hop h
  | rpop k count =>
      exact advances_pop (popInner_eq env.clock.mono s k count _) Cell.popLoop_back hop h
  | _ => exact advances_of_frame h (hother hop)

end Calls

/-! ### Clients -/

/-- A queueing command makes queueing calls. -/
theorem queueing_execute (ex : Executor) (c : Clock) {cmd : Command}
    (h : cmd.Queueing key pushes pops) :
    (ex.execute c cmd).All (StoreOp.Queueing key pushes pops) := by
  have hother : (cmd.isWrite = false ∧ ∀ k i e, cmd ≠ .lSet k i e) ∨ cmd.Within (· ≠ key) →
      (ex.execute c cmd).All (StoreOp.Queueing key pushes pops) := by
    rintro (⟨hread, hl⟩ | hwithin)
    · exact (reads_only ex c hread hl).mono fun _ => .of_isRead
    · exact (within_execute hwithin).mono fun _ => .of_within
  cases cmd with
  | lPush k elements | rPush k elements | lPushX k elements | rPushX k elements =>
      refine all_pushLoop (fun element => ?_) elements 0
      exact ⟨h, fun _ => trivial⟩
  | lPop k count | rPop k count => exact ⟨h, fun _ => trivial⟩
  | lSet k index element =>
      refine hother (.inr ⟨[k], rfl, ?_⟩)
      intro k' hk
      rw [List.mem_singleton.mp hk]
      exact h
  | _ =>
      refine hother (h.imp_left ?_)
      intro hread
      exact ⟨hread, by simp⟩

variable {ι α : Type} [DecidableEq ι] {clients : ι → Client α} {s : StoreInner} {l : List String}

/-- **Runs.**  After every schedule the list at `key` is where the pushes and pops of the calls so
far lead it. -/
theorem leads_run (ex : Executor)
    (hc : ∀ i, (clients i).All fun call => call.2.Queueing key pushes pops)
    (h : s.cell key = Cell.sequence l) (schedule : List (ι × Env)) :
    Advances key pushes pops l
      (((Handlers.start ex clients s).trace StoreOp.at schedule).flatMap (onQueue key))
      ((Handlers.start ex clients s).run StoreOp.at schedule).state := by
  refine Pool.run_of_start (P := fun _ => StoreOp.Queueing key pushes pops)
    (I := fun tr s => Advances key pushes pops l (tr.flatMap (onQueue key)) s) ?_ ?_
    ⟨l, h, .refl l, by simp⟩ schedule
  · rintro _ env op tr s hop ⟨m, hm, hleads, hat⟩
    obtain ⟨m', hm', hleads', hat'⟩ := advances_at env hop hm
    refine ⟨m', hm', ?_, ?_⟩
    · simpa using hleads.trans hleads'
    · intro passage he
      simp only [List.flatMap_append, List.flatMap_singleton, List.mem_append] at he
      exact he.elim (hat passage) (hat' passage)
  · intro i
    exact Client.all_handler (fun c _ => queueing_execute ex c) (hc i)

/-- The elements that the calls pushed to `key`, in order. -/
def pushedTo (key : String) (calls : List (Called StoreOp.Res)) : List String :=
  (calls.flatMap (onQueue key)).flatMap Passage.entered

/-- The elements that the calls popped from `key`, in order. -/
def poppedFrom (key : String) (calls : List (Called StoreOp.Res)) : List String :=
  (calls.flatMap (onQueue key)).flatMap Passage.left

/-- **Exactly once.**  Clients push to a key and pop from it at both ends, whatever else they do
with other keys.  After every schedule, what the list held and what was pushed is what was popped
and what the list holds, each element as often. -/
theorem queue_conserved (ex : Executor)
    (hc : ∀ i, (clients i).All fun call => call.2.Queueing key (fun _ => True) fun _ => True)
    (h : s.cell key = Cell.sequence l) (schedule : List (ι × Env)) :
    let calls := (Handlers.start ex clients s).trace StoreOp.at schedule
    ∃ l', ((Handlers.start ex clients s).run StoreOp.at schedule).state.cell key =
        Cell.sequence l' ∧
      (l ++ pushedTo key calls).Perm (poppedFrom key calls ++ l') := by
  obtain ⟨l', hl', hleads, -⟩ := leads_run ex hc h schedule
  exact ⟨l', hl', hleads.perm⟩

/-- One client pushes two elements, the other pops one. -/
def pushPop : Bool → Client Unit
  | true  => .call (Clock.at 0 0, .rPush "q" ["a", "b"]) fun _ => .ret ()
  | false => .call (Clock.at 0 0, .lPop "q" none) fun _ => .ret ()

/-- The pop between the two pushes. -/
def popBetween : List (Bool × Env) := [(true, .at 0 0), (false, .at 0 1), (true, .at 0 2)]

theorem calls_popBetween :
    let calls := (Handlers.start .plain pushPop Store.new).trace StoreOp.at popBetween
    pushedTo "q" calls = ["a", "b"] ∧ poppedFrom "q" calls = ["a"] := by
  decide +kernel

/-- The elements of one RPUSH, of which the first is popped before the second is there. -/
theorem queue_conserved_two :
    ∃ l', ((Handlers.start .plain pushPop Store.new).run StoreOp.at popBetween).state.cell "q" =
        Cell.sequence l' ∧ ["a", "b"].Perm (["a"] ++ l') := by
  have hc : ∀ b, (pushPop b).All fun call =>
      call.2.Queueing "q" (fun _ => True) fun _ => True := by
    intro b
    cases b <;> exact ⟨fun _ => trivial, fun _ => trivial⟩
  have hnew : Store.new.cell "q" = Cell.sequence [] := cell_new "q"
  obtain ⟨l', hl', hperm⟩ := queue_conserved .plain hc hnew popBetween
  rw [calls_popBetween.1, calls_popBetween.2] at hperm
  exact ⟨l', hl', hperm⟩

/-- **First in, first out.**  Clients push to a key at one end and pop from it at the other.  After
every schedule, what was popped and what the list holds is what it held and what was pushed, in the
order of the calls. -/
theorem queue_fifo (ex : Executor) (e : End)
    (hc : ∀ i, (clients i).All fun call => call.2.Queueing key (· = e.opposite) (· = e))
    (h : s.cell key = Cell.sequence l) (schedule : List (ι × Env)) :
    let calls := (Handlers.start ex clients s).trace StoreOp.at schedule
    ∃ l', ((Handlers.start ex clients s).run StoreOp.at schedule).state.cell key =
        Cell.sequence l' ∧
      e.view l ++ pushedTo key calls = poppedFrom key calls ++ e.view l' := by
  obtain ⟨l', hl', hleads, hat⟩ := leads_run ex hc h schedule
  exact ⟨l', hl', hleads.fifo hat⟩

/-- The element that is popped is the first one. -/
theorem queue_fifo_two :
    ∃ l', ((Handlers.start .plain pushPop Store.new).run StoreOp.at popBetween).state.cell "q" =
        Cell.sequence l' ∧ ["a", "b"] = ["a"] ++ l' := by
  have hc : ∀ b, (pushPop b).All fun call =>
      call.2.Queueing "q" (· = End.front.opposite) (· = .front) := by
    intro b
    cases b <;> exact ⟨fun _ => rfl, fun _ => trivial⟩
  have hnew : Store.new.cell "q" = Cell.sequence [] := cell_new "q"
  obtain ⟨l', hl', horder⟩ := queue_fifo .plain .front hc hnew popBetween
  rw [calls_popBetween.1, calls_popBetween.2] at horder
  exact ⟨l', hl', horder⟩

end Thesaurus
