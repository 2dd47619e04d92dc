import Thesaurus.Cells.Replies
import Thesaurus.Support.Refinement
import Thesaurus.Support.Sequence

/-!
# Commands — pushes and pops

LPUSH, RPUSH, LPUSHX, RPUSHX, LPOP, RPOP and LLEN against sequences: `lists_refine_sequences`
says that a run of these commands replies what a run on pure lists replies, and leaves their
lists.
-/

namespace Thesaurus
open StoreInner Refinement

/-! ### The reference -/

/-- A command that sees a list as a sequence.  A push has at least one element. -/
inductive ListCommand where
  /-- LPUSH and RPUSH, and with `create := false` LPUSHX and RPUSHX. -/
  | push (e : End) (create : Bool) (key element : String) (elements : List String)
  /-- LPOP and RPOP. -/
  | pop (e : End) (key : String) (count : Option UInt64)
  /-- LLEN. -/
  | len (key : String)

namespace ListCommand

/-- The command as the client sends it. -/
def toCommand : ListCommand → Command
  | push .front true key element elements  => .lPush key (element :: elements)
  | push .back true key element elements   => .rPush key (element :: elements)
  | push .front false key element elements => .lPushX key (element :: elements)
  | push .back false key element elements  => .rPushX key (element :: elements)
  | pop .front key count                   => .lPop key count
  | pop .back key count                    => .rPop key count
  | len key                                => .lLen key

def key : ListCommand → String
  | push _ _ key _ _ => key
  | pop _ key _      => key
  | len key          => key

/-- The reply and the sequence after the command; a sequence that is empty is an absent key. -/
def onSequence : ListCommand → List String → RespValue × List String
  | push e create _ element elements, l =>
      if l = [] ∧ create = false then (.integer 0, [])
      else
        (.integer (e.pushAll (element :: elements) l).length, e.pushAll (element :: elements) l)
  | pop _ _ _, [] => (.bulkString none, [])
  | pop e _ none, l => (.bulkString (e.taken 1 l).head?, e.left 1 l)
  | pop e _ (some count), l => (bulkReply (e.taken count.toNat l), e.left count.toNat l)
  | len _, l => (.integer l.length, l)

/-- The reference: a pure list for each key. -/
def onSequences (c : ListCommand) (m : String → List String) :
    Reply × (String → List String) :=
  (some (c.onSequence (m c.key)).1, Function.update m c.key (c.onSequence (m c.key)).2)

end ListCommand

/-! ### One command -/

/-- What the store holds for a sequence. -/
def Cell.sequence (l : List String) : Cell := ⟨if l = [] then none else some (.list l), none⟩

namespace Cell

variable {now : Instant}

theorem live_sequence (now : Instant) (l : List String) :
    (sequence l).live now = if l = [] then none else some (.list l) := rfl

theorem popLoop_front (n : Nat) (l : List String) :
    Store.popLoop Store.popFront n l = (End.front.taken n l, End.front.left n l) := by
  induction n generalizing l with
  | zero => rfl
  | succ n ih =>
      cases l with
      | nil => rfl
      | cons a l => simp only [Store.popLoop, Store.popFront, ih]; rfl

theorem popLoop_back (n : Nat) (l : List String) :
    Store.popLoop Store.popBack n l = (End.back.taken n l, End.back.left n l) := by
  induction n generalizing l with
  | zero => simp [Store.popLoop, End.taken, End.left]
  | succ n ih =>
      rcases List.eq_nil_or_concat l with rfl | ⟨l, a, rfl⟩
      · simp [Store.popLoop, Store.popBack, End.taken, End.left]
      · have hpop : Store.popBack (l.concat a) = some (a, l) := by simp [Store.popBack]
        rw [Store.popLoop, hpop]
        simp only [ih, End.taken, End.left]
        simp [Nat.add_sub_add_right]

theorem foldl_pushFront (elements l : List String) :
    elements.foldl Store.pushFront l = End.front.pushAll elements l :=
  End.foldl_front (fun _ _ => rfl) elements l

theorem foldl_pushBack (elements l : List String) :
    elements.foldl Store.pushBack l = End.back.pushAll elements l :=
  End.foldl_back (fun _ _ => rfl) elements l

/-- A push to a sequence. -/
theorem pushLoop_sequence {pushFn : List String → String → List String} {e : End}
    (hpush : ∀ elements l, elements.foldl pushFn l = e.pushAll elements l) (create : Bool)
    (key element : String) (elements l : List String) :
    pushLoop now create pushFn (element :: elements) 0 (sequence l) =
      (some ((ListCommand.push e create key element elements).onSequence l).1,
        sequence ((ListCommand.push e create key element elements).onSequence l).2) := by
  have hne : e.pushAll (element :: elements) l ≠ [] := fun h => by
    have := congrArg List.length h
    rw [End.length_pushAll] at this
    simp at this
  by_cases hl : l = []
  · subst hl
    cases create with
    | false => rw [pushLoop_absent (by rfl)]; rfl
    | true =>
        have hone : pushFn [] element = [element] := by
          have := hpush [element] []
          cases e <;> exact this
        rw [pushLoop_create (by rfl), ← hone, ← List.foldl_cons, hpush]
        simp [ListCommand.onSequence, sequence, hne]
  · rw [pushLoop_list (l := l) (by rw [live_sequence, if_neg hl]), hpush]
    simp [ListCommand.onSequence, sequence, hl, hne]

/-- A pop from a sequence, when it returns. -/
theorem pop_sequence {popFn : List String → Option (String × List String)} {e : End}
    (hpop : ∀ n l, Store.popLoop popFn n l = (e.taken n l, e.left n l)) (key : String)
    (count : Option UInt64) (l : List String)
    (hret : ((sequence l).pop now (count.getD 1) popFn).1 ≠ none) :
    reply (Option.map (replyOf (Executor.popReply count.isSome)))
        ((sequence l).pop now (count.getD 1) popFn) =
      (some ((ListCommand.pop e key count).onSequence l).1,
        sequence ((ListCommand.pop e key count).onSequence l).2) := by
  unfold pop at hret ⊢
  split at hret
  · exact absurd rfl hret
  · next hcount =>
    rw [if_neg hcount, live_sequence]
    cases l with
    | nil => rfl
    | cons a l =>
        have hleft : ∀ l' : List String, (sequence (a :: l)).shrinkList l' = sequence l' := by
          intro l'
          cases l' <;> rfl
        simp only [reduceCtorEq, if_false, hpop, hleft]
        cases count with
        | none => rfl
        | some n => rfl

end Cell

variable (ex : Executor) (env : Env) (s : StoreInner)

theorem exec_lLen (key : String) :
    ex.exec env (.lLen key) s =
      (some (replyOf (fun n => .integer (Int.ofNat n)) (Store.llen s env.clock.mono key)), s) := rfl

/-- **One command** on a key that holds a sequence replies what the sequence replies and leaves
the sequence of the reference. -/
theorem exec_list (c : ListCommand) {l : List String} (hl : s.cell c.key = Cell.sequence l)
    (hret : (ex.exec env c.toCommand s).1 ≠ none) :
    ex.exec env c.toCommand s =
      (some (c.onSequence l).1, s.setCell c.key (Cell.sequence (c.onSequence l).2)) := by
  cases c with
  | push e create key element elements =>
      replace hl : s.cell key = Cell.sequence l := hl
      cases e <;> cases create <;>
        rw [ListCommand.toCommand, exec_eq_at ex env s rfl, keyed_at, hl]
      · rw [Cell.pushLoop_sequence Cell.foldl_pushFront false key]; rfl
      · rw [Cell.pushLoop_sequence Cell.foldl_pushFront true key]; rfl
      · rw [Cell.pushLoop_sequence Cell.foldl_pushBack false key]; rfl
      · rw [Cell.pushLoop_sequence Cell.foldl_pushBack true key]; rfl
  | pop e key count =>
      replace hl : s.cell key = Cell.sequence l := hl
      cases e <;>
        rw [ListCommand.toCommand, exec_eq_at ex env s rfl, keyed_at, hl] at hret ⊢
      · rw [Cell.pop_sequence Cell.popLoop_front key count l
          fun h => hret (congrArg (Option.map _) h)]
        rfl
      · rw [Cell.pop_sequence Cell.popLoop_back key count l
          fun h => hret (congrArg (Option.map _) h)]
        rfl
  | len key =>
      replace hl : s.cell key = Cell.sequence l := hl
      have hlen : Store.llen s env.clock.mono key = .ok l.length := by
        rw [Store.llen, get_eq_live, hl, Cell.live_sequence]
        split_ifs with h
        · rw [h]; rfl
        · rfl
      have hput : s.setCell key (Cell.sequence l) = s := by rw [← hl, setCell_cell]
      rw [ListCommand.toCommand, exec_lLen, hlen]
      exact Prod.ext rfl hput.symm

/-! ### Runs -/

/-- Execute the commands one after the other, each at its own environment. -/
def Executor.serveLists (run : List (Env × ListCommand)) (s : StoreInner) :
    List Reply × StoreInner :=
  serve (fun call => ex.exec call.1 call.2.toCommand) run s

/-- The store holds the sequences of `m` at the keys of `K`, and what `s` holds at the others. -/
def HoldsSequences (K : Set String) (s t : StoreInner) (m : String → List String) : Prop :=
  (∀ key ∈ K, t.cell key = Cell.sequence (m key)) ∧ ∀ key ∉ K, t.cell key = s.cell key

theorem exec_holdsSequences {K : Set String} {t : StoreInner} {m : String → List String}
    {call : Env × ListCommand} (hkey : call.2.key ∈ K) (h : HoldsSequences K s t m)
    (hret : (ex.exec call.1 call.2.toCommand t).1 ≠ none) :
    ∃ m', call.2.onSequences m = ((ex.exec call.1 call.2.toCommand t).1, m') ∧
      HoldsSequences K s (ex.exec call.1 call.2.toCommand t).2 m' := by
  rw [exec_list ex call.1 t call.2 (h.1 _ hkey) hret]
  refine ⟨_, rfl, fun key hK => ?_, fun key hK => ?_⟩
  · by_cases hk : key = call.2.key
    · rw [hk, cell_setCell_self, Function.update_self]
    · rw [cell_setCell_ne _ _ hk, h.1 key hK, Function.update_of_ne hk]
  · have hk : key ≠ call.2.key := fun hk => hK (hk ▸ hkey)
    rw [cell_setCell_ne _ _ hk, h.2 key hK]

/-- **Lists are sequences.**  A run of pushes, pops and LLENs on keys that start absent, each of
which returns, replies what the run on pure lists replies, leaves those lists, and leaves every
other key as it is. -/
theorem lists_refine_sequences (run : List (Env × ListCommand))
    (habsent : ∀ call ∈ run, s.cell call.2.key = Cell.empty)
    (hret : ∀ r ∈ (ex.serveLists run s).1, r ≠ none) :
    let reference := serve ListCommand.onSequences (run.map Prod.snd) fun _ => []
    (ex.serveLists run s).1 = reference.1 ∧
      (∀ call ∈ run, (ex.serveLists run s).2.cell call.2.key =
        Cell.sequence (reference.2 call.2.key)) ∧
      ∀ key, (∀ call ∈ run, call.2.key ≠ key) →
        (ex.serveLists run s).2.cell key = s.cell key := by
  intro reference
  let K : Set String := { key | ∃ call ∈ run, call.2.key = key }
  have hstart : HoldsSequences K s s fun _ => [] := by
    refine ⟨?_, fun _ _ => rfl⟩
    rintro key ⟨call, hcall, rfl⟩
    exact habsent call hcall
  obtain ⟨m', htrace, hend⟩ := Trace.of_sim (fun m c r m' => ListCommand.onSequences c m = (r, m'))
    (HoldsSequences K s) Prod.snd (fun call t m hkey h => exec_holdsSequences ex s hkey h)
    (fun call hcall => (⟨call, hcall, rfl⟩ : call.2.key ∈ K)) hstart hret
  have href : reference = ((ex.serveLists run s).1, m') := trace_graph.mp htrace
  rw [href]
  exact ⟨rfl, fun call hcall => hend.1 _ ⟨call, hcall, rfl⟩,
    fun key hkey => hend.2 key fun ⟨call, hcall, hk⟩ => hkey call hcall hk⟩

/-- `RPUSH k a b` and `LPOP k` on an empty store. -/
theorem lists_refine_sequences_new :
    (Executor.plain.serveLists [(.at 0 0, .push .back true "k" "a" ["b"]),
      (.at 0 0, .pop .front "k" none)] Store.new).1 =
        [some (.integer 2), some (.bulkString (some "a"))] :=
  (lists_refine_sequences .plain Store.new [(.at 0 0, .push .back true "k" "a" ["b"]),
      (.at 0 0, .pop .front "k" none)]
    (fun _ _ => cell_new _)
    (fun r hr => by
      have hsome : ∀ r ∈ (Executor.plain.serveLists [(.at 0 0, .push .back true "k" "a" ["b"]),
        (.at 0 0, .pop .front "k" none)] Store.new).1, r.isSome := by decide +kernel
      exact Option.isSome_iff_ne_none.mp (hsome r hr))).1.trans rfl

end Thesaurus
