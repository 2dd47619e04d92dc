import Thesaurus.Cells.Replies
import Thesaurus.Support.Atomic

/-!
# Commands — interleaved pushes

LPUSH, RPUSH, LPUSHX and RPUSHX take the lock of the store once for each element, so the calls of
two clients that push to one key can alternate.

* `pushes_serial_iff`: every interleaving of two pushes is one of the two serial orders exactly
  when none of them can be cut in two by one that takes effect: one has no element, both have one,
  or both need a list that is not there.
-/

namespace Thesaurus
open StoreInner
open Atomic (Prog Weave Serial)

/-- The four pushes. -/
inductive PushKind where
  | lpush
  | rpush
  | lpushx
  | rpushx

namespace PushKind

/-- The program of a push. -/
def prog : PushKind → String → List String → StoreProg Reply
  | .lpush  => Executor.lpush
  | .rpush  => Executor.rpush
  | .lpushx => Executor.lpushx
  | .rpushx => Executor.rpushx

/-- Its call of the store. -/
def call : PushKind → String → String → StoreProg (Except StoreError Nat)
  | .lpush,  key, element => Prog.invoke (StoreOp.lpush key element)
  | .rpush,  key, element => Prog.invoke (StoreOp.rpush key element)
  | .lpushx, key, element => Prog.invoke (StoreOp.lpushx key element)
  | .rpushx, key, element => Prog.invoke (StoreOp.rpushx key element)

/-- A missing list is created. -/
def creates : PushKind → Bool
  | .lpush | .rpush   => true
  | .lpushx | .rpushx => false

/-- The end it pushes to. -/
def fn : PushKind → List String → String → List String
  | .lpush | .lpushx => Store.pushFront
  | .rpush | .rpushx => Store.pushBack

variable (c : PushKind) (key : String)

theorem prog_eq (elements : List String) :
    c.prog key elements = Executor.pushLoop c.call key elements 0 := by
  cases c <;> rfl

theorem length_fn (l : List String) (element : String) :
    (c.fn l element).length = l.length + 1 := by
  cases c <;> simp [fn, Store.pushFront, Store.pushBack]

variable (env : Env) (s : StoreInner)

theorem run_call (element : String) : (c.call key element).run env.apply s =
    keyed.at key (Cell.push env.clock.mono element c.creates c.fn) s := by
  cases c with
  | lpush => exact apply_lpush env.clock.mono env.draws s key element
  | rpush => exact apply_rpush env.clock.mono env.draws s key element
  | lpushx => exact apply_lpushx env.clock.mono env.draws s key element
  | rpushx => exact apply_rpushx env.clock.mono env.draws s key element

theorem run_loop (elements : List String) (size : Nat) :
    (Executor.pushLoop c.call key elements size).run env.apply s =
      keyed.at key (Cell.pushLoop env.clock.mono c.creates c.fn elements size) s :=
  run_pushLoop env s key (fun s element => c.run_call key env s element) elements size

theorem single_prog (element : String) : (c.prog key [element]).Single := by
  cases c with
  | lpush | rpush | lpushx | rpushx => rintro (e | n) <;> exact ⟨_, rfl⟩

/-- LPUSHX and RPUSHX that find no list call only what leaves the store as it is. -/
theorem all_fixed (hc : c.creates = false) (h : s.get env.clock.mono key = none)
    (elements : List String) (size : Nat) :
    (Executor.pushLoop c.call key elements size).All fun op => (env.apply op s).2 = s := by
  induction elements generalizing size with
  | nil => trivial
  | cons element elements ih =>
      rw [Executor.pushLoop]
      refine Prog.all_bind ?_ fun r => ?_
      · have hrun := c.run_call key env s element
        have hlive : (s.cell key).live env.clock.mono = none := h
        rw [keyed_at, Cell.push, hlive, hc, if_neg Bool.false_ne_true, setCell_cell] at hrun
        cases c with
        | lpush | rpush => cases hc
        | lpushx | rpushx => exact ⟨congrArg Prod.snd hrun, fun _ => trivial⟩
      · cases r with
        | ok n => exact ih n
        | error e => trivial

end PushKind

namespace Cell

/-- A live list of `n` elements. -/
def Listed (now : Instant) (n : Nat) (x : Cell) : Prop :=
  ∃ l, x.live now = some (.list l) ∧ l.length = n

/-- A push of this kind takes effect, after the `n` elements that are there. -/
def Takes (now : Instant) (c : PushKind) (n : Nat) (x : Cell) : Prop :=
  x.Listed now n ∨ (x.live now = none ∧ n = 0 ∧ c.creates = true)

variable {now : Instant} {c : PushKind} {n : Nat} {x : Cell}

theorem push_of_takes (h : x.Takes now c n) (element : String) :
    ∃ y, x.push now element c.creates c.fn = (.ok (n + 1), y) ∧ y.Listed now (n + 1) := by
  rcases h with ⟨l, hl, rfl⟩ | ⟨hl, rfl, hc⟩
  · refine ⟨{ x with value := some (.list (c.fn l element)) }, ?_, c.fn l element, ?_, ?_⟩
    · rw [push, hl]
      dsimp only
      rw [c.length_fn]
    · exact live_withValue (not_expired_of_live hl) _
    · exact c.length_fn l element
  · refine ⟨⟨some (.list [element]), none⟩, ?_, [element], rfl, rfl⟩
    rw [push, hl, hc]
    rfl

/-- The reply of a push that takes effect. -/
theorem pushLoop_of_takes (h : x.Takes now c n) {elements : List String} (hne : elements ≠ [])
    (size : Nat) :
    ∃ y, x.pushLoop now c.creates c.fn elements size =
        (some (.integer (n + elements.length : Nat)), y) ∧ y.Listed now (n + elements.length) := by
  obtain ⟨element, elements, rfl⟩ := List.exists_cons_of_ne_nil hne
  rcases h with ⟨l, hl, rfl⟩ | ⟨hl, rfl, hc⟩
  · have hlen := length_foldl c.length_fn l (element :: elements)
    refine ⟨_, by rw [pushLoop_list hl, if_neg hne, hlen], _, ?_, hlen⟩
    exact live_withValue (not_expired_of_live hl) _
  · have hlen : (elements.foldl c.fn [element]).length = 0 + (element :: elements).length := by
      rw [length_foldl c.length_fn, List.length_singleton, List.length_cons]
      omega
    exact ⟨_, by rw [hc, pushLoop_create hl, hlen], _, rfl, hlen⟩

end Cell

/-! ### A push cut in two -/

/-- Every interleaving of the two pushes has the replies and the store of one after the other. -/
def PushesSerial (env : Env) (s : StoreInner) (key : String) (c c' : PushKind)
    (elements elements' : List String) : Prop :=
  ∀ tr a b s', Weave env.apply (c.prog key elements) (c'.prog key elements') s tr a b s' →
    Serial env.apply (c.prog key elements) (c'.prog key elements') s a b s' ∨
    Serial env.apply (c'.prog key elements') (c.prog key elements) s b a s'

theorem PushesSerial.symm {env : Env} {s : StoreInner} {key : String} {c c' : PushKind}
    {elements elements' : List String} (h : PushesSerial env s key c c' elements elements') :
    PushesSerial env s key c' c elements' elements := fun _ _ _ _ hw => (h _ _ _ _ hw.symm).symm

section

variable {env : Env} {s : StoreInner} {key : String} {c c' : PushKind} {n : Nat}

theorem integer_inj {m n : Nat}
    (h : (some (.integer (m : Nat)) : Reply) = some (.integer (n : Nat))) : m = n := by
  simpa using h

/-- Where there is a list or nothing, a push takes effect, or finds that nothing is there. -/
theorem takes_or_absent (c : PushKind) {now : Instant} {x : Cell}
    (hx : x.Listed now n ∨ (x.live now = none ∧ n = 0)) :
    x.Takes now c n ∨ (x.live now = none ∧ n = 0 ∧ c.creates = false) := by
  rcases hx with hl | ⟨hl, hn⟩
  · exact .inl (.inl hl)
  · cases hc : c.creates with
    | true => exact .inl (.inr ⟨hl, hn, hc⟩)
    | false => exact .inr ⟨hl, hn, rfl⟩

/-- **A push of two elements can be cut in two**, if it or the other takes effect. -/
theorem not_pushesSerial {element element₂ : String} {elements elements' : List String}
    (hx : (s.cell key).Listed env.clock.mono n ∨ ((s.cell key).live env.clock.mono = none ∧ n = 0))
    (hne : elements' ≠ [])
    (ht : (s.cell key).Takes env.clock.mono c n ∨ (s.cell key).Takes env.clock.mono c' n) :
    ¬PushesSerial env s key c c' (element :: element₂ :: elements) elements' := by
  intro h
  -- the program is its first call and the loop over the rest
  obtain ⟨rest, hprog, hloop⟩ : ∃ rest, c.prog key (element :: element₂ :: elements) =
      c.call key element >>= rest ∧
      ∀ n, rest (.ok n) = Executor.pushLoop c.call key (element₂ :: elements) n :=
    ⟨_, c.prog_eq key _, fun _ => rfl⟩
  obtain ⟨tr, hw⟩ : ∃ tr, Weave env.apply _ _ s tr _ _ _ :=
    Weave.between (c.call key element) rest (c'.prog key elements') s
  rw [← hprog] at hw
  have hserial := h _ _ _ _ hw
  have hpos : 0 < elements'.length := List.length_pos_iff.mpr hne
  simp only [Serial, PushKind.prog_eq, PushKind.run_loop, PushKind.run_call, keyed_at,
    cell_setCell_self, setCell_setCell] at hserial
  rcases takes_or_absent c hx with hc | ⟨hl, rfl, hc⟩
  · -- the other counts one element of this push
    obtain ⟨y, hpush, hy⟩ := Cell.push_of_takes hc element
    obtain ⟨z, hother, -⟩ := Cell.pushLoop_of_takes (.inl hy) hne 0
    obtain ⟨u, hall, hu⟩ := Cell.pushLoop_of_takes hc (List.cons_ne_nil element _) 0
    obtain ⟨v, hlast, -⟩ := Cell.pushLoop_of_takes (.inl hu) hne 0
    rw [hpush] at hserial
    dsimp only at hserial
    rw [hother, hall] at hserial
    dsimp only at hserial
    rw [hlast] at hserial
    rcases hserial with ⟨-, hreply⟩ | ⟨hreply, -⟩
    · have hlen := integer_inj (congrArg Prod.fst hreply)
      simp only [List.length_cons] at hlen
      omega
    · rcases takes_or_absent c' hx with hc' | ⟨hl, -, hc'⟩
      · obtain ⟨w, hfirst, -⟩ := Cell.pushLoop_of_takes hc' hne 0
        rw [hfirst] at hreply
        have hlen := integer_inj hreply
        omega
      · rw [hc', Cell.pushLoop_absent hl, if_neg hne] at hreply
        have hlen := integer_inj (m := 0) hreply
        omega
  · -- this push finds a list for its second element
    have hc' : (s.cell key).Takes env.clock.mono c' 0 := by
      rcases ht with (⟨l, hl', -⟩ | ⟨-, -, hcr⟩) | ht
      · rw [hl] at hl'; cases hl'
      · rw [hc] at hcr; cases hcr
      · exact ht
    have hpush : (s.cell key).push env.clock.mono element c.creates c.fn = (.ok 0, s.cell key) := by
      rw [Cell.push, hl, hc]
      rfl
    obtain ⟨y, hother, hy⟩ := Cell.pushLoop_of_takes hc' hne 0
    rw [hpush] at hserial
    dsimp only at hserial
    rw [hother] at hserial
    obtain ⟨z, hrest, -⟩ := Cell.pushLoop_of_takes (c := c) (.inl hy)
      (List.cons_ne_nil element₂ elements) 0
    obtain ⟨u, hall, -⟩ := Cell.pushLoop_of_takes (c := c) (.inl hy)
      (List.cons_ne_nil element (element₂ :: elements)) 0
    dsimp only at hserial
    rw [hloop, PushKind.run_loop, keyed_at, cell_setCell_self, hrest, hall] at hserial
    rcases hserial with ⟨hreply, -⟩ | ⟨-, hreply⟩
    · rw [hc, Cell.pushLoop_absent hl, if_neg (List.cons_ne_nil _ _)] at hreply
      have hlen := integer_inj (m := 0) hreply
      simp only [List.length_cons] at hlen
      omega
    · have hlen := integer_inj (congrArg Prod.fst hreply)
      simp only [List.length_cons] at hlen
      omega

end

/-- **When interleaved pushes are atomic.**  The key holds a list, or nothing.  Every interleaving
of two pushes has the replies and the store of one of the two serial orders if and only if one of
them has no element, both have one, or both are LPUSHX or RPUSHX and there is no list. -/
theorem pushes_serial_iff (env : Env) (s : StoreInner) (key : String) (c c' : PushKind)
    (elements elements' : List String)
    (hlist : ∀ v, s.get env.clock.mono key = some v → ∃ l, v = .list l) :
    PushesSerial env s key c c' elements elements' ↔
      elements = [] ∨ elements' = [] ∨ (elements.length = 1 ∧ elements'.length = 1) ∨
        (s.get env.clock.mono key = none ∧ c.creates = false ∧ c'.creates = false) := by
  obtain ⟨n, hx⟩ : ∃ n, (s.cell key).Listed env.clock.mono n ∨
      ((s.cell key).live env.clock.mono = none ∧ n = 0) := by
    cases hl : s.get env.clock.mono key with
    | none => exact ⟨0, .inr ⟨hl, rfl⟩⟩
    | some v =>
        obtain ⟨l, rfl⟩ := hlist v hl
        exact ⟨l.length, .inl ⟨l, hl, rfl⟩⟩
  constructor
  · intro h
    by_contra hno
    simp only [not_or] at hno
    obtain ⟨h₁, h₂, hone, hmissing⟩ := hno
    -- one of the two takes effect
    have ht : (s.cell key).Takes env.clock.mono c n ∨ (s.cell key).Takes env.clock.mono c' n := by
      rcases takes_or_absent c hx with ht | ⟨hl, -, hc⟩
      · exact .inl ht
      · rcases takes_or_absent c' hx with ht' | ⟨-, -, hc'⟩
        · exact .inr ht'
        · exact absurd ⟨hl, hc, hc'⟩ hmissing
    -- and one of the two has a second element
    match elements, elements' with
    | [], _ | _, []             => contradiction
    | [_], [_]                  => exact hone ⟨rfl, rfl⟩
    | _ :: _ :: _, _ :: _       => exact not_pushesSerial hx h₂ ht h
    | [_], _ :: _ :: _          => exact not_pushesSerial hx h₁ ht.symm h.symm
  · rintro (rfl | rfl | ⟨h₁, h₂⟩ | ⟨hl, hc, hc'⟩) tr a b s' hw
    · rw [c.prog_eq] at hw ⊢
      obtain ⟨rfl, hrun⟩ := hw.ret_left
      exact .inl ⟨rfl, hrun⟩
    · rw [c'.prog_eq] at hw ⊢
      obtain ⟨rfl, hrun⟩ := hw.ret_right
      exact .inr ⟨rfl, hrun⟩
    · obtain ⟨e, rfl⟩ := List.length_eq_one_iff.mp h₁
      obtain ⟨e', rfl⟩ := List.length_eq_one_iff.mp h₂
      exact hw.serial_of_single (c.single_prog key e) (c'.single_prog key e')
    · rw [c.prog_eq, c'.prog_eq] at hw ⊢
      exact .inl (hw.serial_of_fixed (fun _ h => h) (c.all_fixed key env s hc hl elements 0)
        (c'.all_fixed key env s hc' hl elements' 0))

/-- LPUSH of one element and RPUSH of one. -/
theorem pushes_serial_single :
    PushesSerial (Env.at 0 0) (Store.new.putData "k" (.list ["x"])) "k" .lpush .rpush ["a"] ["b"] :=
  (pushes_serial_iff (Env.at 0 0) (Store.new.putData "k" (.list ["x"])) "k" .lpush .rpush ["a"]
    ["b"] fun _ hv => ⟨["x"], (Option.some.inj hv).symm⟩).mpr (.inr (.inr (.inl ⟨rfl, rfl⟩)))

/-- LPUSH of two elements, with RPUSH of one in between. -/
theorem pushes_not_serial : ¬∀ (env : Env) (s : StoreInner) (key : String) (c c' : PushKind)
    (elements elements' : List String),
    (∀ v, s.get env.clock.mono key = some v → ∃ l, v = .list l) →
    PushesSerial env s key c c' elements elements' := by
  intro h
  have hlisted : ((Store.new.putData "k" (.list ["x"])).cell "k").Listed
      (Env.at 0 0).clock.mono 1 := ⟨["x"], rfl, rfl⟩
  have hnot : ¬PushesSerial (Env.at 0 0) (Store.new.putData "k" (.list ["x"])) "k" .lpush .rpush
      ["a", "b"] ["c"] :=
    not_pushesSerial (.inl hlisted) (List.cons_ne_nil "c" []) (.inl (.inl hlisted))
  exact hnot (h _ _ "k" .lpush .rpush ["a", "b"] ["c"] fun _ hv =>
    ⟨["x"], (Option.some.inj hv).symm⟩)

end Thesaurus
