import Thesaurus.Cells.Deadline
import Thesaurus.Cells.Replies
import Thesaurus.Model.Server

/-!
# Commands — SET

SET against its documentation, over every store.

* `set_meets_spec`: on a missing key or a live string, the reply, the value and the deadline are
  those of `SET` in `docs/commands.md`, and nothing else changes.
* `set_atomic_iff`: SET with an error reply changes nothing, unless the error is the deadline.
* `set_readable_iff`: after an OK the value can be read, unless KEEPTTL took up the deadline of a
  key that was not live.
* `mset_eq_sets_iff`: MSET is the plain SETs in order, unless a key holds a list or a set.
-/

namespace Thesaurus
open StoreInner

variable (ex : Executor) (env : Env) (s : StoreInner)

/-! ### The reference -/

/-- What the condition of SET says of the previous value. -/
def SetCondition.Holds (prev : Option String) : SetCondition → Prop
  | .nx      => prev = none
  | .xx      => prev ≠ none
  | .ifEq v  => prev = some v
  | .ifNe v  => ∃ w, prev = some w ∧ w ≠ v
  | .ifDeq u => ∃ w, prev = some w ∧ ex.xxh3_64 (Bytes.utf8 w) = u
  | .ifDne u => ∃ w, prev = some w ∧ ex.xxh3_64 (Bytes.utf8 w) ≠ u

/-- The deadline that SET gives a key whose deadline was `old`. -/
def SetExpiry.deadline (c : Clock) (old : Option Instant) : Option SetExpiry → Option Instant
  | none          => none
  | some .keepTtl => old
  | some e        => (e.offset c).map (c.mono + ·)

/-- Every deadline that the expiry asks for can be represented. -/
def SetExpiry.Fits (c : Clock) (expiry : Option SetExpiry) : Prop :=
  ∀ e d, expiry = some e → e.offset c = some d → c.mono + d < Instant.limit

/-- The cell is that of a key that was never written, or holds a live string. -/
def Cell.IsString (now : Instant) (x : Cell) (prev : Option String) : Prop :=
  (x = Cell.empty ∧ prev = none) ∨ ∃ v, x.live now = some (.str v) ∧ prev = some v

theorem conditionMet_iff (condition : Option SetCondition) (prev : Option String) :
    ex.conditionMet condition prev = true ↔ ∀ c, condition = some c → c.Holds ex prev := by
  cases condition with
  | none => simp [Executor.conditionMet]
  | some c =>
      cases c <;> cases prev <;>
        simp [Executor.conditionMet, SetCondition.Holds, Executor.digestValue]

theorem Cell.IsString.asString {now : Instant} {x : Cell} {prev : Option String}
    (h : x.IsString now prev) : Store.asString (x.live now) = .ok prev := by
  rcases h with ⟨rfl, rfl⟩ | ⟨v, hv, rfl⟩
  · rfl
  · rw [hv]
    rfl

theorem setDeadline_of_fits {c : Clock} {expiry : Option SetExpiry} {old : Option Instant}
    (h : SetExpiry.Fits c expiry) :
    Executor.setDeadline c expiry old = .ok (SetExpiry.deadline c old expiry) := by
  cases expiry with
  | none => rfl
  | some e =>
      cases hd : e.offset c with
      | none =>
          obtain rfl := Executor.offset_eq_none_iff.mp hd
          rfl
      | some d =>
          rw [Executor.setDeadline_of_fits hd (h e d rfl hd)]
          cases e <;> first | cases hd; rfl | cases hd

variable (key value : String) (condition : Option SetCondition) (expiry : Option SetExpiry)
  (g : Bool)

theorem exec_set :
    ex.exec env (.set key value condition expiry g) s =
      keyed.at key (Cell.set ex env.clock value condition expiry g) s :=
  exec_eq_at ex env s rfl

/-- **SET meets its specification.**  If the condition holds, SET stores the value and the deadline
of its expiry and touches nothing else; if not, it touches nothing.  The reply is the previous
value with GET, and whether SET has written without. -/
theorem set_meets_spec (prev : Option String) (hx : (s.cell key).IsString env.clock.mono prev)
    (hf : SetExpiry.Fits env.clock expiry) :
    ((∀ c, condition = some c → c.Holds ex prev) →
      ex.exec env (.set key value condition expiry g) s =
        (some (if g then .bulkString prev else okReply),
          ⟨s.data.insert key (.str value),
            putOption s.expiryIndex key
              (SetExpiry.deadline env.clock (s.expiryIndex.lookup key) expiry)⟩)) ∧
    ((¬∀ c, condition = some c → c.Holds ex prev) →
      ex.exec env (.set key value condition expiry g) s =
        (some (.bulkString (if g then prev else none)), s)) := by
  rw [exec_set, keyed_at, Cell.set, hx.asString]
  simp only [setDeadline_of_fits hf]
  constructor
  · intro hmet
    rw [if_pos ((conditionMet_iff ex condition prev).mpr hmet)]
    cases g <;> rfl
  · intro hmet
    rw [if_neg fun h => hmet ((conditionMet_iff ex condition prev).mp h), setCell_cell]
    cases g <;> rfl

/-- SET IFEQ with EX and GET, on a string with a deadline. -/
theorem set_meets_spec_ifEq :
    let s := Store.new.setCell "k" ⟨some (.str "old"), some 1000⟩
    Executor.plain.exec (.at 0 0) (.set "k" "v" (some (.ifEq "old")) (some (.ex 10)) true) s =
      (some (.bulkString (some "old")), ⟨s.data.insert "k" (.str "v"),
        putOption s.expiryIndex "k" (some 10000000000)⟩) := by
  intro s
  have hx : (s.cell "k").IsString (Env.at 0 0).clock.mono (some "old") := by
    rw [cell_setCell_self]
    exact .inr ⟨"old", rfl, rfl⟩
  have hf : SetExpiry.Fits (Env.at 0 0).clock (some (.ex 10)) := by
    rintro e d he hd
    cases he
    cases hd
    decide
  exact (set_meets_spec .plain (.at 0 0) s "k" "v" (some (.ifEq "old")) (some (.ex 10)) true
    (some "old") hx hf).1 fun _ hc => by
      cases hc
      rfl

/-! ### All or nothing -/

/-- SET fails after it wrote: it may write, and its relative deadline does not fit. -/
def FailsLate (x : Cell) : Prop :=
  ∃ prev e d, Store.asString (x.live env.clock.mono) = .ok prev ∧
    ex.conditionMet condition prev = true ∧ expiry = some e ∧ e.isAbsolute = false ∧
    e.offset env.clock = some d ∧ Instant.limit ≤ env.clock.mono + d

theorem set_of_failsLate {x : Cell} (h : FailsLate ex env condition expiry x) :
    Cell.set ex env.clock value condition expiry g x =
      (some (.simpleError "ERR invalid expire time in 'set' command"), Cell.setString value) := by
  obtain ⟨prev, e, d, hp, hmet, rfl, habs, hd, hlim⟩ := h
  rw [Cell.set, hp]
  dsimp only
  rw [if_pos hmet, Executor.setDeadline_of_not_fits hd hlim, habs]
  rfl

theorem set_of_not_failsLate {x : Cell} {text : String}
    (h : ¬FailsLate ex env condition expiry x)
    (herr : (Cell.set ex env.clock value condition expiry g x).1 = some (.simpleError text)) :
    (Cell.set ex env.clock value condition expiry g x).2 = x := by
  unfold Cell.set at herr ⊢
  cases hp : Store.asString (x.live env.clock.mono) with
  | error e => rfl
  | ok prev =>
      rw [hp] at herr
      dsimp only at herr ⊢
      by_cases hmet : ex.conditionMet condition prev = true
      · rw [if_pos hmet] at herr
        have hok : ∀ o, Executor.setDeadline env.clock expiry x.deadline = .ok o → False := by
          intro o ho
          rw [ho] at herr
          exact Cell.setReply_ne_error _ _ _ _ (Option.some.inj herr)
        cases expiry with
        | none => exact (hok none rfl).elim
        | some e =>
            cases hd : e.offset env.clock with
            | none =>
                obtain rfl := Executor.offset_eq_none_iff.mp hd
                exact (hok _ rfl).elim
            | some d =>
                by_cases hlim : Instant.limit ≤ env.clock.mono + d
                · rw [Executor.setDeadline_of_not_fits hd hlim] at herr
                  cases habs : e.isAbsolute with
                  | true => rw [habs] at herr; cases herr
                  | false => exact absurd ⟨prev, e, d, hp, hmet, rfl, habs, hd, hlim⟩ h
                · exact (hok _ (Executor.setDeadline_of_fits hd (Nat.lt_of_not_le hlim))).elim
      · rw [if_neg hmet]

/-- **All or nothing.**  SET leaves the store as it is whenever it replies an error, exactly when
it does not fail after it wrote, or wrote what was there already. -/
theorem set_atomic_iff :
    (∀ text t, ex.exec env (.set key value condition expiry g) s = (some (.simpleError text), t) →
      t = s) ↔
    (FailsLate ex env condition expiry (s.cell key) → s.cell key = Cell.setString value) := by
  rw [exec_set, keyed_at]
  constructor
  · intro h hlate
    have hset := set_of_failsLate ex env value condition expiry g hlate
    have heq := h _ _ (by rw [hset])
    rw [← heq, cell_setCell_self]
  · intro h text t ht
    obtain ⟨hr, rfl⟩ := Prod.mk.injEq .. ▸ ht
    by_cases hlate : FailsLate ex env condition expiry (s.cell key)
    · rw [set_of_failsLate ex env value condition expiry g hlate, ← h hlate, setCell_cell]
    · rw [set_of_not_failsLate ex env value condition expiry g hlate hr, setCell_cell]

/-- `SET k v EX 18446744073709551615` replies an error, and `k` holds `v`. -/
theorem set_error_writes : ¬∀ (ex : Executor) (env : Env) (s : StoreInner) (key value : String)
    (condition : Option SetCondition) (expiry : Option SetExpiry) (g : Bool) (text : String)
    (t : StoreInner),
    ex.exec env (.set key value condition expiry g) s = (some (.simpleError text), t) → t = s := by
  intro h
  have hlate : FailsLate .plain (.at 0 0) none (some (.ex 18446744073709551615))
      (Store.new.cell "k") := by
    rw [cell_new]
    exact ⟨none, _, _, rfl, rfl, rfl, rfl, rfl, by decide +kernel⟩
  have hset := set_of_failsLate .plain (.at 0 0) "v" none (some (.ex 18446744073709551615)) false
    hlate
  have heq := h .plain (.at 0 0) Store.new "k" "v" none (some (.ex 18446744073709551615)) false _ _
    (by rw [exec_set, keyed_at, hset])
  have hcell := congrArg (StoreInner.cell · "k") heq
  rw [cell_setCell_self, cell_new] at hcell
  cases hcell

/-! ### Reading the value back -/

/-- The expiry does not lie in the past: a positive offset, or a point of the wall clock that its
unit has not reached. -/
def SetExpiry.Ahead (c : Clock) : Option SetExpiry → Prop
  | some (.ex secs)           => 0 < secs.toNat
  | some (.px millis)         => 0 < millis.toNat
  | some (.exAt deadlineSecs) => c.nowSecs < deadlineSecs.toNat
  | some (.pxAt deadlineMs)   => c.nowMillis < deadlineMs.toNat
  | _                         => True

theorem SetExpiry.Ahead.offset_pos {c : Clock} {e : SetExpiry} {d : Duration}
    (h : SetExpiry.Ahead c (some e)) (hd : e.offset c = some d) : 0 < d := by
  cases e with
  | ex secs => cases hd; exact Nat.mul_pos h (by decide)
  | px millis => cases hd; exact Nat.mul_pos h (by decide)
  | exAt t => cases hd; exact Nat.mul_pos (Nat.sub_pos_of_lt h) (by decide)
  | pxAt t => cases hd; exact Nat.mul_pos (Nat.sub_pos_of_lt h) (by decide)
  | keepTtl => cases hd

/-- What a SET that replied OK has written. -/
theorem set_of_ok {x y : Cell}
    (h : Cell.set ex env.clock value condition expiry g x = (some okReply, y)) :
    ∃ deadline, Executor.setDeadline env.clock expiry x.deadline = .ok deadline ∧
      y = ⟨some (.str value), deadline⟩ := by
  have hnil : ∀ v, RespValue.bulkString v ≠ okReply := fun v hv => by cases hv
  unfold Cell.set at h
  cases hp : Store.asString (x.live env.clock.mono) with
  | error e => rw [hp] at h; cases e <;> cases h
  | ok prev =>
      rw [hp] at h
      dsimp only at h
      split at h
      · cases hd : Executor.setDeadline env.clock expiry x.deadline with
        | panic => rw [hd] at h; cases h
        | err text => rw [hd] at h; cases h
        | ok deadline => rw [hd] at h; exact ⟨deadline, rfl, (congrArg Prod.snd h).symm⟩
      · have hr := Option.some.inj (congrArg Prod.fst h)
        cases g <;> exact absurd hr (hnil _)

theorem exec_get :
    (ex.exec env (.get key) s).1 =
      some (replyOf .bulkString (Store.asString ((s.cell key).live env.clock.mono))) := by
  show ((Executor.get key).run env.apply s).1 = _
  rw [Executor.get, Atomic.Prog.invoke_bind, Atomic.Prog.run_call, Env.apply, apply_getString]
  rfl

/-- GET finds a string exactly when its deadline is still to come. -/
theorem get_string_iff {now : Instant} (deadline : Option Instant) :
    replyOf .bulkString (Store.asString (Cell.live now ⟨some (.str value), deadline⟩)) =
        .bulkString (some value) ↔
      ∀ d, deadline = some d → now < d := by
  cases deadline with
  | none => simp [Store.asString, replyOf]
  | some d =>
      by_cases hd : d ≤ now
      · simp [Cell.live, Cell.expired, hd, Store.asString, replyOf]
      · simp [Cell.live, Cell.expired, hd, Store.asString, replyOf, Nat.lt_of_not_le hd]

/-- **A successful SET is readable.**  After a SET that replied OK, GET returns the value and
KEEPTTL has kept the deadline of a live key only, exactly when KEEPTTL did not find the deadline
of a key that was not live. -/
theorem set_readable_iff (hexp : SetExpiry.Ahead env.clock expiry) {t : StoreInner}
    (h : ex.exec env (.set key value condition expiry g) s = (some okReply, t)) :
    ((ex.exec env (.get key) t).1 = some (.bulkString (some value)) ∧
      (expiry = some .keepTtl → ∀ d, (t.cell key).deadline = some d →
        ((s.cell key).live env.clock.mono).isSome ∧ (s.cell key).deadline = some d)) ↔
    (expiry = some .keepTtl → (s.cell key).deadline.isSome →
      ((s.cell key).live env.clock.mono).isSome) := by
  rw [exec_set, keyed_at] at h
  cases hset : Cell.set ex env.clock value condition expiry g (s.cell key) with
  | mk r y =>
      rw [hset] at h
      cases h
      obtain ⟨deadline, hd, rfl⟩ := set_of_ok ex env value condition expiry g hset
      rw [exec_get, cell_setCell_self, Option.some.injEq, get_string_iff]
      by_cases hkeep : expiry = some .keepTtl
      · subst hkeep
        obtain rfl : (s.cell key).deadline = deadline := Outcome.ok.inj hd
        simp only [forall_const]
        constructor
        · rintro ⟨-, hlive⟩ hsome
          obtain ⟨d, hd⟩ := Option.isSome_iff_exists.mp hsome
          exact (hlive d hd).1
        · intro hlive
          refine ⟨fun d hd => ?_, fun d hd => ⟨hlive (by rw [hd]; rfl), hd⟩⟩
          obtain ⟨v, hv⟩ := Option.isSome_iff_exists.mp (hlive (by rw [hd]; rfl))
          have := Cell.not_expired_of_live hv
          rw [Cell.expired, hd] at this
          simpa using this
      · refine iff_of_true ⟨fun d hd' => ?_, fun hk => absurd hk hkeep⟩ fun hk => absurd hk hkeep
        cases expiry with
        | none => cases hd; cases hd'
        | some e =>
            cases ho : e.offset env.clock with
            | none => exact absurd (congrArg some (Executor.offset_eq_none_iff.mp ho)) hkeep
            | some o =>
                rw [Executor.setDeadline_of_offset ho, hd'] at hd
                cases hadd : env.clock.mono.checkedAdd o with
                | none =>
                    rw [hadd] at hd
                    cases e <;> cases hd
                | some d' =>
                    rw [hadd] at hd
                    cases hd
                    rw [(Instant.checkedAdd_eq_some.mp hadd).2]
                    exact Nat.lt_add_of_pos_right (hexp.offset_pos ho)

/-- SET EX over an older value that has expired is readable. -/
theorem set_readable_ex : ∃ t,
    Executor.plain.exec (.at 0 2000) (.set "k" "v" none (some (.ex 10)) false)
        (Store.new.setCell "k" ⟨some (.str "old"), some 1000⟩) = (some okReply, t) ∧
      (Executor.plain.exec (.at 0 2000) (.get "k") t).1 = some (.bulkString (some "v")) := by
  have h : Executor.plain.exec (.at 0 2000) (.set "k" "v" none (some (.ex 10)) false)
      (Store.new.setCell "k" ⟨some (.str "old"), some 1000⟩) =
        (some okReply, Store.new.setCell "k" ⟨some (.str "v"), some 10000002000⟩) := by
    rw [exec_set, keyed_at, cell_setCell_self, setCell_setCell]
    rfl
  have hexp : SetExpiry.Ahead (Env.at 0 2000).clock (some (.ex 10)) :=
    show 0 < (10 : UInt64).toNat by decide
  exact ⟨_, h, ((set_readable_iff .plain (.at 0 2000)
    (Store.new.setCell "k" ⟨some (.str "old"), some 1000⟩) "k" "v" none (some (.ex 10)) false
    hexp h).mpr fun hk => by cases hk).1⟩

/-- A key with a deadline of a millisecond is set again with KEEPTTL four milliseconds after it
expired, and is missing at once. -/
theorem keepTtl_unreadable : ¬∀ (ex : Executor) (c : Clock) (actions : List Action) (env : Env)
    (key value : String) (condition : Option SetCondition) (expiry : Option SetExpiry) (g : Bool)
    (t : StoreInner), SetExpiry.Ahead env.clock expiry →
    ex.exec env (.set key value condition expiry g) ((Server.mk Store.new c).run ex actions).store =
      (some okReply, t) →
    (ex.exec env (.get key) t).1 = some (.bulkString (some value)) := by
  intro h
  have hrun : ((Server.mk Store.new (.at 0 0)).run .plain
      [.execute .sorted (.set "k" "v" none (some (.px 1)) false)]).store =
        Store.new.setCell "k" ⟨some (.str "v"), some 1000000⟩ := by
    show (Executor.plain.exec ⟨.at 0 0, .sorted⟩ _ Store.new).2 = _
    rw [exec_set, keyed_at, cell_new]
    rfl
  have hset : Executor.plain.exec (.at 0 5000000) (.set "k" "w" none (some .keepTtl) false)
      (Store.new.setCell "k" ⟨some (.str "v"), some 1000000⟩) =
        (some okReply, Store.new.setCell "k" ⟨some (.str "w"), some 1000000⟩) := by
    rw [exec_set, keyed_at, cell_setCell_self, setCell_setCell]
    rfl
  have hget := h .plain (.at 0 0) [.execute .sorted (.set "k" "v" none (some (.px 1)) false)]
    (.at 0 5000000) "k" "w" none (some .keepTtl) false _ trivial (hrun ▸ hset)
  rw [exec_get, cell_setCell_self] at hget
  cases hget

/-! ### MSET -/

/-- The plain SETs of the pairs, one after the other, with their replies. -/
def setEach (s : StoreInner) : List (String × String) → List Reply × StoreInner
  | []                    => ([], s)
  | (key, value) :: items =>
      let set := ex.exec env (.set key value none none false) s
      let rest := setEach set.2 items
      (set.1 :: rest.1, rest.2)

/-- The key is live and holds a list or a set. -/
def HoldsCollection (now : Instant) (s : StoreInner) (key : String) : Prop :=
  Store.asString ((s.cell key).live now) = .error .wrongType

theorem asString_cases (v : Option StoreValue) :
    (∃ prev, Store.asString v = .ok prev) ∨ Store.asString v = .error .wrongType := by
  unfold Store.asString
  split <;> simp

theorem exec_set_plain (h : ¬HoldsCollection env.clock.mono s key) :
    ex.exec env (.set key value none none false) s =
      (some okReply, s.setCell key (Cell.setString value)) := by
  obtain ⟨prev, hp⟩ := (asString_cases _).resolve_right h
  rw [exec_set, keyed_at, Cell.set, hp]
  rfl

theorem exec_set_collection (h : HoldsCollection env.clock.mono s key) :
    (ex.exec env (.set key value none none false) s).1 = some (errorReply .wrongType) := by
  rw [exec_set, keyed_at, Cell.set, h]

theorem not_holdsCollection_setString (h : ¬HoldsCollection env.clock.mono s key) (k : String) :
    HoldsCollection env.clock.mono (s.setCell key (Cell.setString value)) k ↔
      HoldsCollection env.clock.mono s k := by
  by_cases hk : k = key
  · subst hk
    refine iff_of_false (fun hv => ?_) h
    rw [HoldsCollection, cell_setCell_self] at hv
    cases hv
  · rw [HoldsCollection, HoldsCollection, cell_setCell_ne _ _ hk]

/-- **MSET is its SETs.**  The plain SETs of the pairs all reply what MSET replies and leave what
MSET leaves, exactly when no key of the pairs holds a list or a set. -/
theorem mset_eq_sets_iff (items : List (String × String)) :
    setEach ex env s items =
        (items.map fun _ => (ex.exec env (.mSet items) s).1, (ex.exec env (.mSet items) s).2) ↔
      ∀ item ∈ items, ¬HoldsCollection env.clock.mono s item.1 := by
  simp only [exec_mSet]
  induction items generalizing s with
  | nil => exact iff_of_true rfl fun _ h => nomatch h
  | cons item items ih =>
      obtain ⟨key, value⟩ := item
      by_cases h : HoldsCollection env.clock.mono s key
      · refine iff_of_false (fun heq => ?_) fun hall => hall _ (List.mem_cons_self ..) h
        have hreply := (List.cons.inj (congrArg Prod.fst heq)).1
        rw [exec_set_collection ex env s key value h] at hreply
        cases hreply
      · have hmset : Store.mset s ((key, value) :: items) =
            Store.mset (s.setCell key (Cell.setString value)) items := by
          rw [mset_eq, mset_eq, List.foldl_cons]
        -- the SET of the first pair leaves the state from which MSET goes on
        have hstep : setEach ex env s ((key, value) :: items) =
              (((key, value) :: items).map fun _ => some okReply,
                Store.mset s ((key, value) :: items)) ↔
            setEach ex env (s.setCell key (Cell.setString value)) items =
              (items.map fun _ => some okReply,
                Store.mset (s.setCell key (Cell.setString value)) items) := by
          rw [setEach, exec_set_plain ex env s key value h, hmset, List.map_cons, Prod.mk.injEq,
            Prod.ext_iff, List.cons_inj_right]
        rw [hstep, ih, List.forall_mem_cons]
        simp only [not_holdsCollection_setString env s key value h]
        exact (and_iff_right h).symm

/-- On a list, MSET replies OK and SET an error. -/
theorem mset_overwrites_list : ¬∀ (ex : Executor) (env : Env) (s : StoreInner)
    (items : List (String × String)),
    setEach ex env s items =
      (items.map fun _ => (ex.exec env (.mSet items) s).1, (ex.exec env (.mSet items) s).2) := by
  intro h
  have heq := h .plain (.at 0 0) (Store.new.setCell "k" ⟨some (.list ["a"]), none⟩) [("k", "v")]
  have hreply := (List.cons.inj (congrArg Prod.fst heq)).1
  rw [exec_set_collection] at hreply
  · cases hreply
  · rw [HoldsCollection, cell_setCell_self]
    rfl

end Thesaurus
