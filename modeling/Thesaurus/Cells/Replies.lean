import Thesaurus.Cells.Exec

/-!
# Cells — what a reply says

The handler reads from the reply of a command whether it did anything.  These lemmas say what a
reply of `0` or an error says about the cell of the command's key.

* `pushLoop_list`, `pushLoop_create`, `pushLoop_absent`, `pushLoop_wrongType`: the four things a
  push can find.
* `exec_zero`: a reply of `0` and what can have happened then.
* `exec_error`: an error reply, and the cell is unchanged, for every command but GETDEL and a SET
  with a time of its own.
-/

namespace Thesaurus
open StoreInner

namespace Cell

/-! ### Pushes -/

section Push

variable {now : Instant} {createIfMissing : Bool} {pushFn : List String → String → List String}
  {x : Cell}

theorem withValue_self {v : StoreValue} (h : x.live now = some v) :
    { x with value := some v } = x := by
  rw [← value_of_live h]

/-- A push to a live list. -/
theorem pushLoop_list {l : List String} (h : x.live now = some (.list l))
    (elements : List String) (size : Nat) :
    pushLoop now createIfMissing pushFn elements size x =
      (some (.integer (if elements = [] then size else (elements.foldl pushFn l).length)),
        { x with value := some (.list (elements.foldl pushFn l)) }) := by
  induction elements generalizing l size x with
  | nil => simp [pushLoop, withValue_self h]
  | cons element elements ih =>
      have h' := live_withValue (not_expired_of_live h) (some (.list (pushFn l element)))
      simp only [pushLoop, push, h]
      rw [ih h']
      cases elements <;> simp

/-- A push that creates its list. -/
theorem pushLoop_create (h : x.live now = none) (element : String) (elements : List String)
    (size : Nat) :
    pushLoop now true pushFn (element :: elements) size x =
      (some (.integer (elements.foldl pushFn [element]).length),
        ⟨some (.list (elements.foldl pushFn [element])), none⟩) := by
  simp only [pushLoop, push, h, if_true]
  rw [pushLoop_list (l := [element]) rfl]
  cases elements <;> simp

/-- LPUSHX and RPUSHX find no list. -/
theorem pushLoop_absent (h : x.live now = none) (elements : List String) (size : Nat) :
    pushLoop now false pushFn elements size x =
      (some (.integer (if elements = [] then size else 0)), x) := by
  induction elements generalizing size with
  | nil => simp [pushLoop]
  | cons element elements ih =>
      simp only [pushLoop, push, h, Bool.false_eq_true, if_false]
      rw [ih]
      cases elements <;> simp

/-- A push finds a value that is no list. -/
theorem pushLoop_wrongType {v : StoreValue} (h : x.live now = some v)
    (hv : ∀ l, v ≠ .list l) (element : String) (elements : List String) (size : Nat) :
    pushLoop now createIfMissing pushFn (element :: elements) size x =
      (some (errorReply .wrongType), x) := by
  cases v with
  | list l => exact absurd rfl (hv l)
  | str _ | set _ => simp only [pushLoop, push, h]

theorem length_foldl (hlen : ∀ l e, (pushFn l e).length = l.length + 1) (l elements : List String) :
    (elements.foldl pushFn l).length = l.length + elements.length := by
  induction elements generalizing l with
  | nil => rfl
  | cons e elements ih => rw [List.foldl_cons, ih, hlen, List.length_cons]; omega

variable (now createIfMissing pushFn x) in
/-- **The four things a push finds.** -/
theorem pushLoop_cases (element : String) (elements : List String) (size : Nat) :
    (∃ l, x.live now = some (.list l) ∧
      pushLoop now createIfMissing pushFn (element :: elements) size x =
        (some (.integer (elements.foldl pushFn (pushFn l element)).length),
          { x with value := some (.list (elements.foldl pushFn (pushFn l element))) })) ∨
    (x.live now = none ∧ createIfMissing = true ∧
      pushLoop now createIfMissing pushFn (element :: elements) size x =
        (some (.integer (elements.foldl pushFn [element]).length),
          ⟨some (.list (elements.foldl pushFn [element])), none⟩)) ∨
    (x.live now = none ∧ createIfMissing = false ∧
      pushLoop now createIfMissing pushFn (element :: elements) size x = (some (.integer 0), x)) ∨
    (∃ v, x.live now = some v ∧ (∀ l, v ≠ .list l) ∧
      pushLoop now createIfMissing pushFn (element :: elements) size x =
        (some (errorReply .wrongType), x)) := by
  cases h : x.live now with
  | none =>
      cases createIfMissing with
      | true => exact .inr (.inl ⟨rfl, rfl, pushLoop_create h element elements size⟩)
      | false => exact .inr (.inr (.inl ⟨rfl, rfl, by rw [pushLoop_absent h]; simp⟩))
  | some v =>
      cases v with
      | list l => exact .inl ⟨l, rfl, by rw [pushLoop_list h]; simp⟩
      | str v | set v =>
          refine .inr (.inr (.inr ⟨_, rfl, ?_, pushLoop_wrongType h ?_ element elements size⟩)) <;>
            simp

theorem pushLoop_zero (hlen : ∀ l e, (pushFn l e).length = l.length + 1) {elements : List String}
    (h : (pushLoop now createIfMissing pushFn elements 0 x).1 = some (.integer 0)) :
    (pushLoop now createIfMissing pushFn elements 0 x).2 = x := by
  cases elements with
  | nil => rfl
  | cons element elements =>
      rcases pushLoop_cases now createIfMissing pushFn x element elements 0 with
        ⟨l, -, heq⟩ | ⟨-, -, heq⟩ | ⟨-, -, heq⟩ | ⟨v, -, -, heq⟩
      all_goals rw [heq] at h ⊢
      · simp [length_foldl hlen, hlen] at h
        omega
      · simp [length_foldl hlen] at h
        omega

theorem pushLoop_error {elements : List String} {size : Nat} {text : String}
    (h : (pushLoop now createIfMissing pushFn elements size x).1 = some (.simpleError text)) :
    (pushLoop now createIfMissing pushFn elements size x).2 = x := by
  cases elements with
  | nil => rfl
  | cons element elements =>
      rcases pushLoop_cases now createIfMissing pushFn x element elements size with
        ⟨l, -, heq⟩ | ⟨-, -, heq⟩ | ⟨-, -, heq⟩ | ⟨v, -, -, heq⟩
      all_goals rw [heq] at h ⊢
      all_goals simp at h

end Push

/-! ### Sets -/

theorem insertAll_eq (members : List String) (set : Finset String) :
    Store.insertAll members set =
      ((set ∪ members.toFinset).card - set.card, set ∪ members.toFinset) := by
  induction members generalizing set with
  | nil => simp [Store.insertAll]
  | cons member members ih =>
      rw [Store.insertAll, List.toFinset_cons, Finset.union_insert]
      split
      · next hm =>
        rw [ih, ← Finset.insert_union, Finset.insert_eq_of_mem hm]
      · next hm =>
        rw [ih, Finset.insert_union, Finset.card_insert_of_notMem hm]
        have hle : set.card + 1 ≤ (insert member (set ∪ members.toFinset)).card := by
          rw [← Finset.card_insert_of_notMem hm, ← Finset.insert_union]
          exact Finset.card_le_card Finset.subset_union_left
        exact Prod.ext (by simp only; omega) rfl

theorem removeAll_eq (members : List String) (set : Finset String) :
    Store.removeAll members set =
      (set.card - (set \ members.toFinset).card, set \ members.toFinset) := by
  induction members generalizing set with
  | nil => simp [Store.removeAll]
  | cons member members ih =>
      have hsdiff : set \ (insert member members.toFinset) =
          set.erase member \ members.toFinset := by
        ext a
        simp only [Finset.mem_sdiff, Finset.mem_insert, Finset.mem_erase]
        tauto
      rw [Store.removeAll, List.toFinset_cons, hsdiff]
      split
      · next hm =>
        have hcard := Finset.card_erase_add_one hm
        have hle : (set.erase member \ members.toFinset).card ≤ (set.erase member).card :=
          Finset.card_le_card Finset.sdiff_subset
        rw [ih]
        exact Prod.ext (by simp only; omega) rfl
      · next hm => rw [ih, Finset.erase_eq_of_notMem hm]

theorem insertAll_zero {members : List String} {set : Finset String}
    (h : (Store.insertAll members set).1 = 0) : (Store.insertAll members set).2 = set := by
  rw [insertAll_eq] at h ⊢
  exact (Finset.eq_of_subset_of_card_le Finset.subset_union_left (Nat.sub_eq_zero_iff_le.mp h)).symm

theorem removeAll_zero {members : List String} {set : Finset String}
    (h : (Store.removeAll members set).1 = 0) : (Store.removeAll members set).2 = set := by
  rw [removeAll_eq] at h ⊢
  exact Finset.eq_of_subset_of_card_le Finset.sdiff_subset (Nat.sub_eq_zero_iff_le.mp h)

/-! ### Replies -/

variable {ex : Executor} {env : Env}

theorem replyOf_eq_zero {α : Type} {f : α → RespValue} {r : Except StoreError α}
    (h : replyOf f r = .integer 0) : ∃ a, r = .ok a ∧ f a = .integer 0 := by
  cases r with
  | ok a => exact ⟨a, rfl, h⟩
  | error e => cases h

theorem boolReply_eq_zero {b : Bool} (h : boolReply b = .integer 0) : b = false := by
  cases b with
  | false => rfl
  | true => simp [boolReply] at h

theorem setTtl_false {t : Instant} {x : Cell} (h : (x.setTtl t).1 = false) :
    (x.setTtl t).2 = x := by
  unfold setTtl at h ⊢
  split at h
  · cases h
  · next hv => rw [if_neg hv]

/-- The absolute deadline has passed. -/
def PastDeadline (c : Clock) : Command → Prop
  | .expireAt _ deadlineSecs => deadlineSecs.toNat ≤ c.nowSecs
  | .pExpireAt _ deadlineMs  => deadlineMs.toNat ≤ c.nowMillis
  | _                        => False

theorem expireBy_zero {past : Bool} {deadline : Option Instant} {x : Cell}
    (h : (expireBy past deadline x).1 = some (.integer 0)) :
    (expireBy past deadline x).2 = if past then empty else x := by
  unfold expireBy at h ⊢
  cases past with
  | true => rfl
  | false =>
      simp only [Bool.false_eq_true, if_false] at h ⊢
      cases deadline with
      | none => rfl
      | some deadline => exact setTtl_false (boolReply_eq_zero (Option.some.inj h))

theorem expireIn_zero {c : Clock} {d : Duration} {x : Cell}
    (h : (expireIn c d x).1 = some (.integer 0)) : (expireIn c d x).2 = x := by
  unfold expireIn at h ⊢
  cases hd : c.mono.checkedAdd d with
  | none => rfl
  | some deadline =>
      rw [hd] at h
      exact setTtl_false (boolReply_eq_zero (Option.some.inj h))

theorem setReply_ne_integer (g met : Bool) (prev : Option String) (n : Int) :
    Executor.setReply g met prev ≠ .integer n := by
  cases g <;> cases met <;> simp [Executor.setReply, okReply]

theorem set_ne_integer {c : Clock} {value : String} {condition : Option SetCondition}
    {expiry : Option SetExpiry} {g : Bool} {x : Cell} {n : Int} :
    (set ex c value condition expiry g x).1 ≠ some (.integer n) := by
  unfold set
  cases Store.asString (x.live c.mono) with
  | error e => simp [errorReply]
  | ok prev =>
      dsimp only
      split
      · split <;> simp [setReply_ne_integer]
      · simp [setReply_ne_integer]

theorem pop_ne_integer {count : Bool} {r : Option (Except StoreError (Option (List String)))}
    {n : Int} : r.map (replyOf (Executor.popReply count)) ≠ some (.integer n) := by
  rcases r with _ | _ | _ | _ <;> cases count <;>
    simp [replyOf, errorReply, Executor.popReply, bulkReply]

theorem spop_ne_integer {count : Bool} {r : Except StoreError (Option (List String))} {n : Int} :
    replyOf (Executor.spopReply count) r ≠ .integer n := by
  rcases r with _ | _ | _ <;> cases count <;>
    simp [replyOf, errorReply, Executor.spopReply, Executor.membersReply, bulkReply]

/-- **A reply of `0`.**  The cell is as it was, or an absolute deadline has passed and emptied
it, or an SADD of no member created an empty set. -/
theorem exec_zero {cmd : Command} {key : String} {g : Cell → Reply × Cell} {x : Cell}
    (h : exec ex env cmd = some (key, g)) (h₀ : (g x).1 = some (.integer 0)) :
    (g x).2 = x ∨ (PastDeadline env.clock cmd ∧ (g x).2 = empty) ∨
      (cmd = .sAdd key [] ∧ x.live env.clock.mono = none ∧ (g x).2 = ⟨some (.set ∅), none⟩) := by
  cases cmd with
  | set => cases h; exact absurd h₀ set_ne_integer
  | getDel key =>
      cases h
      obtain ⟨a, -, ha⟩ := replyOf_eq_zero (Option.some.inj h₀)
      cases ha
  | lPush | rPush | lPushX | rPushX =>
      cases h
      exact .inl (pushLoop_zero (by simp [Store.pushFront, Store.pushBack]) h₀)
  | lPop | rPop => cases h; exact absurd h₀ pop_ne_integer
  | sPop => cases h; exact absurd (Option.some.inj h₀) spop_ne_integer
  | lSet =>
      cases h
      obtain ⟨a, -, ha⟩ := replyOf_eq_zero (Option.some.inj h₀)
      cases ha
  | sAdd key members =>
      cases h
      obtain ⟨n, hn, hz⟩ := replyOf_eq_zero (Option.some.inj h₀)
      have hz : n = 0 := by simpa using hz
      subst hz
      simp only [reply, sadd] at hn ⊢
      cases hv : x.live env.clock.mono with
      | none =>
          rw [hv] at hn
          -- a new set counts its members, so there was none to add
          have hm : members = [] := by
            simpa [Finset.card_eq_zero, List.toFinset_eq_empty_iff] using hn
          subst hm
          exact .inr (.inr ⟨rfl, rfl, rfl⟩)
      | some v =>
          rw [hv] at hn
          cases v with
          | set s =>
              refine .inl ?_
              dsimp only at hn ⊢
              rw [insertAll_zero (Except.ok.inj hn), withValue_self hv]
          | str _ | list _ => cases hn
  | sRem key members =>
      cases h
      obtain ⟨n, hn, hz⟩ := replyOf_eq_zero (Option.some.inj h₀)
      have hz : n = 0 := by simpa using hz
      subst hz
      simp only [reply, srem] at hn ⊢
      refine .inl ?_
      cases hv : x.live env.clock.mono with
      | none => rfl
      | some v =>
          rw [hv] at hn
          cases v with
          | set s =>
              dsimp only at hn ⊢
              rw [removeAll_zero (Except.ok.inj hn), withValue_self hv]
          | str _ | list _ => cases hn
  | persist key =>
      cases h
      have hsome : x.deadline.isSome = false := boolReply_eq_zero (Option.some.inj h₀)
      have hd : x.deadline = none := by simpa using hsome
      refine .inl ?_
      show ({ x with deadline := none } : Cell) = x
      rw [← hd]
  | expire | pExpire => cases h; exact .inl (expireIn_zero h₀)
  | expireAt key deadlineSecs =>
      cases h
      have := expireBy_zero h₀
      -- a deadline that has passed empties the cell, whatever it held
      by_cases hp : deadlineSecs.toNat ≤ env.clock.nowSecs
      · exact .inr (.inl ⟨hp, by simpa [hp] using this⟩)
      · exact .inl (by simpa [hp] using this)
  | pExpireAt key deadlineMs =>
      cases h
      have := expireBy_zero h₀
      by_cases hp : deadlineMs.toNat ≤ env.clock.nowMillis
      · exact .inr (.inl ⟨hp, by simpa [hp] using this⟩)
      · exact .inl (by simpa [hp] using this)
  | _ => cases h

theorem replyOf_eq_error {α : Type} {f : α → RespValue} (hf : ∀ a text, f a ≠ .simpleError text)
    {r : Except StoreError α} {text : String} (h : replyOf f r = .simpleError text) :
    ∃ e, r = .error e := by
  cases r with
  | ok a => exact absurd h (hf a text)
  | error e => exact ⟨e, rfl⟩

theorem expireIn_error {c : Clock} {d : Duration} {x : Cell} {text : String}
    (h : (expireIn c d x).1 = some (.simpleError text)) : (expireIn c d x).2 = x := by
  unfold expireIn at h ⊢
  cases hd : c.mono.checkedAdd d with
  | none => rfl
  | some deadline => rw [hd] at h; cases h

theorem expireBy_ne_error {past : Bool} {deadline : Option Instant} {x : Cell} {text : String} :
    (expireBy past deadline x).1 ≠ some (.simpleError text) := by
  unfold expireBy
  cases past with
  | true => simp
  | false => cases deadline <;> simp [reply, boolReply]

theorem pop_error {now : Instant} {count : UInt64}
    {popFn : List String → Option (String × List String)} {x : Cell} {e : StoreError}
    (h : (x.pop now count popFn).1 = some (.error e)) : (x.pop now count popFn).2 = x := by
  unfold pop at h ⊢
  split
  · rfl
  · next hc =>
      rw [if_neg hc] at h
      cases hv : x.live now with
      | none => rfl
      | some v =>
          rw [hv] at h
          cases v with
          | list l => cases h
          | str _ | set _ => rfl

theorem setReply_ne_error (g met : Bool) (prev : Option String) (text : String) :
    Executor.setReply g met prev ≠ .simpleError text := by
  cases g <;> cases met <;> simp [Executor.setReply, okReply]

/-- SET without a time of its own fails on a value of another type only, before it writes. -/
theorem set_error {c : Clock} {value : String} {condition : Option SetCondition}
    {expiry : Option SetExpiry} {g : Bool} {x : Cell} {text : String}
    (hexp : expiry = none ∨ expiry = some .keepTtl)
    (h : (set ex c value condition expiry g x).1 = some (.simpleError text)) :
    (set ex c value condition expiry g x).2 = x := by
  obtain ⟨deadline, hd⟩ : ∃ d, Executor.setDeadline c expiry x.deadline = .ok d := by
    rcases hexp with rfl | rfl <;> exact ⟨_, rfl⟩
  unfold set at h ⊢
  cases hv : Store.asString (x.live c.mono) with
  | error e => rfl
  | ok prev =>
      rw [hv] at h
      simp only [hd] at h ⊢
      split
      · next hm =>
          rw [if_pos hm] at h
          exact absurd (Option.some.inj h) (setReply_ne_error _ _ _ _)
      · rfl

theorem popReply_ne_error {count : Bool} (r : Option (List String)) (text : String) :
    Executor.popReply count r ≠ .simpleError text := by
  cases r <;> cases count <;> simp [Executor.popReply, bulkReply]

theorem spopReply_ne_error {count : Bool} (r : Option (List String)) (text : String) :
    Executor.spopReply count r ≠ .simpleError text := by
  cases r <;> cases count <;> simp [Executor.spopReply, Executor.membersReply, bulkReply]

theorem lset_error {now : Instant} {index : Int} {element : String} {x : Cell} {e : StoreError}
    (h : (x.lset now index element).1 = .error e) : (x.lset now index element).2 = x := by
  unfold lset at h ⊢
  cases hv : x.live now with
  | none => rfl
  | some v =>
      rw [hv] at h
      cases v with
      | str _ | set _ => rfl
      | list l =>
          dsimp only at h ⊢
          cases hi : Store.calculateIndex index l.length with
          | error e => rfl
          | ok i =>
              rw [hi] at h
              dsimp only at h ⊢
              split
              · rfl
              · next hlt =>
                  rw [if_neg hlt] at h
                  cases h

theorem sadd_error {now : Instant} {members : List String} {x : Cell} {e : StoreError}
    (h : (x.sadd now members).1 = .error e) : (x.sadd now members).2 = x := by
  unfold sadd at h ⊢
  cases hv : x.live now with
  | none => rw [hv] at h; cases h
  | some v =>
      rw [hv] at h
      cases v with
      | str _ | list _ => rfl
      | set s => cases h

theorem spop_error {now : Instant} {draws : Draws} {count : Option UInt64} {x : Cell}
    {e : StoreError} (h : (x.spop now draws count).1 = .error e) :
    (x.spop now draws count).2 = x := by
  unfold spop at h ⊢
  cases hv : x.live now with
  | none => rfl
  | some v =>
      rw [hv] at h
      cases v with
      | str _ | list _ => rfl
      | set s => cases h

theorem srem_error {now : Instant} {members : List String} {x : Cell} {e : StoreError}
    (h : (x.srem now members).1 = .error e) : (x.srem now members).2 = x := by
  unfold srem at h ⊢
  cases hv : x.live now with
  | none => rfl
  | some v =>
      rw [hv] at h
      cases v with
      | str _ | list _ => rfl
      | set s => cases h

/-- **An error reply.**  The cell is as it was, unless the command is GETDEL or a SET with a time
of its own. -/
theorem exec_error {cmd : Command} {key : String} {g : Cell → Reply × Cell} {x : Cell}
    {text : String} (h : exec ex env cmd = some (key, g))
    (hset : ∀ k v c e b, cmd = .set k v c (some e) b → e = .keepTtl)
    (hdel : ∀ k, cmd ≠ .getDel k) (he : (g x).1 = some (.simpleError text)) : (g x).2 = x := by
  cases cmd with
  | set k v c e b =>
      cases h
      refine set_error ?_ he
      cases e with
      | none => exact .inl rfl
      | some e => exact .inr (congrArg some (hset _ v c e b rfl))
  | getDel key => exact absurd rfl (hdel key)
  | lPush | rPush | lPushX | rPushX => cases h; exact pushLoop_error he
  | expire | pExpire => cases h; exact expireIn_error he
  | expireAt | pExpireAt => cases h; exact absurd he expireBy_ne_error
  | persist key => cases h; cases he
  | lPop key count | rPop key count =>
      cases h
      obtain ⟨r, hr, hf⟩ := Option.map_eq_some_iff.mp he
      obtain ⟨e, rfl⟩ := replyOf_eq_error popReply_ne_error hf
      exact pop_error hr
  | lSet key index element =>
      cases h
      obtain ⟨e, hr⟩ := replyOf_eq_error (fun _ _ => by simp [okReply]) (Option.some.inj he)
      exact lset_error hr
  | sAdd key members =>
      cases h
      obtain ⟨e, hr⟩ := replyOf_eq_error (fun _ _ => by simp) (Option.some.inj he)
      exact sadd_error hr
  | sPop key count =>
      cases h
      obtain ⟨e, hr⟩ := replyOf_eq_error spopReply_ne_error (Option.some.inj he)
      exact spop_error hr
  | sRem key members =>
      cases h
      obtain ⟨e, hr⟩ := replyOf_eq_error (fun _ _ => by simp) (Option.some.inj he)
      exact srem_error hr
  | _ => cases h

end Cell

end Thesaurus
