import Thesaurus.Commands.Panics
import Thesaurus.Commands.Set
import Thesaurus.Expiry.Logged
import Thesaurus.Log.ZeroReply

/-!
# Expiry — a cell after the restart

The replay executes every entry at the clock of the restart, so a value whose deadline passed before
the restart is missing for all of them; a SET leaves its string there, under a deadline that has
passed.  `Cell.Restored` relates a cell of the run to the one that the replay has in its place.
There is one lemma for each command: what the command may find so that it and its replay leave
related cells.
-/

namespace Thesaurus
open StoreInner

/-! ### One key -/

/-- A cell `x` of the run and the cell `y` that the replay has in its place.  A value that is not
gone at `now` is in `y` and is not gone at `now'`.  In the place of one that is gone the replay has
nothing, or a string whose deadline has passed as well: `left` is that string. -/
structure Cell.Restored (now now' : Instant) (left : Option String) (x y : Cell) : Prop where
  kept : x.expired now = false → y.value = x.value ∧ y.expired now' = false
  gone : x.expired now = true → y.value = left.map .str ∧ y.expired now' = left.isSome ∧
    (left.isSome = true → ∃ v, x.value = some (.str v))

/-- The deadline that SET gives a key whose deadline was `old` has passed at `now`. -/
def SetExpiry.overdue (c : Clock) (now : Instant) (old : Option Instant)
    (expiry : Option SetExpiry) : Bool :=
  (SetExpiry.deadline c old expiry).any (· ≤ now)

namespace Cell.Restored

variable {t now now' : Instant} {left : Option String} {x y : Cell}

theorem noDeadline (v : Option StoreValue) : Restored now now' left ⟨v, none⟩ ⟨v, none⟩ where
  kept _ := ⟨rfl, rfl⟩
  gone h := nomatch h

/-- Both have the same live value. -/
theorem live (h : Restored now now' left x y) : y.live now' = x.live now := by
  unfold Cell.live
  cases hx : x.expired now with
  | false =>
      obtain ⟨hval, hy⟩ := h.kept hx
      rw [hy, hval]
  | true =>
      obtain ⟨hval, hy, -⟩ := h.gone hx
      rw [hval, hy]
      cases left <;> rfl

/-- Nothing is left of a value that is no string. -/
theorem left_eq_none (h : Restored now now' left x y) (he : x.expired now = true)
    (hx : ∀ v, x.value ≠ some (.str v)) : left = none := by
  cases left with
  | none => rfl
  | some v =>
      obtain ⟨-, -, hstr⟩ := h.gone he
      obtain ⟨u, hu⟩ := hstr rfl
      exact absurd hu (hx u)

/-- The replay has nothing where the run has no value. -/
theorem absent (h : Restored now now' left x y) (hx : x.value = none) :
    y.value = none ∧ y.expired now' = false := by
  cases he : x.expired now with
  | false =>
      obtain ⟨hval, hy⟩ := h.kept he
      exact ⟨hval.trans hx, hy⟩
  | true =>
      obtain ⟨hval, hy, -⟩ := h.gone he
      obtain rfl := h.left_eq_none he (by simp [hx])
      exact ⟨hval, hy⟩

/-- A command at `t` finds nothing, as does its replay, or both find one value, or the command
finds a value that is gone at the restart. -/
theorem finds (h : Restored now now' left x y) (hle : t ≤ now) :
    (x.live t = none ∧ x.live now = none ∧ y.live now' = none) ∨
    (∃ v, x.live t = some v ∧ x.live now = some v ∧ y.live now' = some v) ∨
    (∃ v, x.live t = some v ∧ x.live now = none ∧ y.live now' = none) := by
  cases hx : x.live now with
  | some v => exact .inr (.inl ⟨v, live_of_later hle hx, rfl, h.live.trans hx⟩)
  | none =>
      cases ht : x.live t with
      | none => exact .inl ⟨rfl, rfl, h.live.trans hx⟩
      | some v => exact .inr (.inr ⟨v, rfl, rfl, h.live.trans hx⟩)

theorem expired_of_finds {v : StoreValue} (ht : x.live t = some v) (hx : x.live now = none) :
    x.expired now = true := by
  by_contra hne
  rw [Cell.live, if_neg hne, value_of_live ht] at hx
  cases hx

/-- Both values are replaced. -/
theorem withValue (h : Restored now now' left x y) {v : StoreValue} (hx : x.live now = some v)
    (w : Option StoreValue) :
    Restored now now' left { x with value := w } { y with value := w } where
  kept _ := ⟨rfl, (h.kept (not_expired_of_live hx)).2⟩
  gone he := by
    have he : x.expired now = true := he
    rw [not_expired_of_live hx] at he
    cases he

/-- The value of a key that is gone at the restart is replaced. -/
theorem expiring (h : Restored now now' left x y) {v : StoreValue} (ht : x.live t = some v)
    (hv : ∀ w, v ≠ .str w) (hx : x.live now = none) (w : Option StoreValue) :
    Restored now now' left { x with value := w } y := by
  have he : x.expired now = true := expired_of_finds ht hx
  obtain rfl : left = none := h.left_eq_none he fun u hu => by
    rw [value_of_live ht] at hu
    exact hv u (Option.some.inj hu)
  obtain ⟨hval, hy, -⟩ := h.gone he
  refine ⟨fun hk => ?_, fun _ => ⟨hval, hy, nofun⟩⟩
  have hk : x.expired now = false := hk
  rw [he] at hk
  cases hk

/-- Of a value that is gone at the restart, nothing is left. -/
theorem empty_right (he : x.expired now = true) : Restored now now' none x empty where
  kept hk := by
    rw [he] at hk
    cases hk
  gone _ := ⟨rfl, rfl, nofun⟩

/-- A string with a deadline on the same side of the restart. -/
theorem ofString {v : String} {d d' : Option Instant}
    (hd : Cell.expired now ⟨some (.str v), d⟩ = Cell.expired now' ⟨some (.str v), d'⟩)
    (hleft : Cell.expired now ⟨some (.str v), d⟩ = true → left = some v) :
    Restored now now' left ⟨some (.str v), d⟩ ⟨some (.str v), d'⟩ where
  kept he := ⟨rfl, hd.symm.trans he⟩
  gone he := by
    rw [hleft he]
    exact ⟨rfl, hd.symm.trans he, fun _ => ⟨v, rfl⟩⟩

/-! ### The commands -/

/-- LPUSH and RPUSH find no list that is gone at the restart. -/
theorem pushLoop (h : Restored now now' left x y) (hle : t ≤ now) {createIfMissing : Bool}
    (hlast : createIfMissing = true → ∀ l, x.live t = some (.list l) → x.live now = some (.list l))
    (pushFn : List String → String → List String) (elements : List String) :
    (x.pushLoop t createIfMissing pushFn elements 0).1 = some (errorReply .wrongType) ∨
    Restored now now' left (x.pushLoop t createIfMissing pushFn elements 0).2
      (y.pushLoop now' createIfMissing pushFn elements 0).2 := by
  cases elements with
  | nil => exact .inr h
  | cons element elements =>
      rcases h.finds hle with ⟨ht, -, hy⟩ | ⟨v, ht, hx, hy⟩ | ⟨v, ht, hx, hy⟩
      · refine .inr ?_
        cases createIfMissing with
        | true => rw [pushLoop_create ht, pushLoop_create hy]; exact noDeadline _
        | false => rw [pushLoop_absent ht, pushLoop_absent hy]; exact h
      · cases v with
        | list l => rw [pushLoop_list ht, pushLoop_list hy]; exact .inr (h.withValue hx _)
        | str _ | set _ => exact .inl (by rw [pushLoop_wrongType ht (by simp)])
      · cases v with
        | list l =>
            cases createIfMissing with
            | true => rw [hlast rfl l ht] at hx; cases hx
            | false =>
                rw [pushLoop_list ht, pushLoop_absent hy]
                exact .inr (h.expiring ht (by simp) hx _)
        | str _ | set _ => exact .inl (by rw [pushLoop_wrongType ht (by simp)])

theorem pop (h : Restored now now' left x y) (hle : t ≤ now) (count : UInt64)
    (popFn : List String → Option (String × List String)) :
    Restored now now' left (x.pop t count popFn).2 (y.pop now' count popFn).2 := by
  unfold Cell.pop
  split
  · exact h
  · rcases h.finds hle with ⟨ht, -, hy⟩ | ⟨v, ht, hx, hy⟩ | ⟨v, ht, hx, hy⟩
    · rw [ht, hy]
      exact h
    · rw [ht, hy]
      cases v with
      | list l => exact h.withValue hx _
      | str _ | set _ => exact h
    · rw [ht, hy]
      cases v with
      | list l => exact h.expiring ht (by simp) hx _
      | str _ | set _ => exact h

/-- SADD has nothing to add to a set that is gone at the restart. -/
theorem sadd (h : Restored now now' left x y) (hle : t ≤ now) {members : List String}
    (hlast : ∀ set, x.live t = some (.set set) → (∃ m ∈ members, m ∉ set) →
      x.live now = some (.set set)) :
    ((x.sadd t members).1 = .error .wrongType ∨ (x.sadd t members).1 = .ok 0) ∨
    Restored now now' left (x.sadd t members).2 (y.sadd now' members).2 := by
  unfold Cell.sadd
  rcases h.finds hle with ⟨ht, -, hy⟩ | ⟨v, ht, hx, hy⟩ | ⟨v, ht, hx, hy⟩
  · rw [ht, hy]
    exact .inr (noDeadline _)
  · rw [ht, hy]
    cases v with
    | set set => exact .inr (h.withValue hx _)
    | str _ | list _ => exact .inl (.inl rfl)
  · rw [ht, hy]
    cases v with
    | set set =>
        have hall : ∀ m ∈ members, m ∈ set := by
          by_contra hno
          push Not at hno
          rw [hlast set ht hno] at hx
          cases hx
        have hsub : members.toFinset ⊆ set := fun m hm => hall m (List.mem_toFinset.mp hm)
        have hnone : (Store.insertAll members set).1 = 0 := by
          rw [insertAll_eq, Finset.union_eq_left.mpr hsub, Nat.sub_self]
        exact .inl (.inr (congrArg Except.ok hnone))
    | str _ | list _ => exact .inl (.inl rfl)

theorem srem (h : Restored now now' left x y) (hle : t ≤ now) (members : List String) :
    Restored now now' left (x.srem t members).2 (y.srem now' members).2 := by
  unfold Cell.srem
  rcases h.finds hle with ⟨ht, -, hy⟩ | ⟨v, ht, hx, hy⟩ | ⟨v, ht, hx, hy⟩
  · rw [ht, hy]
    exact h
  · rw [ht, hy]
    cases v with
    | set set => exact h.withValue hx _
    | str _ | list _ => exact h
  · rw [ht, hy]
    cases v with
    | set set => exact h.expiring ht (by simp) hx _
    | str _ | list _ => exact h

/-- The replay holds the value that the run does, gone or not. -/
theorem value_eq (h : Restored now now' left x y)
    (hheld : x.expired now = true → x.value = left.map .str) : y.value = x.value := by
  cases he : x.expired now with
  | false => exact (h.kept he).1
  | true => exact (h.gone he).1.trans (hheld he).symm

/-- PERSIST, of a value that the replay holds. -/
theorem persist (h : Restored now now' left x y)
    (hheld : x.expired now = true → x.value = left.map .str) :
    Restored now now' left x.persist.2 y.persist.2 := by
  show Restored now now' left ⟨x.value, none⟩ ⟨y.value, none⟩
  rw [h.value_eq hheld]
  exact noDeadline _

/-- A deadline after the restart is set on a value that the replay holds. -/
theorem setTtl (h : Restored now now' left x y)
    (hheld : x.expired now = true → x.value = left.map .str)
    {d d' : Instant} (hd : now < d) (hd' : now' < d') :
    Restored now now' left (x.setTtl d).2 (y.setTtl d').2 := by
  have hval := h.value_eq hheld
  unfold Cell.setTtl
  cases hv : x.value with
  | none =>
      rw [hval, hv]
      exact h
  | some v =>
      rw [hval, hv]
      have hahead : ∀ {m e : Instant}, m < e → Cell.expired m ⟨some v, some e⟩ = false := by
        intro m e hm
        simp [expired, Nat.not_le.mpr hm]
      show Restored now now' left ⟨some v, some d⟩ ⟨some v, some d'⟩
      refine ⟨fun _ => ⟨rfl, hahead hd'⟩, fun he => ?_⟩
      rw [hahead hd] at he
      cases he

/-- A deadline that has passed at the restart. -/
theorem expired_setTtl {x : Cell} (hx : x.value ≠ none) {d : Instant} (hd : d ≤ now) :
    (x.setTtl d).2.expired now = true := by
  obtain ⟨v, hv⟩ := Option.ne_none_iff_exists'.mp hx
  simp [Cell.setTtl, hv, expired, hd]

/-- EXPIREAT and PEXPIREAT at the restart, for a deadline that was set at `deadline`. -/
theorem expireBy {r : Clock} (h : Restored now r.mono left x y) {u : TimeUnit} {n : UInt64}
    {deadline : Instant} (hx : x.value ≠ none)
    (hpast : n.toNat ≤ u.now r → deadline ≤ now)
    (hahead : u.now r < n.toNat → r.mono + u.offset r n < Instant.limit ∧
      (now < deadline → x.expired now = true → x.value = left.map .str) ∧
      (deadline ≤ now → x.expired now = true ∧ left = none)) :
    (Cell.expireBy (decide (n.toNat ≤ u.now r)) (r.mono.checkedAdd (u.offset r n)) y).1 ≠ none ∧
    Restored now r.mono (if n.toNat ≤ u.now r then none else left) (x.setTtl deadline).2
      (Cell.expireBy (decide (n.toNat ≤ u.now r)) (r.mono.checkedAdd (u.offset r n)) y).2 := by
  unfold Cell.expireBy
  by_cases hp : n.toNat ≤ u.now r
  · rw [if_pos (decide_eq_true hp), if_pos hp]
    exact ⟨Option.some_ne_none _, empty_right (expired_setTtl hx (hpast hp))⟩
  · have hreach : u.now r < n.toNat := Nat.not_le.mp hp
    have hoff : 0 < u.offset r n := Nat.mul_pos (Nat.sub_pos_of_lt hreach) u.nanos_pos
    obtain ⟨hfit, hheld, hstale⟩ := hahead hreach
    rw [if_neg fun h => hp (of_decide_eq_true h), if_neg hp,
      Instant.checkedAdd_eq_some.mpr ⟨hfit, rfl⟩]
    refine ⟨Option.some_ne_none _, ?_⟩
    by_cases hd : now < deadline
    · exact h.setTtl (hheld hd) hd (Nat.lt_add_of_pos_right hoff)
    · -- the value was gone before, and stays gone
      obtain ⟨he, rfl⟩ := hstale (Nat.not_lt.mp hd)
      obtain ⟨hval, hy, -⟩ := h.gone he
      have hsame : (y.setTtl (r.mono + u.offset r n)).2 = y := by
        rw [Cell.setTtl, hval]
        rfl
      show Restored now r.mono none (x.setTtl deadline).2 (y.setTtl (r.mono + u.offset r n)).2
      rw [hsame]
      refine ⟨fun hk => ?_, fun _ => ⟨hval, hy, fun hs => absurd hs Bool.false_ne_true⟩⟩
      rw [expired_setTtl hx (Nat.not_lt.mp hd)] at hk
      cases hk

/-- What SMOVE leaves of its source. -/
theorem shrinkSet (h : Restored now now' left x y) {v : StoreValue} (hx : x.live now = some v)
    (set : Finset String) : Restored now now' left (x.shrinkSet set) (y.shrinkSet set) := by
  unfold Cell.shrinkSet
  split
  · exact noDeadline none
  · exact h.withValue hx _

/-- What SMOVE leaves of a source that is gone at the restart. -/
theorem shrinkSet_left (h : Restored now now' left x y) {v : StoreValue} (ht : x.live t = some v)
    (hv : ∀ w, v ≠ .str w) (hx : x.live now = none) (set : Finset String) :
    Restored now now' left (x.shrinkSet set) y := by
  unfold Cell.shrinkSet
  split
  · have he : x.expired now = true := expired_of_finds ht hx
    obtain rfl : left = none := h.left_eq_none he fun u hu => by
      rw [value_of_live ht] at hu
      exact hv u (Option.some.inj hu)
    obtain ⟨hval, hy, -⟩ := h.gone he
    exact ⟨fun _ => ⟨hval, hy⟩, nofun⟩
  · exact h.expiring ht hv hx _

/-- What SMOVE makes of its destination. -/
theorem addMember (h : Restored now now' left x y) (hlast : x.live now = x.live t)
    (member : String) :
    Restored now now' left (x.addMember t member) (y.addMember now' member) := by
  unfold Cell.addMember
  rw [h.live, hlast]
  cases ht : x.live t with
  | none => exact noDeadline _
  | some v =>
      cases v with
      | set set => exact h.withValue (hlast.trans ht) _
      | str _ | list _ => exact noDeadline _

/-- What SMOVE makes of a destination that is gone at the restart or has the member. -/
theorem addMember_left (h : Restored now now' left x y) {set : Finset String} {member : String}
    (ht : x.live t = some (.set set)) (hlast : x.live now = none ∨ member ∈ set) :
    Restored now now' left (x.addMember t member) y := by
  unfold Cell.addMember
  rw [ht]
  dsimp only
  rcases hlast with hx | hm
  · exact h.expiring ht (by simp) hx _
  · rw [Finset.insert_eq_of_mem hm, withValue_self ht]
    exact h

/-! ### SET -/

/-- A SET that may write a deadline that cannot be represented leaves the string, and panics or
answers with an error. -/
theorem set_of_not_fits {ex : Executor} {c : Clock} {value : String}
    {condition : Option SetCondition} {expiry : Option SetExpiry} {g : Bool}
    {prev : Option String} (hp : Store.asString (x.live c.mono) = .ok prev)
    (hmet : ex.conditionMet condition prev = true) (hfit : ¬SetExpiry.Fits c expiry) :
    (Cell.set ex c value condition expiry g x).2 = setString value ∧
      ∀ response, (Cell.set ex c value condition expiry g x).1 = some response →
        ∃ text, response = .simpleError text := by
  simp only [SetExpiry.Fits, not_forall, Nat.not_lt] at hfit
  obtain ⟨e, d, rfl, hoff, hlim⟩ := hfit
  rw [Cell.set, hp]
  dsimp only
  rw [if_pos hmet, Executor.setDeadline_of_not_fits hoff hlim]
  cases e.isAbsolute with
  | true =>
      refine ⟨rfl, fun response hr => ?_⟩
      cases hr
  | false =>
      refine ⟨rfl, fun response hr => ?_⟩
      cases hr
      exact ⟨_, rfl⟩

/-- The replay's cell has a deadline that has passed exactly when a string is left in it. -/
theorem expired_right (h : Restored now now' left x y) :
    y.expired now' = (x.expired now && left.isSome) := by
  cases he : x.expired now with
  | false => exact (h.kept he).2
  | true => exact (h.gone he).2.1

/-- A cell that a SET can read can be read later. -/
theorem asString_later {prev : Option String} (hle : t ≤ now)
    (hp : Store.asString (x.live t) = .ok prev) :
    ∃ prev', Store.asString (x.live now) = .ok prev' :=
  match hx : x.live now with
  | none   => ⟨none, rfl⟩
  | some v => ⟨prev, by rw [← hp, live_of_later hle hx]⟩

/-- Two readings of one cell differ only when its value is gone at the later one. -/
theorem expired_of_reads {prev prev' : Option String} (hle : t ≤ now)
    (hp : Store.asString (x.live t) = .ok prev) (hp' : Store.asString (x.live now) = .ok prev')
    (hne : prev ≠ prev') : x.expired now = true ∧ ∃ v, x.value = some (.str v) := by
  cases ht : x.live t with
  | none =>
      have hx : x.live now = none := by
        by_contra hx
        obtain ⟨v, hv⟩ := Option.ne_none_iff_exists'.mp hx
        rw [live_of_later hle hv] at ht
        cases ht
      rw [ht] at hp
      rw [hx, hp] at hp'
      exact absurd (Except.ok.inj hp') hne
  | some v =>
      cases hx : x.live now with
      | some w =>
          have hw := live_of_later hle hx
          rw [hx, ← hw, hp] at hp'
          exact absurd (Except.ok.inj hp') hne
      | none =>
          refine ⟨expired_of_finds ht hx, ?_⟩
          rw [ht] at hp
          cases v with
          | str v => exact ⟨v, value_of_live ht⟩
          | list _ | set _ => cases hp

/-- What the replay's SET makes of a deadline, by the string that is left in its cell. -/
theorem overdue_right {r : Clock} (h : Restored now r.mono left x y)
    (expiry : Option SetExpiry) :
    SetExpiry.overdue r r.mono y.deadline expiry =
      SetExpiry.overdue r r.mono (if x.expired now && left.isSome then some r.mono else none)
        expiry := by
  rw [← h.expired_right]
  cases expiry with
  | none => rfl
  | some e =>
      cases e with
      | keepTtl =>
          show y.expired r.mono = _
          cases he : y.expired r.mono <;> simp [SetExpiry.overdue, SetExpiry.deadline]
      | ex | px | exAt | pxAt => rfl

/-- A string that the replay has, written again without a deadline. -/
theorem setString_left (h : Restored now now' left x y) {v : String}
    (hx : x.live now = some (.str v)) (left' : Option String) :
    Restored now now' left' (setString v) y := by
  obtain ⟨hval, hexp⟩ := h.kept (not_expired_of_live hx)
  exact ⟨fun _ => ⟨hval.trans (value_of_live hx), hexp⟩, nofun⟩

/-- SET and its replay, with a deadline of its own: both leave a string that is live at the restart,
or neither does. -/
theorem set {ex : Executor} {c r : Clock} (h : Restored now r.mono left x y)
    (hle : c.mono ≤ now) (value : String) {condition : Option SetCondition}
    {expiry expiry' : Option SetExpiry} (g : Bool) {prev prev' : Option String}
    (hp : Store.asString (x.live c.mono) = .ok prev)
    (hp' : Store.asString (x.live now) = .ok prev')
    (hfit : ex.conditionMet condition prev = true → SetExpiry.Fits c expiry)
    (hfit' : ex.conditionMet condition prev' = true → SetExpiry.Fits r expiry')
    (hside : ex.conditionMet condition prev = true ∧
        SetExpiry.overdue c now x.deadline expiry = false ↔
      ex.conditionMet condition prev' = true ∧ SetExpiry.overdue r r.mono
        (if x.expired now && left.isSome then some r.mono else none) expiry' = false) :
    (∃ b, (Cell.set ex c value condition expiry g x).1 = some (Executor.setReply g b prev)) ∧
    (Cell.set ex r value condition expiry' g y).1 ≠ none ∧
    Restored now r.mono
      (if ex.conditionMet condition prev' && SetExpiry.overdue r r.mono
          (if x.expired now && left.isSome then some r.mono else none) expiry'
        then some value else left)
      (Cell.set ex c value condition expiry g x).2
      (Cell.set ex r value condition expiry' g y).2 := by
  have hy : Store.asString (y.live r.mono) = .ok prev' := by rw [h.live, hp']
  rw [← h.overdue_right] at hside ⊢
  rw [Cell.set, Cell.set, hp, hy]
  dsimp only
  -- where only one of them writes, what the run read is gone at the restart
  have hgone : ex.conditionMet condition prev ≠ ex.conditionMet condition prev' →
      x.expired now = true ∧ ∃ v, x.value = some (.str v) := fun hne =>
    expired_of_reads hle hp hp' fun he => hne (by rw [he])
  cases hm : ex.conditionMet condition prev with
  | true =>
      rw [if_pos rfl, setDeadline_of_fits (hfit hm)]
      rw [hm] at hside hgone
      cases hm' : ex.conditionMet condition prev' with
      | true =>
          rw [if_pos rfl, setDeadline_of_fits (hfit' hm'), Bool.true_and]
          have hboth : SetExpiry.overdue c now x.deadline expiry =
              SetExpiry.overdue r r.mono y.deadline expiry' := by simpa [hm'] using hside
          exact ⟨⟨true, rfl⟩, Option.some_ne_none _,
            ofString hboth fun he => if_pos (hboth.symm.trans he)⟩
      | false =>
          rw [if_neg Bool.false_ne_true, Bool.false_and, if_neg Bool.false_ne_true]
          have hover : SetExpiry.overdue c now x.deadline expiry = true := by
            simpa [hm'] using hside
          obtain ⟨hval, hyexp, -⟩ := h.gone (hgone (by rw [hm']; decide)).1
          refine ⟨⟨true, rfl⟩, Option.some_ne_none _, fun hk => ?_,
            fun _ => ⟨hval, hyexp, fun _ => ⟨value, rfl⟩⟩⟩
          exact absurd (hover.symm.trans hk) Bool.noConfusion
  | false =>
      rw [if_neg Bool.false_ne_true]
      rw [hm] at hside hgone
      cases hm' : ex.conditionMet condition prev' with
      | true =>
          rw [if_pos rfl, setDeadline_of_fits (hfit' hm'), Bool.true_and]
          have hover : SetExpiry.overdue r r.mono y.deadline expiry' = true := by
            simpa [hm'] using hside
          obtain ⟨he, hstr⟩ := hgone (by rw [hm']; decide)
          rw [if_pos hover]
          refine ⟨⟨false, rfl⟩, Option.some_ne_none _, fun hk => ?_,
            fun _ => ⟨rfl, hover, fun _ => hstr⟩⟩
          exact absurd (he.symm.trans hk) Bool.noConfusion
      | false =>
          rw [if_neg Bool.false_ne_true, Bool.false_and, if_neg Bool.false_ne_true]
          exact ⟨⟨false, rfl⟩, Option.some_ne_none _, h⟩

end Cell.Restored

end Thesaurus
