import Thesaurus.Commands.Lists

/-!
# Commands — panics

Two calls of the store panic.  `pop_inner` sizes its vector by the count of the client, before it
looks at the key; and `smove` looks each of its keys up twice, with a new reading of the clock, so
that a source which passed the checks can be gone when it is to be changed.

* `pop_answers_iff`: LPOP and RPOP answer, and allocate for no more elements than the list has,
  exactly for the counts up to its length that a vector of strings can have.
* `smove_answers_iff`: SMOVE answers unless its source expires between the checks and the move.
-/

namespace Thesaurus
open StoreInner

/-! ### LPOP and RPOP -/

/-- What a pop answers, by the value it finds. -/
def popAnswer (e : End) (count : Option UInt64) : Option StoreValue → RespValue
  | none           => .bulkString none
  | some (.list l) => Executor.popReply count.isSome (some (e.taken (count.getD 1).toNat l))
  | some _         => errorReply .wrongType

/-- The function that `lpop` and `rpop` hand to `pop_inner`. -/
def Store.popFn : End → List String → Option (String × List String)
  | .front => Store.popFront
  | .back  => Store.popBack

theorem popLoop_popFn (e : End) (n : Nat) (l : List String) :
    (Store.popLoop (Store.popFn e) n l).1 = e.taken n l := by
  cases e with
  | front => exact congrArg Prod.fst (Cell.popLoop_front n l)
  | back => exact congrArg Prod.fst (Cell.popLoop_back n l)

/-- A pop of a cell answers when the vector can be made, and panics otherwise. -/
theorem pop_cell_iff (e : End) (now : Instant) (count : Option UInt64) (x : Cell) :
    Option.map (replyOf (Executor.popReply count.isSome))
          (x.pop now (count.getD 1) (Store.popFn e)).1 =
        some (popAnswer e count (x.live now)) ↔
      24 * (count.getD 1).toNat ≤ 2 ^ 63 - 1 := by
  unfold Cell.pop
  by_cases h : 24 * (count.getD 1).toNat > 2 ^ 63 - 1
  · rw [if_pos h]
    exact iff_of_false (fun he => nomatch he) (Nat.not_le.mpr h)
  · rw [if_neg h]
    refine iff_of_true ?_ (Nat.not_lt.mp h)
    cases x.live now with
    | none => rfl
    | some v =>
        cases v with
        | str _ | set _ => rfl
        | list l =>
            show some (Executor.popReply _ (some (Store.popLoop (Store.popFn e) _ l).1)) = _
            rw [popLoop_popFn]
            rfl

/-- How many elements a list has; what is no list has none. -/
def heldElements : Option StoreValue → Nat
  | some (.list l) => l.length
  | _              => 0

/-- A pop with a count allocates for no more elements than are there. -/
def AllocatesHeld (count : Option UInt64) (held : Option StoreValue) : Prop :=
  ∀ n bytes, count = some n → Store.popElements n = some bytes → bytes ≤ 24 * heldElements held

theorem allocatesHeld_iff {count : Option UInt64} (h : 24 * (count.getD 1).toNat ≤ 2 ^ 63 - 1)
    (held : Option StoreValue) :
    AllocatesHeld count held ↔ ∀ n, count = some n → n.toNat ≤ heldElements held := by
  unfold AllocatesHeld
  refine forall_congr' fun n => ?_
  constructor
  · rintro hbytes rfl
    have hn : Store.popElements n = some (24 * n.toNat) := if_neg (Nat.not_lt.mpr h)
    exact Nat.le_of_mul_le_mul_left (hbytes _ rfl hn) (by decide)
  · rintro hn bytes rfl hbytes
    have hfit : Store.popElements n = some (24 * n.toNat) := if_neg (Nat.not_lt.mpr h)
    obtain rfl : 24 * n.toNat = bytes := Option.some.inj (hfit.symm.trans hbytes)
    exact Nat.mul_le_mul_left 24 (hn rfl)

/-- **Which counts a pop survives.**  LPOP and RPOP answer with nil, the elements they take or a
type error, and a count they are given sizes no allocation beyond the elements that the list has,
exactly when `count` strings fit in a vector and the list has as many elements as are asked for. -/
theorem pop_answers_iff (ex : Executor) (env : Env) (s : StoreInner) (key : String)
    (count : Option UInt64) :
    ((ex.exec env (.lPop key count) s).1 =
          some (popAnswer .front count (s.get env.clock.mono key)) ∧
        AllocatesHeld count (s.get env.clock.mono key) ↔
        24 * (count.getD 1).toNat ≤ 2 ^ 63 - 1 ∧
          ∀ n, count = some n → n.toNat ≤ heldElements (s.get env.clock.mono key)) ∧
      ((ex.exec env (.rPop key count) s).1 =
          some (popAnswer .back count (s.get env.clock.mono key)) ∧
        AllocatesHeld count (s.get env.clock.mono key) ↔
        24 * (count.getD 1).toNat ≤ 2 ^ 63 - 1 ∧
          ∀ n, count = some n → n.toNat ≤ heldElements (s.get env.clock.mono key)) := by
  constructor
  · have hcell : Cell.exec ex env (.lPop key count) = some (key, _) := rfl
    rw [exec_eq_at ex env s hcell]
    exact (and_congr_left' (pop_cell_iff .front env.clock.mono count (s.cell key))).trans
      (and_congr_right fun h => allocatesHeld_iff h _)
  · have hcell : Cell.exec ex env (.rPop key count) = some (key, _) := rfl
    rw [exec_eq_at ex env s hcell]
    exact (and_congr_left' (pop_cell_iff .back env.clock.mono count (s.cell key))).trans
      (and_congr_right fun h => allocatesHeld_iff h _)

/-- LPOP of a missing key with the largest count. -/
theorem pop_count_panics :
    ¬∀ (ex : Executor) (env : Env) (s : StoreInner) (key : String) (count : Option UInt64),
      (ex.exec env (.lPop key count) s).1 =
          some (popAnswer .front count (s.get env.clock.mono key)) ∧
        AllocatesHeld count (s.get env.clock.mono key) := fun h => by
  obtain ⟨hreply, -⟩ := h .plain (Env.at 0 0) Store.new "k" (some 18446744073709551615)
  have hpanic : (Executor.plain.exec (Env.at 0 0)
      (.lPop "k" (some 18446744073709551615)) Store.new).1 = none := rfl
  rw [hpanic] at hreply
  cases hreply

/-- LPOP of a missing key with a count that a vector can just have asks for nearly all of it. -/
example : Store.popElements 384307168202282325 = some 9223372036854775800 ∧
    heldElements (Store.new.get 0 "k") = 0 := ⟨rfl, rfl⟩

/-! ### SMOVE -/

namespace Cell

/-- Whatever is live was live before. -/
theorem live_of_later {t t' : Instant} {x : Cell} {v : StoreValue} (hle : t ≤ t')
    (h : x.live t' = some v) : x.live t = some v := by
  have hval : x.value = some v := value_of_live h
  have hexp : x.expired t' = false := not_expired_of_live h
  rw [live, if_neg, hval]
  intro he
  rw [expired, Option.any_eq_true] at he
  obtain ⟨d, hd, hdt⟩ := he
  have hpast : x.expired t' = true := by
    rw [expired, Option.any_eq_true]
    exact ⟨d, hd, decide_eq_true (Nat.le_trans (of_decide_eq_true hdt) hle)⟩
  rw [hexp] at hpast
  cases hpast

/-- A live value is still there later, or its deadline has passed. -/
theorem live_later {t : Instant} {x : Cell} {v : StoreValue} (h : x.live t = some v)
    (t' : Instant) :
    x.live t' = some v ∨ ∃ d, x.deadline = some d ∧ d ≤ t' := by
  by_cases he : x.expired t' = true
  · rw [expired, Option.any_eq_true] at he
    obtain ⟨d, hd, hdt⟩ := he
    exact .inr ⟨d, hd, of_decide_eq_true hdt⟩
  · rw [live, if_neg he]
    exact .inl (value_of_live h)

theorem live_of_deadline_le {t d : Instant} {x : Cell} (hd : x.deadline = some d) (h : d ≤ t) :
    x.live t = none := by
  rw [live, if_pos]
  rw [expired, hd, Option.any_some]
  exact decide_eq_true h

end Cell

section Smove

variable {s : StoreInner} {t₁ t₂ t₃ t₄ : Instant} {source destination member : String}
  {set : Finset String}

/-- The destination holds a set or nothing. -/
def TakesMembers (o : Option StoreValue) : Prop := ∀ v, o = some v → ∃ set, v = .set set

theorem TakesMembers.cases {o : Option StoreValue} (h : TakesMembers o) :
    o = none ∨ ∃ set, o = some (.set set) := by
  cases o with
  | none => exact .inl rfl
  | some v =>
      obtain ⟨set, rfl⟩ := h v rfl
      exact .inr ⟨set, rfl⟩

/-- A destination that passed the check of `smove` still takes members when it is looked up again,
also where it is the source that lost one. -/
theorem takesMembers_later (source : String) (set' : Finset String) (h₂₄ : t₂ ≤ t₄)
    (hd : TakesMembers (s.get t₂ destination)) :
    TakesMembers ((Store.shrinkSet s source set').getMut t₄ destination) := by
  intro v hv
  rw [getMut_eq_live, shrinkSet_eq] at hv
  by_cases he : destination = source
  · rw [he, cell_setCell_self, Cell.shrinkSet] at hv
    split at hv
    · cases hv
    · exact ⟨set', Option.some.inj (Cell.value_of_live hv).symm⟩
  · rw [cell_setCell_ne s _ he] at hv
    exact hd v (Cell.live_of_later h₂₄ hv)

/-- The checks fail. -/
theorem smove_refused
    (h : ¬((∃ set, s.get t₁ source = some (.set set) ∧ member ∈ set) ∧
      TakesMembers (s.get t₂ destination))) :
    (Store.smove s t₁ t₂ t₃ t₄ source destination member).1 = some (.ok false) ∨
      (Store.smove s t₁ t₂ t₃ t₄ source destination member).1 = some (.error .wrongType) := by
  unfold Store.smove
  cases hs : s.get t₁ source with
  | none => exact .inl rfl
  | some v =>
      cases v with
      | str _ | list _ => exact .inr rfl
      | set set =>
          have hrefused : TakesMembers (s.get t₂ destination) → member ∉ set := fun hd hm =>
            h ⟨⟨set, hs, hm⟩, hd⟩
          cases hd : s.get t₂ destination with
          | none =>
              have hm : member ∉ set := hrefused fun v hv => nomatch hd.symm.trans hv
              exact .inl (by dsimp only; rw [if_pos hm])
          | some v =>
              cases v with
              | str _ | list _ => exact .inr rfl
              | set set' =>
                  have hm : member ∉ set := hrefused fun v hv =>
                    ⟨set', (Option.some.inj (hd.symm.trans hv)).symm⟩
                  exact .inl (by dsimp only; rw [if_pos hm])

variable (hs : s.get t₁ source = some (.set set)) (hm : member ∈ set)
  (hd : TakesMembers (s.get t₂ destination))

include hs hm hd

/-- The source is gone when it is to be changed: the first `unreachable!`. -/
theorem smove_unreachable (hgone : s.getMut t₃ source = none) :
    (Store.smove s t₁ t₂ t₃ t₄ source destination member).1 = none := by
  have hnot : ¬member ∉ set := not_not.mpr hm
  rcases hd.cases with hdest | ⟨set', hdest⟩ <;>
    simp only [Store.smove, hs, hdest, hgone, if_neg hnot]

/-- The source is still there: the second `unreachable!` is never reached. -/
theorem smove_moved (h₂₄ : t₂ ≤ t₄) (hlive : s.getMut t₃ source = some (.set set)) :
    (Store.smove s t₁ t₂ t₃ t₄ source destination member).1 = some (.ok true) := by
  have hnot : ¬member ∉ set := not_not.mpr hm
  have hlater := takesMembers_later source (set.erase member) h₂₄ hd
  rcases hd.cases with hdest | ⟨set', hdest⟩ <;> rcases hlater.cases with hdest' | ⟨set'', hdest'⟩ <;>
    simp only [Store.smove, hs, hdest, hlive, hdest', if_neg hnot]

end Smove

/-- The source passes the checks of `smove` and is expired when it is looked up again. -/
def ExpiresInside (s : StoreInner) (t₁ t₂ t₃ : Instant) (source destination member : String) :
    Prop :=
  ((∃ set, s.get t₁ source = some (.set set) ∧ member ∈ set) ∧
      TakesMembers (s.get t₂ destination)) ∧
    ∃ d, s.expiryIndex.lookup source = some d ∧ d ≤ t₃

/-- **When SMOVE answers.**  For every store, and readings of the clock that do not go back, `smove`
returns a flag or a type error exactly when its source does not expire between the checks and the
move. -/
theorem smove_answers_iff (s : StoreInner) (t₁ : Instant) {t₂ t₃ t₄ : Instant} (h₂₃ : t₂ ≤ t₃)
    (h₃₄ : t₃ ≤ t₄) (source destination member : String) :
    ((∃ b, (Store.smove s t₁ t₂ t₃ t₄ source destination member).1 = some (.ok b)) ∨
        (Store.smove s t₁ t₂ t₃ t₄ source destination member).1 = some (.error .wrongType)) ↔
      ¬ExpiresInside s t₁ t₂ t₃ source destination member := by
  by_cases hcheck : (∃ set, s.get t₁ source = some (.set set) ∧ member ∈ set) ∧
      TakesMembers (s.get t₂ destination)
  swap
  · refine iff_of_true ?_ fun h => hcheck h.1
    exact (smove_refused hcheck).imp_left fun h => ⟨false, h⟩
  obtain ⟨⟨set, hs, hm⟩, hd⟩ := id hcheck
  rcases Cell.live_later (get_eq_live t₁ s source ▸ hs) t₃ with hlive | ⟨d, hdl, hd₃⟩
  · refine iff_of_true (.inl ⟨true, smove_moved hs hm hd (Nat.le_trans h₂₃ h₃₄) hlive⟩) fun h => ?_
    obtain ⟨-, d, hdl, hd₃⟩ := h
    have hgone : (s.cell source).live t₃ = none := Cell.live_of_deadline_le hdl hd₃
    rw [hlive] at hgone
    cases hgone
  · have hnone : (Store.smove s t₁ t₂ t₃ t₄ source destination member).1 = none :=
      smove_unreachable hs hm hd (Cell.live_of_deadline_le hdl hd₃)
    refine iff_of_false (fun h => ?_) fun h => h ⟨hcheck, d, hdl, hd₃⟩
    rw [hnone] at h
    rcases h with ⟨b, h⟩ | h <;> cases h

/-- A move with nothing in its way. -/
theorem smove_answers_one :
    (∃ b, (Store.smove (Store.new.putData "k" (.set {"m"})) 1 2 2 3 "k" "l" "m").1 =
        some (.ok b)) ∨
      (Store.smove (Store.new.putData "k" (.set {"m"})) 1 2 2 3 "k" "l" "m").1 =
        some (.error .wrongType) :=
  (smove_answers_iff (Store.new.putData "k" (.set {"m"})) 1 (Nat.le_refl 2) (Nat.le_succ 2)
    "k" "l" "m").mpr fun h => by
      obtain ⟨-, d, hd, -⟩ := h
      cases hd

/-- The source expires at 10, between the second lookup and the third. -/
theorem smove_source_expires :
    ¬∀ (s : StoreInner) (t₁ t₂ t₃ t₄ : Instant), t₁ ≤ t₂ → t₂ ≤ t₃ → t₃ ≤ t₄ →
      ∀ source destination member,
        (∃ b, (Store.smove s t₁ t₂ t₃ t₄ source destination member).1 = some (.ok b)) ∨
          (Store.smove s t₁ t₂ t₃ t₄ source destination member).1 = some (.error .wrongType) := by
  intro h
  have hreply := h ((Store.new.putData "k" (.set {"m"})).putExpiry "k" 10) 5 5 10 10 (le_refl 5)
    (by decide) (le_refl 10) "k" "l" "m"
  have hpanic : (Store.smove ((Store.new.putData "k" (.set {"m"})).putExpiry "k" 10) 5 5 10 10
      "k" "l" "m").1 = none := rfl
  rw [hpanic] at hreply
  rcases hreply with ⟨b, hb⟩ | hb <;> cases hb

end Thesaurus
