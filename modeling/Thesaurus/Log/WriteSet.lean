import Thesaurus.Cells.Exec

/-!
# Log — the write set

`is_write` decides which commands the AOF records.  A command outside it should leave the store
alone.

* `reads_only`: every command outside it but LSET makes read calls only.
* `unlogged_unchanged_iff`: a command outside it leaves the store alone, unless it is an LSET
  that replaces an element by another.
-/

namespace Thesaurus
open StoreInner Atomic

/-! ### Reads -/

/-- The program makes no call that writes. -/
abbrev ReadsOnly {α : Type} (p : StoreProg α) : Prop := p.All fun op => op.isRead = true

theorem readsOnly_existsLoop (keys : List String) : ReadsOnly (Executor.existsLoop keys) := by
  induction keys with
  | nil => trivial
  | cons key keys ih =>
      rw [Executor.existsLoop, ReadsOnly, Prog.invoke_bind]
      exact ⟨rfl, fun _ => Prog.all_bind ih fun _ => trivial⟩

theorem readsOnly_resolveExpiry (c : Clock) (key : String) (f : Duration → Int) :
    ReadsOnly (Executor.resolveExpiry c key f) := by
  rw [Executor.resolveExpiry, ReadsOnly, Prog.invoke_bind]
  refine ⟨rfl, fun expiry => ?_⟩
  dsimp only
  split
  · split <;> trivial
  · exact ⟨rfl, fun _ => trivial⟩

/-- **Every command outside `is_write` but LSET only reads.** -/
theorem reads_only (ex : Executor) (c : Clock) {cmd : Command} (h : cmd.isWrite = false)
    (hl : ∀ key index element, cmd ≠ .lSet key index element) :
    ReadsOnly (ex.execute c cmd) := by
  cases cmd with
  | ping message => cases message <;> trivial
  | select index =>
      show ReadsOnly (Executor.select index)
      unfold Executor.select
      split <;> trivial
  | «exists» keys => exact Prog.all_bind (readsOnly_existsLoop keys) fun _ => trivial
  | ttl | pTtl | expireTime | pExpireTime => exact readsOnly_resolveExpiry c _ _
  | lSet key index element => exact absurd rfl (hl key index element)
  | get | mGet | strLen | lLen | lIndex | lRange | sMembers | sIsMember | sMIsMember
  | sRandMember | sCard | keys | digest | dbSize => exact ⟨rfl, fun _ => trivial⟩
  | _ => cases h

theorem run_readsOnly {α : Type} {p : StoreProg α} (h : ReadsOnly p) (env : Env)
    (s : StoreInner) : (p.run env.apply s).2 = s :=
  Prog.run_inv (I := (· = s))
    (fun _ s' hop hs' => (StoreOp.apply_of_isRead hop _ _ s').trans hs') h rfl

/-- A command outside `is_write`, but LSET, leaves the store alone. -/
theorem exec_of_not_isWrite (ex : Executor) (env : Env) {cmd : Command} (h : cmd.isWrite = false)
    (hl : ∀ key index element, cmd ≠ .lSet key index element) (s : StoreInner) :
    (ex.exec env cmd s).2 = s :=
  run_readsOnly (reads_only ex env.clock h hl) env s

/-! ### LSET -/

/-- LSET finds a list, an index within it, and another element there. -/
def Replaces (now : Instant) (s : StoreInner) (key : String) (index : Int) (element : String) :
    Prop :=
  ∃ l i, s.getMut now key = some (.list l) ∧ Store.calculateIndex index l.length = .ok i ∧
    ∃ h : i < l.length, l[i] ≠ element

/-- The element pushed at the back ends up at the index. -/
theorem swapRemoveBack_pushBack {l : List String} {i : Nat} (h : i < l.length) (element : String) :
    Store.swapRemoveBack (Store.pushBack l element) i = l.set i element := by
  have hlast : (l ++ [element]).getLast? = some element := by simp
  have hlen : i < (l ++ [element]).length := by simp; omega
  simp only [Store.swapRemoveBack, Store.pushBack, hlast, hlen, if_true]
  rw [List.set_append_left _ _ h, List.dropLast_concat]

theorem set_eq_self_iff {l : List String} {i : Nat} (h : i < l.length) (element : String) :
    l.set i element = l ↔ l[i] = element := by
  constructor
  · intro hs
    have := List.getElem_set_self (l := l) (i := i) (a := element) (by simpa using h)
    simpa [hs] using this
  · rintro rfl
    exact List.set_getElem_self h

theorem lset_unchanged_iff (now : Instant) (s : StoreInner) (key : String) (index : Int)
    (element : String) :
    ((s.cell key).lset now index element).2 = s.cell key ↔ ¬Replaces now s key index element := by
  unfold Replaces
  rw [getMut_eq_live]
  generalize hc : s.cell key = c
  unfold Cell.lset
  cases hv : c.live now with
  | none => simp
  | some v =>
      cases v with
      | str _ | set _ => simp
      | list l =>
          dsimp only
          cases hi : Store.calculateIndex index l.length with
          | error e => simp [hi]
          | ok i =>
              dsimp only
              by_cases h : i < l.length
              · rw [if_neg (Nat.not_le.mpr h), swapRemoveBack_pushBack h]
                have hself : ({ c with value := some (.list (l.set i element)) } : Cell) = c ↔
                    l.set i element = l := by
                  obtain ⟨value, deadline⟩ := c
                  have hval : value = some (.list l) := Cell.value_of_live hv
                  simp [hval]
                rw [hself, set_eq_self_iff h]
                constructor
                · rintro he ⟨l', i', hl', hi', h', hne⟩
                  cases hl'
                  cases hi.symm.trans hi'
                  exact hne he
                · intro hno
                  by_contra hne
                  exact hno ⟨l, i, rfl, hi, h, hne⟩
              · rw [if_pos (Nat.le_of_not_lt h)]
                refine ⟨fun _ => ?_, fun _ => rfl⟩
                rintro ⟨l', i', hl', hi', h', -⟩
                cases hl'
                cases hi.symm.trans hi'
                exact h h'

theorem exec_lset_unchanged_iff (ex : Executor) (env : Env) (s : StoreInner) (key : String)
    (index : Int64) (element : String) :
    (ex.exec env (.lSet key index element) s).2 = s ↔
      ¬Replaces env.clock.mono s key index.toInt element := by
  rw [exec_eq_at ex env s rfl, ← lset_unchanged_iff]
  exact keyed.put_eq_iff

/-- **What the log never sees.**  A command outside `is_write` leaves both maps as they are,
unless it is an LSET that replaces an element of a live list by a different one. -/
theorem unlogged_unchanged_iff (ex : Executor) (env : Env) (cmd : Command) (s : StoreInner)
    (h : cmd.isWrite = false) :
    (ex.exec env cmd s).2 = s ↔
      ∀ key index element, cmd = .lSet key index element →
        ¬Replaces env.clock.mono s key index.toInt element := by
  by_cases hl : ∃ key index element, cmd = .lSet key index element
  · obtain ⟨key, index, element, rfl⟩ := hl
    rw [exec_lset_unchanged_iff]
    refine ⟨fun h _ _ _ he => ?_, fun h => h key index element rfl⟩
    cases he
    exact h
  · have hl' : ∀ key index element, cmd ≠ .lSet key index element := fun key index element he =>
      hl ⟨key, index, element, he⟩
    exact ⟨fun _ key index element he => absurd he (hl' key index element),
      fun _ => exec_of_not_isWrite ex env h hl' s⟩

/-- LSET `k` 1 `b` on the list `[a, b]` writes what is there. -/
theorem unlogged_unchanged_iff_lset :
    Command.isWrite (.lSet "k" 1 "b") = false ∧
      (Executor.plain.exec (Env.at 0 0) (.lSet "k" 1 "b")
        (Store.new.putData "k" (.list ["a", "b"]))).2 =
        Store.new.putData "k" (.list ["a", "b"]) := by
  refine ⟨rfl, (unlogged_unchanged_iff .plain (Env.at 0 0) (.lSet "k" 1 "b")
    (Store.new.putData "k" (.list ["a", "b"])) rfl).mpr ?_⟩
  rintro key index element he ⟨l, i, hl, hi, hlt, hne⟩
  cases he
  obtain rfl : ["a", "b"] = l := StoreValue.list.inj (Option.some.inj hl)
  obtain rfl : 1 = i := Except.ok.inj hi
  exact hne rfl

/-- LSET `k` 0 `b` on the list `[a]`: not a write, and the list is `[b]` afterwards. -/
theorem unlogged_lset_changes :
    ¬∀ (ex : Executor) (env : Env) (cmd : Command) (s : StoreInner), cmd.isWrite = false →
      (ex.exec env cmd s).2 = s := fun h =>
  absurd (h .plain (Env.at 0 0) (.lSet "k" 0 "b") (Store.new.putData "k" (.list ["a"])) rfl)
    (by decide)

end Thesaurus
