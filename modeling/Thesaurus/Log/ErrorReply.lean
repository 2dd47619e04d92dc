import Thesaurus.Cells.Replies
import Thesaurus.Log.WriteSet

/-!
# Log — error replies

The handler does not append a command that was answered with an error, since an error should
leave the store alone.  Every command but SET keeps to that, except a GETDEL that finds a list or
a set: it removes the key first and looks at the type afterwards.

* `error_unchanged_iff`: an error reply leaves the store alone, unless it is such a GETDEL.
-/

namespace Thesaurus
open StoreInner

/-- GETDEL finds a value that is not a string. -/
def RemovesOther (now : Instant) (s : StoreInner) : Command → Prop
  | .getDel key => ∃ v, s.get now key = some v ∧ ∀ text, v ≠ .str text
  | _           => False

variable {ex : Executor} {env : Env} {s : StoreInner}

/-- SMOVE that fails moves nothing. -/
theorem sMove_error {source destination member text : String}
    (h : (ex.exec env (.sMove source destination member) s).1 = some (.simpleError text)) :
    (ex.exec env (.sMove source destination member) s).2 = s := by
  rw [exec_sMove] at h ⊢
  by_cases hm : ∃ set, Moves env.clock.mono s source destination member set
  · obtain ⟨set, hm⟩ := hm
    rw [smove_of_moves _ _ hm] at h
    cases h
  · rw [smove_of_not_moves env.clock.mono s fun set h => hm ⟨set, h⟩]

theorem asString_eq_error {o : Option StoreValue} {e : StoreError}
    (h : Store.asString o = .error e) : ∃ v, o = some v ∧ ∀ text, v ≠ .str text := by
  rcases o with _ | v
  · cases h
  · refine ⟨v, rfl, ?_⟩
    rintro text rfl
    cases h

theorem asString_of_ne_str {v : StoreValue} (h : ∀ text, v ≠ .str text) :
    Store.asString (some v) = .error .wrongType := by
  cases v with
  | str text => exact absurd rfl (h text)
  | list _ | set _ => rfl

/-- GETDEL on a key that is live: the key is gone. -/
theorem getDelString_of_live {now : Instant} {x : Cell} {v : StoreValue}
    (h : x.live now = some v) : x.getDelString now = (Store.asString (some v), Cell.empty) := by
  rw [Cell.getDelString, h, if_neg (by simp [Cell.not_expired_of_live h])]

theorem getDel_error_unchanged_iff (key : String) :
    (∀ text, (ex.exec env (.getDel key) s).1 = some (.simpleError text) →
        (ex.exec env (.getDel key) s).2 = s) ↔
      ¬RemovesOther env.clock.mono s (.getDel key) := by
  rw [exec_eq_at ex env s rfl, keyed_at]
  constructor
  · rintro h ⟨v, hv, hne⟩
    rw [get_eq_live] at hv
    simp only [Cell.reply, getDelString_of_live hv, asString_of_ne_str hne] at h
    have hs : s.cell key = Cell.empty := by
      have := congrArg (fun s => s.cell key) (h _ rfl)
      rwa [cell_setCell_self, eq_comm] at this
    rw [hs] at hv
    cases hv
  · intro h text ht
    obtain ⟨e, he⟩ := Cell.replyOf_eq_error (fun _ _ => by simp) (Option.some.inj ht)
    exact absurd (asString_eq_error he) h

/-- **An error leaves the store alone.**  A command other than SET that is answered with an error
has changed neither map, unless it is a GETDEL of a key that holds a list or a set. -/
theorem error_unchanged_iff (ex : Executor) (env : Env) (cmd : Command) (s : StoreInner)
    (hset : ∀ key value condition expiry get, cmd ≠ .set key value condition expiry get) :
    (∀ text, (ex.exec env cmd s).1 = some (.simpleError text) → (ex.exec env cmd s).2 = s) ↔
      ¬RemovesOther env.clock.mono s cmd := by
  have hcell : ∀ {key g}, Cell.exec ex env cmd = some (key, g) → (∀ k, cmd ≠ .getDel k) →
      ∀ text, (ex.exec env cmd s).1 = some (.simpleError text) → (ex.exec env cmd s).2 = s := by
    intro key g hg hdel text he
    rw [exec_eq_at ex env s hg, keyed_at] at he ⊢
    have hsame := Cell.exec_error hg (fun k v c e b h => absurd h (hset k v c (some e) b)) hdel he
    dsimp only
    rw [hsame, setCell_cell]
  cases cmd with
  | getDel key => exact getDel_error_unchanged_iff key
  | set key value condition expiry g => exact absurd rfl (hset key value condition expiry g)
  | lPush | rPush | lPushX | rPushX | lPop | rPop | lSet | sAdd | sPop | sRem | persist | expire
  | pExpire | expireAt | pExpireAt => exact iff_of_true (hcell rfl fun _ h => by cases h) id
  | delete keys => exact iff_of_true (fun text h => by rw [exec_delete] at h; cases h) id
  | mSet items => exact iff_of_true (fun text h => by rw [exec_mSet] at h; cases h) id
  | flushDb mode => exact iff_of_true (fun text h => by rw [exec_flushDb] at h; cases h) id
  | sMove source destination member => exact iff_of_true (fun text => sMove_error) id
  | _ => exact iff_of_true (fun text _ => exec_of_not_isWrite ex env rfl (by simp) s) id

/-- RPUSH on a string is an error, and the string stays. -/
theorem error_unchanged_rPush :
    (Executor.plain.exec (Env.at 0 0) (.rPush "k" ["a"]) (Store.new.putData "k" (.str "v"))).2 =
      Store.new.putData "k" (.str "v") :=
  (error_unchanged_iff .plain (Env.at 0 0) (.rPush "k" ["a"]) (Store.new.putData "k" (.str "v"))
    (by simp)).mpr id StoreError.wrongType.display rfl

/-- GETDEL `k` on a list is an error, and the list is gone. -/
theorem getDel_error_changes :
    ¬∀ (ex : Executor) (env : Env) (cmd : Command) (s : StoreInner) (text : String),
      (∀ key value condition expiry get, cmd ≠ .set key value condition expiry get) →
      (ex.exec env cmd s).1 = some (.simpleError text) → (ex.exec env cmd s).2 = s := fun h =>
  absurd (h .plain (Env.at 0 0) (.getDel "k") (Store.new.putData "k" (.list ["a"]))
    StoreError.wrongType.display (by simp) rfl) (by decide)

end Thesaurus
