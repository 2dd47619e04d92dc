import Thesaurus.Cells.Exec
import Thesaurus.Log.WriteSet

/-!
# Cells — frames

The keys a command may write, and what it does to the others: it leaves their cells alone, or, if
it is a FLUSHDB, empties them with all the rest.
-/

namespace Thesaurus
open StoreInner

/-- The keys a command may write; FLUSHDB names none. -/
def Command.writeKeys : Command → List String
  | .set key _ _ _ _ | .getDel key | .lPush key _ | .rPush key _ | .lPushX key _ | .rPushX key _
  | .lPop key _ | .rPop key _ | .lSet key _ _ | .sAdd key _ | .sPop key _ | .sRem key _
  | .persist key | .expire key _ | .pExpire key _ | .expireAt key _ | .pExpireAt key _ => [key]
  | .delete ks => ks
  | .mSet items => items.map Prod.fst
  | .sMove source destination _ => [source, destination]
  | _ => []

variable {ex : Executor} {env : Env} {cmd : Command}

theorem writeKeys_of_exec {key : String} {g : Cell → Reply × Cell}
    (hg : Cell.exec ex env cmd = some (key, g)) : cmd.writeKeys = [key] := by
  cases cmd <;> cases hg <;> rfl

theorem cell_mset {items : List (String × String)} {k : String} (hk : k ∉ items.map Prod.fst)
    (s : StoreInner) : (Store.mset s items).cell k = s.cell k := by
  rw [mset_eq]
  induction items generalizing s with
  | nil => rfl
  | cons item items ih =>
      rw [List.map_cons, List.mem_cons, not_or] at hk
      rw [List.foldl_cons, ih hk.2, cell_setCell_ne s _ hk.1]

theorem cell_smove {now : Instant} {source destination member k : String} (hs : k ≠ source)
    (hd : k ≠ destination) (s : StoreInner) :
    (Store.smove s now now now now source destination member).2.cell k = s.cell k := by
  by_cases hm : ∃ set, Moves now s source destination member set
  · obtain ⟨set, hm⟩ := hm
    rw [smove_of_moves now s hm, cell_setCell_ne _ _ hd, cell_setCell_ne _ _ hs]
  · rw [smove_of_not_moves now s fun set h => hm ⟨set, h⟩]

/-- **Frame.**  A command leaves the cell of a key it does not write as it was, or empties it. -/
theorem exec_frame (ex : Executor) (env : Env) (s : StoreInner) {k : String}
    (hk : k ∉ cmd.writeKeys) :
    (ex.exec env cmd s).2.cell k = s.cell k ∨ (ex.exec env cmd s).2.cell k = Cell.empty := by
  cases hg : Cell.exec ex env cmd with
  | some p =>
      obtain ⟨key, g⟩ := p
      rw [writeKeys_of_exec hg, List.mem_singleton] at hk
      rw [exec_eq_at ex env s hg, keyed_at]
      exact .inl (cell_setCell_ne s _ hk)
  | none =>
      cases cmd with
      | delete keys =>
          rw [exec_delete, cell_deleteBulk]
          exact .inl (if_neg hk)
      | mSet items => exact .inl (cell_mset hk s)
      | flushDb mode => rw [exec_flushDb]; exact .inr (cell_new k)
      | sMove source destination member =>
          rw [Command.writeKeys, List.mem_pair, not_or] at hk
          rw [exec_sMove]
          exact .inl (cell_smove hk.1 hk.2 s)
      | set | getDel | lPush | rPush | lPushX | rPushX | lPop | rPop | lSet | sAdd | sPop | sRem
      | persist | expire | pExpire | expireAt | pExpireAt => cases hg
      | _ => exact .inl (by rw [exec_of_not_isWrite ex env rfl (by simp)])

end Thesaurus
