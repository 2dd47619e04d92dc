import Thesaurus.Cells.Exec
import Thesaurus.Log.WriteSet
import Thesaurus.Model.Server

/-!
# Cells — invariants of every cell

An invariant of a store that says the same of every cell is kept by a command when the command's
function on a cell keeps it; the commands on several keys are made of a few functions on cells.
`exec_cell` is the step, `act_cell` the step of a server, and `act_cells` that of all cells at once.
-/

namespace Thesaurus
open StoreInner Cell

/-- Every cell of the store meets `I`. -/
def EveryCell (I : Cell → Prop) (s : StoreInner) : Prop := ∀ key, I (s.cell key)

/-- What an invariant of the cells has to withstand from the commands on several keys: deletion,
MSET and SMOVE. -/
structure CellInvariant (I : Cell → Prop) : Prop where
  empty : I Cell.empty
  setString : ∀ v, I (Cell.setString v)
  shrinkSet : ∀ x set, I x → I (x.shrinkSet set)
  addMember : ∀ now member x, I x → I (x.addMember now member)

variable {I : Cell → Prop} {s : StoreInner}

theorem EveryCell.setCell (h : EveryCell I s) (key : String) {x : Cell} (hx : I x) :
    EveryCell I (s.setCell key x) := fun k => by
  rw [cell_setCell]
  split
  · exact hx
  · exact h k

theorem EveryCell.new (hI : CellInvariant I) : EveryCell I Store.new := fun key => by
  rw [cell_new]
  exact hI.empty

namespace CellInvariant

variable {key : String}

theorem deleteBulk (hI : CellInvariant I) (h : I (s.cell key)) (keys : List String) :
    I ((Store.deleteBulk s keys).cell key) := by
  rw [cell_deleteBulk]
  split
  · exact hI.empty
  · exact h

theorem mset (hI : CellInvariant I) (h : I (s.cell key)) (items : List (String × String)) :
    I ((Store.mset s items).cell key) := by
  rw [mset_eq]
  induction items generalizing s with
  | nil => exact h
  | cons item items ih =>
      refine ih ?_
      rw [cell_setCell]
      split
      · exact hI.setString item.2
      · exact h

theorem smove (hI : CellInvariant I) (h : I (s.cell key)) (now : Instant)
    (source destination member : String) :
    I ((Store.smove s now now now now source destination member).2.cell key) := by
  by_cases hm : ∃ set, Moves now s source destination member set
  · obtain ⟨set, hm⟩ := hm
    rw [smove_of_moves now s hm]
    have h' : I ((s.setCell source ((s.cell source).shrinkSet (set.erase member))).cell key) := by
      rw [cell_setCell]
      split
      · next he => exact hI.shrinkSet _ _ (he ▸ h)
      · exact h
    dsimp only
    rw [cell_setCell]
    split
    · next he => exact hI.addMember now member _ (he ▸ h')
    · exact h'
  · rw [smove_of_not_moves now s fun set h => hm ⟨set, h⟩]
    exact h

end CellInvariant

variable {ex : Executor} {env : Env} {cmd : Command}

/-- **A command keeps an invariant of a cell** when its function on the cell of its key does. -/
theorem exec_cell (hI : CellInvariant I) {key : String} (h : I (s.cell key))
    (hcell : ∀ g, Cell.exec ex env cmd = some (key, g) → I (g (s.cell key)).2) :
    I ((ex.exec env cmd s).2.cell key) := by
  cases hg : Cell.exec ex env cmd with
  | some p =>
      obtain ⟨k, g⟩ := p
      rw [exec_eq_at ex env s hg, keyed_at, cell_setCell]
      split
      · next he =>
          subst he
          exact hcell g hg
      · exact h
  | none =>
      cases cmd with
      | delete keys => rw [exec_delete]; exact hI.deleteBulk h keys
      | mSet items => exact hI.mset h items
      | flushDb mode => rw [exec_flushDb, cell_new]; exact hI.empty
      | sMove source destination member =>
          rw [exec_sMove]
          exact hI.smove h _ source destination member
      | set | getDel | lPush | rPush | lPushX | rPushX | lPop | rPop | lSet | sAdd | sPop | sRem
      | persist | expire | pExpire | expireAt | pExpireAt => cases hg
      | _ =>
          rw [exec_of_not_isWrite ex env rfl (by simp)]
          exact h

/-- A command on one key, as a step of a server. -/
theorem act_eq_setCell (ex : Executor) (w : Server) (draws : Draws) (cmd : Command) {key : String}
    {g : Cell → Reply × Cell} (hg : Cell.exec ex ⟨w.clock, draws⟩ cmd = some (key, g)) :
    (w.act ex (.execute draws cmd)).store = w.store.setCell key (g (w.store.cell key)).2 := by
  rw [Server.act, exec_eq_at ex ⟨w.clock, draws⟩ w.store hg]
  rfl

/-- A step of a server keeps an invariant of a cell when it is no command, or one whose function on
the cell of its key keeps it. -/
theorem act_cell (hI : CellInvariant I) {w : Server} {a : Action} {key : String}
    (h : I (w.store.cell key))
    (hcell : ∀ draws cmd, a = .execute draws cmd → ∀ g,
      Cell.exec ex ⟨w.clock, draws⟩ cmd = some (key, g) → I (g (w.store.cell key)).2) :
    I ((w.act ex a).store.cell key) := by
  cases a with
  | execute draws cmd => exact exec_cell hI h (hcell draws cmd rfl)
  | evict draws =>
      rw [Server.act, TtlEvictionDaemon.run_evictExpired]
      exact hI.deleteBulk h _
  | advance c => exact h

/-- So it is for all cells. -/
theorem act_cells (hI : CellInvariant I) {w : Server} {a : Action} (h : EveryCell I w.store)
    (hcell : ∀ draws cmd, a = .execute draws cmd → ∀ key g,
      Cell.exec ex ⟨w.clock, draws⟩ cmd = some (key, g) → I (g (w.store.cell key)).2) :
    EveryCell I (w.act ex a).store := by
  intro key
  exact act_cell hI (h key) fun draws cmd ha g hg => hcell draws cmd ha key g hg

end Thesaurus
