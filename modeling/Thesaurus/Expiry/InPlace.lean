import Thesaurus.Cells.Frame
import Thesaurus.Cells.Rewrites

/-!
# Expiry — updates in place

The commands on lists and sets update a value and leave its deadline, and start without one when
they make a new value.  SMOVE is a removal and then an insertion: with its source for a destination
and nothing else in the set, the removal takes the key with its deadline.

* `inPlace_keeps_iff`: such a command keeps every deadline, unless it is an SMOVE of an only
  member of a set with a deadline to the key it is under.
-/

namespace Thesaurus
open StoreInner

/-- The commands that update a list or a set. -/
def Command.inPlace : Command → Bool
  | .lPush .. | .rPush .. | .lPushX .. | .rPushX .. | .lPop .. | .rPop .. | .lSet .. | .sAdd ..
  | .sRem .. | .sPop .. | .sMove .. => true
  | _ => false

/-- A key that is live before the command and holds a value after it has the deadline it had, or
none as before; a key that is not live before is left as it was, or without a deadline. -/
def KeepsTtls (ex : Executor) (env : Env) (s : StoreInner) (cmd : Command) : Prop :=
  ∀ key,
    ((s.get env.clock.mono key).isSome → ((ex.exec env cmd s).2.data.lookup key).isSome →
      (ex.exec env cmd s).2.expiryIndex.lookup key = s.expiryIndex.lookup key) ∧
    (s.get env.clock.mono key = none →
      ((ex.exec env cmd s).2.data.lookup key = s.data.lookup key ∧
        (ex.exec env cmd s).2.expiryIndex.lookup key = s.expiryIndex.lookup key) ∨
      (ex.exec env cmd s).2.expiryIndex.lookup key = none)

namespace Cell

/-- `KeepsTtls` of one cell, from `x` to `y`. -/
def KeepsTtl (now : Instant) (x y : Cell) : Prop :=
  ((x.live now).isSome → y.value.isSome → y.deadline = x.deadline) ∧
    (x.live now = none → (y.value = x.value ∧ y.deadline = x.deadline) ∨ y.deadline = none)

variable {now : Instant} {x : Cell}

theorem keepsTtl_self : x.KeepsTtl now x := ⟨fun _ _ => rfl, fun _ => .inl ⟨rfl, rfl⟩⟩

/-- A new value under the deadline of a live one. -/
theorem keepsTtl_withValue {v : StoreValue} (hv : x.live now = some v) (v' : Option StoreValue) :
    x.KeepsTtl now { x with value := v' } :=
  ⟨fun _ _ => rfl, fun hx => by rw [hx] at hv; cases hv⟩

theorem keepsTtl_empty : x.KeepsTtl now empty := ⟨fun _ hy => (nomatch hy), fun _ => .inr rfl⟩

/-- A new value where none was live. -/
theorem keepsTtl_create (hx : x.live now = none) (v : Option StoreValue) :
    x.KeepsTtl now ⟨v, none⟩ :=
  ⟨fun hs => absurd hs (by rw [hx]; exact Bool.false_ne_true), fun _ => .inr rfl⟩

theorem keepsTtl_rewrites {creates : Prop} {y : Cell} (hr : x.Rewrites creates now y) :
    x.KeepsTtl now y := by
  cases hr with
  | same => exact keepsTtl_self
  | value hv w => exact keepsTtl_withValue hv _
  | gone => exact keepsTtl_empty
  | fresh hc hx w => exact keepsTtl_create hx _

/-- An update in place of one cell. -/
theorem keepsTtl_exec {ex : Executor} {env : Env} {cmd : Command} {key : String}
    {g : Cell → Reply × Cell} (hg : Cell.exec ex env cmd = some (key, g))
    (hcmd : cmd.inPlace = true) : x.KeepsTtl env.clock.mono (g x).2 := by
  cases cmd with
  | lPush | rPush | lPushX | rPushX => cases hg; exact keepsTtl_rewrites rewrites_pushLoop
  | lPop | rPop =>
      cases hg
      rcases rewrites_pop with hr | ⟨v, hv, heq⟩
      · exact keepsTtl_rewrites hr
      · exact heq ▸ keepsTtl_withValue hv none
  | lSet => cases hg; exact keepsTtl_rewrites rewrites_lset
  | sAdd => cases hg; exact keepsTtl_rewrites rewrites_sadd
  | sPop => cases hg; exact keepsTtl_rewrites rewrites_spop
  | sRem => cases hg; exact keepsTtl_rewrites rewrites_srem
  | sMove => cases hg
  | _ => cases hcmd

end Cell

/-! ### SMOVE -/

section

variable {now : Instant} {s : StoreInner} {source destination member : String}

/-- SMOVE of an only member to the key it is under, with a deadline. -/
def DropsTtl (now : Instant) (s : StoreInner) (source destination member : String) : Prop :=
  source = destination ∧ s.get now source = some (.set {member}) ∧
    (s.expiryIndex.lookup source).isSome

theorem keepsTtl_smove (hno : ¬DropsTtl now s source destination member) (key : String) :
    (s.cell key).KeepsTtl now
      ((Store.smove s now now now now source destination member).2.cell key) := by
  by_cases hm : ∃ set, Moves now s source destination member set
  · obtain ⟨set, hm⟩ := hm
    rw [smove_of_moves now s hm]
    dsimp only
    by_cases hd : key = destination
    · subst hd
      rw [cell_setCell_self]
      by_cases hs : key = source
      · subst hs
        rw [cell_setCell_self]
        by_cases he : set.erase member = ∅
        · -- the set is empty in between: nothing is lost if it had no deadline
          have hset : set = {member} := (Finset.erase_eq_empty_iff set member).mp he |>.resolve_left
            fun h => by rw [h] at hm; exact absurd hm.2.1 (Finset.notMem_empty _)
          have hnone : (s.cell key).deadline = none := by
            rw [← Option.not_isSome_iff_eq_none]
            exact fun h => hno ⟨rfl, hset ▸ hm.1, h⟩
          rw [Cell.shrinkSet, if_pos he]
          exact ⟨fun _ _ => hnone.symm, fun _ => .inr rfl⟩
        · have hl : ((s.cell key).shrinkSet (set.erase member)).live now =
              some (.set (set.erase member)) := by
            rw [Cell.shrinkSet, if_neg he, Cell.live_withValue (Cell.not_expired_of_live hm.1)]
          rw [Cell.addMember, hl, Cell.shrinkSet, if_neg he]
          exact Cell.keepsTtl_withValue hm.1 _
      · rw [cell_setCell_ne s _ hs]
        exact Cell.keepsTtl_rewrites (Cell.rewrites_addMember hm.2.2 member)
    · rw [cell_setCell_ne _ _ hd, cell_setCell]
      split
      · next hs => rw [hs]; exact Cell.keepsTtl_rewrites (Cell.rewrites_shrinkSet hm.1 _)
      · exact Cell.keepsTtl_self
  · rw [smove_of_not_moves now s fun set h => hm ⟨set, h⟩]
    exact Cell.keepsTtl_self

/-- The destination is then a new set. -/
theorem cell_smove_of_dropsTtl (h : DropsTtl now s source destination member) :
    (Store.smove s now now now now source destination member).2.cell source =
      ⟨some (.set {member}), none⟩ := by
  obtain ⟨rfl, hlive, -⟩ := h
  have hm : Moves now s source source member {member} :=
    ⟨hlive, Finset.mem_singleton_self member, fun v hv =>
      ⟨{member}, (Option.some.inj (hlive.symm.trans hv)).symm⟩⟩
  rw [smove_of_moves now s hm]
  dsimp only
  rw [cell_setCell_self, cell_setCell_self, Finset.erase_singleton, Cell.shrinkSet, if_pos rfl]
  rfl

end

/-- **When updates keep deadlines.**  For every store and every command that updates a list or a
set: it keeps the deadlines if and only if it is no SMOVE of the only member of a set with a
deadline to the key it is under. -/
theorem inPlace_keeps_iff (ex : Executor) (env : Env) (s : StoreInner) (cmd : Command)
    (hcmd : cmd.inPlace = true) :
    KeepsTtls ex env s cmd ↔
      ∀ source destination member, cmd = .sMove source destination member →
        ¬(source = destination ∧ s.get env.clock.mono source = some (.set {member}) ∧
          (s.expiryIndex.lookup source).isSome) := by
  constructor
  · rintro h source destination member rfl hdrops
    have hcell := cell_smove_of_dropsTtl hdrops
    obtain ⟨-, hlive, hsome⟩ := hdrops
    have hkept := (h source).1 (by rw [hlive]; rfl)
    rw [exec_sMove, lookup_data, lookup_expiryIndex] at hkept
    dsimp only at hkept
    rw [hcell] at hkept
    have heq := hkept rfl
    rw [← heq] at hsome
    cases hsome
  · intro hno key
    show (s.cell key).KeepsTtl env.clock.mono ((ex.exec env cmd s).2.cell key)
    cases hg : Cell.exec ex env cmd with
    | some p =>
        obtain ⟨k, g⟩ := p
        rw [exec_eq_at ex env s hg, keyed_at, cell_setCell]
        split
        · next he => rw [he]; exact Cell.keepsTtl_exec hg hcmd
        · exact Cell.keepsTtl_self
    | none =>
        cases cmd with
        | sMove source destination member =>
            rw [exec_sMove]
            exact keepsTtl_smove (hno source destination member rfl) key
        | lPush | rPush | lPushX | rPushX | lPop | rPop | lSet | sAdd | sRem | sPop => cases hg
        | _ => cases hcmd

/-- RPUSH to a list with a deadline. -/
theorem inPlace_keeps_push :
    KeepsTtls .plain (Env.at 0 0) ((Store.new.putData "k" (.list ["a"])).putExpiry "k" 1000)
      (.rPush "k" ["b"]) :=
  (inPlace_keeps_iff .plain (Env.at 0 0)
    ((Store.new.putData "k" (.list ["a"])).putExpiry "k" 1000) (.rPush "k" ["b"]) rfl).mpr
    fun _ _ _ he => nomatch he

/-- SMOVE of the only member of `k` to `k`: the deadline is lost. -/
theorem smove_drops_ttl : ¬∀ (ex : Executor) (env : Env) (s : StoreInner) (cmd : Command),
    cmd.inPlace = true → KeepsTtls ex env s cmd := by
  intro h
  have hdrops : DropsTtl (Env.at 0 0).clock.mono
      ((Store.new.putData "k" (.set {"a"})).putExpiry "k" 1000) "k" "k" "a" := ⟨rfl, rfl, rfl⟩
  have hcell := cell_smove_of_dropsTtl hdrops
  have hkept := h .plain (Env.at 0 0) ((Store.new.putData "k" (.set {"a"})).putExpiry "k" 1000)
    (.sMove "k" "k" "a") rfl "k"
  rw [exec_sMove, lookup_data, lookup_expiryIndex] at hkept
  dsimp only at hkept
  rw [hcell] at hkept
  cases hkept.1 rfl rfl

end Thesaurus
