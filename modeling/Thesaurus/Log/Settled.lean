import Thesaurus.Expiry.Restored
import Thesaurus.Log.TtlFree

/-!
# Log — SETs in a replay that takes time

Every entry of a replay is executed at a clock of its own, and an entry can have any place in the
file.  If no deadline passes while the replay goes on, a SET stands for one with a deadline that has
passed or for one without (`Command.settled`), whatever its place.

* `replay_settled`: the replay leaves what the settled commands leave.
* `exec_alike`: a command leaves in the run what its settled form leaves.
-/

namespace Thesaurus
open StoreInner

/-- MSET, SET, DEL and RPUSH. -/
def Command.plainWrite : Command → Bool
  | .mSet _ | .delete _ | .rPush .. | .set .. => true
  | _ => false

/-! ### The deadlines of SET -/

/-- At whichever of the clocks it is read, in a replay that ends at `now'`, the deadline can be
represented, and it lies after the replay or has passed when it is set. -/
def SetExpiry.Steady (clocks : Nat → Clock) (now' : Instant) (expiry : Option SetExpiry) : Prop :=
  (∀ i, SetExpiry.Fits (clocks i) expiry) ∧
    ((∀ i, SetExpiry.overdue (clocks i) now' none expiry = false) ∨
      ∀ i, SetExpiry.overdue (clocks i) (clocks i).mono none expiry = true)

/-- An expiry that is read at the clock `r`, in terms of the clocks at 0: KEEPTTL, a deadline that
has passed, or none. -/
def SetExpiry.settled (r : Clock) : Option SetExpiry → Option SetExpiry
  | some .keepTtl => some .keepTtl
  | expiry        => if SetExpiry.overdue r r.mono none expiry then some (.exAt 0) else none

/-- The command with its expiry settled. -/
def Command.settled (r : Clock) : Command → Command
  | .set key value condition expiry g => .set key value condition (SetExpiry.settled r expiry) g
  | cmd                               => cmd

section

variable {clocks : Nat → Clock} {now' : Instant} {expiry : Option SetExpiry}

theorem SetExpiry.fits_settled (r : Clock) (expiry : Option SetExpiry) :
    SetExpiry.Fits (Clock.at 0 0) (SetExpiry.settled r expiry) := by
  intro e d he hd
  have hcases : SetExpiry.settled r expiry = some .keepTtl ∨
      SetExpiry.settled r expiry = some (.exAt 0) ∨ SetExpiry.settled r expiry = none := by
    unfold SetExpiry.settled
    split
    · exact .inl rfl
    · split
      · exact .inr (.inl rfl)
      · exact .inr (.inr rfl)
  rw [he] at hcases
  rcases hcases with h | h | h
  · cases h
    cases hd
  · cases h
    have hoff : (SetExpiry.exAt 0).offset (Clock.at 0 0) = some 0 := by decide +kernel
    cases hoff.symm.trans hd
    decide +kernel
  · cases h

/-- Any other expiry does not look at the deadline that was there. -/
theorem SetExpiry.overdue_own (h : expiry ≠ some .keepTtl) (c : Clock) (now : Instant)
    (old : Option Instant) :
    SetExpiry.overdue c now old expiry = SetExpiry.overdue c now none expiry := by
  rcases expiry with _ | _ | _ | _ | _ | _ <;> first | rfl | exact absurd rfl h

theorem SetExpiry.overdue_settled (h : expiry ≠ some .keepTtl) (r : Clock)
    (old : Option Instant) :
    SetExpiry.overdue (Clock.at 0 0) 0 old (SetExpiry.settled r expiry) =
      SetExpiry.overdue r r.mono none expiry := by
  have hsettled : SetExpiry.settled r expiry =
      if SetExpiry.overdue r r.mono none expiry then some (.exAt 0) else none := by
    rcases expiry with _ | _ | _ | _ | _ | _ <;> first | rfl | exact absurd rfl h
  have hpast : SetExpiry.overdue (Clock.at 0 0) 0 none (some (.exAt 0)) = true := by
    decide +kernel
  rw [hsettled]
  cases SetExpiry.overdue r r.mono none expiry with
  | true => rw [if_pos rfl, SetExpiry.overdue_own (by simp), hpast]
  | false => rfl

/-- A deadline that has passed stays in the past. -/
theorem SetExpiry.overdue_later {c : Clock} {t t' : Instant} (hle : t ≤ t')
    {old : Option Instant} (h : SetExpiry.overdue c t old expiry = true) :
    SetExpiry.overdue c t' old expiry = true := by
  unfold SetExpiry.overdue at h ⊢
  rw [Option.any_eq_true] at h ⊢
  obtain ⟨d, hd, hp⟩ := h
  exact ⟨d, hd, decide_eq_true (Nat.le_trans (of_decide_eq_true hp) hle)⟩

/-- From the time it is set to the end of the replay, a steady deadline is as it is settled. -/
theorem SetExpiry.Steady.overdue (h : SetExpiry.Steady clocks now' expiry)
    (hend : ∀ i, (clocks i).mono ≤ now') {i : Nat} {t : Instant} (hstart : (clocks i).mono ≤ t)
    (hle : t ≤ now') :
    SetExpiry.overdue (clocks i) t none expiry =
      SetExpiry.overdue (clocks 0) (clocks 0).mono none expiry := by
  rcases h.2 with hahead | hpast
  · have hfalse : ∀ j u, u ≤ now' → SetExpiry.overdue (clocks j) u none expiry = false := by
      intro j u hu
      by_contra hne
      rw [Bool.not_eq_false] at hne
      have hlate := SetExpiry.overdue_later hu hne
      rw [hahead j] at hlate
      cases hlate
    rw [hfalse i t hle, hfalse 0 _ (hend 0)]
  · rw [SetExpiry.overdue_later hstart (hpast i), hpast 0]

end

/-! ### The replay -/

/-- A cell `y` of the replay and the cell `a` that the settled commands leave: from `start` to the
end of the replay, `y` is as `a` is at 0. -/
structure Cell.Settled (start now' : Instant) (y a : Cell) : Prop where
  value : y.value = a.value
  expired : ∀ t, start ≤ t → t ≤ now' → y.expired t = a.expired 0

namespace Cell.Settled

variable {ex : Executor} {clocks : Nat → Clock} {start t now' : Instant} {y a : Cell}

theorem noDeadline (v : Option StoreValue) : Settled start now' ⟨v, none⟩ ⟨v, none⟩ where
  value := rfl
  expired _ _ _ := rfl

theorem later (h : Settled start now' y a) (ht : start ≤ t) : Settled t now' y a where
  value := h.value
  expired u hu := h.expired u (Nat.le_trans ht hu)

theorem live (h : Settled start now' y a) (ht : start ≤ t) (hle : t ≤ now') :
    y.live t = a.live 0 := by
  unfold Cell.live
  rw [h.expired t ht hle, h.value]

theorem withValue (h : Settled start now' y a) (v : Option StoreValue) :
    Settled start now' { y with value := v } { a with value := v } where
  value := rfl
  expired := h.expired

theorem pushLoop (h : Settled start now' y a) (ht : start ≤ t) (hle : t ≤ now')
    (pushFn : List String → String → List String) (elements : List String) :
    Settled t now' (y.pushLoop t true pushFn elements 0).2
      (a.pushLoop 0 true pushFn elements 0).2 := by
  have hlive := h.live ht hle
  cases elements with
  | nil => exact h.later ht
  | cons element elements =>
      cases ha : a.live 0 with
      | none =>
          rw [pushLoop_create ha, pushLoop_create (hlive.trans ha)]
          exact noDeadline _
      | some v =>
          cases v with
          | list l =>
              rw [pushLoop_list ha, pushLoop_list (hlive.trans ha)]
              exact (h.later ht).withValue _
          | str _ | set _ =>
              rw [pushLoop_wrongType ha (by simp), pushLoop_wrongType (hlive.trans ha) (by simp)]
              exact h.later ht

theorem set (h : Settled start now' y a) (hend : ∀ i, (clocks i).mono ≤ now') {i : Nat}
    (hstart : start ≤ (clocks i).mono) (value : String) {condition : Option SetCondition}
    {expiry : Option SetExpiry} (g : Bool)
    (hsteady : a.Accepts ex (Clock.at 0 0) condition → SetExpiry.Steady clocks now' expiry) :
    (Cell.set ex (clocks i) value condition expiry g y).1 ≠ none ∧
    Settled (clocks i).mono now' (Cell.set ex (clocks i) value condition expiry g y).2
      (Cell.set ex (Clock.at 0 0) value condition (SetExpiry.settled (clocks 0) expiry) g a).2 := by
  have hlive : y.live (clocks i).mono = a.live (Clock.at 0 0).mono := h.live hstart (hend i)
  rw [Cell.set, Cell.set, hlive]
  cases hp : Store.asString (a.live (Clock.at 0 0).mono) with
  | error e => exact ⟨Option.some_ne_none _, h.later hstart⟩
  | ok prev =>
      dsimp only
      by_cases hmet : ex.conditionMet condition prev = true
      · have hs := hsteady ⟨prev, hp, hmet⟩
        rw [if_pos hmet, if_pos hmet, setDeadline_of_fits (hs.1 i),
          setDeadline_of_fits (SetExpiry.fits_settled _ _)]
        refine ⟨Option.some_ne_none _, rfl, fun t ht hle => ?_⟩
        by_cases hkeep : expiry = some .keepTtl
        · subst hkeep
          exact h.expired t (Nat.le_trans hstart ht) hle
        · show SetExpiry.overdue (clocks i) t y.deadline expiry =
            SetExpiry.overdue (Clock.at 0 0) 0 a.deadline (SetExpiry.settled (clocks 0) expiry)
          rw [SetExpiry.overdue_own hkeep, SetExpiry.overdue_settled hkeep]
          exact hs.overdue hend ht hle
      · rw [if_neg hmet, if_neg hmet]
        exact ⟨Option.some_ne_none _, h.later hstart⟩

end Cell.Settled

/-- Every cell of the replay is as the settled commands leave it. -/
def StoreInner.Settled (start now' : Instant) (s a : StoreInner) : Prop :=
  ∀ key, Cell.Settled start now' (s.cell key) (a.cell key)

/-- A SET that the settled commands so far let write has a steady deadline. -/
def Command.SteadyOn (ex : Executor) (clocks : Nat → Clock) (now' : Instant) (a : StoreInner) :
    Command → Prop
  | .set key _ condition expiry _ =>
      (a.cell key).Accepts ex (Clock.at 0 0) condition → SetExpiry.Steady clocks now' expiry
  | _ => True

section

variable {ex : Executor} {clocks : Nat → Clock} {start now' : Instant} {s a : StoreInner}
  {cmd : Command}

theorem StoreInner.Settled.later (h : Settled start now' s a) {t : Instant} (ht : start ≤ t) :
    Settled t now' s a := fun k => (h k).later ht

/-- An entry leaves what its settled form leaves. -/
theorem exec_settled (hcmd : cmd.plainWrite = true) (h : Settled start now' s a)
    (hend : ∀ i, (clocks i).mono ≤ now') {env : Env} {i : Nat} (henv : env.clock = clocks i)
    (hstart : start ≤ env.clock.mono) (hsteady : cmd.SteadyOn ex clocks now' a) :
    (ex.exec env cmd s).1 ≠ none ∧ Settled env.clock.mono now' (ex.exec env cmd s).2
      (ex.exec (Env.at 0 0) (cmd.settled (clocks 0)) a).2 := by
  have hle : env.clock.mono ≤ now' := henv ▸ hend i
  have hcell : ∀ {key g g'}, Cell.exec ex env cmd = some (key, g) →
      Cell.exec ex (Env.at 0 0) (cmd.settled (clocks 0)) = some (key, g') →
      (g (s.cell key)).1 ≠ none ∧
        Cell.Settled env.clock.mono now' (g (s.cell key)).2 (g' (a.cell key)).2 →
      (ex.exec env cmd s).1 ≠ none ∧ Settled env.clock.mono now' (ex.exec env cmd s).2
        (ex.exec (Env.at 0 0) (cmd.settled (clocks 0)) a).2 := by
    rintro key g g' hg hg' ⟨hne, hx⟩
    rw [exec_eq_at ex env s hg, exec_eq_at ex (Env.at 0 0) a hg', keyed_at, keyed_at]
    refine ⟨hne, fun k => ?_⟩
    rw [cell_setCell, cell_setCell]
    split
    · exact hx
    · exact (h k).later hstart
  cases cmd with
  | set key value condition expiry g =>
      refine hcell rfl rfl ?_
      rw [henv] at hstart ⊢
      exact (h key).set hend hstart value g hsteady
  | rPush key elements =>
      exact hcell rfl rfl ⟨pushLoop_ne_panic, (h key).pushLoop hstart hle _ elements⟩
  | delete keys =>
      have hsame : (Command.delete keys).settled (clocks 0) = .delete keys := rfl
      rw [hsame, exec_delete, exec_delete]
      refine ⟨Option.some_ne_none _, fun k => ?_⟩
      rw [cell_deleteBulk, cell_deleteBulk]
      split
      · exact .noDeadline none
      · exact (h k).later hstart
  | mSet items =>
      have hsame : (Command.mSet items).settled (clocks 0) = .mSet items := rfl
      rw [hsame, exec_mSet, exec_mSet]
      refine ⟨Option.some_ne_none _, ?_⟩
      have hs := h.later hstart
      dsimp only
      rw [mset_eq, mset_eq]
      clear h hsteady hcell hcmd hsame
      induction items generalizing s a with
      | nil => exact hs
      | cons item items ih =>
          refine ih fun k => ?_
          rw [cell_setCell, cell_setCell]
          split
          · exact .noDeadline _
          · exact hs k
  | _ => cases hcmd

variable (ex) in
/-- What the settled commands do to a store, one after the other. -/
def effects (r : Clock) : List Command → StoreInner → StoreInner
  | [],          s => s
  | cmd :: cmds, s => effects r cmds (ex.exec (Env.at 0 0) (cmd.settled r) s).2

variable (ex) in
/-- The SETs among the commands are steady where they are executed. -/
def SteadyAll (clocks : Nat → Clock) (now' : Instant) : List Command → StoreInner → Prop
  | [],          _ => True
  | cmd :: cmds, a => cmd.SteadyOn ex clocks now' a ∧
      SteadyAll clocks now' cmds (ex.exec (Env.at 0 0) (cmd.settled (clocks 0)) a).2

theorem effects_append (r : Clock) (cmds cmds' : List Command) (s : StoreInner) :
    effects ex r (cmds ++ cmds') s = effects ex r cmds' (effects ex r cmds s) := by
  induction cmds generalizing s with
  | nil => rfl
  | cons cmd cmds ih => exact ih _

theorem steadyAll_append (cmds cmds' : List Command) (a : StoreInner) :
    SteadyAll ex clocks now' (cmds ++ cmds') a ↔ SteadyAll ex clocks now' cmds a ∧
      SteadyAll ex clocks now' cmds' (effects ex (clocks 0) cmds a) := by
  induction cmds generalizing a with
  | nil => simp [SteadyAll, effects]
  | cons cmd cmds ih => exact (and_congr_right fun _ => ih _).trans and_assoc.symm

/-- **The replay of such commands** leaves what the settled commands leave, whenever its entries are
executed, as long as its clock does not go back. -/
theorem replay_settled {cmds : List Command} (h : ∀ cmd ∈ cmds, cmd.plainWrite = true)
    (hend : ∀ i, (clocks i).mono ≤ now') {envs : Nat → Env}
    (henvs : ∀ i, ∃ j, (envs i).clock = clocks j)
    (hmono : ∀ i, (envs i).clock.mono ≤ (envs (i + 1)).clock.mono)
    (hstart : start ≤ (envs 0).clock.mono) (hs : Settled start now' s a)
    (hsteady : SteadyAll ex clocks now' cmds a) :
    ∃ s', replay ex envs cmds s = some s' ∧
      ∀ key, s'.get now' key = (effects ex (clocks 0) cmds a).get 0 key := by
  induction cmds generalizing envs start s a with
  | nil =>
      obtain ⟨j, hj⟩ := henvs 0
      have hle : start ≤ now' := Nat.le_trans hstart (hj ▸ hend j)
      refine ⟨s, rfl, fun key => ?_⟩
      rw [effects, get_eq_live, get_eq_live]
      exact (hs key).live hle (Nat.le_refl _)
  | cons cmd cmds ih =>
      obtain ⟨j, hj⟩ := henvs 0
      obtain ⟨hne, hx⟩ := exec_settled (h cmd List.mem_cons_self) hs hend hj hstart hsteady.1
      rw [replay, effects]
      cases hexec : ex.exec (envs 0) cmd s with
      | mk r s' =>
          rw [hexec] at hne hx
          obtain ⟨response, rfl⟩ := Option.ne_none_iff_exists'.mp hne
          exact ih (fun c hc => h c (List.mem_cons_of_mem _ hc)) (fun i => henvs (i + 1))
            (fun i => hmono (i + 1)) (hmono 0) hx hsteady.2

end

/-! ### The run -/

/-- A cell `x` of the run, as it is at `now`, and the cell that the settled commands leave. -/
def Cell.Alike (now : Instant) (x a : Cell) : Prop :=
  ∃ left, Cell.Restored now 0 left x a ∧ (x.expired now = true → left.isSome = true)

/-- The SET leaves a string that is live at `now` and is replayed to one that is live at `now'`, or
neither; a SET that the replay accepts has a steady deadline. -/
def SetAlike (ex : Executor) (c : Clock) (now : Instant) (clocks : Nat → Clock) (now' : Instant)
    (s : StoreInner) (key value : String) (condition : Option SetCondition)
    (expiry : Option SetExpiry) : Prop :=
  ∀ prev prev', Store.asString (s.get c.mono key) = .ok prev →
    Store.asString (s.get now key) = .ok prev' →
    -- the deadline cannot be represented: the command has written, and has no entry
    (ex.conditionMet condition prev = true → ¬SetExpiry.Fits c expiry →
      s.get now key = some (.str value)) ∧
    ((ex.conditionMet condition prev = true → SetExpiry.Fits c expiry) →
      (ex.conditionMet condition prev' = true → SetExpiry.Steady clocks now' expiry) ∧
      (expiry ≠ some .keepTtl →
        (ex.conditionMet condition prev = true ∧ SetExpiry.overdue c now none expiry = false ↔
          ex.conditionMet condition prev' = true ∧
            SetExpiry.overdue (clocks 0) now' none expiry = false)))

namespace Cell.Alike

variable {ex : Executor} {clocks : Nat → Clock} {t now now' : Instant} {x a : Cell}

theorem noDeadline (v : Option StoreValue) : Alike now ⟨v, none⟩ ⟨v, none⟩ :=
  ⟨none, .noDeadline v, nofun⟩

theorem live (h : Alike now x a) : a.live 0 = x.live now := by
  obtain ⟨left, hr, -⟩ := h
  exact hr.live

/-- A list or a set that is live at some time is live at `now`. -/
theorem live_of_not_str (h : Alike now x a) {v : StoreValue} (ht : x.live t = some v)
    (hv : ∀ w, v ≠ .str w) : x.live now = some v := by
  obtain ⟨left, hr, hleft⟩ := h
  have hval : x.value = some v := value_of_live ht
  have hexp : x.expired now = false := by
    by_contra he
    rw [Bool.not_eq_false] at he
    have hnone := hr.left_eq_none he fun w hw => hv w (Option.some.inj (hval.symm.trans hw))
    have hsome := hleft he
    rw [hnone] at hsome
    cases hsome
  rw [Cell.live, hexp, hval]
  rfl

theorem pushLoop (h : Alike now x a) (hle : t ≤ now)
    (pushFn : List String → String → List String) (elements : List String) :
    (x.pushLoop t true pushFn elements 0).1 = some (errorReply .wrongType) ∨
    Alike now (x.pushLoop t true pushFn elements 0).2 (a.pushLoop 0 true pushFn elements 0).2 := by
  have hlist : ∀ l, x.live t = some (.list l) → x.live now = some (.list l) := fun l hl =>
    h.live_of_not_str hl (by simp)
  obtain ⟨left, hr, hleft⟩ := h
  refine (hr.pushLoop hle (fun _ => hlist) pushFn elements).imp_right fun hx => ⟨left, hx, ?_⟩
  cases elements with
  | nil => exact hleft
  | cons element elements =>
      cases ht : x.live t with
      | none => rw [pushLoop_create ht]; exact nofun
      | some v =>
          cases v with
          | list l => rw [pushLoop_list ht]; exact hleft
          | str _ | set _ => rw [pushLoop_wrongType ht (by simp)]; exact hleft

theorem set {c : Clock} (h : Alike now x a) (hle : c.mono ≤ now)
    (hend : ∀ i, (clocks i).mono ≤ now') (value : String) {condition : Option SetCondition}
    {expiry : Option SetExpiry} (g : Bool) {prev prev' : Option String}
    (hp : Store.asString (x.live c.mono) = .ok prev)
    (hp' : Store.asString (x.live now) = .ok prev')
    (hfit : ex.conditionMet condition prev = true → SetExpiry.Fits c expiry)
    (hsteady : ex.conditionMet condition prev' = true → SetExpiry.Steady clocks now' expiry)
    (hside : expiry ≠ some .keepTtl →
      (ex.conditionMet condition prev = true ∧ SetExpiry.overdue c now none expiry = false ↔
        ex.conditionMet condition prev' = true ∧
          SetExpiry.overdue (clocks 0) now' none expiry = false)) :
    (∃ b, (Cell.set ex c value condition expiry g x).1 = some (Executor.setReply g b prev)) ∧
    Alike now (Cell.set ex c value condition expiry g x).2
      (Cell.set ex (Clock.at 0 0) value condition (SetExpiry.settled (clocks 0) expiry) g a).2 := by
  obtain ⟨left, hr, hleft⟩ := h
  have halive : ex.conditionMet condition prev = true ∧
        SetExpiry.overdue c now x.deadline expiry = false ↔
      ex.conditionMet condition prev' = true ∧ SetExpiry.overdue (Clock.at 0 0) (Clock.at 0 0).mono
        (if x.expired now && left.isSome then some (Clock.at 0 0).mono else none)
        (SetExpiry.settled (clocks 0) expiry) = false := by
    by_cases hkeep : expiry = some .keepTtl
    · -- the deadline that is kept has passed for both, or for none
      subst hkeep
      show _ ∧ x.expired now = false ↔ _ ∧ Option.any _ _ = false
      cases he : x.expired now with
      | true =>
          rw [hleft he]
          exact iff_of_false (fun h => Bool.noConfusion h.2)
            fun h => Bool.noConfusion (show true = false from h.2)
      | false =>
          have hsame : prev = prev' := by
            by_contra hne
            have hgone := (Cell.Restored.expired_of_reads hle hp hp' hne).1
            rw [he] at hgone
            cases hgone
          rw [hsame]
          exact Iff.rfl
    · rw [SetExpiry.overdue_own hkeep, hside hkeep]
      refine and_congr_right fun hmet' => ?_
      rw [(hsteady hmet').overdue hend (hend 0) (Nat.le_refl now')]
      exact (congrArg (· = false) (SetExpiry.overdue_settled hkeep (clocks 0) _)).symm.to_iff
  obtain ⟨hb, -, hx⟩ := hr.set hle value g hp hp' hfit (fun _ => SetExpiry.fits_settled _ _) halive
  generalize (if x.expired now && left.isSome then some (Clock.at 0 0).mono else none) = old
    at halive hx
  refine ⟨hb, _, hx, fun he => ?_⟩
  split
  · rfl
  · next hno =>
      refine hleft ?_
      rw [Cell.set, hp] at he
      dsimp only at he
      by_cases hmet : ex.conditionMet condition prev = true
      · -- what it wrote is gone at `now`, so that the replay was refused
        rw [if_pos hmet, setDeadline_of_fits (hfit hmet)] at he
        have hover : SetExpiry.overdue c now x.deadline expiry = true := he
        refine (Cell.Restored.expired_of_reads hle hp hp' fun hsame => ?_).1
        rw [← hsame, hmet, Bool.true_and, Bool.not_eq_true] at hno
        have hlive := (halive.mpr ⟨hsame ▸ hmet, hno⟩).2
        rw [hover] at hlive
        cases hlive
      · rw [if_neg hmet] at he
        exact he

end Cell.Alike

/-- Every cell of the run is as the settled commands leave it. -/
def StoreInner.Alike (now : Instant) (s a : StoreInner) : Prop :=
  ∀ key, Cell.Alike now (s.cell key) (a.cell key)

/-- The condition on the SETs of a run. -/
def CommandAlike (ex : Executor) (c : Clock) (now : Instant) (clocks : Nat → Clock)
    (now' : Instant) (s : StoreInner) : Command → Prop
  | .set key value condition expiry _ =>
      SetAlike ex c now clocks now' s key value condition expiry
  | _ => True

section

variable {ex : Executor} {clocks : Nat → Clock} {now now' : Instant} {s t a : StoreInner}
  {env : Env} {cmd : Command} {r : Reply}

theorem StoreInner.Alike.setCell (h : Alike now s a) (key : String) {x y : Cell}
    (hx : Cell.Alike now x y) : Alike now (s.setCell key x) (a.setCell key y) := fun k => by
  rw [cell_setCell, cell_setCell]
  split
  · exact hx
  · exact h k

theorem StoreInner.Alike.setCell_left (h : Alike now s a) {key : String} {x : Cell}
    (hx : Cell.Alike now x (a.cell key)) : Alike now (s.setCell key x) a := by
  have := h.setCell key hx
  rwa [setCell_cell] at this

theorem StoreInner.Alike.mset (h : Alike now s a) (items : List (String × String)) :
    Alike now (Store.mset s items) (Store.mset a items) := by
  rw [mset_eq, mset_eq]
  induction items generalizing s a with
  | nil => exact h
  | cons item items ih => exact ih (h.setCell item.1 (.noDeadline _))

/-- A command leaves in the run what its settled form leaves, and a command that has no entry leaves
nothing. -/
def AlikeAfter (ex : Executor) (clocks : Nat → Clock) (now now' : Instant) (t a : StoreInner)
    (cmd : Command) (r : Reply) : Prop :=
  (∀ response, r = some response → appends cmd response = true →
    cmd.SteadyOn ex clocks now' a ∧
      Alike now t (ex.exec (Env.at 0 0) (cmd.settled (clocks 0)) a).2) ∧
  ((∀ response, r = some response → appends cmd response = false) → Alike now t a)

theorem exec_alike_set {key value : String} {condition : Option SetCondition}
    {expiry : Option SetExpiry} {g : Bool} (hle : env.clock.mono ≤ now)
    (hend : ∀ i, (clocks i).mono ≤ now') (h : Alike now s a)
    (hset : SetAlike ex env.clock now clocks now' s key value condition expiry)
    (hexec : ex.exec env (.set key value condition expiry g) s = (r, t)) :
    AlikeAfter ex clocks now now' t a (.set key value condition expiry g) r := by
  rw [exec_set, keyed_at] at hexec
  obtain ⟨hr, rfl⟩ := Prod.ext_iff.mp hexec
  dsimp only at hr
  simp only [SetAlike, get_eq_live] at hset
  cases hp : Store.asString ((s.cell key).live env.clock.mono) with
  | error e =>
      have hwrong : Cell.set ex env.clock value condition expiry g (s.cell key) =
          (some (errorReply e), s.cell key) := by rw [Cell.set, hp]
      rw [hwrong] at hr ⊢
      refine ⟨fun response he happ => ?_, fun _ => h.setCell_left (h key)⟩
      cases hr.trans he
      cases happ
  | ok prev =>
      obtain ⟨prev', hp'⟩ := Cell.Restored.asString_later hle hp
      obtain ⟨hwritten, hrest⟩ := hset prev prev' hp hp'
      by_cases hfit : ex.conditionMet condition prev = true → SetExpiry.Fits env.clock expiry
      · obtain ⟨hsteady, hside⟩ := hrest hfit
        obtain ⟨⟨b, hreply⟩, hx⟩ := (h key).set hle hend value g hp hp' hfit hsteady hside
        refine ⟨fun response _ _ => ⟨?_, ?_⟩, fun happ => ?_⟩
        · rintro ⟨prev'', hp'', hmet⟩
          refine hsteady ?_
          have hsame : Except.ok prev'' = Except.ok prev' := hp''.symm.trans ((h key).live ▸ hp')
          rwa [Except.ok.inj hsame] at hmet
        · have hsettled : (Command.set key value condition expiry g).settled (clocks 0) =
            .set key value condition (SetExpiry.settled (clocks 0) expiry) g := rfl
          rw [hsettled, exec_set, keyed_at]
          exact h.setCell key hx
        · rcases (not_appends_iff rfl).mp (happ _ (hr.symm.trans hreply)) with ⟨text, ht⟩ | hz
          · exact absurd ht (Cell.setReply_ne_error _ _ _ _)
          · exact absurd hz (Cell.setReply_ne_integer _ _ _ _)
      · -- the string stands there without a deadline, and there is no entry
        obtain ⟨hmet, hbig⟩ := Classical.not_imp.mp hfit
        have hlive : (s.cell key).live now = some (.str value) := hwritten hmet hbig
        refine ⟨fun response he happ => ?_, fun _ => h.setCell_left ?_⟩
        · obtain ⟨text, rfl⟩ := (Cell.Restored.set_of_not_fits hp hmet hbig).2 _ (hr.trans he)
          cases happ
        · rw [(Cell.Restored.set_of_not_fits hp hmet hbig).1]
          obtain ⟨left, hx, -⟩ := h key
          exact ⟨left, hx.setString_left hlive left, fun he => absurd he Bool.false_ne_true⟩

/-- **A command in the run** and its settled form. -/
theorem exec_alike (hcmd : cmd.plainWrite = true) (hle : env.clock.mono ≤ now)
    (hend : ∀ i, (clocks i).mono ≤ now') (h : Alike now s a)
    (halike : CommandAlike ex env.clock now clocks now' s cmd)
    (hexec : ex.exec env cmd s = (r, t)) : AlikeAfter ex clocks now now' t a cmd r := by
  cases cmd with
  | set key value condition expiry g => exact exec_alike_set hle hend h halike hexec
  | mSet items =>
      rw [exec_mSet] at hexec
      obtain ⟨hr, rfl⟩ := Prod.ext_iff.mp hexec
      refine ⟨fun _ _ _ => ⟨trivial, ?_⟩, fun happ => ?_⟩
      · have hsame : (Command.mSet items).settled (clocks 0) = .mSet items := rfl
        rw [hsame, exec_mSet]
        exact h.mset items
      · rcases (not_appends_iff rfl).mp (happ _ hr.symm) with ⟨text, hz⟩ | hz <;> cases hz
  | delete keys =>
      rw [exec_delete] at hexec
      obtain ⟨hr, rfl⟩ := Prod.ext_iff.mp hexec
      refine ⟨fun _ _ _ => ⟨trivial, fun k => ?_⟩, fun happ => fun k => ?_⟩
      · have hsame : (Command.delete keys).settled (clocks 0) = .delete keys := rfl
        rw [hsame, exec_delete, cell_deleteBulk, cell_deleteBulk]
        split
        · exact .noDeadline none
        · exact h k
      · -- DEL that found nothing has no entry
        have hcount : deletedCount keys s = 0 := by
          rcases (not_appends_iff rfl).mp (happ _ hr.symm) with ⟨text, ht⟩ | hz
          · cases ht
          · simpa using hz
        rw [cell_deleteBulk]
        split
        · next hk =>
            obtain ⟨left, hx, -⟩ := h k
            have habsent := hx.absent (deletedCount_eq_zero hcount k hk)
            exact ⟨left, ⟨fun _ => habsent, nofun⟩, nofun⟩
        · exact h k
  | rPush key elements =>
      have hg : Cell.exec ex env (.rPush key elements) =
        some (key, Cell.pushLoop env.clock.mono true Store.pushBack elements 0) := rfl
      rw [exec_eq_at ex env s hg, keyed_at] at hexec
      obtain ⟨hr, rfl⟩ := Prod.ext_iff.mp hexec
      dsimp only at hr
      refine ⟨fun response he happ => ⟨trivial, ?_⟩, fun happ => h.setCell_left ?_⟩
      · rcases (h key).pushLoop hle Store.pushBack elements with hwrong | hx
        · cases (hr.trans he).symm.trans hwrong
          cases happ
        · have hg' : Cell.exec ex (Env.at 0 0) ((Command.rPush key elements).settled (clocks 0)) =
            some (key, Cell.pushLoop 0 true Store.pushBack elements 0) := rfl
          rw [exec_eq_at ex (Env.at 0 0) a hg', keyed_at]
          exact h.setCell key hx
      · obtain ⟨response, he⟩ := Option.ne_none_iff_exists'.mp (hr ▸ pushLoop_ne_panic : r ≠ none)
        have hsame : (Cell.pushLoop env.clock.mono true Store.pushBack elements 0
            (s.cell key)).2 = s.cell key := by
          rcases (not_appends_iff rfl).mp (happ response he) with ⟨text, rfl⟩ | rfl
          · exact Cell.exec_error hg nofun nofun (hr.trans he)
          · rcases Cell.exec_zero hg (hr.trans he) with hsame | ⟨hpast, -⟩ | ⟨hadd, -, -⟩
            · exact hsame
            · exact hpast.elim
            · cases hadd
        rw [hsame]
        exact h key
  | _ => cases hcmd

end

end Thesaurus
