import Thesaurus.Commands.Isolation
import Thesaurus.Commands.Sets
import Thesaurus.Log.WriteSet

/-!
# Runs — members

Sets as the places of their members.  Any number of clients move members between the sets of some
keys with SMOVE and take them out with SPOP, in any interleaving of their calls, and read them;
their other commands name other keys.

* `Finsets.Placed`: every member is in one set, or was taken out, and only there.
* `members_once`: it holds of the store after every schedule.
-/

namespace Thesaurus
open StoreInner Atomic

variable {K all : Finset String}

/-! ### Places -/

/-- Each of `all` is in one of the sets at `K`, or in `popped`, once; nothing else is there. -/
structure Finsets.Placed (K all : Finset String) (popped : List String) (m : Finsets) : Prop where
  apart : ∀ k ∈ K, ∀ k' ∈ K, ∀ a, a ∈ m k → a ∈ m k' → k = k'
  nodup : popped.Nodup
  gone : ∀ a ∈ popped, ∀ k ∈ K, a ∉ m k
  mem_all : ∀ a, a ∈ all ↔ a ∈ popped ∨ ∃ k ∈ K, a ∈ m k

namespace Finsets

variable {popped : List String} {m : Finsets}

theorem mem_move {source destination member k a : String} :
    a ∈ m.move source destination member k ↔
      k = destination ∧ a = member ∨ a ∈ m k ∧ (k = source → a ≠ member) := by
  simp only [move, Function.update_apply]
  split_ifs <;> simp_all <;> tauto

namespace Placed

/-- Members that are taken out of a set. -/
theorem pop (h : m.Placed K all popped) {key : String} (hkey : key ∈ K) {members : List String}
    (hnodup : members.Nodup) (hsub : ∀ a ∈ members, a ∈ m key) :
    Finsets.Placed K all (popped ++ members)
      (Function.update m key (m key \ members.toFinset)) := by
  have hmem : ∀ k ∈ K, ∀ a, a ∈ Function.update m key (m key \ members.toFinset) k ↔
      a ∈ m k ∧ a ∉ members := by
    intro k hk a
    by_cases hkk : k = key
    · subst hkk
      simp
    · rw [Function.update_of_ne hkk]
      refine ⟨fun ha => ⟨ha, fun hm => hkk ?_⟩, And.left⟩
      exact h.apart k hk key hkey a ha (hsub a hm)
  refine ⟨?_, ?_, ?_, ?_⟩
  · intro k hk k' hk' a ha ha'
    exact h.apart k hk k' hk' a ((hmem k hk a).mp ha).1 ((hmem k' hk' a).mp ha').1
  · refine List.nodup_append.mpr ⟨h.nodup, hnodup, ?_⟩
    rintro a ha _ hm rfl
    exact h.gone a ha key hkey (hsub a hm)
  · intro a ha k hk hm
    rw [hmem k hk] at hm
    rcases List.mem_append.mp ha with ha | ha
    · exact h.gone a ha k hk hm.1
    · exact hm.2 ha
  · intro a
    rw [h.mem_all, List.mem_append]
    by_cases ha : a ∈ members
    · simp only [ha, or_true, true_or, iff_true]
      exact .inr ⟨key, hkey, hsub a ha⟩
    · simp only [ha, or_false]
      refine or_congr_right (exists_congr fun k => and_congr_right fun hk => ?_)
      rw [hmem k hk]
      simp [ha]

/-- A member that goes from one set to another. -/
theorem move (h : m.Placed K all popped) {source destination member : String} (hs : source ∈ K)
    (hd : destination ∈ K) (hm : member ∈ m source) :
    (m.move source destination member).Placed K all popped := by
  -- the member is at the destination and nowhere else, and the others are where they were
  have hat : ∀ k ∈ K, member ∈ m.move source destination member k ↔ k = destination := by
    intro k hk
    rw [mem_move]
    refine ⟨?_, fun he => .inl ⟨he, rfl⟩⟩
    rintro (⟨he, -⟩ | ⟨ha, hne⟩)
    · exact he
    · exact absurd rfl (hne (h.apart k hk source hs member ha hm))
  have hother : ∀ k a, a ≠ member → (a ∈ m.move source destination member k ↔ a ∈ m k) := by
    intro k a ha
    rw [mem_move]
    simp [ha]
  refine ⟨?_, h.nodup, ?_, ?_⟩
  · intro k hk k' hk' a ha ha'
    by_cases he : a = member
    · subst he
      exact ((hat k hk).mp ha).trans ((hat k' hk').mp ha').symm
    · exact h.apart k hk k' hk' a ((hother k a he).mp ha) ((hother k' a he).mp ha')
  · intro a ha k hk
    have he : a ≠ member := by
      rintro rfl
      exact h.gone a ha source hs hm
    rw [hother k a he]
    exact h.gone a ha k hk
  · intro a
    rw [h.mem_all]
    by_cases he : a = member
    · subst he
      exact iff_of_true (.inr ⟨source, hs, hm⟩) (.inr ⟨destination, hd, (hat _ hd).mpr rfl⟩)
    · simp only [hother _ a he]

end Placed
end Finsets

/-! ### Calls -/

/-- The members that a call took out of the sets at `K`, by its result. -/
def poppedOf (K : Finset String) : Called StoreOp.Res → List String
  | ⟨.spop key _, .ok (some members)⟩ => if key ∈ K then members else []
  | _                                 => []

/-- The call moves members within `K`, or outside, or takes some out; or it only reads, or names
other keys. -/
def StoreOp.Carrying (K : Finset String) : StoreOp → Prop
  | .smove source destination _ => source ∈ K ↔ destination ∈ K
  | .spop _ _                   => True
  | op                          => op.isRead = true ∨ op.Within (· ∉ K)

/-- The command moves members within `K`, or outside, or takes some out; or it only reads, or names
other keys. -/
def Command.Carrying (K : Finset String) : Command → Prop
  | .sMove source destination _ => source ∈ K ↔ destination ∈ K
  | .sPop _ _                   => True
  | .lSet key _ _               => key ∉ K
  | cmd                         => cmd.isWrite = false ∨ cmd.Within (· ∉ K)

theorem StoreOp.Carrying.of_within {op : StoreOp} (h : op.Within (· ∉ K)) : op.Carrying K := by
  cases op with
  | smove source destination member =>
      obtain ⟨keys, hk, hP⟩ := h
      cases hk
      exact iff_of_false (hP source (by simp)) (hP destination (by simp))
  | spop => trivial
  | _ => exact .inr h

theorem StoreOp.Carrying.of_isRead {op : StoreOp} (h : op.isRead = true) : op.Carrying K := by
  cases op <;> first | exact .inl h | cases h

/-- A pop from a set takes some of its members, or finds none. -/
theorem Cell.IsSet.spop_cases {x : Cell} {set : Finset String} (h : x.IsSet set) (now : Instant)
    (draws : Draws) (count : Option UInt64) :
    x.spop now draws count = (.ok none, x) ∨
      ∃ members y, members.Nodup ∧ (∀ a ∈ members, a ∈ set) ∧
        x.spop now draws count = (.ok (some members), y) ∧ y.IsSet (set \ members.toFinset) := by
  rw [Cell.spop]
  rcases h.live now with hl | ⟨hl, -⟩
  · have hsampled := draws.sampled set (count.getD 1).toNat
    refine .inr ⟨_, _, hsampled.nodup, hsampled.subset, by rw [hl], ?_⟩
    rw [foldl_erase]
    exact h.shrinkSet _
  · exact .inl (by rw [hl])

section Calls

variable {s : StoreInner}

/-- The sets at `K` hold, with what the calls took out, each of `all` once. -/
def Carried (K all : Finset String) (popped : List String) (s : StoreInner) : Prop :=
  ∃ m : Finsets, (∀ key ∈ K, (s.cell key).IsSet (m key)) ∧ m.Placed K all popped

theorem Carried.frame {popped : List String} {s' : StoreInner} (h : Carried K all popped s)
    (hs : ∀ key ∈ K, s'.cell key = s.cell key) : Carried K all popped s' := by
  obtain ⟨m, hm, hplaced⟩ := h
  refine ⟨m, fun key hkey => ?_, hplaced⟩
  rw [hs key hkey]
  exact hm key hkey

/-- **One call.** -/
theorem Carried.call (env : Env) {op : StoreOp} (hop : op.Carrying K) {popped : List String}
    (h : Carried K all popped s) :
    Carried K all (popped ++ poppedOf K ⟨op, (op.at env s).1⟩) (op.at env s).2 := by
  have hother : op.isRead = true ∨ op.Within (· ∉ K) →
      ∀ key ∈ K, (op.at env s).2.cell key = s.cell key := by
    rintro (hread | hwithin) key hkey
    · exact congrArg (cell · key) (StoreOp.apply_of_isRead hread _ _ s)
    · exact (confined_apply hwithin env.clock.mono env.draws).frame s key (not_not_intro hkey)
  cases op with
  | smove source destination member =>
      simp only [poppedOf, List.append_nil]
      by_cases hs : source ∈ K
      · have hd : destination ∈ K := hop.mp hs
        obtain ⟨m, hm, hplaced⟩ := h
        show Carried K all popped
          (Store.smove s env.clock.mono env.clock.mono env.clock.mono env.clock.mono source
            destination member).2
        by_cases hmem : member ∈ m source
        · rw [smove_of_moves env.clock.mono s ((hm source hs).moves (hm destination hd) hmem)]
          have hholds : HoldsSets ↑K s s m := ⟨hm, fun _ _ => rfl⟩
          exact ⟨_, (hholds.move hs hd).1, hplaced.move hs hd hmem⟩
        · rw [(hm source hs).smove_of_notMem (hm destination hd) hmem]
          exact ⟨m, hm, hplaced⟩
      · refine h.frame fun key hkey => ?_
        refine cell_smove ?_ ?_ s
        · rintro rfl
          exact hs hkey
        · rintro rfl
          exact hs (hop.mpr hkey)
  | spop key count =>
      show Carried K all
        (popped ++
          poppedOf K ⟨.spop key count, (Store.spop s env.clock.mono env.draws key count).1⟩)
        (Store.spop s env.clock.mono env.draws key count).2
      rw [spop_eq, keyed_at]
      by_cases hkey : key ∈ K
      · obtain ⟨m, hm, hplaced⟩ := h
        rcases (hm key hkey).spop_cases env.clock.mono env.draws count with
          he | ⟨members, y, hnodup, hsub, he, hy⟩
        · rw [he]
          simp only [poppedOf, List.append_nil, setCell_cell]
          exact ⟨m, hm, hplaced⟩
        · rw [he]
          simp only [poppedOf, if_pos hkey]
          have hholds : HoldsSets ↑K s s m := ⟨hm, fun _ _ => rfl⟩
          exact ⟨_, (hholds.setCell hkey hy).1, hplaced.pop hkey hnodup hsub⟩
      · have hnone : ∀ r, poppedOf K ⟨.spop key count, r⟩ = [] := by
          intro r
          rcases r with _ | _ | _ <;> simp [poppedOf, hkey]
        rw [hnone, List.append_nil]
        refine h.frame fun k hk => cell_setCell_ne _ _ ?_
        rintro rfl
        exact hkey hk
  | _ =>
      simp only [poppedOf, List.append_nil]
      exact h.frame (hother hop)

end Calls

/-! ### Clients -/

/-- A carrying command makes carrying calls. -/
theorem carrying_execute (ex : Executor) (c : Clock) {cmd : Command} (h : cmd.Carrying K) :
    (ex.execute c cmd).All (StoreOp.Carrying K) := by
  have hother : (cmd.isWrite = false ∧ ∀ k i e, cmd ≠ .lSet k i e) ∨ cmd.Within (· ∉ K) →
      (ex.execute c cmd).All (StoreOp.Carrying K) := by
    rintro (⟨hread, hl⟩ | hwithin)
    · exact (reads_only ex c hread hl).mono fun _ => .of_isRead
    · exact (within_execute hwithin).mono fun _ => .of_within
  cases cmd with
  | sMove source destination member => exact ⟨h, fun _ => trivial⟩
  | sPop key count => exact ⟨trivial, fun _ => trivial⟩
  | lSet k index element =>
      refine hother (.inr ⟨[k], rfl, ?_⟩)
      intro k' hk
      rw [List.mem_singleton.mp hk]
      exact h
  | _ =>
      refine hother (h.imp_left ?_)
      intro hread
      exact ⟨hread, by simp⟩

variable {ι α : Type} [DecidableEq ι] {clients : ι → Client α} {s : StoreInner} {m : Finsets}

/-- **Each member once.**  The sets at `K` hold the members of `all`, each in one of them.  Clients
move members between these sets and take them out, whatever else they do with other keys.  After
every schedule, each of `all` is in one of the sets or was taken out by one call, and is nowhere
else. -/
theorem members_once (ex : Executor) (hc : ∀ i, (clients i).All fun call => call.2.Carrying K)
    (hm : ∀ key ∈ K, (s.cell key).IsSet (m key)) (hplaced : m.Placed K all [])
    (schedule : List (ι × Env)) :
    ∃ m' : Finsets,
      (∀ key ∈ K, (((Handlers.start ex clients s).run StoreOp.at schedule).state.cell key).IsSet
        (m' key)) ∧
      m'.Placed K all
        (((Handlers.start ex clients s).trace StoreOp.at schedule).flatMap (poppedOf K)) := by
  refine Pool.run_of_start (P := fun _ => StoreOp.Carrying K)
    (I := fun tr s => Carried K all (tr.flatMap (poppedOf K)) s) ?_ ?_ ⟨m, hm, hplaced⟩ schedule
  · intro _ env op tr s hop hcarried
    simpa using hcarried.call env hop
  · intro i
    exact Client.all_handler (fun c _ => carrying_execute ex c) (hc i)

/-- One client moves a member, the other pops one. -/
def movePop : Bool → Client Unit
  | true  => .call (Clock.at 0 0, .sMove "a" "b" "x") fun _ => .ret ()
  | false => .call (Clock.at 0 0, .sPop "a" none) fun _ => .ret ()

/-- Two members at `a`. -/
def twoMembers : StoreInner := Store.new.setCell "a" ⟨some (.set {"x", "y"}), none⟩

/-- The move, then the pop. -/
def moveFirst : List (Bool × Env) := [(true, .at 0 0), (false, .at 0 1)]

theorem calls_moveFirst :
    ((Handlers.start .plain movePop twoMembers).trace StoreOp.at moveFirst).flatMap
      (poppedOf {"a", "b"}) = ["y"] := by
  decide +kernel

/-- The member that was moved is not popped. -/
theorem members_once_two : ∃ m' : Finsets,
    (∀ key ∈ ({"a", "b"} : Finset String),
      (((Handlers.start .plain movePop twoMembers).run StoreOp.at moveFirst).state.cell key).IsSet
        (m' key)) ∧
    m'.Placed {"a", "b"} {"x", "y"} ["y"] := by
  have hc : ∀ b, (movePop b).All fun call => call.2.Carrying {"a", "b"} := by
    intro b
    cases b
    · exact ⟨trivial, fun _ => trivial⟩
    · exact ⟨by simp [Command.Carrying], fun _ => trivial⟩
  have hm : ∀ key ∈ ({"a", "b"} : Finset String),
      (twoMembers.cell key).IsSet (if key = "a" then {"x", "y"} else ∅) := by
    intro key hkey
    by_cases ha : key = "a"
    · rw [ha, twoMembers, cell_setCell_self, if_pos rfl]
      exact .inl rfl
    · rw [twoMembers, cell_setCell_ne _ _ ha, if_neg ha]
      exact .inr ⟨cell_new key, rfl⟩
  have hplaced : Finsets.Placed {"a", "b"} {"x", "y"} []
      (fun key => if key = "a" then {"x", "y"} else ∅) := by
    refine ⟨?_, List.nodup_nil, by simp, by simp⟩
    intro k _ k' _ a ha ha'
    split_ifs at ha ha' <;> simp_all
  have h := members_once .plain hc hm hplaced moveFirst
  rwa [calls_moveFirst] at h

end Thesaurus
