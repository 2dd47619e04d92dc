import Thesaurus.Commands.Set
import Thesaurus.Expiry.Restored
import Thesaurus.Log.TtlFree

/-!
# Log — restarts

What a run leaves and what the replay of its file leaves at a later restart, when deadlines have
passed in between.

* `Left`: the strings that the replay is left with in place of values that are gone at the restart.
* `Durable`: the command and its entry leave the same at the restart.
* `restart_keeps`: after a run of such commands the replay has the live keys of the run, with the
  same values.
* `restart_loses_persisted`: a key that PERSIST kept is missing after the restart.
-/

namespace Thesaurus
open StoreInner

/-! ### The commands -/

/-- The writes without EX and PX, with absolute deadlines to come. -/
def Command.Listed (c : Clock) : Command → Prop
  | .set _ _ _ expiry _ => ∀ e, expiry = some e → e.relative = none
  | .mSet _ | .delete _ | .lPush .. | .rPush .. | .lPushX .. | .rPushX .. | .lPop .. | .rPop ..
  | .sAdd .. | .sRem .. | .sMove .. | .expire .. | .pExpire .. | .persist _ => True
  | .expireAt _ deadlineSecs => c.nowSecs < deadlineSecs.toNat
  | .pExpireAt _ deadlineMs  => c.nowMillis < deadlineMs.toNat
  | _ => False

/-- The key and the deadline of a command that is there to set one. -/
def Command.deadline (c : Clock) : Command → Option (String × Instant)
  | .expire key seconds        => some (key, c.mono + Duration.fromSecs seconds.toNat)
  | .pExpire key milliseconds  => some (key, c.mono + Duration.fromMillis milliseconds.toNat)
  | .expireAt key deadlineSecs => some (key, c.mono + TimeUnit.secs.offset c deadlineSecs)
  | .pExpireAt key deadlineMs  => some (key, c.mono + TimeUnit.millis.offset c deadlineMs)
  | _                          => none

/-! ### What is left -/

/-- The strings that the replay is left with under a deadline that has passed, where the value of
the run is gone at the restart. -/
abbrev Left : Type := String → Option String

/-- A deadline that the replay has for the key: one that has passed, where a string is left. -/
def Left.deadline (left : Left) (now : Instant) (r : Clock) (s : StoreInner) (key : String) :
    Option Instant :=
  if (s.cell key).expired now && (left key).isSome then some r.mono else none

/-- What is left after a command that is executed on `s` at the clock `c` and again at the clock
`r` of the restart: the string of a SET whose deadline has passed by then, and nothing where a
deadline that has passed by then is set on a key. -/
def Left.exec (ex : Executor) (c : Clock) (now : Instant) (r : Clock) (s : StoreInner)
    (left : Left) : Command → Left
  | .set key value condition expiry _ =>
      match Store.asString (s.get c.mono key), Store.asString (s.get now key) with
      | .ok _, .ok prev' =>
          if ex.conditionMet condition prev' &&
              SetExpiry.overdue r r.mono (left.deadline now r s key) expiry then
            Function.update left key (some value)
          else left
      | _, _ => left
  | cmd =>
      match cmd.deadline c, (cmd.persisted c).absolute with
      | some (key, deadline), some (_, u, n) =>
          if deadline < Instant.limit ∧ n.toNat ≤ u.now r then Function.update left key none
          else left
      | _, _ => left

/-- What is left after a frame. -/
def Left.next (ex : Executor) (now : Instant) (r : Clock) (left : Left) (s : StoreInner) (env : Env)
    (frame : RespValue) : Left :=
  match Command.fromResp2 frame with
  | .ok cmd => left.exec ex env.clock now r s cmd
  | _       => left

/-- The replay holds the value of the key, whether or not it is gone at `now`. -/
def StoreInner.Held (s : StoreInner) (now : Instant) (left : Left) (key : String) : Prop :=
  (s.cell key).expired now = true → (s.cell key).value = (left key).map .str

/-- The command and its entry leave the same at the restart, which is at `now` on the clock of the
run and reads the clock `r`. -/
def Durable (ex : Executor) (c : Clock) (now : Instant) (r : Clock) (s : StoreInner)
    (left : Left) : Command → Prop
  | .set key value condition expiry _ => ∀ prev prev',
      Store.asString (s.get c.mono key) = .ok prev → Store.asString (s.get now key) = .ok prev' →
      -- the deadline cannot be represented: the command panics after it wrote, without an entry
      (ex.conditionMet condition prev = true → ¬SetExpiry.Fits c expiry →
        s.get now key = some (.str value)) ∧
      ((ex.conditionMet condition prev = true → SetExpiry.Fits c expiry) →
        (ex.conditionMet condition prev' = true → SetExpiry.Fits r expiry) ∧
        (ex.conditionMet condition prev = true ∧
            SetExpiry.overdue c now (s.cell key).deadline expiry = false ↔
          ex.conditionMet condition prev' = true ∧
            SetExpiry.overdue r r.mono (left.deadline now r s key) expiry = false))
  | .lPush key _ | .rPush key _ =>
      ∀ l, s.get c.mono key = some (.list l) → s.get now key = some (.list l)
  | .sAdd key members => ∀ set, s.get c.mono key = some (.set set) → (∃ m ∈ members, m ∉ set) →
      s.get now key = some (.set set)
  | .sMove source destination member => ∀ set, Moves c.mono s source destination member set →
      (s.get now source = s.get c.mono source ∧
        s.get now destination = s.get c.mono destination) ∨
      -- the source is gone at the restart, and the member in no key that is not
      (s.get now source = none ∧ (source = destination → set ≠ {member}) ∧
        ∃ set', s.get c.mono destination = some (.set set') ∧
          (s.get now destination = none ∨ member ∈ set'))
  | .persist key => s.Held now left key
  | cmd => ∀ key deadline key' u n, cmd.deadline c = some (key, deadline) →
      (cmd.persisted c).absolute = some (key', u, n) →
      -- there is an entry
      (s.cell key).value ≠ none → deadline < Instant.limit →
      (n.toNat ≤ u.now r → deadline ≤ now) ∧
      (u.now r < n.toNat → r.mono + u.offset r n < Instant.limit ∧
        (now < deadline → s.Held now left key) ∧
        (deadline ≤ now → (s.cell key).expired now = true ∧ left key = none))

/-! ### Stores -/

/-- Every cell of the replay is what it has in place of that of the run. -/
def StoreInner.Restored (now now' : Instant) (left : Left) (s s' : StoreInner) : Prop :=
  ∀ key, Cell.Restored now now' (left key) (s.cell key) (s'.cell key)

namespace StoreInner.Restored

variable {now now' : Instant} {left left' : Left} {s s' : StoreInner}

theorem new : Restored now now' left Store.new Store.new := fun key => by
  rw [cell_new]
  exact .noDeadline none

theorem setCell (h : Restored now now' left s s') {key : String} {x y : Cell}
    (hleft : ∀ k, k ≠ key → left' k = left k) (hx : Cell.Restored now now' (left' key) x y) :
    Restored now now' left' (s.setCell key x) (s'.setCell key y) := fun k => by
  rw [cell_setCell, cell_setCell]
  split
  · next hk => rw [hk]; exact hx
  · next hk => rw [hleft k hk]; exact h k

/-- The replay stays as it is. -/
theorem setCell_left (h : Restored now now' left s s') {key : String} {x : Cell}
    (hleft : ∀ k, k ≠ key → left' k = left k)
    (hx : Cell.Restored now now' (left' key) x (s'.cell key)) :
    Restored now now' left' (s.setCell key x) s' := by
  have := h.setCell hleft hx
  rwa [setCell_cell] at this

theorem deleteBulk (h : Restored now now' left s s') (keys : List String) :
    Restored now now' left (Store.deleteBulk s keys) (Store.deleteBulk s' keys) := fun k => by
  rw [cell_deleteBulk, cell_deleteBulk]
  split
  · exact .noDeadline none
  · exact h k

/-- DEL that found nothing has no entry. -/
theorem deleteBulk_left (h : Restored now now' left s s') {keys : List String}
    (hcount : deletedCount keys s = 0) : Restored now now' left (Store.deleteBulk s keys) s' :=
  fun k => by
    rw [cell_deleteBulk]
    split
    · next hk => exact ⟨fun _ => (h k).absent (deletedCount_eq_zero hcount k hk), nofun⟩
    · exact h k

theorem mset (h : Restored now now' left s s') (items : List (String × String)) :
    Restored now now' left (Store.mset s items) (Store.mset s' items) := by
  rw [mset_eq, mset_eq]
  induction items generalizing s s' with
  | nil => exact h
  | cons item items ih => exact ih (h.setCell (fun _ _ => rfl) (.noDeadline _))

section Smove

variable {t : Instant} {source destination member : String} {set : Finset String}

theorem moves (h : Restored now now' left s s') (hm : Moves t s source destination member set)
    (hsource : s.get now source = s.get t source)
    (hdestination : s.get now destination = s.get t destination) :
    Moves now' s' source destination member set := by
  simp only [get_eq_live] at hsource hdestination
  unfold Moves
  rw [(h source).live, (h destination).live, hsource, hdestination]
  exact hm

theorem smove (h : Restored now now' left s s') (hm : Moves t s source destination member set)
    (hsource : s.get now source = s.get t source)
    (hdestination : s.get now destination = s.get t destination) :
    Restored now now' left (Store.smove s t t t t source destination member).2
      (Store.smove s' now' now' now' now' source destination member).2 := by
  rw [smove_of_moves t s hm, smove_of_moves now' s' (h.moves hm hsource hdestination)]
  simp only [get_eq_live] at hsource hdestination
  have hx : (s.cell source).live now = some (.set set) := hsource.trans hm.1
  have hfirst := h.setCell (fun _ _ => rfl) ((h source).shrinkSet hx (set.erase member))
  refine hfirst.setCell (fun _ _ => rfl) ((hfirst destination).addMember ?_ member)
  rw [cell_setCell]
  split
  · -- the destination is the source
    unfold Cell.shrinkSet
    split
    · rfl
    · rw [Cell.live_withValue (Cell.not_expired_of_live hx),
        Cell.live_withValue (Cell.not_expired_of_live hm.1)]
  · exact hdestination

/-- SMOVE from a set that is gone at the restart, which the replay refuses. -/
theorem smove_left (h : Restored now now' left s s') (hm : Moves t s source destination member set)
    (hsource : s.get now source = none) (hsame : source = destination → set ≠ {member})
    {set' : Finset String} (hdestination : s.get t destination = some (.set set'))
    (hlast : s.get now destination = none ∨ member ∈ set') :
    Restored now now' left (Store.smove s t t t t source destination member).2 s' := by
  rw [smove_of_moves t s hm]
  simp only [get_eq_live] at hsource hdestination hlast
  have hshrink := (h source).shrinkSet_left hm.1 (by simp) hsource (set.erase member)
  have hfirst := h.setCell_left (fun _ _ => rfl) hshrink
  refine hfirst.setCell_left (fun _ _ => rfl) ?_
  by_cases hk : destination = source
  · -- the set keeps a member, and its deadline
    subst hk
    have hne : set.erase member ≠ ∅ := fun he =>
      hsame rfl ((Finset.erase_eq_empty_iff _ _).mp he |>.resolve_left fun h0 => by
        rw [h0] at hm; exact absurd hm.2.1 (Finset.notMem_empty _))
    refine (hfirst destination).addMember_left
      (?_ : Cell.live t _ = some (.set (set.erase member))) (.inl ?_)
    · rw [cell_setCell_self, Cell.shrinkSet, if_neg hne,
        Cell.live_withValue (Cell.not_expired_of_live hm.1)]
    · rw [cell_setCell_self, Cell.shrinkSet, if_neg hne]
      have he : (s.cell destination).expired now = true :=
        Cell.Restored.expired_of_finds hm.1 hsource
      exact if_pos he
  · refine (hfirst destination).addMember_left (?_ : Cell.live t _ = some (.set set')) ?_
    · rw [cell_setCell_ne s _ hk]
      exact hdestination
    · rw [cell_setCell_ne s _ hk]
      exact hlast

end Smove

end StoreInner.Restored

/-! ### A command and its entry -/

/-- The replay goes on from `s'` to a store that restores `t`, whether or not the command has an
entry. -/
def Followed (ex : Executor) (env env' : Env) (now : Instant) (left' : Left) (s' t : StoreInner)
    (cmd : Command) (response : RespValue) : Prop :=
  (appends cmd response = true → ∃ response' t',
    ex.exec env' (cmd.persisted env.clock) s' = (some response', t') ∧
      Restored now env'.clock.mono left' t t') ∧
  (appends cmd response = false → Restored now env'.clock.mono left' t s')

section

variable {ex : Executor} {env env' : Env} {now : Instant} {left left' : Left}
  {s s' t : StoreInner} {cmd : Command} {response : RespValue}

variable (ex) in
/-- A command that sets a deadline sets it where it can be represented, and ends without an entry
where it cannot. -/
theorem exec_deadline {key : String} {deadline : Instant} (hl : cmd.Listed env.clock)
    (hd : cmd.deadline env.clock = some (key, deadline)) :
    ∃ g, Cell.exec ex env cmd = some (key, g) ∧ ∀ x : Cell,
      (deadline < Instant.limit →
        g x = Cell.reply (fun b => some (boolReply b)) (x.setTtl deadline)) ∧
      (Instant.limit ≤ deadline → (g x).2 = x ∧
        ∀ response, (g x).1 = some response → appends cmd response = false) := by
  -- the deadline cannot be represented: an error, or a panic
  have hin : ∀ (d : Duration) (x : Cell), cmd.isWrite = true →
      (env.clock.mono + d < Instant.limit → Cell.expireIn env.clock d x =
        Cell.reply (fun b => some (boolReply b)) (x.setTtl (env.clock.mono + d))) ∧
      (Instant.limit ≤ env.clock.mono + d → (Cell.expireIn env.clock d x).2 = x ∧ ∀ response,
        (Cell.expireIn env.clock d x).1 = some response → appends cmd response = false) := by
    intro d x hw
    unfold Cell.expireIn
    refine ⟨fun hfit => by rw [Instant.checkedAdd_eq_some.mpr ⟨hfit, rfl⟩], fun hlim => ?_⟩
    rw [show env.clock.mono.checkedAdd d = none from if_neg (Nat.not_lt.mpr hlim)]
    refine ⟨rfl, fun response hr => ?_⟩
    cases hr
    exact (not_appends_iff hw).mpr (.inl ⟨_, rfl⟩)
  have hby : ∀ {past : Prop} [Decidable past] (d : Duration) (x : Cell), ¬past →
      (env.clock.mono + d < Instant.limit →
        Cell.expireBy (decide past) (env.clock.mono.checkedAdd d) x =
          Cell.reply (fun b => some (boolReply b)) (x.setTtl (env.clock.mono + d))) ∧
      (Instant.limit ≤ env.clock.mono + d →
        (Cell.expireBy (decide past) (env.clock.mono.checkedAdd d) x).2 = x ∧ ∀ response,
          (Cell.expireBy (decide past) (env.clock.mono.checkedAdd d) x).1 = some response →
            appends cmd response = false) := by
    intro past _ d x hpast
    unfold Cell.expireBy
    rw [if_neg fun hp => hpast (of_decide_eq_true hp)]
    refine ⟨fun hfit => by rw [Instant.checkedAdd_eq_some.mpr ⟨hfit, rfl⟩], fun hlim => ?_⟩
    rw [show env.clock.mono.checkedAdd d = none from if_neg (Nat.not_lt.mpr hlim)]
    exact ⟨rfl, nofun⟩
  cases cmd with
  | expire | pExpire => cases hd; exact ⟨_, rfl, fun x => hin _ x rfl⟩
  | expireAt | pExpireAt => cases hd; exact ⟨_, rfl, fun x => hby _ x (Nat.not_le.mpr hl)⟩
  | _ => cases hd

variable (ex) in
/-- The entry of such a command. -/
theorem persisted_deadline {c : Clock} {key : String} {deadline : Instant}
    (hd : cmd.deadline c = some (key, deadline)) :
    ∃ u n, (cmd.persisted c).absolute = some (key, u, n) ∧ ∀ env' : Env,
      Cell.exec ex env' (cmd.persisted c) = some (key,
        Cell.expireBy (decide (n.toNat ≤ u.now env'.clock))
          (env'.clock.mono.checkedAdd (u.offset env'.clock n))) := by
  cases cmd with
  | expire | pExpire | pExpireAt => cases hd; exact ⟨.millis, _, rfl, fun _ => rfl⟩
  | expireAt => cases hd; exact ⟨.secs, _, rfl, fun _ => rfl⟩
  | _ => cases hd

/-- What is left after a command that sets a deadline. -/
theorem Left.exec_deadline {c r : Clock} {key key' : String} {deadline : Instant} {u : TimeUnit}
    {n : UInt64} (hd : cmd.deadline c = some (key, deadline))
    (habs : (cmd.persisted c).absolute = some (key', u, n)) :
    left.exec ex c now r s cmd =
      if deadline < Instant.limit ∧ n.toNat ≤ u.now r then Function.update left key none
      else left := by
  have hrest : left.exec ex c now r s cmd =
      match cmd.deadline c, (cmd.persisted c).absolute with
      | some (key, deadline), some (_, u, n) =>
          if deadline < Instant.limit ∧ n.toNat ≤ u.now r then Function.update left key none
          else left
      | _, _ => left := by
    cases cmd <;> first | rfl | cases hd
  rw [hrest, hd, habs]

/-- A command on one key that is not appended left its cell as it was; a SET is left out. -/
theorem cell_unlogged {args : List RespValue} {key : String} {g : Cell → Reply × Cell} {x : Cell}
    (hl : cmd.Listed env.clock) (hshape : Command.Shaped args cmd)
    (hset : ∀ k v c e b, cmd ≠ .set k v c e b) (hg : Cell.exec ex env cmd = some (key, g))
    (hw : cmd.isWrite = true) (hr : (g x).1 = some response)
    (happ : appends cmd response = false) : (g x).2 = x := by
  rcases (not_appends_iff hw).mp happ with ⟨text, rfl⟩ | rfl
  · refine Cell.exec_error hg (fun k v c e b he => absurd he (hset k v c (some e) b)) ?_ hr
    rintro k rfl
    exact hl
  · rcases Cell.exec_zero hg hr with h | ⟨hpast, -⟩ | ⟨rfl, -, -⟩
    · exact h
    · cases cmd with
      | expireAt | pExpireAt => exact absurd hl (Nat.not_lt.mpr hpast)
      | _ => exact hpast.elim
    · exact absurd rfl hshape

/-- The replay of POP, which does not panic if the command did not. -/
theorem pop_ne_panic {now now' : Instant} {count : UInt64}
    {popFn : List String → Option (String × List String)} {x y : Cell}
    (h : (x.pop now count popFn).1 ≠ none) : (y.pop now' count popFn).1 ≠ none := by
  unfold Cell.pop at h ⊢
  split
  · next hc => exact absurd (by rw [if_pos hc]) h
  · rcases y.live now' with _ | _ | _ | _ <;> exact Option.some_ne_none _

theorem followed_cell {key : String} {g g' : Cell → Reply × Cell}
    (h : Restored now env'.clock.mono left s s') (hexec : ex.exec env cmd s = (some response, t))
    (hg : Cell.exec ex env cmd = some (key, g))
    (hg' : Cell.exec ex env' (cmd.persisted env.clock) = some (key, g'))
    (hleft : ∀ k, k ≠ key → left' k = left k)
    (hlogged : (g (s.cell key)).1 = some response → appends cmd response = true →
      (g' (s'.cell key)).1 ≠ none ∧
        Cell.Restored now env'.clock.mono (left' key) (g (s.cell key)).2 (g' (s'.cell key)).2)
    (hunlogged : (g (s.cell key)).1 = some response → appends cmd response = false →
      Cell.Restored now env'.clock.mono (left' key) (g (s.cell key)).2 (s'.cell key)) :
    Followed ex env env' now left' s' t cmd response := by
  rw [exec_eq_at ex env s hg, keyed_at] at hexec
  obtain ⟨hr, rfl⟩ := Prod.ext_iff.mp hexec
  refine ⟨fun happ => ?_, fun happ => h.setCell_left hleft (hunlogged hr happ)⟩
  rw [exec_eq_at ex env' s' hg', keyed_at]
  obtain ⟨hne, hx⟩ := hlogged hr happ
  obtain ⟨response', hr'⟩ := Option.ne_none_iff_exists'.mp hne
  exact ⟨response', _, by rw [hr'], h.setCell hleft hx⟩

/-- What is left changes at most at the key of the deadline. -/
theorem left_update (left : Left) (p : Prop) [Decidable p] (key : String) (v : Option String) :
    (∀ k, k ≠ key → (if p then Function.update left key v else left) k = left k) ∧
      (if p then Function.update left key v else left) key = if p then v else left key := by
  refine ⟨fun k hk => ?_, ?_⟩ <;> split
  · exact Function.update_of_ne hk _ _
  · rfl
  · exact Function.update_self _ _ _
  · rfl

/-- EXPIRE, PEXPIRE, EXPIREAT and PEXPIREAT. -/
theorem followed_deadline {key : String} {deadline : Instant} (hl : cmd.Listed env.clock)
    (hdl : cmd.deadline env.clock = some (key, deadline))
    (hd : ∀ u n, (cmd.persisted env.clock).absolute = some (key, u, n) →
      (s.cell key).value ≠ none → deadline < Instant.limit →
      (n.toNat ≤ u.now env'.clock → deadline ≤ now) ∧
      (u.now env'.clock < n.toNat →
        env'.clock.mono + u.offset env'.clock n < Instant.limit ∧
        (now < deadline → s.Held now left key) ∧
        (deadline ≤ now → (s.cell key).expired now = true ∧ left key = none)))
    (h : Restored now env'.clock.mono left s s') (hexec : ex.exec env cmd s = (some response, t)) :
    Followed ex env env' now (left.exec ex env.clock now env'.clock s cmd) s' t cmd response := by
  have hw : cmd.isWrite = true := by
    cases cmd with
    | expire | pExpire | expireAt | pExpireAt => rfl
    | _ => cases hdl
  obtain ⟨g, hg, hset⟩ := exec_deadline ex hl hdl
  obtain ⟨u, n, habs, hg'⟩ := persisted_deadline ex hdl
  obtain ⟨hother, hkey⟩ := left_update left
    (deadline < Instant.limit ∧ n.toNat ≤ u.now env'.clock) key none
  rw [Left.exec_deadline hdl habs]
  obtain ⟨hfits, hlim⟩ := hset (s.cell key)
  refine followed_cell h hexec hg (hg' env') hother (fun hr happ => ?_) fun hr happ => ?_
  all_goals rw [hkey]
  · rcases Nat.lt_or_ge deadline Instant.limit with hfit | hbig
    · have hx : (s.cell key).value ≠ none := fun hx => by
        -- there is nothing to set a deadline on
        have hsame : (s.cell key).setTtl deadline = (false, s.cell key) := by
          rw [Cell.setTtl, hx]
          rfl
        rw [hfits hfit, hsame] at hr
        cases hr
        have hno : appends cmd (.integer 0) = false := (not_appends_iff hw).mpr (.inr rfl)
        exact absurd (hno.symm.trans happ) Bool.noConfusion
      obtain ⟨hpast, hahead⟩ := hd u n habs hx hfit
      rw [hfits hfit]
      simp only [hfit, true_and]
      exact (h key).expireBy hx hpast hahead
    · rw [(hlim hbig).2 response hr] at happ
      cases happ
  · rcases Nat.lt_or_ge deadline Instant.limit with hfit | hbig
    · have hx : (s.cell key).value = none := by
        by_contra hx
        obtain ⟨v, hv⟩ := Option.ne_none_iff_exists'.mp hx
        rw [hfits hfit, Cell.setTtl, hv] at hr
        cases hr
        rcases (not_appends_iff hw).mp happ with ⟨text, ht⟩ | ht <;> cases ht
      have hsame : (g (s.cell key)).2 = s.cell key := by
        rw [hfits hfit, Cell.setTtl, hx]
        rfl
      rw [hsame]
      split
      · obtain ⟨hval, hy⟩ := (h key).absent hx
        exact ⟨(h key).kept, fun _ => ⟨hval, hy, fun hs => absurd hs Bool.false_ne_true⟩⟩
      · exact h key
    · rw [(hlim hbig).1, if_neg fun hp => Nat.not_lt.mpr hbig hp.1]
      exact h key

/-- SET. -/
theorem followed_set {key value : String} {condition : Option SetCondition}
    {expiry : Option SetExpiry} {g : Bool}
    (hd : Durable ex env.clock now env'.clock s left (.set key value condition expiry g))
    (hle : env.clock.mono ≤ now) (h : Restored now env'.clock.mono left s s')
    (hexec : ex.exec env (.set key value condition expiry g) s = (some response, t)) :
    Followed ex env env' now
      (left.exec ex env.clock now env'.clock s (.set key value condition expiry g)) s' t
      (.set key value condition expiry g) response := by
  have hw : (Command.set key value condition expiry g).isWrite = true := rfl
  simp only [Durable, Left.exec, get_eq_live] at hd ⊢
  cases hp : Store.asString ((s.cell key).live env.clock.mono) with
  | error e =>
      have hset : Cell.set ex env.clock value condition expiry g (s.cell key) =
          (some (errorReply e), s.cell key) := by rw [Cell.set, hp]
      refine followed_cell h hexec rfl rfl (fun _ _ => rfl) (fun hr happ => ?_) fun _ _ => ?_
      · rw [hset] at hr
        cases hr
        cases happ
      · rw [hset]
        exact h key
  | ok prev =>
      obtain ⟨prev', hp'⟩ := Cell.Restored.asString_later hle hp
      obtain ⟨hwritten, hrest⟩ := hd prev prev' hp hp'
      rw [hp']
      dsimp only
      obtain ⟨hother, hkey⟩ := left_update left
        ((ex.conditionMet condition prev' &&
          SetExpiry.overdue env'.clock env'.clock.mono (left.deadline now env'.clock s key)
            expiry) = true) key (some value)
      by_cases hfit : ex.conditionMet condition prev = true → SetExpiry.Fits env.clock expiry
      · obtain ⟨hfit', hside⟩ := hrest hfit
        obtain ⟨⟨b, hreply⟩, hne, hx⟩ := (h key).set hle value g hp hp' hfit hfit' hside
        refine followed_cell h hexec rfl rfl hother (fun _ _ => ⟨hne, ?_⟩) fun hr happ => ?_
        · rw [hkey]
          exact hx
        · rw [hreply] at hr
          cases hr
          rcases (not_appends_iff hw).mp happ with ⟨text, ht⟩ | hz
          · exact absurd ht (Cell.setReply_ne_error _ _ _ _)
          · exact absurd hz (Cell.setReply_ne_integer _ _ _ _)
      · -- an error, without an entry
        obtain ⟨hmet, hbig⟩ := Classical.not_imp.mp hfit
        refine followed_cell h hexec rfl rfl hother (fun hr happ => ?_) fun _ _ => ?_
        · obtain ⟨text, rfl⟩ := (Cell.Restored.set_of_not_fits hp hmet hbig).2 response hr
          cases happ
        · rw [(Cell.Restored.set_of_not_fits hp hmet hbig).1]
          exact (h key).setString_left (hwritten hmet hbig) _

/-- An SMOVE that does not move has no entry. -/
theorem smoveRefusal_reply (v w : Option StoreValue) :
    (∃ text, replyOf boolReply (smoveRefusal v w) = .simpleError text) ∨
      replyOf boolReply (smoveRefusal v w) = .integer 0 := by
  unfold smoveRefusal
  split
  · exact .inr rfl
  · exact .inl ⟨_, rfl⟩
  · exact .inl ⟨_, rfl⟩
  · exact .inr rfl
  · exact .inl ⟨_, rfl⟩

/-- SMOVE. -/
theorem followed_sMove {source destination member : String}
    (hd : Durable ex env.clock now env'.clock s left (.sMove source destination member))
    (h : Restored now env'.clock.mono left s s')
    (hexec : ex.exec env (.sMove source destination member) s = (some response, t)) :
    Followed ex env env' now left s' t (.sMove source destination member) response := by
  refine ⟨fun happ => ?_, fun happ => ?_⟩
  · rw [exec_sMove] at hexec
    obtain ⟨hr, rfl⟩ := Prod.ext_iff.mp hexec
    have hreplay : ex.exec env' (.sMove source destination member) s' = _ := exec_sMove ..
    by_cases hm : ∃ set, Moves env.clock.mono s source destination member set
    · obtain ⟨set, hm⟩ := hm
      rcases hd set hm with ⟨hsource, hdestination⟩ | ⟨hsource, hsame, set', hdest, hlast⟩
      · refine ⟨boolReply true, _, ?_, h.smove hm hsource hdestination⟩
        refine hreplay.trans ?_
        rw [smove_of_moves _ _ (h.moves hm hsource hdestination)]
        rfl
      · -- the replay finds no source
        have hno : ∀ set, ¬Moves env'.clock.mono s' source destination member set := by
          rintro set ⟨hs, -⟩
          rw [(h source).live, ← get_eq_live, hsource] at hs
          cases hs
        rw [smove_of_not_moves _ _ hno] at hreplay
        exact ⟨_, s', hreplay, h.smove_left hm hsource hsame hdest hlast⟩
    · rw [smove_of_not_moves _ _ fun set h => hm ⟨set, h⟩] at hr
      cases hr
      have hw : (Command.sMove source destination member).isWrite = true := rfl
      rw [(not_appends_iff hw).mpr (smoveRefusal_reply _ _)] at happ
      cases happ
  · rw [sMove_unlogged hexec ((not_appends_iff rfl).mp happ)]
    exact h

/-- **A command and its entry.**  The replay of an entry follows the command, and a command without
an entry left nothing to follow. -/
theorem exec_followed {args : List RespValue} (hl : cmd.Listed env.clock)
    (hd : Durable ex env.clock now env'.clock s left cmd) (hshape : Command.Shaped args cmd)
    (hle : env.clock.mono ≤ now) (h : Restored now env'.clock.mono left s s')
    (hexec : ex.exec env cmd s = (some response, t)) :
    Followed ex env env' now (left.exec ex env.clock now env'.clock s cmd) s' t cmd response := by
  -- the commands on one key but SET, without a deadline
  have hcell : ∀ {key g g'}, (∀ k v c e b, cmd ≠ .set k v c e b) → cmd.isWrite = true →
      Cell.exec ex env cmd = some (key, g) →
      Cell.exec ex env' (cmd.persisted env.clock) = some (key, g') →
      ((g (s.cell key)).1 = some response → appends cmd response = true →
        (g' (s'.cell key)).1 ≠ none ∧
          Cell.Restored now env'.clock.mono (left key) (g (s.cell key)).2
            (g' (s'.cell key)).2) →
      Followed ex env env' now left s' t cmd response := fun hset hw hg hg' hlogged =>
    followed_cell h hexec hg hg' (fun _ _ => rfl) hlogged fun hr happ => by
      rw [cell_unlogged hl hshape hset hg hw hr happ]
      exact h _
  have herror : ∀ {text : String}, cmd.isWrite = true →
      appends cmd (.simpleError text) = true → False := fun hw happ => by
    rw [(not_appends_iff hw).mpr (.inl ⟨_, rfl⟩)] at happ
    cases happ
  cases cmd with
  | set key value condition expiry g => exact followed_set hd hle h hexec
  | expire | pExpire | expireAt | pExpireAt =>
      exact followed_deadline hl rfl (fun u n habs => hd _ _ _ u n rfl habs) h hexec
  | sMove source destination member => exact followed_sMove hd h hexec
  | delete keys =>
      rw [exec_delete] at hexec
      cases hexec
      refine ⟨fun _ => ⟨_, _, exec_delete ex env' s' keys, h.deleteBulk keys⟩, fun happ => ?_⟩
      rcases (not_appends_iff rfl).mp happ with ⟨text, hr⟩ | hr
      · cases hr
      · exact h.deleteBulk_left (by simpa using hr)
  | mSet items =>
      rw [exec_mSet] at hexec
      cases hexec
      refine ⟨fun _ => ⟨_, _, exec_mSet ex env' s' items, h.mset items⟩, fun happ => ?_⟩
      rcases (not_appends_iff rfl).mp happ with ⟨text, hr⟩ | hr <;> cases hr
  | lPush key elements | rPush key elements =>
      refine hcell (by simp) rfl rfl rfl fun hr happ => ⟨pushLoop_ne_panic, ?_⟩
      rcases (h key).pushLoop hle (fun _ => hd) _ elements with he | hx
      · rw [he] at hr
        cases hr
        exact (herror rfl happ).elim
      · exact hx
  | lPushX key elements | rPushX key elements =>
      refine hcell (by simp) rfl rfl rfl fun hr happ => ⟨pushLoop_ne_panic, ?_⟩
      rcases (h key).pushLoop hle (fun hf => absurd hf Bool.false_ne_true) _ elements with he | hx
      · rw [he] at hr
        cases hr
        exact (herror rfl happ).elim
      · exact hx
  | lPop key count | rPop key count =>
      refine hcell (by simp) rfl rfl rfl fun hr _ => ⟨fun hn => ?_, (h key).pop hle _ _⟩
      obtain ⟨r, hpop, -⟩ := Option.map_eq_some_iff.mp hr
      have hne := Option.ne_none_iff_exists'.mpr ⟨r, hpop⟩
      exact pop_ne_panic hne (Option.map_eq_none_iff.mp hn)
  | sAdd key members =>
      refine hcell (by simp) rfl rfl rfl fun hr happ => ⟨Option.some_ne_none _, ?_⟩
      rcases (h key).sadd hle hd with (he | he) | hx
      · simp only [Cell.reply, he, replyOf] at hr
        cases hr
        exact (herror rfl happ).elim
      · -- nothing was added, and there is no entry
        simp only [Cell.reply, he, replyOf] at hr
        cases hr
        cases happ
      · exact hx
  | sRem key members =>
      exact hcell (by simp) rfl rfl rfl fun _ _ => ⟨Option.some_ne_none _, (h key).srem hle members⟩
  | persist key =>
      exact hcell (by simp) rfl rfl rfl fun _ _ => ⟨Option.some_ne_none _, (h key).persist hd⟩
  | _ => exact hl.elim

/-- A command that panics left the store as it was, or the string that the replay has. -/
theorem panic_followed (hl : cmd.Listed env.clock)
    (hd : Durable ex env.clock now env'.clock s left cmd)
    (hle : env.clock.mono ≤ now) (h : Restored now env'.clock.mono left s s')
    (hexec : ex.exec env cmd s = (none, t)) :
    Restored now env'.clock.mono (left.exec ex env.clock now env'.clock s cmd) t s' := by
  have hdeadline : ∀ {key deadline}, cmd.deadline env.clock = some (key, deadline) →
      Restored now env'.clock.mono (left.exec ex env.clock now env'.clock s cmd) t s' := by
    intro key deadline hdl
    obtain ⟨g, hg, hset⟩ := exec_deadline ex hl hdl
    obtain ⟨u, n, habs, -⟩ := persisted_deadline ex hdl
    obtain ⟨hfits, hlim⟩ := hset (s.cell key)
    rw [exec_eq_at ex env s hg, keyed_at] at hexec
    obtain ⟨hr, rfl⟩ := Prod.ext_iff.mp hexec
    rw [Left.exec_deadline hdl habs]
    rcases Nat.lt_or_ge deadline Instant.limit with hfit | hbig
    · dsimp only at hr
      rw [hfits hfit] at hr
      cases hr
    · rw [if_neg fun hp => Nat.not_lt.mpr hbig hp.1]
      dsimp only
      rw [(hlim hbig).1, setCell_cell]
      exact h
  cases cmd with
  | set key value condition expiry g =>
      rw [exec_set, keyed_at] at hexec
      obtain ⟨hr, rfl⟩ := Prod.ext_iff.mp hexec
      simp only [Durable, Left.exec, get_eq_live] at hd ⊢
      cases hp : Store.asString ((s.cell key).live env.clock.mono) with
      | error e =>
          rw [Cell.set, hp] at hr
          cases hr
      | ok prev =>
          obtain ⟨prev', hp'⟩ := Cell.Restored.asString_later hle hp
          obtain ⟨hwritten, hrest⟩ := hd prev prev' hp hp'
          by_cases hfit : ex.conditionMet condition prev = true → SetExpiry.Fits env.clock expiry
          · obtain ⟨hfit', hside⟩ := hrest hfit
            obtain ⟨⟨b, hreply⟩, -, -⟩ := (h key).set hle value g hp hp' hfit hfit' hside
            rw [hreply] at hr
            cases hr
          · obtain ⟨hmet, hbig⟩ := Classical.not_imp.mp hfit
            rw [hp', (Cell.Restored.set_of_not_fits hp hmet hbig).1]
            exact h.setCell_left (left_update _ _ key (some value)).1
              ((h key).setString_left (hwritten hmet hbig) _)
  | expire | pExpire | expireAt | pExpireAt => exact hdeadline rfl
  | sMove | delete | mSet | lPush | rPush | lPushX | rPushX | lPop | rPop | sAdd | sRem =>
      have hsame : t = s := exec_panic (by trivial) hexec
      rw [hsame]
      exact h
  | persist key =>
      rw [exec_eq_at ex env s rfl, keyed_at] at hexec
      cases hexec
  | _ => exact hl.elim

end

/-! ### Runs -/

/-- The frame came in over the wire, before the restart, and the command it is, if any, is one of
the list and durable. -/
def DurableFrame (ex : Executor) (now : Instant) (r : Clock) (left : Left) (s : StoreInner)
    (env : Env) (frame : RespValue) : Prop :=
  Received frame ∧ env.clock.mono ≤ now ∧ ∀ cmd, Command.fromResp2 frame = .ok cmd →
    cmd.Listed env.clock ∧ Durable ex env.clock now r s left cmd

/-- **What a restart keeps.**  A connection executes such frames on an empty store with an empty
file.  The restart is at `now` on the clock of the run, and every entry is replayed at the clock
`r`.  The replay succeeds, and its live keys and their values are those that the run has at the
restart. -/
theorem restart_keeps (ex : Executor) (unprintable : Char → Bool) (steps : List (Env × RespValue))
    (now : Instant) (r : Clock) (envs : Nat → Env) (hr : ∀ i, (envs i).clock = r)
    (hsteps : Session.start.AllNoting ex unprintable (Left.next ex now r) (DurableFrame ex now r)
      (fun _ => none) steps) :
    ∃ s, syncStoreWithAof ex true envs (some (Session.start.run ex unprintable steps).aof)
        Store.new = .ok s ∧
      ∀ key, s.get r.mono key = (Session.start.run ex unprintable steps).store.get now key := by
  have hnext : ∀ {left : Left} {s : StoreInner} {env : Env} {frame : RespValue} {cmd : Command},
      Command.fromResp2 frame = .ok cmd →
        left.next ex now r s env frame = left.exec ex env.clock now r s cmd := fun hcmd => by
    rw [Left.next, hcmd]
  obtain ⟨left, cmds, hlog, s', hreplay, hs⟩ := Session.run_log_noting
    (P := fun left s cmds =>
      ∃ s', replay ex envs cmds Store.new = some s' ∧ Restored now r.mono left s s')
    (fun _ _ _ _ h => h.1.fits)
    (fun left s cmds env frame hP hno => by
      have hsame : left.next ex now r s env frame = left := by
        rw [Left.next]
        split
        · next cmd hcmd => exact absurd hcmd (hno cmd)
        · rfl
      rw [hsame]
      exact hP)
    (fun left s cmds env frame cmd response t hP hQ hcmd hexec => by
      obtain ⟨s', hreplay, hs⟩ := hP
      obtain ⟨-, hle, hQ⟩ := hQ
      obtain ⟨hl, hd⟩ := hQ cmd hcmd
      obtain ⟨a, as, rfl, -⟩ := Command.fromResp2_eq_ok hcmd
      have hi := hr cmds.length
      subst hi
      obtain ⟨hlogged, hunlogged⟩ :=
        exec_followed hl hd (Command.fromResp2_shaped hcmd) hle hs hexec
      unfold logged
      rw [hnext hcmd]
      cases happ : appends cmd response with
      | true =>
          obtain ⟨response', t', hexec', ht⟩ := hlogged happ
          exact ⟨t', by rw [if_pos rfl]; exact replay_snoc hreplay hexec', ht⟩
      | false =>
          refine ⟨s', ?_, hunlogged happ⟩
          rw [if_neg Bool.false_ne_true, List.append_nil]
          exact hreplay)
    (fun left s cmds env frame cmd t hP hQ hcmd hexec => by
      obtain ⟨s', hreplay, hs⟩ := hP
      obtain ⟨-, hle, hQ⟩ := hQ
      obtain ⟨hl, hd⟩ := hQ cmd hcmd
      have hi := hr 0
      subst hi
      rw [hnext hcmd]
      exact ⟨s', hreplay, panic_followed hl hd hle hs hexec⟩)
    (w := .start) IsLog.nil ⟨Store.new, rfl, .new⟩ hsteps
  refine ⟨s', ?_, fun key => ?_⟩
  · rw [sync_eq_replay hlog, hreplay]
    rfl
  · rw [get_eq_live, get_eq_live]
    exact (hs key).live

/-- SET with a deadline, PERSIST, and EXPIRE with a deadline that passes before the restart. -/
def overdueRun : List (Env × RespValue) :=
  [(Env.at 0 0, bulkArray ["SET", "k", "v", "EXAT", "1"]), (Env.at 0 0, bulkArray ["PERSIST", "k"]),
    (Env.at 0 0, bulkArray ["SET", "l", "v"]), (Env.at 0 0, bulkArray ["EXPIRE", "l", "1"])]

/-- The restart five seconds later has `k`, whose deadline PERSIST took away, and not `l`. -/
theorem restart_keeps_overdue : ∃ s,
    syncStoreWithAof .plain true (fun _ => Env.at 0 5000000000)
        (some (Session.start.run .plain (fun _ => false) overdueRun).aof) Store.new = .ok s ∧
      ∀ key, s.get 5000000000 key =
        (Session.start.run .plain (fun _ => false) overdueRun).store.get 5000000000 key := by
  have hwords : ∀ words ∈ [["SET", "k", "v", "EXAT", "1"], ["PERSIST", "k"], ["SET", "l", "v"],
      ["EXPIRE", "l", "1"]], Received (bulkArray words) := by
    intro words hwords
    refine received_bulkArray (Command.fits_bulkArray.mpr ?_)
    revert words
    decide
  have hfit : SetExpiry.Fits (Clock.at 0 0) (some (.exAt 1)) := fun e d he hd => by
    cases he
    cases hd
    decide +kernel
  have hfit' : SetExpiry.Fits (Clock.at 0 5000000000) (some (.exAt 1)) := fun e d he hd => by
    cases he
    have hoff : (SetExpiry.exAt 1).offset (Clock.at 0 5000000000) = some 0 := by decide +kernel
    cases hoff.symm.trans hd
    decide +kernel
  refine restart_keeps .plain (fun _ => false) overdueRun 5000000000 (Clock.at 0 5000000000)
    (fun _ => Env.at 0 5000000000) (fun _ => rfl) ?_
  refine fun _ => ⟨⟨hwords _ (by simp), by decide, fun cmd hcmd => ?_⟩,
    fun _ => ⟨⟨hwords _ (by simp), by decide, fun cmd hcmd => ?_⟩,
    fun _ => ⟨⟨hwords _ (by simp), by decide, fun cmd hcmd => ?_⟩,
    fun _ => ⟨⟨hwords _ (by simp), by decide, fun cmd hcmd => ?_⟩, trivial⟩⟩⟩⟩
  · cases (show Outcome.ok (Command.set "k" "v" none (some (.exAt 1)) false) = .ok cmd from hcmd)
    refine ⟨fun e he => by cases he; rfl, fun prev prev' hp hp' => ?_⟩
    cases (show Except.ok none = Except.ok prev from hp)
    cases (show Except.ok none = Except.ok prev' from hp')
    exact ⟨fun _ h => absurd hfit h, fun _ => ⟨fun _ => hfit', by decide +kernel⟩⟩
  · cases (show Outcome.ok (Command.persist "k") = .ok cmd from hcmd)
    exact ⟨trivial, fun _ => by decide +kernel⟩
  · cases (show Outcome.ok (Command.set "l" "v" none none false) = .ok cmd from hcmd)
    refine ⟨nofun, fun prev prev' hp hp' => ?_⟩
    cases (show Except.ok none = Except.ok prev from hp)
    cases (show Except.ok none = Except.ok prev' from hp')
    exact ⟨fun _ h => absurd nofun h, fun _ => ⟨fun _ => nofun, by decide +kernel⟩⟩
  · cases (show Outcome.ok (Command.expire "l" 1) = .ok cmd from hcmd)
    refine ⟨trivial, fun key deadline key' u n hd habs _ _ => ?_⟩
    cases hd
    cases habs
    exact ⟨by decide +kernel, fun hlt => absurd hlt (by decide +kernel)⟩

/-- SET, PEXPIRE of a millisecond and PERSIST, one after the other. -/
def persistedRun : List (Env × RespValue) :=
  [(Env.at 0 0, bulkArray ["SET", "k", "v"]), (Env.at 0 0, bulkArray ["PEXPIRE", "k", "1"]),
    (Env.at 0 0, bulkArray ["PERSIST", "k"])]

/-- PERSIST kept the key, and at a restart five milliseconds later it is missing. -/
theorem restart_loses_persisted :
    ¬∀ (ex : Executor) (unprintable : Char → Bool) (epoch : Nat) (steps : List (Env × RespValue))
      (now : Instant) (envs : Nat → Env),
      (∀ p ∈ steps, Received p.2 ∧ (∃ t ≤ now, p.1.clock = Clock.at epoch t) ∧
        ∃ cmd, Command.fromResp2 p.2 = .ok cmd ∧ cmd.Listed p.1.clock) →
      steps.Pairwise (fun p q => p.1.clock.mono ≤ q.1.clock.mono) →
      (∀ i, (envs i).clock = Clock.at epoch now) →
      ∃ s, syncStoreWithAof ex true envs (some (Session.start.run ex unprintable steps).aof)
          Store.new = .ok s ∧
        ∀ key, s.get now key = (Session.start.run ex unprintable steps).store.get now key := by
  intro h
  have hfits : ∀ words ∈ [["SET", "k", "v"], ["PEXPIRE", "k", "1"], ["PERSIST", "k"]],
      Received (bulkArray words) := by
    intro words hwords
    refine received_bulkArray (Command.fits_bulkArray.mpr ?_)
    revert words
    decide
  have hall : ∀ p ∈ persistedRun, Received p.2 ∧ (∃ t ≤ 5000000, p.1.clock = Clock.at 0 t) ∧
      ∃ cmd, Command.fromResp2 p.2 = .ok cmd ∧ cmd.Listed p.1.clock := by
    intro p hp
    simp only [persistedRun, List.mem_cons, List.not_mem_nil, or_false] at hp
    rcases hp with rfl | rfl | rfl
    · exact ⟨hfits _ (by simp), ⟨0, by decide, rfl⟩, _, rfl, nofun⟩
    · exact ⟨hfits _ (by simp), ⟨0, by decide, rfl⟩, _, rfl, trivial⟩
    · exact ⟨hfits _ (by simp), ⟨0, by decide, rfl⟩, _, rfl, trivial⟩
  obtain ⟨s, hsync, hget⟩ := h .plain (fun _ => false) 0 persistedRun 5000000
    (fun _ => Env.at 0 5000000) hall (by decide) fun _ => rfl
  have hlive : (Session.start.run .plain (fun _ => false) persistedRun).store.get 5000000 "k" =
      some (.str "v") := by decide +kernel
  have hgone : (syncStoreWithAof .plain true (fun _ => Env.at 0 5000000)
      (some (Session.start.run .plain (fun _ => false) persistedRun).aof) Store.new).bind
        (fun s => .ok (s.get 5000000 "k")) = .ok none := by decide +kernel
  rw [hsync] at hgone
  have hnone : s.get 5000000 "k" = none := Outcome.ok.inj hgone
  rw [hget "k", hlive] at hnone
  cases hnone

end Thesaurus
