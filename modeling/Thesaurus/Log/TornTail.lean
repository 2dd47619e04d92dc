import Thesaurus.Log.Replay
import Thesaurus.Wire.Torn

/-!
# Log — a torn tail

A crash in the middle of an append leaves an AOF whose last frame is incomplete.  The replay
executes the complete ones and should then stop as if the file ended there; it does, unless the
tail is cut within a header, where the decoder reports an error of another kind.

* `torn_tail_iff`: which proper prefixes of a log are replayed.
-/

namespace Thesaurus
open Bytes

/-- How many of the frames lie completely inside `p`. -/
def completeFrames : List (List String) → Bytes → Nat
  | [],            _ => 0
  | args :: argss, p =>
      if encode (bulkArray args) <+: p then
        completeFrames argss (p.drop (encode (bulkArray args)).length) + 1
      else 0

/-- The first frame that does not lie completely inside `p` is cut within a header. -/
def TornInHeader : List (List String) → Bytes → Prop
  | [],            _ => False
  | args :: argss, p =>
      if encode (bulkArray args) <+: p then
        TornInHeader argss (p.drop (encode (bulkArray args)).length)
      else CutsHeader args p

/-- `args` is the command `cmd`, as a frame. -/
abbrev LoggedAs (args : List String) (cmd : Command) : Prop := Accepted (bulkArray args) cmd

theorem LoggedAs.ne_nil {args : List String} {cmd : Command} (h : LoggedAs args cmd) :
    args ≠ [] := by
  rintro rfl
  cases h.2

/-- **A proper prefix of a log** is its complete frames and a torn one. -/
theorem prefix_split {argss : List (List String)} {p : Bytes}
    (hp : p <+: encodeItems (argss.map bulkArray)) (hne : p ≠ encodeItems (argss.map bulkArray)) :
    ∃ args q, argss[completeFrames argss p]? = some args ∧
      p = encodeItems ((argss.take (completeFrames argss p)).map bulkArray) ++ q ∧
      q <+: encode (bulkArray args) ∧ q ≠ encode (bulkArray args) ∧
      (TornInHeader argss p ↔ CutsHeader args q) := by
  induction argss generalizing p with
  | nil => exact absurd (List.prefix_nil.mp hp) hne
  | cons args argss ih =>
      rw [List.map_cons, encodeItems] at hp hne
      by_cases hfull : encode (bulkArray args) <+: p
      · rw [completeFrames, TornInHeader, if_pos hfull, if_pos hfull]
        obtain ⟨p', rfl⟩ := hfull
        rw [List.drop_left]
        obtain ⟨args', q, hget, hp', hq, hqne, htorn⟩ :=
          ih ((List.prefix_append_right_inj _).mp hp)
            fun he => hne (congrArg (encode (bulkArray args) ++ ·) he)
        refine ⟨args', q, by rwa [List.getElem?_cons_succ], ?_, hq, hqne, htorn⟩
        rw [List.take_succ_cons, List.map_cons, encodeItems, List.append_assoc, ← hp']
      · rw [completeFrames, TornInHeader, if_neg hfull, if_neg hfull]
        rcases prefix_append_cases hp with hpre | ⟨t, -, rfl⟩
        · exact ⟨args, p, rfl, rfl, hpre, fun he => hfull (he ▸ List.prefix_refl _), Iff.rfl⟩
        · exact absurd (List.prefix_append _ t) hfull

variable {ex : Executor}

/-- The loop on a torn frame: the end of the file, or an error. -/
theorem syncLoop_torn {args : List String} {cmd : Command} {q : Bytes} (ha : LoggedAs args cmd)
    (hq : q <+: encode (bulkArray args)) (hne : q ≠ encode (bulkArray args)) {fuel : Nat}
    (hf : q.length < fuel) (envs : Nat → Env) (s : StoreInner) :
    (¬CutsHeader args q ∧ syncLoop ex fuel envs q s = .ok s) ∨
      (CutsHeader args q ∧ ∃ e, syncLoop ex fuel envs q s = .err e) := by
  obtain ⟨fuel, rfl⟩ : ∃ n, fuel = n + 1 := ⟨fuel - 1, by omega⟩
  obtain ⟨e, he, hiff⟩ := decode_torn ha.ne_nil ha.1 hq hne
  rw [syncLoop, he]
  by_cases hc : CutsHeader args q
  · refine .inr ⟨hc, e, ?_⟩
    cases e with
    | unexpectedEof => exact absurd hc (hiff.mp rfl)
    | _ => rfl
  · rw [hiff.mpr hc]
    exact .inl ⟨hc, rfl⟩

/-- **A torn tail is tolerated** exactly when the cut is not within a header.  The replay of a
proper prefix of a log returns `Ok` and leaves the store that the commands of the complete frames
lead to, exactly when these can be executed and the torn frame is not cut right behind the type
byte of a header or between its CR and its LF. -/
theorem torn_tail_iff (ex : Executor) (envs : Nat → Env) (s : StoreInner)
    {argss : List (List String)} {cmds : List Command} (h : List.Forall₂ LoggedAs argss cmds)
    {p : Bytes} (hp : p <+: encodeItems (argss.map bulkArray))
    (hne : p ≠ encodeItems (argss.map bulkArray)) :
    (∃ s', replay ex envs (cmds.take (completeFrames argss p)) s = some s' ∧
        syncStoreWithAof ex true envs (some p) s = .ok s') ↔
      (replay ex envs (cmds.take (completeFrames argss p)) s).isSome ∧ ¬TornInHeader argss p := by
  obtain ⟨args, q, hget, hsplit, hq, hqne, htorn⟩ := prefix_split hp hne
  generalize completeFrames argss p = k at *
  obtain ⟨cmd, ha⟩ : ∃ cmd, LoggedAs args cmd := by
    obtain ⟨hk, rfl⟩ := List.getElem?_eq_some_iff.mp hget
    exact ⟨_, List.forall₂_iff_get.mp h |>.2 k hk (h.length_eq ▸ hk)⟩
  have hframes : List.Forall₂ Accepted ((argss.take k).map bulkArray) (cmds.take k) :=
    List.forall₂_map_left_iff.mpr (List.forall₂_take k h)
  obtain ⟨fuel, hfuel, hloop⟩ := @syncLoop_append ex envs _ _ hframes q _ (Nat.lt_succ_self _) s
  rw [← hsplit] at hloop
  have hsync : syncStoreWithAof ex true envs (some p) s =
      (replay ex envs (cmds.take k) s).elim .panic
        (syncLoop ex fuel (fun i => envs (i + (cmds.take k).length)) q) := hloop
  rw [htorn]
  cases hrun : replay ex envs (cmds.take k) s with
  | none => exact iff_of_false (fun ⟨_, he, _⟩ => by cases he) fun h => by cases h.1
  | some s' =>
      rw [hrun] at hsync
      rcases syncLoop_torn ha hq hqne hfuel (fun i => envs (i + (cmds.take k).length)) s' with
        ⟨hc, he⟩ | ⟨hc, e, he⟩
      · exact iff_of_true ⟨s', rfl, hsync.trans he⟩ ⟨rfl, hc⟩
      · refine iff_of_false ?_ fun h => h.2 hc
        rintro ⟨s'', -, hok⟩
        cases (hsync.trans he).symm.trans hok

theorem loggedAs_set : LoggedAs ["SET", "k", "v"] (.set "k" "v" none none false) :=
  ⟨Command.fits_bulkArray.mpr ⟨by decide, by decide⟩, rfl⟩

theorem loggedAs_del : LoggedAs ["DEL", "k"] (.delete ["k"]) :=
  ⟨Command.fits_bulkArray.mpr ⟨by decide, by decide⟩, rfl⟩

/-- SET, and then a DEL of which only the first line was written. -/
theorem torn_tail_set :
    ∃ s', replay .plain (fun _ => Env.at 0 0) [.set "k" "v" none none false] Store.new = some s' ∧
      syncStoreWithAof .plain true (fun _ => Env.at 0 0)
        (some (encode (bulkArray ["SET", "k", "v"]) ++ encodeLine 42 [50])) Store.new = .ok s' := by
  have hiff := torn_tail_iff .plain (fun _ => Env.at 0 0) Store.new
    (.cons loggedAs_set (.cons loggedAs_del .nil))
    (p := encode (bulkArray ["SET", "k", "v"]) ++ encodeLine 42 [50])
    (by rw [List.map_cons, encodeItems, List.prefix_append_right_inj]; decide)
    (by rw [List.map_cons, encodeItems, Ne, List.append_cancel_left_eq]; decide)
  have hk : completeFrames [["SET", "k", "v"], ["DEL", "k"]]
      (encode (bulkArray ["SET", "k", "v"]) ++ encodeLine 42 [50]) = 1 := by
    rw [completeFrames, if_pos (List.prefix_append _ _), List.drop_left, completeFrames,
      if_neg (by decide)]
  rw [hk] at hiff
  refine hiff.mpr ⟨rfl, fun h => ?_⟩
  rw [TornInHeader, if_pos (List.prefix_append _ _), List.drop_left, TornInHeader,
    if_neg (by decide)] at h
  rcases h with (h | h) | ⟨q', h, hc⟩
  · cases h
  · exact absurd h (by decide)
  · have hq : q' = [] := List.append_cancel_left (h.symm.trans (List.append_nil _).symm)
    rw [hq] at hc
    rcases hc with (h | h) | ⟨q'', h, -⟩
    · cases h
    · cases h
    · exact absurd h.symm (by simp [encode_bulk_eq, encodeLine])

/-- An AOF of the single byte `*` is an error. -/
theorem torn_tail_refused :
    ¬∀ (ex : Executor) (envs : Nat → Env) (s : StoreInner) (argss : List (List String))
      (cmds : List Command) (p : Bytes), List.Forall₂ LoggedAs argss cmds →
      p <+: encodeItems (argss.map bulkArray) → p ≠ encodeItems (argss.map bulkArray) →
      ∃ s', replay ex envs (cmds.take (completeFrames argss p)) s = some s' ∧
        syncStoreWithAof ex true envs (some p) s = .ok s' := fun h => by
  obtain ⟨s', -, hok⟩ := h .plain (fun _ => Env.at 0 0) Store.new [["DEL", "k"]] [.delete ["k"]]
    [42] (.cons loggedAs_del .nil) (by decide) (by decide)
  have htorn := @syncLoop_torn .plain _ _ _ loggedAs_del (show [42] <+: _ by decide) (by decide) _
    (Nat.lt_succ_self _) (fun _ => Env.at 0 0) Store.new
  rcases htorn with ⟨hc, -⟩ | ⟨-, e, he⟩
  · exact hc (.inl (.inl rfl))
  · cases hok.symm.trans he

end Thesaurus
