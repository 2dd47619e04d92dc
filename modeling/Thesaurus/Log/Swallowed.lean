import Thesaurus.Grammar.Arity
import Thesaurus.Log.TornTail

/-!
# Log — what a torn tail swallows

The startup accepts a log whose last entry is incomplete and leaves the file as it is; the writer
then appends to it.  At the next startup the decoder reads on in the torn entry, and takes the new
entries for the words that are missing.

* `torn_tail_swallows`: as many entries are lost as words are missing.
-/

namespace Thesaurus
open Bytes Outcome

/-- The first bytes of an entry: its header and its first `k` words. -/
def tornAt (args : List String) (k : Nat) : Bytes :=
  encodeLine 42 (decimal args.length) ++
    encodeItems ((args.take k).map fun s => .bulkString (some s))

variable {ex : Executor}

theorem decode_nil : decode [] = .err .unexpectedEof := decodeFuel_nil (Nat.succ_pos _)

/-- The bound of the loop is not reached. -/
theorem syncLoop_fuel {fuel fuel' : Nat} {bs : Bytes} (hf : bs.length < fuel)
    (hf' : bs.length < fuel') (envs : Nat → Env) (s : StoreInner) :
    syncLoop ex fuel envs bs s = syncLoop ex fuel' envs bs s := by
  induction fuel generalizing fuel' bs envs s with
  | zero => exact absurd hf (Nat.not_lt_zero _)
  | succ fuel ih =>
      obtain ⟨fuel', rfl⟩ : ∃ n, fuel' = n + 1 := ⟨fuel' - 1, by omega⟩
      rw [syncLoop, syncLoop]
      cases hd : decode bs with
      | err e => cases e <;> rfl
      | panic => rfl
      | ok p =>
          obtain ⟨v, tail⟩ := p
          have hlt := (decode_eq_ok_iff.mp hd).length_lt
          dsimp only
          cases Command.fromResp2 v with
          | err e => exact ih (by omega) (by omega) envs s
          | panic => rfl
          | ok cmd =>
              dsimp only
              cases ex.exec (envs 0) cmd s with
              | mk r s' =>
                  cases r with
                  | none => rfl
                  | some response => exact ih (by omega) (by omega) _ s'

/-- The decoder runs out of elements. -/
theorem parseElements_short {items : List RespValue} (hf : AllFit items) (hs : AllLineSafe items)
    {n fuel : Nat} (hn : items.length < n) (hfuel : (encodeItems items).length < fuel) :
    parseElements (decodeFuel fuel) n (encodeItems items) = .err .unexpectedEof := by
  induction items generalizing n with
  | nil =>
      obtain ⟨n, rfl⟩ : ∃ k, n = k + 1 := ⟨n - 1, by simp at hn; omega⟩
      rw [encodeItems, parseElements, decodeFuel_nil (by omega)]
      rfl
  | cons item items ih =>
      obtain ⟨n, rfl⟩ : ∃ k, n = k + 1 := ⟨n - 1, by simp at hn; omega⟩
      rw [List.length_cons] at hn
      rw [encodeItems, List.length_append] at hfuel
      rw [encodeItems, parseElements,
        decodeFuel_encode item hf.1 hs.1 fuel _ (by omega)]
      simp only [ok_bind]
      rw [ih hf.2 hs.2 (by omega) (by omega)]
      rfl

/-- An array with an element that is not a bulk string is not a command. -/
theorem fromResp2_of_not_bulk {args : List RespValue} {v : RespValue} (hv : v ∈ args)
    (hb : Command.isBulk v = false) : ∃ e, Command.fromResp2 (.array (some args)) = .err e := by
  rw [Command.fromResp2]
  split
  · exact ⟨_, rfl⟩
  · next hfind =>
      have h := List.find?_eq_none.mp hfind v hv
      simp [hb] at h

/-- The torn entry with the words that are missing. -/
theorem tornAt_append {args : List String} {k : Nat} {frames : List RespValue}
    (hk : k + frames.length = args.length) (hne : frames ≠ []) :
    tornAt args k ++ encodeItems frames = encode (.array (some
      ((args.take k).map (fun s => .bulkString (some s)) ++ frames))) := by
  have hlen : ((args.take k).map (fun s => RespValue.bulkString (some s)) ++ frames).length =
      args.length := by
    rw [List.length_append, List.length_map, List.length_take, ← hk]
    omega
  rw [encode, if_neg (by simp [hne]), hlen, encodeItems_append, tornAt, List.append_assoc]

/-- An entry comes over the wire, and is not a word. -/
theorem entry_of_accepted {frames : List RespValue} {cmds : List Command}
    (h : List.Forall₂ Accepted frames cmds) :
    ∀ f ∈ frames, (Fits f ∧ LineSafe f) ∧ Command.isBulk f = false := by
  induction h with
  | nil => exact fun f hf => absurd hf List.not_mem_nil
  | @cons frame cmd frames cmds ha _ ih =>
      intro f hf
      rcases List.mem_cons.mp hf with rfl | hf
      · obtain ⟨a, as, rfl, -⟩ := Command.fromResp2_eq_ok ha.2
        exact ⟨⟨ha.1, ha.lineSafe⟩, rfl⟩
      · exact ih f hf

/-- The loop on a torn entry and the entries behind it. -/
theorem syncLoop_swallows {args : List String} (hfits : Fits (bulkArray args)) {k : Nat}
    (hk : k < args.length) {frames : List RespValue} {cmds : List Command}
    (hf : List.Forall₂ Accepted frames cmds) {fuel fuel' : Nat}
    (hfuel : (tornAt args k ++ encodeItems frames).length < fuel)
    (hfuel' : (encodeItems (frames.drop (args.length - k))).length < fuel') (envs : Nat → Env)
    (s : StoreInner) :
    syncLoop ex fuel envs (tornAt args k ++ encodeItems frames) s =
      syncLoop ex fuel' envs (encodeItems (frames.drop (args.length - k))) s := by
  obtain ⟨fuel, rfl⟩ : ∃ n, fuel = n + 1 := ⟨fuel - 1, by omega⟩
  obtain ⟨hlen, hitems⟩ := hfits
  rw [List.length_map] at hlen
  have hentry := entry_of_accepted hf
  have hwords : ∀ v ∈ (args.take k).map (fun s => RespValue.bulkString (some s)),
      Fits v ∧ LineSafe v := by
    intro v hv
    obtain ⟨a, ha, rfl⟩ := List.mem_map.mp hv
    exact ⟨allFit_iff.mp hitems _ (List.mem_map_of_mem (List.mem_of_mem_take ha)), trivial⟩
  rcases Nat.lt_or_ge frames.length (args.length - k) with hfew | hmany
  -- the file ends before the torn entry has all its words
  · obtain ⟨fuel', rfl⟩ : ∃ n, fuel' = n + 1 := ⟨fuel' - 1, by omega⟩
    have hitems' : ∀ v ∈ (args.take k).map (fun s => RespValue.bulkString (some s)) ++ frames,
        Fits v ∧ LineSafe v := fun v hv => 
      (List.mem_append.mp hv).elim (hwords v) fun h => (hentry v h).1
    have hd : decode (tornAt args k ++ encodeItems frames) = .err .unexpectedEof := by
      rw [tornAt, List.append_assoc, ← encodeItems_append]
      have hh : Header (encodeLine 42 (decimal args.length) ++
          encodeItems ((args.take k).map (fun s => .bulkString (some s)) ++ frames)) 42
          (toString args.length) (encodeItems _) :=
        header_encodeLine 42 "*" rfl (by decide) (not_mem_decimal _) _
      refine (decodeFuel_header _ hh).trans ?_
      refine (parseArray_nat (parseLength_toString hlen) _).trans ?_
      rw [parseElements_short (allFit_iff.mpr fun v hv => (hitems' v hv).1)
        (allLineSafe_iff.mpr fun v hv => (hitems' v hv).2) (by simp; omega) hh.length_lt]
      rfl
    rw [List.drop_eq_nil_of_le (by omega), syncLoop, hd, encodeItems, syncLoop, decode_nil]
  -- the torn entry is completed by entries, and is not a command
  · have hsplit : encodeItems frames = encodeItems (frames.take (args.length - k)) ++
        encodeItems (frames.drop (args.length - k)) := by
      rw [← encodeItems_append, List.take_append_drop]
    have hlast : frames.take (args.length - k) ≠ [] := by
      rw [Ne, List.take_eq_nil_iff, not_or]
      exact ⟨by omega, fun h => by rw [h] at hmany; simp at hmany; omega⟩
    obtain ⟨f, hm⟩ := List.exists_mem_of_ne_nil _ hlast
    have hitems' : ∀ v ∈ (args.take k).map (fun s => RespValue.bulkString (some s)) ++
        frames.take (args.length - k), Fits v ∧ LineSafe v := fun v hv =>
      (List.mem_append.mp hv).elim (hwords v) fun h =>
        (hentry v (List.mem_of_mem_take h)).1
    have hd : decode (tornAt args k ++ encodeItems frames) = .ok (.array (some
        ((args.take k).map (fun s => .bulkString (some s)) ++ frames.take (args.length - k))),
        encodeItems (frames.drop (args.length - k))) := by
      rw [hsplit, ← List.append_assoc, tornAt_append (by simp; omega) hlast]
      have hfit : Fits (.array (some ((args.take k).map (fun s => .bulkString (some s)) ++
          frames.take (args.length - k)))) :=
        ⟨by simp; omega, allFit_iff.mpr fun v hv => (hitems' v hv).1⟩
      exact decode_encode hfit (allLineSafe_iff.mpr fun v hv => (hitems' v hv).2) _
    obtain ⟨e, he⟩ := fromResp2_of_not_bulk (List.mem_append_right
      ((args.take k).map fun s => RespValue.bulkString (some s)) hm)
      (hentry f (List.mem_of_mem_take hm)).2
    have hlt : (encodeItems (frames.drop (args.length - k))).length < fuel := by
      have := (decode_eq_ok_iff.mp hd).length_lt
      omega
    rw [syncLoop, hd]
    dsimp only
    rw [he]
    exact syncLoop_fuel hlt hfuel' envs s

/-- **A torn tail swallows the next entries.**  A crash leaves a log and the first `k` words of one
more entry, and the server starts on it and appends the entries `frames`.  The next startup does
what it would do had the torn entry and the first entries behind it, one for each missing word,
never been written. -/
theorem torn_tail_swallows (ex : Executor) {bytes : Bytes} {cmds : List Command}
    (hlog : IsLog bytes cmds) {args : List String} (hfits : Fits (bulkArray args)) {k : Nat}
    (hk : k < args.length) {frames : List RespValue} {cmds' : List Command}
    (hf : List.Forall₂ Accepted frames cmds') (envs : Nat → Env) (s : StoreInner) :
    syncStoreWithAof ex true envs (some (bytes ++ tornAt args k ++ encodeItems frames)) s =
      syncStoreWithAof ex true envs
        (some (bytes ++ encodeItems (frames.drop (args.length - k)))) s := by
  obtain ⟨old, rfl, hold⟩ := hlog
  obtain ⟨fuel, hfuel, hloop⟩ := @syncLoop_append ex envs _ _ hold
    (tornAt args k ++ encodeItems frames) _ (Nat.lt_succ_self _) s
  obtain ⟨fuel', hfuel', hloop'⟩ := @syncLoop_append ex envs _ _ hold
    (encodeItems (frames.drop (args.length - k))) _ (Nat.lt_succ_self _) s
  rw [List.append_assoc]
  refine hloop.trans (Eq.trans ?_ hloop'.symm)
  cases replay ex envs cmds s with
  | none => rfl
  | some s' => exact syncLoop_swallows hfits hk hf hfuel hfuel' _ s'

/-- Two entries behind a SET that lacks two words are lost. -/
theorem torn_tail_swallows_set :
    syncStoreWithAof .plain true (fun _ => Env.at 0 0)
        (some ([] ++ tornAt ["SET", "k", "v"] 1 ++
          encodeItems [bulkArray ["DEL", "k"], bulkArray ["SET", "a", "b"],
            bulkArray ["DEL", "a"]])) Store.new =
      syncStoreWithAof .plain true (fun _ => Env.at 0 0)
        (some ([] ++ encodeItems [bulkArray ["DEL", "a"]])) Store.new :=
  torn_tail_swallows .plain IsLog.nil (Command.fits_bulkArray.mpr ⟨by decide, by decide⟩)
    (show 1 < ["SET", "k", "v"].length by decide)
    (show List.Forall₂ Accepted [bulkArray ["DEL", "k"], bulkArray ["SET", "a", "b"],
        bulkArray ["DEL", "a"]] [.delete ["k"], .set "a" "b" none none false, .delete ["a"]] from
      .cons loggedAs_del (.cons ⟨Command.fits_bulkArray.mpr ⟨by decide, by decide⟩, rfl⟩
        (.cons ⟨Command.fits_bulkArray.mpr ⟨by decide, by decide⟩, rfl⟩ .nil)))
    (fun _ => Env.at 0 0) Store.new

end Thesaurus
