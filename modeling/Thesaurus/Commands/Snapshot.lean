import Thesaurus.Cells.Cell
import Mathlib.Order.Monotone.Basic

/-!
# Commands — MGET in time

`Store::mget` holds the lock for the whole call, so no write comes between two of its keys.  But it
reads the clock again at each key that has a deadline, and keys may expire meanwhile.

* `mget_snapshot_iff`: the reply is what the keys held at one instant, unless a key was read in time
  and a later one too late, though its deadline is not the earlier one.  Both hold strings.
-/

namespace Thesaurus
open StoreInner

/-- `Store::mget`; `nows i` is what it reads from the clock at the `i`-th key. -/
def Store.mgetTimed (s : StoreInner) (nows : Nat → Instant) (keys : List String) :
    List (Option String) :=
  keys.mapIdx fun i key =>
    match s.get (nows i) key with
    | some (.str s) => some s
    | _             => none

/-- The deadline of a key that holds a string. -/
def stringDeadline (s : StoreInner) (key : String) : Option Instant :=
  match s.cell key with
  | ⟨some (.str _), deadline⟩ => deadline
  | _                         => none

/-- Of two keys that hold strings, the `j`-th was read in time, and the `i`-th, after it, too late,
though it does not expire before the `j`-th. -/
def Torn (s : StoreInner) (nows : Nat → Instant) (keys : List String) : Prop :=
  ∃ j i, j < i ∧ ∃ k k', keys[j]? = some k ∧ keys[i]? = some k' ∧
    ∃ d d', stringDeadline s k = some d ∧ stringDeadline s k' = some d' ∧
      nows j < d ∧ d' ≤ nows i ∧ d ≤ d'

/-- The string under a key. -/
def stringAt (s : StoreInner) (now : Instant) (key : String) : Option String :=
  match s.get now key with
  | some (.str s) => some s
  | _             => none

section

variable {s : StoreInner} {nows : Nat → Instant} {keys : List String} {now now' : Instant}
  {key : String}

theorem stringAt_eq_of_none (h : stringDeadline s key = none) :
    stringAt s now key = stringAt s now' key := by
  rw [stringAt, stringAt, get_eq_live, get_eq_live]
  rw [stringDeadline] at h
  rcases hx : s.cell key with ⟨v, d⟩
  rw [hx] at h
  -- a value of another kind is no string, expired or not
  rcases v with _ | v | l | m
  · simp [Cell.live]
  · obtain rfl : d = none := h
    simp
  · by_cases h₁ : Cell.expired now ⟨some (.list l), d⟩ <;>
      by_cases h₂ : Cell.expired now' ⟨some (.list l), d⟩ <;> simp [Cell.live, h₁, h₂]
  · by_cases h₁ : Cell.expired now ⟨some (.set m), d⟩ <;>
      by_cases h₂ : Cell.expired now' ⟨some (.set m), d⟩ <;> simp [Cell.live, h₁, h₂]

/-- Two readings find the same exactly when they are on one side of the deadline. -/
theorem stringAt_eq_iff {d : Instant} (h : stringDeadline s key = some d) :
    stringAt s now key = stringAt s now' key ↔ (d ≤ now ↔ d ≤ now') := by
  rw [stringAt, stringAt, get_eq_live, get_eq_live]
  rw [stringDeadline] at h
  rcases hx : s.cell key with ⟨v, d'⟩
  rw [hx] at h
  rcases v with _ | v | _ | _
  · cases h
  · obtain rfl : d' = some d := h
    by_cases h₁ : d ≤ now <;> by_cases h₂ : d ≤ now' <;> simp [Cell.live, Cell.expired, h₁, h₂]
  · cases h
  · cases h

theorem mgetTimed_eq_iff :
    Store.mgetTimed s nows keys = Store.mget s now keys ↔
      ∀ i k d, keys[i]? = some k → stringDeadline s k = some d → (d ≤ nows i ↔ d ≤ now) := by
  have hpoint : Store.mgetTimed s nows keys = Store.mget s now keys ↔
      ∀ i k, keys[i]? = some k → stringAt s (nows i) k = stringAt s now k := by
    rw [List.ext_getElem?_iff]
    refine forall_congr' fun i => ?_
    show (keys.mapIdx fun i key => stringAt s (nows i) key)[i]? =
      (keys.map fun key => stringAt s now key)[i]? ↔ _
    rw [List.getElem?_mapIdx, List.getElem?_map]
    cases keys[i]? with
    | none => simp
    | some k => simp
  rw [hpoint]
  refine forall_congr' fun i => forall_congr' fun k => ⟨fun h d hk hd => ?_, fun h hk => ?_⟩
  · exact (stringAt_eq_iff hd).mp (h hk)
  · cases hd : stringDeadline s k with
    | none => exact stringAt_eq_of_none hd
    | some d => exact (stringAt_eq_iff hd).mpr (h d hk hd)

end

/-- An instant from `lo` on that has reached some deadlines and not those that are later than all
of them. -/
theorem exists_instant (lo : Instant) (ds : List Instant) :
    ∃ now, lo ≤ now ∧ (∀ d ∈ ds, d ≤ now) ∧
      ∀ e, lo < e → (∀ d ∈ ds, d < e) → now < e := by
  induction ds with
  | nil => exact ⟨lo, Nat.le_refl lo, by simp, fun e he _ => he⟩
  | cons d ds ih =>
      obtain ⟨now, hlo, hall, hlt⟩ := ih
      refine ⟨max d now, Nat.le_trans hlo (Nat.le_max_right d now), ?_, ?_⟩
      · intro x hx
        rcases List.mem_cons.mp hx with rfl | hx
        · exact Nat.le_max_left x now
        · exact Nat.le_trans (hall x hx) (Nat.le_max_right d now)
      · intro e he hds
        exact Nat.max_lt.mpr ⟨hds d List.mem_cons_self,
          hlt e he fun x hx => hds x (List.mem_cons_of_mem _ hx)⟩

/-- **MGET in time.**  The clock does not go back while MGET reads its keys.  What it returns is
what the keys held at one instant of the call exactly when its readings did not tear; otherwise
they held it at no instant. -/
theorem mget_snapshot_iff {s : StoreInner} {nows : Nat → Instant} (hmono : Monotone nows)
    (keys : List String) :
    (¬Torn s nows keys ↔ ∃ now, nows 0 ≤ now ∧ now ≤ nows (keys.length - 1) ∧
      Store.mgetTimed s nows keys = Store.mget s now keys) ∧
    (Torn s nows keys → ∀ now, Store.mgetTimed s nows keys ≠ Store.mget s now keys) := by
  have htorn : Torn s nows keys → ∀ now, Store.mgetTimed s nows keys ≠ Store.mget s now keys := by
    rintro ⟨j, i, -, k, k', hj, hi, d, d', hd, hd', hlive, hdead, hle⟩ now heq
    have hat := mgetTimed_eq_iff.mp heq
    -- the deadline of the later key has passed at `now`, so the one of the earlier key has
    have hpassed : d' ≤ now := (hat i k' d' hi hd').mp hdead
    have hread : d ≤ nows j := (hat j k d hj hd).mpr (Nat.le_trans hle hpassed)
    exact Nat.not_lt.mpr hread hlive
  refine ⟨⟨fun h => ?_, fun ⟨now, _, _, heq⟩ ht => htorn ht now heq⟩, htorn⟩
  -- the last deadline that had passed when its key was read
  obtain ⟨now, hfirst, hdead, hlast⟩ := exists_instant (nows 0)
    ((List.range keys.length).filterMap fun i =>
      (keys[i]?.bind (stringDeadline s)).filter (· ≤ nows i))
  have hmem : ∀ d, d ∈ ((List.range keys.length).filterMap fun i =>
      (keys[i]?.bind (stringDeadline s)).filter (· ≤ nows i)) ↔
        ∃ i k, keys[i]? = some k ∧ stringDeadline s k = some d ∧ d ≤ nows i := by
    intro d
    simp only [List.mem_filterMap, List.mem_range, Option.filter_eq_some_iff,
      Option.bind_eq_some_iff, decide_eq_true_eq]
    constructor
    · rintro ⟨i, -, ⟨k, hk, hd⟩, hle⟩
      exact ⟨i, k, hk, hd, hle⟩
    · rintro ⟨i, k, hk, hd, hle⟩
      exact ⟨i, (List.getElem?_eq_some_iff.mp hk).1, ⟨k, hk, hd⟩, hle⟩
  refine ⟨now, hfirst, ?_, mgetTimed_eq_iff.mpr fun j k d hj hd => ⟨fun hle => ?_, fun hle => ?_⟩⟩
  · refine Nat.le_of_lt_succ (hlast _ (Nat.lt_succ_of_le (hmono (Nat.zero_le _))) fun d hd => ?_)
    obtain ⟨i, k, hi, -, hle⟩ := (hmem d).mp hd
    have hlt := (List.getElem?_eq_some_iff.mp hi).1
    exact Nat.lt_succ_of_le (Nat.le_trans hle (hmono (Nat.le_sub_one_of_lt hlt)))
  · exact hdead d ((hmem d).mpr ⟨j, k, hj, hd, hle⟩)
  · by_contra hlive
    have hlive : nows j < d := Nat.not_le.mp hlive
    refine Nat.not_le.mpr (hlast d (Nat.lt_of_le_of_lt (hmono (Nat.zero_le j)) hlive) ?_) hle
    intro d' hd'
    obtain ⟨i, k', hi, hk', hle'⟩ := (hmem d').mp hd'
    rcases Nat.lt_or_ge j i with hji | hij
    · by_contra hge
      exact h ⟨j, i, hji, k, k', hj, hi, d, d', hd, hk', hlive, hle', Nat.not_lt.mp hge⟩
    · exact Nat.lt_of_le_of_lt (Nat.le_trans hle' (hmono hij)) hlive

/-- Two strings with one deadline. -/
def twins : StoreInner :=
  (((Store.new.putData "a" (.str "x")).putExpiry "a" 10).putData "b" (.str "y")).putExpiry "b" 10

/-- The deadline comes between the two keys: the reply is neither that of the first reading nor
that of the second. -/
theorem mget_snapshot_twins :
    Store.mgetTimed twins (fun i => 9 + i) ["a", "b"] ≠ Store.mget twins 9 ["a", "b"] ∧
      Store.mgetTimed twins (fun i => 9 + i) ["a", "b"] ≠ Store.mget twins 10 ["a", "b"] := by
  have hmono : Monotone fun i : Nat => (9 + i : Instant) := fun _ _ h => Nat.add_le_add_left h 9
  have htorn : Torn twins (fun i => 9 + i) ["a", "b"] :=
    ⟨0, 1, Nat.zero_lt_one, "a", "b", rfl, rfl, 10, 10, rfl, rfl, Nat.lt_succ_self 9,
      Nat.le_refl 10, Nat.le_refl 10⟩
  have hnever := (mget_snapshot_iff hmono ["a", "b"]).2 htorn
  exact ⟨hnever 9, hnever 10⟩

end Thesaurus
