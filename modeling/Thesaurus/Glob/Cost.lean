import Thesaurus.Glob.Tokens

/-!
# Glob — the steps of the matcher

The matcher once more, with its steps counted: the bytes of the pattern that it passes over, and
the calls that it makes of itself.

* `countLoop_fst`: the count changes no answer.
* `stringMatch_steps`: no more steps than the length of the pattern times that of the string and
  one.  A call that comes to a star of its own is the last one of its caller, since it matches or
  sets `skip_longer_matches`; so only the calls that fail before are repeated.
-/

namespace Thesaurus.Pattern
open Bytes

/-- An answer, and the steps that were taken for it. -/
abbrev Counted (α : Type) := α × Nat

/-- Some steps before the others. -/
def after {α : Type} (n : Nat) (r : Counted α) : Counted α := (r.1, n + r.2)

/-- `starLoop`, with a step for each call. -/
def countStar (rest : Bytes → Bool → Counted (Bool × Bool)) :
    Bytes → Bool → Counted (Bool × Bool)
  | [], _ => ((false, true), 0)
  | c :: string, skip =>
      match rest (c :: string) skip with
      | ((true, skip), n)   => ((true, skip), n + 1)
      | ((false, true), n)  => ((false, true), n + 1)
      | ((false, false), n) => after (n + 1) (countStar rest string false)

/-- `matchLoop`, with a step for each byte of the pattern that is passed over. -/
def countLoop : Nat → Nat → Bytes → Bytes → Bool → Counted (Bool × Bool)
  | 0, _, _, _, skip => ((false, skip), 0)
  | fuel + 1, depth, string, pattern, skip =>
      match string, pattern with
      | [], pattern => ((pattern.isEmpty, skip), 0)
      | _ :: _, []  => ((false, skip), 0)
      | c :: string, p :: pattern =>
          let passed (rest : Bytes) : Nat := pattern.length + 1 - rest.length
          let next (rest : Bytes) : Counted (Bool × Bool) :=
            if string.isEmpty then
              (((rest.dropWhile (· == 42)).isEmpty, skip), passed (rest.dropWhile (· == 42)))
            else after (passed rest) (countLoop fuel depth string rest skip)
          if p = 42 then
            let rest := pattern.dropWhile (· == 42)
            if rest.isEmpty then ((true, skip), passed rest)
            else
              after (passed rest) (countStar (fun string skip =>
                if depth + 1 > maxDepth then ((false, skip), 0)
                else countLoop fuel (depth + 1) string rest skip) (c :: string) skip)
          else if p = 63 then next pattern
          else if p = 91 then
            let negated := pattern.head? == some 94
            let (matched, rest) := classLoop c (if negated then pattern.tail else pattern) false
            if matched == negated then ((false, skip), passed rest) else next rest.tail
          else if p = 92 then
            match pattern with
            | x :: rest => if x ≠ c then ((false, skip), 1) else next rest
            | []        => if p ≠ c then ((false, skip), 0) else next []
          else if p ≠ c then ((false, skip), 0)
          else next pattern

/-- `string_match`, with its steps. -/
def countMatch (string : String) (pattern : Bytes) : Counted Bool :=
  let r := countLoop (pattern.length + 1) 0 (utf8 string) pattern false
  (r.1.1, r.2)

/-! ### One round -/

/-- The call behind a star, with its steps. -/
def countRest (fuel depth : Nat) (rest s : Bytes) (skip : Bool) : Counted (Bool × Bool) :=
  if depth + 1 > maxDepth then ((false, skip), 0) else countLoop fuel (depth + 1) s rest skip

/-- The call behind a star. -/
def matchRest (fuel depth : Nat) (rest s : Bytes) (skip : Bool) : Bool × Bool :=
  if depth + 1 > maxDepth then (false, skip) else matchLoop fuel (depth + 1) s rest skip

/-- What a round on a byte `c` of the string comes to, with the steps counted and without: it
decides, or goes on to the rest of both, or tries the rest of the pattern behind a star. -/
inductive Round (fuel depth : Nat) (c : UInt8) (s pattern : Bytes) (skip : Bool) :
    Counted (Bool × Bool) → Bool × Bool → Prop where
  | decides (b : Bool) {n : Nat} (hn : n ≤ pattern.length) :
      Round fuel depth c s pattern skip ((b, skip), n) (b, skip)
  | goesOn {rest : Bytes} {n : Nat} (hn : n + rest.length = pattern.length) (hpos : 0 < n) :
      Round fuel depth c s pattern skip (after n (countLoop fuel depth s rest skip))
        (matchLoop fuel depth s rest skip)
  | star {rest : Bytes} {n : Nat} (hn : n + rest.length = pattern.length) (hpos : 0 < n) :
      Round fuel depth c s pattern skip
        (after n (countStar (countRest fuel depth rest) (c :: s) skip))
        (starLoop (matchRest fuel depth rest) (c :: s) skip)

variable {fuel depth : Nat} {c p : UInt8} {s pattern : Bytes} {skip : Bool}

/-- A mismatch decides. -/
theorem Round.ite {q : Prop} [Decidable q] {n : Nat} (hn : n ≤ pattern.length)
    {r : Counted (Bool × Bool)} {r' : Bool × Bool}
    (h : Round fuel depth c s pattern skip r r') :
    Round fuel depth c s pattern skip (if q then ((false, skip), n) else r)
      (if q then (false, skip) else r') := by
  split_ifs
  · exact .decides false hn
  · exact h

/-- **One round.** -/
theorem round_cases : Round fuel depth c s (p :: pattern) skip
    (countLoop (fuel + 1) depth (c :: s) (p :: pattern) skip)
    (matchLoop (fuel + 1) depth (c :: s) (p :: pattern) skip) := by
  -- the step to the next byte of both
  have hnext : ∀ rest : Bytes, rest.length ≤ pattern.length →
      Round fuel depth c s (p :: pattern) skip
        (if s.isEmpty then (((rest.dropWhile (· == 42)).isEmpty, skip),
            pattern.length + 1 - (rest.dropWhile (· == 42)).length)
          else after (pattern.length + 1 - rest.length) (countLoop fuel depth s rest skip))
        (if s.isEmpty then ((rest.dropWhile (· == 42)).isEmpty, skip)
          else matchLoop fuel depth s rest skip) := by
    intro rest hrest
    split_ifs
    · exact .decides _ (Nat.sub_le _ _)
    · exact .goesOn (by simp; omega) (by omega)
  rw [countLoop.eq_def, matchLoop.eq_def]
  dsimp only
  by_cases hstar : p = 42
  · have hlen := (List.dropWhile_suffix (· == (42 : UInt8)) (l := pattern)).length_le
    rw [if_pos hstar, if_pos hstar]
    by_cases hrest : (pattern.dropWhile (· == 42)).isEmpty = true
    · rw [if_pos hrest, if_pos hrest]
      exact .decides true (Nat.sub_le _ _)
    · rw [if_neg hrest, if_neg hrest]
      refine .star ?_ ?_
      · rw [List.length_cons]
        omega
      · omega
  rw [if_neg hstar, if_neg hstar]
  by_cases hany : p = 63
  · rw [if_pos hany, if_pos hany]
    exact hnext pattern le_rfl
  rw [if_neg hany, if_neg hany]
  by_cases hclass : p = 91
  · rw [if_pos hclass, if_pos hclass]
    obtain ⟨matched, rest, hloop, hlen⟩ : ∃ matched rest,
        classLoop c (if pattern.head? == some 94 then pattern.tail else pattern) false =
          (matched, rest) ∧ rest.length ≤ pattern.length :=
      ⟨_, _, classLoop_eq c (classBody pattern) false,
        (length_items (classBody pattern)).trans (length_classBody pattern)⟩
    rw [hloop]
    refine .ite (Nat.sub_le _ _) (hnext rest.tail ?_)
    rw [List.length_tail]
    omega
  rw [if_neg hclass, if_neg hclass]
  by_cases hescape : p = 92
  · rw [if_pos hescape, if_pos hescape]
    rcases pattern with _ | ⟨x, rest⟩
    · exact .ite (Nat.zero_le _) (hnext [] le_rfl)
    · exact .ite (by simp) (hnext rest (by simp))
  rw [if_neg hescape, if_neg hescape]
  exact .ite (Nat.zero_le _) (hnext pattern le_rfl)

/-! ### The answers -/

theorem countStar_fst {rest : Bytes → Bool → Counted (Bool × Bool)}
    {rest' : Bytes → Bool → Bool × Bool} (h : ∀ s skip, (rest s skip).1 = rest' s skip)
    (s : Bytes) (skip : Bool) : (countStar rest s skip).1 = starLoop rest' s skip := by
  induction s generalizing skip with
  | nil => rfl
  | cons c s ih =>
      rw [countStar, starLoop, ← h]
      rcases rest (c :: s) skip with ⟨⟨_ | _, _ | _⟩, n⟩
      · exact ih false
      · rfl
      · rfl
      · rfl

/-- **The count changes no answer.** -/
theorem countLoop_fst (fuel depth : Nat) (s pattern : Bytes) (skip : Bool) :
    (countLoop fuel depth s pattern skip).1 = matchLoop fuel depth s pattern skip := by
  induction fuel generalizing depth s pattern skip with
  | zero => rfl
  | succ fuel ih =>
      rcases s with _ | ⟨c, s⟩
      · rfl
      rcases pattern with _ | ⟨p, pattern⟩
      · rfl
      have hround := @round_cases fuel depth c p s pattern skip
      generalize countLoop (fuel + 1) depth (c :: s) (p :: pattern) skip = r at hround ⊢
      generalize matchLoop (fuel + 1) depth (c :: s) (p :: pattern) skip = r' at hround ⊢
      cases hround with
      | decides b hn => rfl
      | goesOn hn hpos => exact ih depth s _ skip
      | star hn hpos =>
          refine countStar_fst ?_ (c :: s) skip
          intro s skip
          rw [countRest, matchRest]
          split_ifs
          · rfl
          · exact ih (depth + 1) s _ skip

/-! ### The steps -/

/-- A loop over the offsets matches, or sets the flag. -/
theorem countStar_ne {rest : Bytes → Bool → Counted (Bool × Bool)} (s : Bytes) (skip : Bool) :
    (countStar rest s skip).1 ≠ (false, false) := by
  induction s generalizing skip with
  | nil => simp [countStar]
  | cons c s ih =>
      rw [countStar]
      rcases rest (c :: s) skip with ⟨⟨_ | _, _ | _⟩, n⟩
      · exact ih false
      all_goals simp

/-- The steps of a call on a string of `n` bytes and a pattern of `m`; a call that fails and leaves
the other offsets to its caller has passed over the pattern once at most. -/
def Within (n m : Nat) (r : Counted (Bool × Bool)) : Prop :=
  r.2 ≤ m * (n + 1) ∧ (r.1 = (false, false) → r.2 ≤ m)

/-- The loop over the offsets: every call but the last one has failed, and set no flag. -/
theorem countStar_le {rest : Bytes → Bool → Counted (Bool × Bool)} {m : Nat}
    (h : ∀ s : Bytes, Within s.length m (rest s false)) (s : Bytes) :
    (countStar rest s false).2 ≤ s.length + m * (s.length + 1) := by
  induction s with
  | nil => exact Nat.zero_le _
  | cons c s ih =>
      obtain ⟨hall, hfail⟩ := h (c :: s)
      rw [countStar]
      rw [List.length_cons] at hall ⊢
      rcases hr : rest (c :: s) false with ⟨⟨_ | _, _ | _⟩, n⟩
      all_goals rw [hr] at hall hfail
      · have hn : n ≤ m := hfail rfl
        simp only [after]
        rw [Nat.mul_succ m (s.length + 1)]
        omega
      all_goals
        simp only at hall ⊢
        omega

/-- **Every call.** -/
theorem countLoop_le (fuel depth : Nat) (s pattern : Bytes) :
    Within s.length pattern.length (countLoop fuel depth s pattern false) := by
  induction fuel generalizing depth s pattern with
  | zero => exact ⟨Nat.zero_le _, fun _ => Nat.zero_le _⟩
  | succ fuel ih =>
      rcases s with _ | ⟨c, s⟩
      · exact ⟨Nat.zero_le _, fun _ => Nat.zero_le _⟩
      rcases pattern with _ | ⟨p, pattern⟩
      · exact ⟨Nat.zero_le _, fun _ => Nat.zero_le _⟩
      have hround := @round_cases fuel depth c p s pattern false
      generalize countLoop (fuel + 1) depth (c :: s) (p :: pattern) false = r at hround ⊢
      generalize matchLoop (fuel + 1) depth (c :: s) (p :: pattern) false = r' at hround
      generalize p :: pattern = pattern at hround ⊢
      cases hround with
      | decides b hn => exact ⟨hn.trans (Nat.le_mul_of_pos_right _ (Nat.succ_pos _)), fun _ => hn⟩
      | @goesOn rest n hn hpos =>
          obtain ⟨hall, hfail⟩ := ih depth s rest
          refine ⟨?_, ?_⟩
          · simp only [after, List.length_cons]
            rw [← hn]
            nlinarith
          · intro hr
            have := hfail hr
            simp only [after]
            omega
      | @star rest n hn hpos =>
          have hrest : ∀ s : Bytes,
              Within s.length rest.length (countRest fuel depth rest s false) := by
            intro s
            rw [countRest]
            split_ifs
            · exact ⟨Nat.zero_le _, fun _ => Nat.zero_le _⟩
            · exact ih (depth + 1) s rest
          have hle := countStar_le hrest (c :: s)
          refine ⟨?_, fun hr => absurd hr (countStar_ne _ _)⟩
          simp only [after, List.length_cons] at hle ⊢
          rw [← hn]
          nlinarith

/-- **The matcher does not run away.**  The bytes of the pattern that `string_match` passes over and
its calls of itself are together at most the length of the pattern times one more than the length
of the string. -/
theorem stringMatch_steps (string : String) (pattern : Bytes) :
    (countMatch string pattern).1 = stringMatch string pattern ∧
      (countMatch string pattern).2 ≤ pattern.length * ((utf8 string).length + 1) := by
  refine ⟨?_, (countLoop_le _ 0 (utf8 string) pattern).1⟩
  rw [stringMatch, stringMatchImpl, if_neg (Nat.not_lt_zero maxDepth)]
  exact congrArg Prod.fst (countLoop_fst _ 0 (utf8 string) pattern false)

end Thesaurus.Pattern
