import Thesaurus.Glob.Tokens

/-!
# Glob — indexing

`string_match_impl` reads its slices by index.  Here it is once more, with every index: one out of
range, where the program panics, is `none`.

* `Indexed.stringMatchImpl_eq`: no index is out of range, and the result is that of
  `Pattern.stringMatchImpl`.
* `Indexed.stringMatchImpl_iff`: the matcher computes the glob language.
-/

namespace Thesaurus.Pattern.Indexed
open Bytes Glob

/-! ### The program -/

/-- `p[i]`. -/
def index (p : Bytes) (i : Nat) : Option UInt8 := p[i]?

/-- `&p[i..]`. -/
def sliceFrom (p : Bytes) (i : Nat) : Option Bytes :=
  if i ≤ p.length then some (p.drop i) else none

/-- `p.len() > i && p[i] == c`, whose index is read only behind the test of the length. -/
def isAt (p : Bytes) (i : Nat) (c : UInt8) : Option Bool :=
  if p.length > i then (index p i).map (· == c) else some false

/-- `if !p.is_empty() { p = &p[1..] }`. -/
def advance (p : Bytes) : Option Bytes := if p.isEmpty then some p else sliceFrom p 1

/-- `while pattern.len() > 1 && pattern[1] == b'*'`. -/
def skipStars : Nat → Bytes → Option Bytes
  | 0,        _       => none
  | fuel + 1, pattern => do
      if ← isAt pattern 1 42 then skipStars fuel (← sliceFrom pattern 1) else return pattern

/-- The loop over a character class. -/
def classLoop (string : Bytes) : Nat → Bytes → Bool → Option (Bool × Bytes)
  | 0,        _,       _       => none
  | fuel + 1, pattern, matched => do
      let escaped ← if pattern.length > 1 then (index pattern 0).map (· == 92) else some false
      if escaped then
        let pattern ← sliceFrom pattern 1
        let matched := matched || (← index pattern 0) == (← index string 0)
        classLoop string fuel (← sliceFrom pattern 1) matched
      else if pattern.head? == some 93 then return (matched, pattern)
      else if pattern.isEmpty then return (matched, pattern)
      else
        let isRange ← if pattern.length > 2 then (index pattern 1).map (· == 45) else some false
        if isRange then
          let x ← index pattern 0
          let y ← index pattern 2
          let c ← index string 0
          let pattern ← sliceFrom pattern 2
          classLoop string fuel (← sliceFrom pattern 1)
            (matched || (decide (min x y ≤ c) && decide (c ≤ max x y)))
        else
          let matched := matched || (← index pattern 0) == (← index string 0)
          classLoop string fuel (← sliceFrom pattern 1) matched

/-- The loop over the offsets of the string that follows a star; `&string[1..]` is taken from a
string that is not empty. -/
def starLoop (rest : Bytes → Bool → Option (Bool × Bool)) : Bytes → Bool → Option (Bool × Bool)
  | [],          _    => some (false, true)
  | c :: string, skip => do
      match ← rest (c :: string) skip with
      | (true, skip)   => return (true, skip)
      | (false, true)  => return (false, true)
      | (false, false) => starLoop rest string false

/-- The match on the pattern's byte `p`, a star apart: whether to go on, and the pattern then. -/
def matchByte (string pattern : Bytes) (p : UInt8) : Option (Bool × Bytes) :=
  if p = 63 then some (true, pattern)
  else if p = 91 then do
    let pattern ← sliceFrom pattern 1
    let negated := pattern.head? == some 94
    let pattern ← if negated then sliceFrom pattern 1 else some pattern
    let (matched, pattern) ← classLoop string (pattern.length + 1) pattern false
    return (!(matched == negated), pattern)
  else if p = 92 ∧ pattern.length > 1 then do
    let pattern ← sliceFrom pattern 1
    return ((← index pattern 0) == (← index string 0), pattern)
  else do return ((← index pattern 0) == (← index string 0), pattern)

/-- The loop of `string_match_impl`. -/
def matchLoop : Nat → Nat → Bytes → Bytes → Bool → Option (Bool × Bool)
  | 0,        _,     _,      _,       _    => none
  | fuel + 1, depth, string, pattern, skip =>
      if pattern.isEmpty || string.isEmpty then
        some (pattern.isEmpty && string.isEmpty, skip)
      else do
        let p ← index pattern 0
        if p = 42 then
          let pattern ← skipStars pattern.length pattern
          if pattern.length = 1 then some (true, skip)
          else
            starLoop (fun string skip => do
              let pattern ← sliceFrom pattern 1
              if depth + 1 > maxDepth then some (false, skip)
              else matchLoop fuel (depth + 1) string pattern skip) string skip
        else
          let (goOn, pattern) ← matchByte string pattern p
          if goOn then
            let pattern ← advance pattern
            let string ← advance string
            if string.isEmpty then some ((pattern.dropWhile (· == 42)).isEmpty, skip)
            else matchLoop fuel depth string pattern skip
          else some (false, skip)

/-- `string_match_impl`. -/
def stringMatchImpl (string pattern : Bytes) (skip : Bool) (depth : Nat) : Option (Bool × Bool) :=
  if depth > maxDepth then some (false, skip)
  else matchLoop (pattern.length + 1) depth string pattern skip

/-! ### No index is out of range -/

@[simp] theorem index_cons_zero (c : UInt8) (p : Bytes) : index (c :: p) 0 = some c := rfl

@[simp] theorem sliceFrom_cons_one (c : UInt8) (p : Bytes) : sliceFrom (c :: p) 1 = some p := by
  simp [sliceFrom]

theorem skipStars_eq {fuel : Nat} {rest : Bytes} (hfuel : rest.length < fuel) (p : UInt8) :
    skipStars fuel (p :: rest) =
      some (if rest.head? = some 42 then 42 :: rest.dropWhile (· == 42) else p :: rest) := by
  induction fuel generalizing rest p with
  | zero => omega
  | succ fuel ih =>
      cases rest with
      | nil => simp [skipStars, isAt]
      | cons q rest =>
          rw [List.length_cons] at hfuel
          by_cases hq : q = 42
          · subst hq
            have hstep : skipStars (fuel + 1) (p :: 42 :: rest) = skipStars fuel (42 :: rest) := by
              simp [skipStars, isAt, index]
            rw [hstep, ih (by omega)]
            cases rest with
            | nil => simp
            | cons r rest =>
                by_cases hr : r = 42 <;> simp [hr]
          · simp [skipStars, isAt, index, hq]

theorem classLoop_eq (c : UInt8) (s : Bytes) {fuel : Nat} {p : Bytes} (hfuel : p.length < fuel)
    (matched : Bool) :
    classLoop (c :: s) fuel p matched = some (Pattern.classLoop c p matched) := by
  induction fuel generalizing p matched with
  | zero => omega
  | succ fuel ih =>
      match p with
      | [] => simp [classLoop, Pattern.classLoop]
      | [x] =>
          by_cases hx : x = 93
          · subst hx
            simp [classLoop, Pattern.classLoop]
          · have hlen : ([] : Bytes).length < fuel := by simpa using hfuel
            simp [classLoop, Pattern.classLoop, hx, ih hlen]
      | x :: y :: rest =>
          rw [List.length_cons, List.length_cons] at hfuel
          have hrest : rest.length < fuel := by omega
          have hrest' : (y :: rest).length < fuel := by rw [List.length_cons]; omega
          by_cases hescape : x = 92
          · subst hescape
            simp [classLoop, Pattern.classLoop, ih hrest]
          by_cases hclose : x = 93
          · subst hclose
            simp [classLoop, Pattern.classLoop]
          cases rest with
          | nil => 
              simp [classLoop, Pattern.classLoop, hescape, hclose, ih hrest']
          | cons z rest =>
              by_cases hrange : y = 45
              · subst hrange
                have hlen : rest.length < fuel := by rw [List.length_cons] at hrest; omega
                simp [classLoop, Pattern.classLoop, index, sliceFrom, hescape, hclose, ih hlen]
              · simp [classLoop, Pattern.classLoop, index, hescape, hclose, hrange, ih hrest']

@[simp] theorem advance_eq (p : Bytes) : advance p = some p.tail := by
  cases p <;> simp [advance]

theorem starLoop_eq {rest : Bytes → Bool → Option (Bool × Bool)}
    {f : Bytes → Bool → Bool × Bool} (h : ∀ s skip, rest s skip = some (f s skip)) (s : Bytes)
    (skip : Bool) : starLoop rest s skip = some (Pattern.starLoop f s skip) := by
  induction s generalizing skip with
  | nil => rfl
  | cons c s ih =>
      rw [starLoop, Pattern.starLoop, h]
      rcases f (c :: s) skip with ⟨_ | _, _ | _⟩
      · exact ih false
      · rfl
      · rfl
      · rfl

theorem matchByte_class (c : UInt8) (s rest : Bytes) :
    matchByte (c :: s) (91 :: rest) 91 =
      some (!((Pattern.classLoop c (classBody rest) false).1 == (rest.head? == some 94)),
        (Pattern.classLoop c (classBody rest) false).2) := by
  rw [matchByte, if_neg (by decide), if_pos rfl]
  simp only [sliceFrom_cons_one, Option.bind_eq_bind, Option.bind_some, classBody]
  cases rest with
  | nil =>
      have hloop : classLoop (c :: s) 1 [] false = _ := classLoop_eq c s (Nat.lt_succ_self _) false
      simp [hloop]
  | cons q rest =>
      by_cases hq : q = 94
      · have hloop : classLoop (c :: s) (rest.length + 1) rest false = _ :=
          classLoop_eq c s (Nat.lt_succ_self _) false
        simp [hloop, hq]
      · have hloop : classLoop (c :: s) (rest.length + 1 + 1) (q :: rest) false = _ :=
          classLoop_eq c s (Nat.lt_succ_self _) false
        simp [hloop, hq]

/-- **No index is out of range** in the loop of `string_match_impl`. -/
theorem matchLoop_eq {fuel : Nat} {pattern : Bytes} (hfuel : pattern.length < fuel) (depth : Nat)
    (s : Bytes) (skip : Bool) :
    matchLoop fuel depth s pattern skip =
      some (Pattern.matchLoop fuel depth s pattern skip) := by
  induction fuel generalizing pattern depth s skip with
  | zero => omega
  | succ fuel ih =>
      rw [matchLoop, Pattern.matchLoop.eq_def]
      cases s with
      | nil => simp
      | cons c s =>
          cases pattern with
          | nil => rfl
          | cons p rest =>
              rw [List.length_cons] at hfuel
              -- the step to the next byte of both
              have hnext : ∀ pattern : Bytes, pattern.length ≤ rest.length →
                  (if s.isEmpty then some ((pattern.dropWhile (· == 42)).isEmpty, skip)
                    else matchLoop fuel depth s pattern skip) =
                  some (if s.isEmpty then ((pattern.dropWhile (· == 42)).isEmpty, skip)
                    else Pattern.matchLoop fuel depth s pattern skip) := by
                intro pattern hlen
                split_ifs with he
                · rfl
                · exact ih (by omega) depth s skip
              have hbyte : ∀ (x : UInt8) (pattern : Bytes), pattern.length ≤ rest.length →
                  (if (x == c) = true then
                    (if s.isEmpty then some ((pattern.dropWhile (· == 42)).isEmpty, skip)
                      else matchLoop fuel depth s pattern skip) else some (false, skip)) =
                  some (if x ≠ c then (false, skip) else
                    if s.isEmpty then ((pattern.dropWhile (· == 42)).isEmpty, skip)
                    else Pattern.matchLoop fuel depth s pattern skip) := by
                intro x pattern hlen
                by_cases hx : x = c
                · subst hx
                  rw [beq_self_eq_true, if_pos rfl, if_neg (not_not_intro rfl)]
                  exact hnext pattern hlen
                · rw [beq_eq_false_iff_ne.mpr hx, if_neg Bool.false_ne_true, if_pos hx]
              simp only [List.isEmpty_cons, Bool.or_self, Bool.false_eq_true, if_false,
                index_cons_zero, Option.bind_eq_bind, Option.bind_some]
              -- a run of stars is skipped, and the rest is tried at every end of the string
              by_cases hstar : p = 42
              · subst hstar
                rw [if_pos rfl, if_pos rfl, List.length_cons,
                  skipStars_eq (Nat.lt_succ_self _)]
                have hrun : (if rest.head? = some 42 then 42 :: rest.dropWhile (· == 42)
                    else 42 :: rest) = 42 :: rest.dropWhile (· == 42) := by
                  cases rest with
                  | nil => rfl
                  | cons q rest => by_cases hq : q = 42 <;> simp [hq]
                have hlen := (List.dropWhile_suffix (· == (42 : UInt8)) (l := rest)).length_le
                rw [hrun]
                simp only [Option.bind_some, List.length_cons, Nat.add_eq_right,
                  List.length_eq_zero_iff, List.isEmpty_iff]
                by_cases hnil : rest.dropWhile (· == 42) = []
                · rw [if_pos hnil, if_pos hnil]
                · rw [if_neg hnil, if_neg hnil]
                  refine starLoop_eq (fun s skip => ?_) (c :: s) skip
                  rw [sliceFrom_cons_one, Option.bind_some]
                  split_ifs
                  · rfl
                  · exact ih (by omega) (depth + 1) s skip
              rw [if_neg hstar, if_neg hstar]
              by_cases hany : p = 63
              · subst hany
                rw [matchByte, if_pos rfl, if_pos rfl]
                exact hnext rest (Nat.le_refl _)
              rw [if_neg hany]
              -- the loop over a class stops within the pattern, so the index behind it is in range
              by_cases hclass : p = 91
              · subst hclass
                rw [matchByte_class, if_pos rfl]
                have hlen : (Pattern.classLoop c (classBody rest) false).2.tail.length ≤
                    rest.length := by
                  have := length_items (classBody rest)
                  have := length_classBody rest
                  have heq : (Pattern.classLoop c (classBody rest) false).2 =
                    (items (classBody rest)).2 := by rw [Pattern.classLoop_eq]
                  rw [heq, List.length_tail]
                  omega
                have h := hnext _ hlen
                simp only [Option.bind_some, advance_eq]
                show _ = some (if (Pattern.classLoop c (classBody rest) false).1 ==
                  (rest.head? == some 94) then _ else _)
                cases (Pattern.classLoop c (classBody rest) false).1 == (rest.head? == some 94) with
                | true => rfl
                | false => exact h
              rw [if_neg hclass]
              -- a backslash stands for the byte behind it, or for itself at the end
              by_cases hescape : p = 92
              · subst hescape
                rw [if_pos rfl]
                cases rest with
                | nil =>
                    rw [matchByte, if_neg (by decide), if_neg (by decide), if_neg (by simp)]
                    exact hbyte 92 [] (Nat.le_refl _)
                | cons x rest =>
                    rw [matchByte, if_neg (by decide), if_neg (by decide), if_pos (by simp)]
                    exact hbyte x rest (by simp)
              rw [if_neg hescape, matchByte, if_neg hany, if_neg hclass,
                if_neg fun h => hescape h.1]
              exact hbyte p rest (Nat.le_refl _)

theorem stringMatchImpl_eq (s p : Bytes) (skip : Bool) (depth : Nat) :
    stringMatchImpl s p skip depth = some (Pattern.stringMatchImpl s p skip depth) := by
  rw [stringMatchImpl, Pattern.stringMatchImpl]
  split_ifs
  · rfl
  · exact matchLoop_eq (Nat.lt_succ_self _) depth s skip

/-- **The matcher computes the glob language.**  No index is out of range, and the answer is yes
exactly when both are empty, or the string is not, at most a thousand runs of stars have a further
token behind them, and the string can be split among the tokens. -/
theorem stringMatchImpl_iff (s p : Bytes) : ∃ answer skip,
    stringMatchImpl s p false 0 = some (answer, skip) ∧
      (answer = true ↔
        (s = [] ∧ p = []) ∨ (s ≠ [] ∧ innerStars (tokens p) ≤ 1000 ∧ Matches (tokens p) s)) :=
  ⟨_, _, stringMatchImpl_eq s p false 0, stringMatchImpl_true_iff s p⟩

end Thesaurus.Pattern.Indexed
