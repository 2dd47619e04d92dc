import Thesaurus.Model.Pattern
import Thesaurus.Support.Glob

/-!
# Glob — the tokens of a pattern

How a pattern is read, and that the matcher of `pattern.rs` searches for what was read.

* `tokens`: the pattern as stars and places for one byte.
* `matchLoop_eq_search`: the loop of `string_match_impl` is the search for these tokens.
* `stringMatchImpl_iff`: the matcher decides the language of the tokens, up to the depth cap.
-/

namespace Thesaurus.Pattern
open Bytes Glob

/-! ### Reading a pattern -/

/-- An item of a character class. -/
inductive Item where
  | byte (b : UInt8)
  /-- `x-y`, with its ends in either order. -/
  | range (x y : UInt8)

def Item.admits : Item → UInt8 → Bool
  | byte b,    c => b == c
  | range x y, c => decide (min x y ≤ c) && decide (c ≤ max x y)

/-- The items of a class, up to the first `]` at the start of an item or to the end of the
pattern, and the pattern from there on. -/
def items : Bytes → List Item × Bytes
  | 92 :: x :: rest      => (.byte x :: (items rest).1, (items rest).2)
  | 93 :: rest           => ([], 93 :: rest)
  | []                   => ([], [])
  | x :: 45 :: y :: rest => (.range x y :: (items rest).1, (items rest).2)
  | x :: rest            => (.byte x :: (items rest).1, (items rest).2)

theorem length_items (p : Bytes) : (items p).2.length ≤ p.length := by
  fun_induction items p <;> simp only [List.length_cons, List.length_nil] at * <;> omega

/-- What stands between `[` or `[^` and the closing bracket, and beyond. -/
def classBody (rest : Bytes) : Bytes := if rest.head? == some 94 then rest.tail else rest

theorem length_classBody (rest : Bytes) : (classBody rest).length ≤ rest.length := by
  unfold classBody
  split <;> simp

/-- The class admits a byte when one of its items does, or when none does behind `^`. -/
def classAdmits (rest : Bytes) (c : UInt8) : Bool :=
  (items (classBody rest)).1.any (fun item => item.admits c) != (rest.head? == some 94)

/-- The pattern as tokens. -/
def tokens : Bytes → List (Tok UInt8)
  | [] => []
  | p :: rest =>
      if p = 42 then .star :: tokens (rest.dropWhile (· == 42))
      else if p = 63 then .one (fun _ => true) :: tokens rest
      else if p = 91 then .one (classAdmits rest) :: tokens (items (classBody rest)).2.tail
      else if p = 92 then
        match rest with
        | x :: rest => .one (fun c => x == c) :: tokens rest
        | []        => [.one fun c => p == c]
      else .one (fun c => p == c) :: tokens rest
termination_by p => p.length
decreasing_by
  all_goals simp only [List.length_cons, List.length_tail]
  · have := (List.dropWhile_suffix (· == (42 : UInt8)) (l := rest)).length_le; omega
  · omega
  · have := length_items (classBody rest); have := length_classBody rest; omega
  · omega
  · omega

theorem tokens_nil : tokens [] = [] := by rw [tokens.eq_def]

theorem tokens_star (rest : Bytes) :
    tokens (42 :: rest) = .star :: tokens (rest.dropWhile (· == 42)) := by
  rw [tokens.eq_def]
  rfl

theorem tokens_any (rest : Bytes) : tokens (63 :: rest) = .one (fun _ => true) :: tokens rest := by
  rw [tokens.eq_def]
  rfl

theorem tokens_class (rest : Bytes) :
    tokens (91 :: rest) = .one (classAdmits rest) :: tokens (items (classBody rest)).2.tail := by
  rw [tokens.eq_def]
  rfl

theorem tokens_escape (x : UInt8) (rest : Bytes) :
    tokens (92 :: x :: rest) = .one (fun c => x == c) :: tokens rest := by
  rw [tokens.eq_def]
  rfl

theorem tokens_backslash : tokens [92] = [.one fun c => 92 == c] := by
  rw [tokens.eq_def]
  rfl

theorem tokens_byte {p : UInt8} (hstar : p ≠ 42) (hany : p ≠ 63) (hclass : p ≠ 91)
    (hescape : p ≠ 92) (rest : Bytes) :
    tokens (p :: rest) = .one (fun c => p == c) :: tokens rest := by
  rw [tokens.eq_def]
  dsimp only
  rw [if_neg hstar, if_neg hany, if_neg hclass, if_neg hescape]

theorem tokens_cons_of_ne {p : UInt8} (hp : p ≠ 42) (rest : Bytes) :
    ∃ admits ts, tokens (p :: rest) = .one admits :: ts := by
  rw [tokens.eq_def]
  dsimp only
  rw [if_neg hp]
  repeat' split
  all_goals exact ⟨_, _, rfl⟩

theorem dropWhile_star (rest : Bytes) :
    rest.dropWhile (· == 42) = [] ∨
      ∃ q rest', rest.dropWhile (· == 42) = q :: rest' ∧ q ≠ (42 : UInt8) := by
  induction rest with
  | nil => exact .inl rfl
  | cons q rest ih =>
      by_cases hq : q = 42
      · rw [List.dropWhile_cons_of_pos (by simp [hq])]
        exact ih
      · rw [List.dropWhile_cons_of_neg (by simp [hq])]
        exact .inr ⟨q, rest, rfl, hq⟩

/-- A run of stars is one token. -/
theorem tokens_collapsed (p : Bytes) : Collapsed (tokens p) := by
  fun_induction tokens p with
  | case1 => trivial
  | case2 rest ih =>
      rcases dropWhile_star rest with h | ⟨q, rest', h, hq⟩
      · rw [h, tokens_nil]
        trivial
      · obtain ⟨admits, ts, hts⟩ := tokens_cons_of_ne hq rest'
        rw [h, hts] at ih ⊢
        exact ih
  | case3 _ _ ih => exact ih
  | case4 _ _ _ ih => exact ih
  | case5 _ _ _ _ _ ih => exact ih
  | case6 => trivial
  | case7 _ _ _ _ _ _ ih => exact ih

theorem all_isStar_tokens (p : Bytes) :
    (tokens p).all Tok.isStar = (p.dropWhile (· == 42)).isEmpty := by
  cases p with
  | nil => rw [tokens_nil]; rfl
  | cons q rest =>
      by_cases hq : q = 42
      · subst hq
        rw [tokens_star, List.dropWhile_cons_of_pos (by rfl), List.all_cons]
        rcases dropWhile_star rest with h | ⟨q, rest', h, hq⟩
        · rw [h, tokens_nil]
          rfl
        · obtain ⟨admits, ts, hts⟩ := tokens_cons_of_ne hq rest'
          rw [h, hts]
          rfl
      · obtain ⟨admits, ts, hts⟩ := tokens_cons_of_ne hq rest
        rw [hts, List.dropWhile_cons_of_neg (by simpa using hq)]
        rfl

/-! ### The matcher searches for the tokens -/

theorem classLoop_eq (c : UInt8) (p : Bytes) (matched : Bool) :
    classLoop c p matched =
      (matched || (items p).1.any (fun item => item.admits c), (items p).2) := by
  fun_induction items p generalizing matched with
  | case1 x rest ih => simp [classLoop, ih, Item.admits, Bool.or_assoc]
  | case2 rest => simp [classLoop]
  | case3 => simp [classLoop]
  | case4 x y rest h₁ h₂ ih =>
      rw [classLoop, ih]
      · simp [Item.admits, Bool.or_assoc]
      all_goals assumption
  | case5 x rest h₁ h₂ h₃ ih =>
      rw [classLoop, ih]
      · simp [Item.admits, Bool.or_assoc]
      all_goals assumption

theorem starLoop_eq {rest : Bytes → Bool → Bool × Bool} {f : Bytes → Bool × Bool}
    (h : ∀ s, s ≠ [] → rest s false = f s) (s : Bytes) : starLoop rest s false = tryEnds f s := by
  induction s with
  | nil => rfl
  | cons c s ih =>
      rw [starLoop, tryEnds, h (c :: s) (List.cons_ne_nil c s)]
      rcases f (c :: s) with ⟨_ | _, _ | _⟩
      · exact ih
      · rfl
      · rfl
      · rfl

/-- **The loop of `string_match_impl`** on a string that is not empty searches for the tokens of
its pattern. -/
theorem matchLoop_eq_search {fuel : Nat} {pattern : Bytes} (hfuel : pattern.length < fuel)
    (depth : Nat) {s : Bytes} (hs : s ≠ []) :
    matchLoop fuel depth s pattern false = search maxDepth depth (tokens pattern) s := by
  induction fuel generalizing pattern depth s with
  | zero => omega
  | succ fuel ih =>
      obtain ⟨c, s, rfl⟩ := List.exists_cons_of_ne_nil hs
      cases pattern with
      | nil => rw [tokens_nil]; rfl
      | cons p rest =>
          rw [List.length_cons] at hfuel
          -- the step to the next byte of both
          have hnext : ∀ pattern : Bytes, pattern.length ≤ rest.length →
              (if s.isEmpty then ((pattern.dropWhile (· == 42)).isEmpty, false)
                else matchLoop fuel depth s pattern false) =
              if s.isEmpty then ((tokens pattern).all Tok.isStar, false)
                else search maxDepth depth (tokens pattern) s := by
            intro pattern hlen
            rw [all_isStar_tokens]
            split_ifs with he
            · rfl
            · exact ih (by omega) depth (by simpa using he)
          have hbyte : ∀ (x : UInt8) (a b : Bool × Bool), a = b →
              (if x ≠ c then (false, false) else a) =
                if (x == c) = true then b else (false, false) := by
            rintro x a _ rfl
            by_cases hx : x = c <;> simp [hx]
          rw [matchLoop.eq_def]
          dsimp only
          -- the star, and the stars behind it, are one token
          by_cases hstar : p = 42
          · subst hstar
            have hlen := (List.dropWhile_suffix (· == (42 : UInt8)) (l := rest)).length_le
            rw [if_pos rfl, tokens_star, search]
            rcases dropWhile_star rest with h | ⟨q, rest', h, hq⟩
            · rw [h, tokens_nil]
              rfl
            · have hne : (tokens (q :: rest')).isEmpty = false := by
                obtain ⟨admits, ts, hts⟩ := tokens_cons_of_ne hq rest'
                rw [hts]
                rfl
              rw [h] at hlen ⊢
              rw [hne, if_neg Bool.false_ne_true, if_neg (by simp)]
              -- behind the star the search goes on one level deeper
              refine starLoop_eq (fun s hs => ?_) (c :: s)
              split_ifs
              · rfl
              · exact ih (by omega) (depth + 1) hs
          rw [if_neg hstar]
          by_cases hany : p = 63
          · subst hany
            rw [if_pos rfl, hnext rest (Nat.le_refl _), tokens_any, search, if_pos rfl]
          rw [if_neg hany]
          by_cases hclass : p = 91
          · subst hclass
            have hlen := length_items (classBody rest)
            have hbody := length_classBody rest
            have htail : (items (classBody rest)).2.tail.length ≤ rest.length := by
              rw [List.length_tail]
              omega
            have hloop : classLoop c (if rest.head? == some 94 then rest.tail else rest) false =
                ((items (classBody rest)).1.any (fun item => item.admits c),
                  (items (classBody rest)).2) := by
              rw [classLoop_eq, Bool.false_or]
              rfl
            rw [if_pos rfl, hloop, tokens_class, search]
            dsimp only
            rw [hnext _ htail]
            -- the class admits the byte unless it is listed and the class negated, or neither
            have hadmits : classAdmits rest c =
                !((items (classBody rest)).1.any (fun item => item.admits c) ==
                  (rest.head? == some 94)) := rfl
            rw [hadmits]
            cases (items (classBody rest)).1.any (fun item => item.admits c) ==
              (rest.head? == some 94) <;> rfl
          rw [if_neg hclass]
          by_cases hescape : p = 92
          · subst hescape
            rw [if_pos rfl]
            cases rest with
            | nil =>
                have h := hnext [] (Nat.le_refl _)
                rw [tokens_nil] at h
                rw [tokens_backslash, search]
                exact hbyte 92 _ _ h
            | cons x rest =>
                have h := hnext rest (by simp)
                rw [tokens_escape, search]
                exact hbyte x _ _ h
          rw [if_neg hescape, tokens_byte hstar hany hclass hescape, search]
          exact hbyte p _ _ (hnext rest (Nat.le_refl _))

/-- The matcher decides the language of the tokens, up to the depth cap. -/
theorem stringMatchImpl_true_iff (s p : Bytes) :
    (stringMatchImpl s p false 0).1 = true ↔
      (s = [] ∧ p = []) ∨ (s ≠ [] ∧ innerStars (tokens p) ≤ maxDepth ∧ Matches (tokens p) s) := by
  rw [stringMatchImpl, if_neg (Nat.not_lt_zero maxDepth)]
  by_cases hs : s = []
  · subst hs
    rw [matchLoop.eq_def]
    simp [List.isEmpty_iff]
  · rw [matchLoop_eq_search (Nat.lt_succ_self p.length) 0 hs,
      search_iff maxDepth (tokens_collapsed p) hs]
    simp [hs]

end Thesaurus.Pattern
