import Thesaurus.Support.Bytes

/-!
# Model — Pattern

`pattern.rs`: the glob matcher behind `KEYS`.  `skip_longer_matches` is a mutable flag that the
whole search shares; here each call takes it and returns it with its answer.

Every round of the matcher consumes at least one byte of the pattern, so `matchLoop` recurses on
a bound of the pattern's length.
-/

namespace Thesaurus.Pattern
open Bytes

/-- `MAX_DEPTH`. -/
def maxDepth : Nat := 1000

/-- The loop over a character class, from behind `[` and `^` to the closing bracket or the end
of the pattern: whether a member admits the byte `c`, and the pattern at the bracket. -/
def classLoop (c : UInt8) : Bytes → Bool → Bool × Bytes
  | 92 :: x :: rest, matched     => classLoop c rest (matched || x == c)
  | 93 :: rest, matched          => (matched, 93 :: rest)
  | [], matched                  => (matched, [])
  | x :: 45 :: y :: rest, matched =>
      classLoop c rest (matched || (decide (min x y ≤ c) && decide (c ≤ max x y)))
  | x :: rest, matched           => classLoop c rest (matched || x == c)

/-- The loop over the offsets of the string that follows a star: `rest` matches the rest of the
pattern. -/
def starLoop (rest : Bytes → Bool → Bool × Bool) : Bytes → Bool → Bool × Bool
  | [], _                    => (false, true)
  | c :: string, skip =>
      match rest (c :: string) skip with
      | (true, skip)     => (true, skip)
      | (false, true)    => (false, true)
      | (false, false)   => starLoop rest string false

/-- The loop of `string_match_impl`, and the depth guard of the calls it makes. -/
def matchLoop : Nat → Nat → Bytes → Bytes → Bool → Bool × Bool
  | 0, _, _, _, skip => (false, skip)
  | fuel + 1, depth, string, pattern, skip =>
      match string, pattern with
      | [], pattern => (pattern.isEmpty, skip)
      | _ :: _, []  => (false, skip)
      | c :: string, p :: pattern =>
          -- The step to the next character of both, and the trailing stars.
          let next (pattern : Bytes) : Bool × Bool :=
            if string.isEmpty then ((pattern.dropWhile (· == 42)).isEmpty, skip)
            else matchLoop fuel depth string pattern skip
          if p = 42 then
            let pattern := pattern.dropWhile (· == 42)
            if pattern.isEmpty then (true, skip)
            else
              starLoop (fun string skip =>
                if depth + 1 > maxDepth then (false, skip)
                else matchLoop fuel (depth + 1) string pattern skip) (c :: string) skip
          else if p = 63 then next pattern
          else if p = 91 then
            let negated := pattern.head? == some 94
            let (matched, pattern) := classLoop c (if negated then pattern.tail else pattern) false
            if matched == negated then (false, skip) else next pattern.tail
          else if p = 92 then
            match pattern with
            | x :: pattern => if x ≠ c then (false, skip) else next pattern
            | []           => if p ≠ c then (false, skip) else next []
          else if p ≠ c then (false, skip)
          else next pattern

/-- `string_match_impl`. -/
def stringMatchImpl (string pattern : Bytes) (skip : Bool) (depth : Nat) : Bool × Bool :=
  if depth > maxDepth then (false, skip)
  else matchLoop (pattern.length + 1) depth string pattern skip

/-- `string_match`. -/
def stringMatch (string : String) (pattern : Bytes) : Bool :=
  (stringMatchImpl (utf8 string) pattern false 0).1

end Thesaurus.Pattern
