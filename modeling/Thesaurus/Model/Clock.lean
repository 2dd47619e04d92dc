import Mathlib.Algebra.Group.Nat.Defs

/-!
# Model — Clock

The two clocks the program reads.  `Instant::now()` is monotonic and decides whether a key is
live; `SystemTime::now()` is the wall clock that absolute deadlines are given in.  Both count
nanoseconds.  An instant stores its seconds in an `i64`, so it cannot be moved past `2⁶³`
seconds: `checked_add` returns `None` there and `+` panics.
-/

namespace Thesaurus

/-- `std::time::Instant`: a reading of the monotonic clock. -/
abbrev Instant := Nat

/-- `std::time::Duration`. -/
abbrev Duration := Nat

/-- `Duration::from_secs`. -/
def Duration.fromSecs (secs : Nat) : Duration := secs * 1000000000

/-- `Duration::from_millis`. -/
def Duration.fromMillis (millis : Nat) : Duration := millis * 1000000

/-- `Duration::as_secs`. -/
def Duration.asSecs (d : Duration) : Nat := d / 1000000000

/-- `Duration::as_millis`. -/
def Duration.asMillis (d : Duration) : Nat := d / 1000000

/-- The first instant whose seconds do not fit in an `i64`. -/
def Instant.limit : Nat := 2 ^ 63 * 1000000000

/-- `Instant::checked_add`. -/
def Instant.checkedAdd (i : Instant) (d : Duration) : Option Instant :=
  if i + d < Instant.limit then some (i + d) else none

/-- `Instant::checked_duration_since`. -/
def Instant.checkedDurationSince (i earlier : Instant) : Option Duration :=
  if earlier ≤ i then some (i - earlier) else none

/-- One reading of both clocks. -/
structure Clock where
  /-- `Instant::now()`. -/
  mono : Instant
  /-- `SystemTime::now().duration_since(UNIX_EPOCH)`. -/
  wall : Duration
  deriving DecidableEq, Repr

/-- `now.as_secs()` of the wall clock. -/
def Clock.nowSecs (c : Clock) : Nat := c.wall.asSecs

/-- `now.as_millis() as u64` of the wall clock. -/
def Clock.nowMillis (c : Clock) : Nat := c.wall.asMillis % 2 ^ 64

/-- The reading `t` nanoseconds after the monotonic clock started, at the wall time `epoch`:
the two clocks advance together. -/
def Clock.at (epoch t : Nat) : Clock := ⟨t, epoch + t⟩

/-- The value of an `as i64` cast. -/
def toI64 (n : Int) : Int := n.bmod (2 ^ 64)

theorem Instant.checkedAdd_eq_some {i j : Instant} {d : Duration} :
    i.checkedAdd d = some j ↔ i + d < Instant.limit ∧ j = i + d := by
  unfold Instant.checkedAdd
  split
  · next h => simp [h, eq_comm]
  · next h => simp [h]

end Thesaurus
