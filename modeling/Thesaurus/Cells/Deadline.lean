import Thesaurus.Model.Executor

/-!
# Cells — deadlines of SET

What the match of `Executor::set` on its expiry comes to.  A time of its own is an offset from
now, and `setDeadline` is `checked_add` of that offset: a relative time that does not fit is an
error, an absolute one a panic.
-/

namespace Thesaurus

/-- How far from now the deadline of an expiry lies; KEEPTTL has none of its own. -/
def SetExpiry.offset (c : Clock) : SetExpiry → Option Duration
  | .ex secs           => some (Duration.fromSecs secs.toNat)
  | .px millis         => some (Duration.fromMillis millis.toNat)
  | .exAt deadlineSecs => some (Duration.fromSecs (deadlineSecs.toNat - c.nowSecs))
  | .pxAt deadlineMs   => some (Duration.fromMillis (deadlineMs.toNat - c.nowMillis))
  | .keepTtl           => none

/-- The expiry is a point of the wall clock. -/
def SetExpiry.isAbsolute : SetExpiry → Bool
  | .exAt _ | .pxAt _ => true
  | _                 => false

/-- What SET does with the result of `checked_add`. -/
def SetExpiry.outcome (e : SetExpiry) : Option Instant → Outcome String (Option Instant)
  | some deadline => .ok (some deadline)
  | none          =>
      if e.isAbsolute then .panic else .err "ERR invalid expire time in 'set' command"

/-- The match of `setDeadline`, over any arithmetic of instants: with the literal bound of the
clock in it, a case split would unfold the comparison. -/
theorem outcome_eq (c : Clock) (add : Duration → Option Instant)
    (secsTo millisTo : UInt64 → Option Instant)
    (hs : ∀ t, secsTo t = add (Duration.fromSecs (t.toNat - c.nowSecs)))
    (hm : ∀ t, millisTo t = add (Duration.fromMillis (t.toNat - c.nowMillis)))
    {e : SetExpiry} {d : Duration} (hd : e.offset c = some d) (prevTtl : Option Instant) :
    (match some e with
      | none => .ok none
      | some (.ex secs) =>
          match add (Duration.fromSecs secs.toNat) with
          | none => .err "ERR invalid expire time in 'set' command"
          | some deadline => .ok (some deadline)
      | some (.px millis) =>
          match add (Duration.fromMillis millis.toNat) with
          | none => .err "ERR invalid expire time in 'set' command"
          | some deadline => .ok (some deadline)
      | some (.exAt deadlineSecs) =>
          match secsTo deadlineSecs with
          | none => .panic
          | some deadline => .ok (some deadline)
      | some (.pxAt deadlineMs) =>
          match millisTo deadlineMs with
          | none => .panic
          | some deadline => .ok (some deadline)
      | some .keepTtl => .ok prevTtl) = e.outcome (add d) := by
  cases e with
  | ex secs => cases hd; dsimp only; cases add (Duration.fromSecs secs.toNat) <;> rfl
  | px millis => cases hd; dsimp only; cases add (Duration.fromMillis millis.toNat) <;> rfl
  | exAt t =>
      cases hd
      dsimp only
      rw [hs]
      cases add (Duration.fromSecs (t.toNat - c.nowSecs)) <;> rfl
  | pxAt t =>
      cases hd
      dsimp only
      rw [hm]
      cases add (Duration.fromMillis (t.toNat - c.nowMillis)) <;> rfl
  | keepTtl => cases hd

namespace Executor

variable {c : Clock} {e : SetExpiry} {d : Duration} {prevTtl : Option Instant}

/-- **A time of its own** is `checked_add` of its offset. -/
theorem setDeadline_of_offset (hd : e.offset c = some d) :
    setDeadline c (some e) prevTtl = e.outcome (c.mono.checkedAdd d) :=
  outcome_eq c c.mono.checkedAdd (unixSecsToInstant c) (unixMsToInstant c) (fun _ => rfl)
    (fun _ => rfl) hd prevTtl

theorem setDeadline_of_fits (hd : e.offset c = some d) (h : c.mono + d < Instant.limit) :
    setDeadline c (some e) prevTtl = .ok (some (c.mono + d)) := by
  rw [setDeadline_of_offset hd, Instant.checkedAdd_eq_some.mpr ⟨h, rfl⟩]
  rfl

theorem setDeadline_of_not_fits (hd : e.offset c = some d) (h : Instant.limit ≤ c.mono + d) :
    setDeadline c (some e) prevTtl =
      if e.isAbsolute then .panic else .err "ERR invalid expire time in 'set' command" := by
  have hadd : c.mono.checkedAdd d = none := if_neg (Nat.not_lt.mpr h)
  rw [setDeadline_of_offset hd, hadd]
  rfl

theorem setDeadline_none : setDeadline c none prevTtl = .ok none := rfl

theorem setDeadline_keepTtl : setDeadline c (some .keepTtl) prevTtl = .ok prevTtl := rfl

theorem offset_eq_none_iff : e.offset c = none ↔ e = .keepTtl := by
  cases e <;> simp [SetExpiry.offset]

/-- **What an expiry comes to**: no deadline, the one that was there, one of its own, or one that
cannot be represented. -/
theorem setDeadline_outcome (c : Clock) (expiry : Option SetExpiry) (prevTtl : Option Instant) :
    setDeadline c expiry prevTtl = .ok none ∨
    (expiry = some .keepTtl ∧ setDeadline c expiry prevTtl = .ok prevTtl) ∨
    (∃ d, setDeadline c expiry prevTtl = .ok (some (c.mono + d))) ∨
    setDeadline c expiry prevTtl = .panic ∨
    setDeadline c expiry prevTtl = .err "ERR invalid expire time in 'set' command" := by
  cases expiry with
  | none => exact .inl rfl
  | some e =>
      cases hoff : e.offset c with
      | none =>
          obtain rfl := offset_eq_none_iff.mp hoff
          exact .inr (.inl ⟨rfl, rfl⟩)
      | some d =>
          rcases Nat.lt_or_ge (c.mono + d) Instant.limit with hlt | hge
          · exact .inr (.inr (.inl ⟨d, setDeadline_of_fits hoff hlt⟩))
          · have hout : setDeadline c (some e) prevTtl = _ := setDeadline_of_not_fits hoff hge
            cases habs : e.isAbsolute with
            | true =>
                rw [habs] at hout
                exact .inr (.inr (.inr (.inl hout)))
            | false =>
                rw [habs] at hout
                exact .inr (.inr (.inr (.inr hout)))

end Executor

end Thesaurus
