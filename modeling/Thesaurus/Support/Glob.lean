import Mathlib.Data.List.Forall2

/-!
# Support — Glob

Patterns of stars and single places over any alphabet, and a backtracking search for them that
gives up as a whole when the rest of the pattern behind some star matches nowhere.

* `Matches`: the language of a pattern.
* `search`: the search, with a cap on the number of stars it looks behind.
* `search_iff`: the search decides the language up to the cap.  Its invariant is `Verdict`: when
  the search gives up, no shorter end of the string matches either.
-/

namespace Glob

variable {α : Type}

/-- A star, or a place for one letter. -/
inductive Tok (α : Type) where
  | star
  | one (admits : α → Bool)

/-- What a token may take of the string. -/
def Tok.Takes : Tok α → List α → Prop
  | star,  _ => True
  | one p, w => ∃ c, w = [c] ∧ p c = true

def Tok.isStar : Tok α → Bool
  | star  => true
  | one _ => false

/-- The string can be split so that each token takes its part. -/
def Matches (ts : List (Tok α)) (s : List α) : Prop :=
  ∃ parts : List (List α), List.Forall₂ Tok.Takes ts parts ∧ parts.flatten = s

/-- The number of stars with a further token behind them. -/
def innerStars : List (Tok α) → Nat
  | .star :: t :: ts => innerStars (t :: ts) + 1
  | .one _ :: ts     => innerStars ts
  | _                => 0

/-- No two stars stand side by side. -/
def Collapsed : List (Tok α) → Prop
  | .star :: .star :: _ => False
  | _ :: ts             => Collapsed ts
  | []                  => True

/-! ### The language -/

theorem matches_nil {s : List α} : Matches [] s ↔ s = [] := by
  constructor
  · rintro ⟨parts, hparts, rfl⟩
    cases hparts
    rfl
  · rintro rfl
    exact ⟨[], .nil, rfl⟩

theorem matches_star {ts : List (Tok α)} {s : List α} :
    Matches (.star :: ts) s ↔ ∃ s', s' <:+ s ∧ Matches ts s' := by
  constructor
  · rintro ⟨parts, hparts, rfl⟩
    cases hparts with
    | cons _ hparts => exact ⟨_, List.suffix_append _ _, _, hparts, rfl⟩
  · rintro ⟨_, ⟨w, rfl⟩, parts, hparts, rfl⟩
    exact ⟨w :: parts, .cons trivial hparts, rfl⟩

theorem matches_one {p : α → Bool} {ts : List (Tok α)} {s : List α} :
    Matches (.one p :: ts) s ↔ ∃ c s', s = c :: s' ∧ p c = true ∧ Matches ts s' := by
  constructor
  · rintro ⟨parts, hparts, rfl⟩
    cases hparts with
    | cons htakes hparts =>
        obtain ⟨c, rfl, hc⟩ := htakes
        exact ⟨c, _, rfl, hc, _, hparts, rfl⟩
  · rintro ⟨c, _, rfl, hc, parts, hparts, rfl⟩
    exact ⟨[c] :: parts, .cons ⟨c, rfl, hc⟩ hparts, rfl⟩

/-- The empty string matches stars only. -/
theorem matches_empty {ts : List (Tok α)} : Matches ts [] ↔ ts.all Tok.isStar = true := by
  induction ts with
  | nil => simp [matches_nil]
  | cons t ts ih =>
      cases t with
      | star => simp [matches_star, Tok.isStar, ih]
      | one p => simp [matches_one, Tok.isStar]

/-! ### The search -/

/-- Try `rest` at every end of the string but the empty one.  Give up when `rest` does, or when
none is left. -/
def tryEnds (rest : List α → Bool × Bool) : List α → Bool × Bool
  | []     => (false, true)
  | c :: s =>
      match rest (c :: s) with
      | (true, skip)   => (true, skip)
      | (false, true)  => (false, true)
      | (false, false) => tryEnds rest s

/-- Whether the tokens match the string, and whether the search gave up; `depth` stars were passed
already. -/
def search (cap : Nat) : Nat → List (Tok α) → List α → Bool × Bool
  | _,     [],           _      => (false, false)
  | depth, .star :: ts,  s      =>
      if ts.isEmpty then (true, false)
      else
        tryEnds (fun s => if depth + 1 > cap then (false, false) else search cap (depth + 1) ts s) s
  | _,     .one _ :: _,  []     => (false, false)
  | depth, .one p :: ts, c :: s =>
      if p c then
        if s.isEmpty then (ts.all Tok.isStar, false) else search cap depth ts s
      else (false, false)

/-- What a result says of the string, when `P` is to be decided: it is right, and after giving up
no end of the string has `P`. -/
structure Verdict (P : List α → Prop) (s : List α) (result : Bool × Bool) : Prop where
  sound : result.1 = true → P s
  complete : result.1 = false → ¬P s
  givesUp : result = (false, true) → ∀ s', s' <:+ s → ¬P s'

/-- A search that has not given up is only right or wrong about its string. -/
theorem Verdict.of_iff {P : List α → Prop} {s : List α} {b : Bool} (h : b = true ↔ P s) :
    Verdict P s (b, false) where
  sound := h.mp
  complete hb hP := by
    have : b = true := h.mpr hP
    cases hb.symm.trans this
  givesUp h := by cases h

/-- Trying every end decides whether some end has `P`, if the empty one has not. -/
theorem tryEnds_verdict {P : List α → Prop} {rest : List α → Bool × Bool}
    (hrest : ∀ s, s ≠ [] → Verdict P s (rest s)) (hnil : ¬P []) (s : List α) :
    Verdict (fun s => ∃ s', s' <:+ s ∧ P s') s (tryEnds rest s) := by
  induction s with
  | nil =>
      have hnone : ∀ s', s' <:+ ([] : List α) → ¬P s' := fun s' hs' => by
        rw [List.suffix_nil.mp hs']
        exact hnil
      refine ⟨fun h => (by cases h), ?_, ?_⟩
      · rintro - ⟨s', hs', hP⟩
        exact hnone s' hs' hP
      · rintro - s' hs' ⟨s'', hs'', hP⟩
        exact hnone s'' (hs''.trans hs') hP
  | cons c s ih =>
      have hv := hrest (c :: s) (List.cons_ne_nil c s)
      rw [tryEnds]
      split
      · next skip h =>
        rw [h] at hv
        exact ⟨fun _ => ⟨c :: s, List.suffix_rfl, hv.sound rfl⟩, fun h => (by cases h),
          fun h => (by cases h)⟩
      · next h =>
        -- the search behind the star gave up: no end of this end has `P`
        rw [h] at hv
        have hnone := hv.givesUp rfl
        refine ⟨fun h => (by cases h), ?_, ?_⟩
        · rintro - ⟨s', hs', hP⟩
          exact hnone s' hs' hP
        · rintro - s' hs' ⟨s'', hs'', hP⟩
          exact hnone s'' (hs''.trans hs') hP
      · next h =>
        rw [h] at hv
        have hnot : ¬P (c :: s) := hv.complete rfl
        refine ⟨fun ht => ?_, ?_, ?_⟩
        · obtain ⟨s', hs', hP⟩ := ih.sound ht
          exact ⟨s', hs'.trans (List.suffix_cons c s), hP⟩
        · rintro hf ⟨s', hs', hP⟩
          rcases List.suffix_cons_iff.mp hs' with rfl | hs'
          · exact hnot hP
          · exact ih.complete hf ⟨s', hs', hP⟩
        · rintro hg s' hs' ⟨s'', hs'', hP⟩
          rcases List.suffix_cons_iff.mp (hs''.trans hs') with rfl | hs''
          · exact hnot hP
          · exact ih.givesUp hg s (List.suffix_rfl) ⟨s'', hs'', hP⟩

theorem Collapsed.tail {t : Tok α} {ts : List (Tok α)} (h : Collapsed (t :: ts)) :
    Collapsed ts := by
  cases t with
  | one p => exact h
  | star =>
      cases ts with
      | nil => trivial
      | cons t' ts =>
          cases t' with
          | star => exact h.elim
          | one p => exact h

/-- Behind an inner star stands a place, so that the empty string does not match there. -/
theorem Collapsed.not_matches_nil {ts : List (Tok α)} (h : Collapsed (.star :: ts))
    (hts : ts ≠ []) : ¬Matches ts [] := by
  cases ts with
  | nil => exact absurd rfl hts
  | cons t ts =>
      cases t with
      | star => exact h.elim
      | one p => rw [matches_one]; rintro ⟨_, _, hs, -⟩; cases hs

theorem innerStars_star {ts : List (Tok α)} (hts : ts ≠ []) :
    innerStars (.star :: ts) = innerStars ts + 1 := by
  cases ts with
  | nil => exact absurd rfl hts
  | cons t ts => rfl

theorem innerStars_of_all_isStar {ts : List (Tok α)} (h : Collapsed ts)
    (hall : ts.all Tok.isStar = true) : innerStars ts = 0 := by
  match ts, h, hall with
  | [], _, _ => rfl
  | [.star], _, _ => rfl
  | .one _ :: _, _, hall => cases hall
  | .star :: .star :: _, h, _ => exact h.elim
  | .star :: .one _ :: _, _, hall => cases hall

/-- **The search decides the language up to the cap**, and when it gives up no end of the string
is in the language. -/
theorem search_verdict (cap : Nat) {ts : List (Tok α)} (hts : Collapsed ts) {depth : Nat}
    (hdepth : depth ≤ cap) {s : List α} (hs : s ≠ []) :
    Verdict (fun s => depth + innerStars ts ≤ cap ∧ Matches ts s) s (search cap depth ts s) := by
  induction ts generalizing depth s with
  | nil => exact .of_iff (by simp [matches_nil, hs])
  | cons t ts ih =>
      cases t with
      | star =>
          rw [search]
          by_cases hnil : ts = []
          · subst hnil
            refine .of_iff (iff_of_true rfl ⟨hdepth, ?_⟩)
            exact matches_star.mpr ⟨[], List.nil_suffix, matches_nil.mpr rfl⟩
          · rw [if_neg (by simpa using hnil)]
            -- an end of the string in the language of the rest, one star deeper
            have hrest : ∀ s : List α, s ≠ [] →
                Verdict (fun s => depth + 1 + innerStars ts ≤ cap ∧ Matches ts s) s
                  (if depth + 1 > cap then (false, false) else search cap (depth + 1) ts s) := by
              intro s hs
              by_cases hcap : depth + 1 > cap
              · rw [if_pos hcap]
                exact .of_iff (iff_of_false (by simp) fun h => by omega)
              · rw [if_neg hcap]
                exact ih hts.tail (by omega) hs
            have hends := tryEnds_verdict hrest (fun h => hts.not_matches_nil hnil h.2) s
            have hiff : ∀ s : List α,
                (∃ s', s' <:+ s ∧ depth + 1 + innerStars ts ≤ cap ∧ Matches ts s') ↔
                  depth + innerStars (.star :: ts) ≤ cap ∧ Matches (.star :: ts) s := by
              intro s
              rw [innerStars_star hnil, matches_star]
              constructor
              · rintro ⟨s', hs', hcap, hm⟩
                exact ⟨by omega, s', hs', hm⟩
              · rintro ⟨hcap, s', hs', hm⟩
                exact ⟨s', hs', by omega, hm⟩
            simpa only [hiff] using hends
      | one p =>
          cases s with
          | nil => exact absurd rfl hs
          | cons c s =>
              have hone : ∀ c' s', Matches (.one p :: ts) (c' :: s') ↔
                  p c' = true ∧ Matches ts s' := by
                intro c' s'
                rw [matches_one]
                constructor
                · rintro ⟨_, _, h, hc, hm⟩
                  cases h
                  exact ⟨hc, hm⟩
                · rintro ⟨hc, hm⟩
                  exact ⟨c', s', rfl, hc, hm⟩
              rw [search]
              by_cases hc : p c = true
              · rw [if_pos hc]
                cases s with
                | nil =>
                    refine .of_iff ?_
                    rw [hone, matches_empty]
                    constructor
                    · intro hall
                      have hinner : innerStars ts = 0 := innerStars_of_all_isStar hts.tail hall
                      exact ⟨by rw [innerStars, hinner]; exact hdepth, hc, hall⟩
                    · exact fun h => h.2.2
                | cons c' s =>
                    have hv := ih hts.tail hdepth (List.cons_ne_nil c' s)
                    refine ⟨fun ht => ?_, fun hf hP => ?_, fun hg s' hs' hP => ?_⟩
                    · obtain ⟨hcap, hm⟩ := hv.sound ht
                      exact ⟨hcap, (hone c _).mpr ⟨hc, hm⟩⟩
                    · exact hv.complete hf ⟨hP.1, ((hone c _).mp hP.2).2⟩
                    · -- the rest of the tokens would match a shorter end of the rest
                      cases s' with
                      | nil =>
                          obtain ⟨_, _, h, -⟩ := matches_one.mp hP.2
                          cases h
                      | cons d s'' =>
                          have hsuffix : s'' <:+ c' :: s := by
                            rcases List.suffix_cons_iff.mp hs' with h | h
                            · cases h
                              exact List.suffix_rfl
                            · exact (List.suffix_cons d s'').trans h
                          exact hv.givesUp hg s'' hsuffix ⟨hP.1, ((hone d _).mp hP.2).2⟩
              · rw [if_neg hc]
                refine .of_iff (iff_of_false (by simp) fun h => hc ((hone c s).mp h.2).1)

/-- **The search is right.** -/
theorem search_iff (cap : Nat) {ts : List (Tok α)} (hts : Collapsed ts) {s : List α}
    (hs : s ≠ []) :
    (search cap 0 ts s).1 = true ↔ innerStars ts ≤ cap ∧ Matches ts s := by
  have hv := search_verdict cap hts (Nat.zero_le cap) hs
  rw [Nat.zero_add] at hv
  constructor
  · exact hv.sound
  · intro hP
    by_contra hf
    exact hv.complete (Bool.eq_false_iff.mpr hf) hP

end Glob
