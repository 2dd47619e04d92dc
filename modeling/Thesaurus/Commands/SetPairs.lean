import Thesaurus.Commands.SetSchedules

/-!
# Commands — interleaved SETs

* `sets_serial_iff`: every interleaving of two SETs of a key is one of the two serial orders
  exactly when they are `Harmless` to each other over what the key holds.

The clients read the clocks at times of their own, so one may find gone what the other finds, and
`EX 10` of the one is not the deadline of `EX 10` of the other.  Between the write of a SET and its
deadline the value stands bare, without a deadline, and what the SET has read may be written over
before it writes.  So two SETs that both write must not care for each other's value and set the
same deadline, if any (`BothWrite`); of a SET that writes beside one that does not, the second must
not be misled by the bare value (`OneWrites`).
-/

namespace Thesaurus
open StoreInner
open Atomic (Prog Weave Serial)

/-! ### Two SETs -/

/-- Every interleaving of the two SETs has the replies and the store of one after the other. -/
def SetsSerial (ex : Executor) (s : StoreInner) (key : String) (p q : SetCall) : Prop :=
  ∀ tr a b s', Weave applyEach (p.prog ex key) (q.prog ex key) s tr a b s' →
    Serial applyEach (p.prog ex key) (q.prog ex key) s a b s' ∨
    Serial applyEach (q.prog ex key) (p.prog ex key) s b a s'

section

variable (ex : Executor) (x : Cell) (p q : SetCall)

/-- `q` writes and replies as over what is there, whatever it reads of the write of `p`. -/
def Unmoved : Prop :=
  q.Met ex (some p.value) ∧ (q.Deaf ∨ q.Reads x (some p.value)) ∧
    ∀ d, p.deadline x = some d → d ≤ q.env.clock.mono → q.Met ex none ∧ q.Deaf

/-- Where `q` finds the deadline of `p` passed, the value of `p` does not show in its reply. -/
def Mute : Prop :=
  ∀ d, p.deadline x = some d → d ≤ q.env.clock.mono →
    (q.Met ex (some p.value) → q.Deaf ∨ q.Reads x (some p.value)) ∧
    (¬q.Met ex (some p.value) → ¬q.Met ex none ∧ q.get = false)

/-- The condition on two SETs of which `p` writes, and `q` does not write over what is there. -/
def OneWrites : Prop :=
  ∀ d, p.deadline x = some d →
    (q.Met ex (some p.value) → q.env.clock.mono < d ∧ ¬q.Keeps ∧ q.deadline x = some d) ∧
    (¬q.Met ex (some p.value) →
      q.env.clock.mono < d ∨ q.get = false ∨ q.Reads x (some p.value))

/-- None of the two keeps a deadline, or there are none to keep or to set. -/
def NothingKept : Prop :=
  (p.deadline x = none ∧ q.deadline x = none) ∨ (¬p.Keeps ∧ ¬q.Keeps)

/-- The condition on two SETs that both write over what is there. -/
def BothWrite : Prop :=
  NothingKept x p q ∧
    ((Unmoved ex x p q ∧ Unmoved ex x q p ∧
        (p.value = q.value ∨ p.deadline x = q.deadline x)) ∨
      (p.value = q.value ∧ p.deadline x = q.deadline x ∧
        ((Unmoved ex x p q ∧ Mute ex x q p) ∨ (Unmoved ex x q p ∧ Mute ex x p q))))

/-- The condition on two SETs over a cell: none, if none of them writes over what is there. -/
def Harmless : Prop :=
  (p.Writes ex x → q.Writes ex x → BothWrite ex x p q) ∧
  (p.Writes ex x → ¬q.Writes ex x → OneWrites ex x p q) ∧
  (¬p.Writes ex x → q.Writes ex x → OneWrites ex x q p)

end

section

variable {ex : Executor} {key : String} {s s' : StoreInner} {p q : SetCall}
  {r r' : Option String} {tr : List (Bool × (Env × StoreOp))} {a b : Reply}

theorem SetsSerial.symm (h : SetsSerial ex s key p q) : SetsSerial ex s key q p :=
  fun _ _ _ _ hw => (h _ _ _ _ hw.symm).symm

theorem NothingKept.symm {x : Cell} (h : NothingKept x p q) : NothingKept x q p :=
  h.imp And.symm And.symm

theorem NothingKept.of_keeps {x : Cell} (h : NothingKept x p q) (hk : q.Keeps) :
    p.deadline x = none ∧ q.deadline x = none :=
  h.resolve_right fun hn => hn.2 hk

theorem SetCall.cell_congr (h : p.value = q.value) (d : Option Instant) : p.cell d = q.cell d := by
  rw [cell, cell, h]

/-- What stops one SET at a list or a set that the other does not find is not gone yet, and the
deadline of the other is no earlier. -/
theorem lt_of_error {x : Cell} {e : StoreError} {d : Instant} (hp : p.Reads x r)
    (hq : Store.asString (x.live q.env.clock.mono) = .error e) (hd : p.deadline x = some d) :
    q.env.clock.mono < d := by
  -- `p` would meet the same value if the key were not gone for it
  obtain ⟨hlive, hgone⟩ :
      ¬x.expired q.env.clock.mono = true ∧ x.expired p.env.clock.mono = true := by
    unfold SetCall.Reads at hp
    unfold Cell.live at hp hq
    split at hq
    · cases hq
    · next hlive =>
        split at hp
        · next hgone => exact ⟨hlive, hgone⟩
        · cases hp.symm.trans hq
  unfold Cell.expired at hlive hgone
  cases hx : x.deadline with
  | none =>
      rw [hx] at hgone
      cases hgone
  | some old =>
      rw [hx] at hlive hgone
      have hlt : q.env.clock.mono < old := Nat.lt_of_not_le fun hle => hlive (decide_eq_true hle)
      have hle : old ≤ p.env.clock.mono := of_decide_eq_true hgone
      by_cases hk : p.Keeps
      · rw [SetCall.deadline_keeps hk, hx] at hd
        cases hd
        exact hlt
      · exact Nat.lt_of_lt_of_le hlt (Nat.le_trans hle (SetCall.le_deadline hk hd))

/-! ### The two orders -/

theorem serial_of_met (hp : p.WritesOver ex (s.cell key) r)
    (h : (q.prog ex key).run applyEach (s.setCell key (p.cell (p.deadline (s.cell key)))) =
      (b, s')) :
    Serial applyEach (p.prog ex key) (q.prog ex key) s (p.reply r) b s' := by
  rw [Serial, run_met hp]
  exact ⟨rfl, h⟩

theorem serial_of_idle (hp : ¬p.Writes ex (s.cell key))
    (h : (q.prog ex key).run applyEach s = (b, s')) :
    Serial applyEach (p.prog ex key) (q.prog ex key) s (p.idle (s.cell key)) b s' := by
  rw [Serial, run_idle hp]
  exact ⟨rfl, h⟩

/-! ### One writes -/

/-- The SET that does not write over what is there changes nothing, or comes after the other. -/
theorem serial_of_oneWrites (hp : p.WritesOver ex (s.cell key) r)
    (hq : ¬q.Writes ex (s.cell key)) (h : OneWrites ex (s.cell key) p q) :
    SetsSerial ex s key p q := by
  intro tr a b s' hw
  have hsteady : Steady ex key p r (p.deadline (s.cell key)) s :=
    ⟨⟨r, hp, rfl⟩, fun hk => (SetCall.deadline_keeps hk _).symm⟩
  obtain ⟨tr₁, hw⟩ := skip_reads (along_prog hsteady fun hm => absurd hm hq) (fun _ => rfl) hw
  rcases weave_write_prog hw with ⟨tr₂, hw⟩ | ⟨rfl, hrun⟩ | ⟨d, tr₂, hd, hw⟩
  · -- `q` reads first
    rw [SetCall.next_idle hq] at hw
    obtain ⟨rfl, hrun⟩ := hw.ret_right
    rw [run_write] at hrun
    cases hrun
    exact .inr (serial_of_idle hq (run_met hp))
  · exact .inl (serial_of_met hp hrun)
  · -- `q` reads the bare value
    obtain ⟨hmet, hnot⟩ := h d hd
    by_cases hm : q.Met ex (some p.value)
    · obtain ⟨hlt, hk, hqd⟩ := hmet hm
      obtain ⟨rfl, rfl, rfl⟩ := weave_bare_met hm hk (hqd.trans hd.symm) hw
      refine .inl (serial_of_met hp ?_)
      have hread : q.after p (some d) = some p.value := asRead_of_lt hlt p.value
      rw [hd, run_met_after (by rwa [hread]), hread, SetCall.deadline_congr hk _ (s.cell key),
        hqd]
    · obtain ⟨rfl, rfl, rfl⟩ := weave_bare_refused hm hw
      have hahead : q.env.clock.mono < d →
          Serial applyEach (p.prog ex key) (q.prog ex key) s (p.reply r)
            (q.refusal (some p.value)) (s.setCell key (p.cell (p.deadline (s.cell key)))) := by
        intro hlt
        refine serial_of_met hp ?_
        have hread : q.after p (some d) = some p.value := asRead_of_lt hlt p.value
        rw [hd, run_refused_after (by rwa [hread]), hread]
      cases hx : Store.asString ((s.cell key).live q.env.clock.mono) with
      | error e => exact .inl (hahead (lt_of_error hp.1 hx hd))
      | ok r' =>
          have hlast : q.refusal r' = q.refusal (some p.value) →
              Serial applyEach (q.prog ex key) (p.prog ex key) s (q.refusal (some p.value))
                (p.reply r) (s.setCell key (p.cell (p.deadline (s.cell key)))) := by
            intro hsame
            have hs := serial_of_idle hq (run_met hp)
            rwa [idle_of_reads hx, hsame] at hs
          rcases hnot hm with hlt | hg | hv
          · exact .inl (hahead hlt)
          · exact .inr (hlast (SetCall.refusal_of_get hg _ _))
          · cases Except.ok.inj (hx.symm.trans hv)
            exact .inr (hlast rfl)

/-! ### Both write -/

theorem deadline_after (hd : NothingKept (s.cell key) p q) :
    q.deadline (p.cell (p.deadline (s.cell key))) = q.deadline (s.cell key) := by
  by_cases hk : q.Keeps
  · obtain ⟨hpd, hqd⟩ := hd.of_keeps hk
    rw [SetCall.deadline_keeps hk, hqd]
    exact hpd
  · exact SetCall.deadline_congr hk _ _

/-- A SET that is unmoved writes the same wherever the other has come to. -/
theorem Unmoved.steady (hq : q.WritesOver ex (s.cell key) r') (h : Unmoved ex (s.cell key) p q)
    (hd : NothingKept (s.cell key) p q) :
    Steady ex key q r' (q.deadline (s.cell key)) s ∧
    Steady ex key q r' (q.deadline (s.cell key)) (s.setCell key (p.cell none)) ∧
    Steady ex key q r' (q.deadline (s.cell key))
      (s.setCell key (p.cell (p.deadline (s.cell key)))) := by
  obtain ⟨hm, hsame, hgone⟩ := h
  have hreply : q.reply (some p.value) = q.reply r' := by
    rcases hsame with hdeaf | hv
    · exact SetCall.reply_of_deaf hdeaf _ _
    · cases Except.ok.inj (hv.symm.trans hq.1)
      rfl
  have hbare : Steady ex key q r' (q.deadline (s.cell key)) (s.setCell key (p.cell none)) := by
    refine ⟨⟨_, ⟨reads_setCell s p q none, hm⟩, hreply⟩, fun hkeeps => ?_⟩
    rw [cell_setCell_self, (hd.of_keeps hkeeps).2]
    rfl
  refine ⟨⟨⟨r', hq, rfl⟩, fun hkeeps => (SetCall.deadline_keeps hkeeps _).symm⟩, hbare, ?_⟩
  cases hp : p.deadline (s.cell key) with
  | none => exact hbare
  | some d =>
      refine ⟨?_, fun hkeeps => ?_⟩
      · have hread : q.Reads ((s.setCell key (p.cell (some d))).cell key) (q.after p (some d)) :=
          reads_setCell s p q (some d)
        rcases Nat.lt_or_ge q.env.clock.mono d with hlt | hle
        · rw [SetCall.after, asRead_of_lt hlt] at hread
          exact ⟨_, ⟨hread, hm⟩, hreply⟩
        · rw [SetCall.after, asRead_of_le hle] at hread
          obtain ⟨hnone, hdeaf⟩ := hgone d hp hle
          exact ⟨_, ⟨hread, hnone⟩, SetCall.reply_of_deaf hdeaf _ _⟩
      · rw [(hd.of_keeps hkeeps).1] at hp
        cases hp

theorem run_of_steady {d : Option Instant} {t : StoreInner} (h : Steady ex key q r' d t) :
    (q.prog ex key).run applyEach t =
      (q.reply r', t.setCell key (q.cell (q.deadline (t.cell key)))) := by
  obtain ⟨⟨r, hq, hrep⟩, -⟩ := h
  rw [run_met hq, hrep]

/-- One after the other. -/
theorem Unmoved.serial (hp : p.WritesOver ex (s.cell key) r) (hq : q.WritesOver ex (s.cell key) r')
    (h : Unmoved ex (s.cell key) p q) (hd : NothingKept (s.cell key) p q) :
    Serial applyEach (p.prog ex key) (q.prog ex key) s (p.reply r) (q.reply r')
      (s.setCell key (q.cell (q.deadline (s.cell key)))) := by
  refine serial_of_met hp ?_
  rw [run_of_steady (h.steady hq hd).2.2, cell_setCell_self, setCell_setCell, deadline_after hd]

/-- A SET that is unmoved only writes. -/
theorem Unmoved.skip (hq : q.WritesOver ex (s.cell key) r') (h : Unmoved ex (s.cell key) p q)
    (hd : NothingKept (s.cell key) p q)
    (hw : Weave applyEach (p.prog ex key) (q.prog ex key) s tr a b s') :
    ∃ tr', Weave applyEach (p.prog ex key)
      (q.write key (q.deadline (s.cell key)) (q.reply r')) s tr' a b s' := by
  obtain ⟨hs, hbare, hset⟩ := h.steady hq hd
  obtain ⟨tr', hw'⟩ := skip_reads (along_prog hs fun _ => ⟨hbare, hset⟩) (fun _ => rfl) hw.symm
  exact ⟨_, hw'.symm⟩

/-- Both SETs are unmoved. -/
theorem serial_of_unmoved (hp : p.WritesOver ex (s.cell key) r)
    (hq : q.WritesOver ex (s.cell key) r') (hd : NothingKept (s.cell key) p q)
    (hpq : Unmoved ex (s.cell key) p q) (hqp : Unmoved ex (s.cell key) q p)
    (heq : p.value = q.value ∨ p.deadline (s.cell key) = q.deadline (s.cell key)) :
    SetsSerial ex s key p q := by
  intro tr a b s' hw
  obtain ⟨tr₁, hw⟩ := hpq.skip hq hd hw
  obtain ⟨hs, hbare, hset⟩ := hqp.steady hp hd.symm
  obtain ⟨tr₂, hw⟩ := skip_reads (along_write hs hbare hset) (fun _ => rfl) hw
  obtain ⟨rfl, rfl, e, he, hs'⟩ := weave_writes hw
  have hlast : s' = s.setCell key (q.cell (q.deadline (s.cell key))) ∨
      s' = s.setCell key (p.cell (p.deadline (s.cell key))) := by
    rcases heq with hv | hdd
    · rw [SetCall.cell_congr hv, or_self] at hs'
      rcases he with rfl | rfl
      · rw [← SetCall.cell_congr hv] at hs'
        exact .inr hs'
      · exact .inl hs'
    · rw [hdd, or_self] at he
      subst he
      rw [hdd]
      exact hs'.symm
  rcases hlast with rfl | rfl
  · exact .inl (hpq.serial hp hq hd)
  · exact .inr (hqp.serial hq hp hd.symm)

/-- Both SETs write the same, and one is unmoved. -/
theorem serial_of_mute (hp : p.WritesOver ex (s.cell key) r)
    (hq : q.WritesOver ex (s.cell key) r') (hd : NothingKept (s.cell key) p q)
    (hpq : Unmoved ex (s.cell key) p q) (hqp : Mute ex (s.cell key) q p)
    (hv : p.value = q.value) (hdd : p.deadline (s.cell key) = q.deadline (s.cell key)) :
    SetsSerial ex s key p q := by
  intro tr a b s' hw
  obtain ⟨tr₁, hw⟩ := hpq.skip hq hd hw
  rcases weave_write_prog hw.symm with ⟨tr₂, hw⟩ | ⟨rfl, hrun⟩ | ⟨d, tr₂, hqd, hw⟩
  · -- `p` reads first
    rw [show Store.asString ((s.cell key).live p.env.clock.mono) = .ok r from hp.1,
      SetCall.next_met hp.2] at hw
    have hsame : ∃ tr₃, Weave applyEach (p.write key (p.deadline (s.cell key)) (p.reply r))
        (q.write key (q.deadline (s.cell key)) (q.reply r')) s tr₃ a b s' := by
      refine skip_ttl (fun hk => ?_) (fun _ => rfl) hw.symm
      obtain ⟨hqd, hpd⟩ := hd.symm.of_keeps hk
      rw [hpd, hqd]
      refine along_write ?_ ?_ ?_
      · rw [← SetCall.deadline_keeps hk]
        exact hpd
      · rw [cell_setCell_self]
        rfl
      · rw [cell_setCell_self]
        rfl
    obtain ⟨tr₃, hw⟩ := hsame
    obtain ⟨rfl, rfl, e, he, hs'⟩ := weave_writes hw
    rw [hdd, or_self] at he
    rw [SetCall.cell_congr hv, or_self, he] at hs'
    rw [hs']
    exact .inl (hpq.serial hp hq hd)
  · exact .inr (serial_of_met hq hrun)
  · -- `p` reads the bare value, with the deadline still to be set
    have hk : ¬p.Keeps := fun hk => by
      rw [(hd.symm.of_keeps hk).1] at hqd
      cases hqd
    by_cases hm : p.Met ex (some q.value)
    · obtain ⟨rfl, rfl, rfl⟩ := weave_bare_met hm hk hdd hw
      rcases Nat.lt_or_ge p.env.clock.mono d with hlt | hle
      · refine .inr (serial_of_met hq ?_)
        have hread : p.after q (some d) = some q.value := asRead_of_lt hlt q.value
        rw [hqd, run_met_after (by rwa [hread]), hread, SetCall.deadline_congr hk _ (s.cell key),
          hdd, hqd]
      · have hrep : p.reply (some q.value) = p.reply r := by
          rcases (hqp d hqd hle).1 hm with hdeaf | hprev
          · exact SetCall.reply_of_deaf hdeaf _ _
          · cases Except.ok.inj (hprev.symm.trans hp.1)
            rfl
        rw [hrep, SetCall.cell_congr hv]
        exact .inl (hpq.serial hp hq hd)
    · obtain ⟨rfl, rfl, rfl⟩ := weave_bare_refused hm hw
      refine .inr (serial_of_met hq ?_)
      rcases Nat.lt_or_ge p.env.clock.mono d with hlt | hle
      · have hread : p.after q (some d) = some q.value := asRead_of_lt hlt q.value
        rw [hqd, run_refused_after (by rwa [hread]), hread]
      · obtain ⟨hnone, hg⟩ := (hqp d hqd hle).2 hm
        have hread : p.after q (some d) = none := asRead_of_le hle q.value
        rw [hqd, run_refused_after (by rwa [hread]), hread, SetCall.refusal_of_get hg none]

theorem serial_of_bothWrite (hp : p.WritesOver ex (s.cell key) r)
    (hq : q.WritesOver ex (s.cell key) r') (h : BothWrite ex (s.cell key) p q) :
    SetsSerial ex s key p q := by
  obtain ⟨hd, ⟨hpq, hqp, heq⟩ | ⟨hv, hdd, ⟨hpq, hqp⟩ | ⟨hqp, hpq⟩⟩⟩ := h
  · exact serial_of_unmoved hp hq hd hpq hqp heq
  · exact serial_of_mute hp hq hd hpq hqp hv hdd
  · exact (serial_of_mute hq hp hd.symm hqp hpq hv.symm hdd.symm).symm

end

/-! ### What the orders leave open -/

section

variable {ex : Executor} {key : String} {s s' : StoreInner} {p q : SetCall}
  {r r' : Option String} {a : Reply}

theorem setCell_inj {x y : Cell} (h : s.setCell key x = s.setCell key y) : x = y := by
  have hcell := congrArg (StoreInner.cell · key) h
  rwa [cell_setCell_self, cell_setCell_self] at hcell

theorem SetCall.cell_inj {d e : Option Instant} (h : p.cell d = q.cell e) :
    p.value = q.value ∧ d = e := by
  cases p
  cases q
  cases h
  exact ⟨rfl, rfl⟩

/-- The second of two SETs has written. -/
theorem of_serial_met (hp : p.WritesOver ex (s.cell key) r) (hq : q.Met ex r')
    (h : Serial applyEach (p.prog ex key) (q.prog ex key) s a (q.reply r') s') :
    a = p.reply r ∧ q.Met ex (q.after p (p.deadline (s.cell key))) ∧
      q.reply (q.after p (p.deadline (s.cell key))) = q.reply r' ∧
      s' = s.setCell key (q.cell (q.deadline (p.cell (p.deadline (s.cell key))))) := by
  rw [Serial, run_met hp] at h
  obtain ⟨ha, hrun⟩ := h
  by_cases hm : q.Met ex (q.after p (p.deadline (s.cell key)))
  · obtain ⟨hreply, hs⟩ := Prod.mk.inj ((run_met_after hm).symm.trans hrun)
    exact ⟨ha.symm, hm, hreply, hs.symm⟩
  · exact absurd (congrArg Prod.fst ((run_refused_after hm).symm.trans hrun)).symm
      (SetCall.reply_ne_refusal hq hm)

/-- The second of two SETs has not. -/
theorem of_serial_refused (hp : p.WritesOver ex (s.cell key) r) (hq : ¬q.Met ex r')
    (h : Serial applyEach (p.prog ex key) (q.prog ex key) s a (q.refusal r') s') :
    a = p.reply r ∧ ¬q.Met ex (q.after p (p.deadline (s.cell key))) ∧
      q.refusal (q.after p (p.deadline (s.cell key))) = q.refusal r' := by
  rw [Serial, run_met hp] at h
  obtain ⟨ha, hrun⟩ := h
  by_cases hm : q.Met ex (q.after p (p.deadline (s.cell key)))
  · exact absurd (congrArg Prod.fst ((run_met_after hm).symm.trans hrun))
      (SetCall.reply_ne_refusal hm hq)
  · exact ⟨ha.symm, hm, congrArg Prod.fst ((run_refused_after hm).symm.trans hrun)⟩

theorem of_serial_first_idle {b : Reply} (hp : ¬p.Writes ex (s.cell key))
    (h : Serial applyEach (p.prog ex key) (q.prog ex key) s a b s') :
    a = p.idle (s.cell key) := by
  rw [Serial, run_idle hp] at h
  exact h.1.symm

theorem of_serial_first_met {b : Reply} (hp : p.WritesOver ex (s.cell key) r)
    (h : Serial applyEach (p.prog ex key) (q.prog ex key) s a b s') : a = p.reply r := by
  rw [Serial, run_met hp] at h
  exact h.1.symm

/-! ### One writes -/

theorem oneWrites_of_serial (hp : p.WritesOver ex (s.cell key) r)
    (hq : ¬q.Writes ex (s.cell key)) (h : SetsSerial ex s key p q) :
    OneWrites ex (s.cell key) p q := by
  intro d hd
  constructor
  · intro hm
    have hmet : ∀ {s'}, Serial applyEach (q.prog ex key) (p.prog ex key) s
        (q.reply (some p.value)) (p.reply r) s' → False := fun hs =>
      SetCall.reply_ne_idle hm hq (of_serial_first_idle hq hs)
    obtain ⟨tr₁, hunder⟩ := weave_bare_under hp hm hd
    obtain ⟨-, hread, -, hs₁⟩ := of_serial_met hp hm ((h _ _ _ _ hunder).resolve_right hmet)
    obtain ⟨tr₂, hlast⟩ := weave_bare_last hp hm
    obtain ⟨-, -, -, hs₂⟩ := of_serial_met hp hm ((h _ _ _ _ hlast).resolve_right hmet)
    have hafter := (SetCall.cell_inj (setCell_inj hs₁)).2
    have hbare := (SetCall.cell_inj (setCell_inj hs₂)).2
    rw [← hafter] at hbare
    have hk : ¬q.Keeps := fun hk => by
      rw [SetCall.deadline_keeps hk] at hbare
      cases hbare
    refine ⟨Nat.lt_of_not_le fun hle => ?_, hk, ?_⟩
    · -- an expired value reads as a missing key, so `q` would have written
      rw [hd, SetCall.after, asRead_of_le hle] at hread
      cases hx : Store.asString ((s.cell key).live q.env.clock.mono) with
      | error e => exact absurd (lt_of_error hp.1 hx hd) (Nat.not_lt.mpr hle)
      | ok r' => exact hq ⟨r', hx, hread.all hm r'⟩
    · rw [SetCall.deadline_congr hk _ (p.cell none), hbare]
  · intro hm
    obtain ⟨tr, hrefusal⟩ := weave_bare_refusal hp hm
    rcases h _ _ _ _ hrefusal with hs | hs
    · obtain ⟨-, -, hsame⟩ := of_serial_refused hp hm hs
      rcases Nat.lt_or_ge q.env.clock.mono d with hlt | hle
      · exact .inl hlt
      · rw [hd, SetCall.after, asRead_of_le hle] at hsame
        exact .inr (.inl ((SetCall.get_of_refusal hsame).resolve_right fun hv => nomatch hv))
    · have hidle := of_serial_first_idle hq hs
      cases hx : Store.asString ((s.cell key).live q.env.clock.mono) with
      | error e => exact .inl (lt_of_error hp.1 hx hd)
      | ok r' =>
          rw [idle_of_reads hx] at hidle
          rcases SetCall.get_of_refusal hidle with hg | rfl
          · exact .inr (.inl hg)
          · exact .inr (.inr hx)

/-! ### Both write -/

theorem keeps_of_serial (hp : p.WritesOver ex (s.cell key) r)
    (hq : q.WritesOver ex (s.cell key) r') (h : SetsSerial ex s key p q) (hk : p.Keeps) :
    p.deadline (s.cell key) = none ∧ q.deadline (s.cell key) = none := by
  -- the deadline that `q` leaves after `p`, and `p` after `q`
  have hqp : ∀ e, q.deadline (p.cell (p.deadline (s.cell key))) = e →
      e = q.deadline (s.cell key) := by
    rintro e rfl
    -- both keep the deadline that the cell has, or `q` sets its own
    by_cases hkq : q.Keeps
    · rw [SetCall.deadline_keeps hkq, SetCall.deadline_keeps hkq]
      exact SetCall.deadline_keeps hk _
    · exact SetCall.deadline_congr hkq _ _
  have hpq : ∀ e, p.deadline (q.cell (q.deadline (s.cell key))) = e →
      e = q.deadline (s.cell key) := by
    rintro e rfl
    exact SetCall.deadline_keeps hk _
  have hdeadline : ∀ e, (∃ tr, Weave applyEach (p.prog ex key) (q.prog ex key) s tr
      (p.reply r) (q.reply r') (s.setCell key (p.cell e))) → e = q.deadline (s.cell key) := by
    rintro e ⟨tr, hw⟩
    rcases h _ _ _ _ hw with hs | hs
    · obtain ⟨-, -, -, hs'⟩ := of_serial_met hp hq.2 hs
      exact hqp e (SetCall.cell_inj (setCell_inj hs')).2.symm
    · obtain ⟨-, -, -, hs'⟩ := of_serial_met hq hp.2 hs
      exact hpq e (SetCall.cell_inj (setCell_inj hs')).2.symm
  cases hd : q.deadline (s.cell key) with
  -- both read, and the last writer puts back what it has read
  | none =>
      rw [hd] at hdeadline
      obtain ⟨tr, hlast⟩ := weave_last hq hp
      exact ⟨hdeadline _ ⟨_, hlast.symm⟩, rfl⟩
  | some d =>
      rw [hd] at hdeadline
      cases hdeadline none (weave_keeps hp hq hk hd)

theorem nothingKept_of_serial (hp : p.WritesOver ex (s.cell key) r)
    (hq : q.WritesOver ex (s.cell key) r') (h : SetsSerial ex s key p q) :
    NothingKept (s.cell key) p q := by
  by_cases hk : p.Keeps
  · exact .inl (keeps_of_serial hp hq h hk)
  · by_cases hk' : q.Keeps
    · exact .inl (keeps_of_serial hq hp h.symm hk').symm
    · exact .inr ⟨hk, hk'⟩

variable (ex s key p q r') in
/-- After `p`, `q` writes and replies as it would have before. -/
def Follows : Prop :=
  q.Met ex (q.after p (p.deadline (s.cell key))) ∧
    q.reply (q.after p (p.deadline (s.cell key))) = q.reply r'

theorem follows_of_serial (hp : p.WritesOver ex (s.cell key) r)
    (hq : q.WritesOver ex (s.cell key) r') (hd : NothingKept (s.cell key) p q)
    (h : SetsSerial ex s key p q) :
    Follows ex key s p q r' ∨
      (Follows ex key s q p r ∧ p.value = q.value ∧
        p.deadline (s.cell key) = q.deadline (s.cell key)) := by
  obtain ⟨tr, hlast⟩ := weave_last hp hq
  rcases h _ _ _ _ hlast with hs | hs
  · obtain ⟨-, hm, hreply, -⟩ := of_serial_met hp hq.2 hs
    exact .inl ⟨hm, hreply⟩
  · obtain ⟨-, hm, hreply, hs'⟩ := of_serial_met hq hp.2 hs
    rw [deadline_after hd.symm] at hs'
    obtain ⟨hv, hdd⟩ := SetCall.cell_inj (setCell_inj hs')
    exact .inr ⟨⟨hm, hreply⟩, hv.symm, hdd.symm⟩

theorem Follows.unmoved (hp : p.WritesOver ex (s.cell key) r)
    (hq : q.WritesOver ex (s.cell key) r') (h : SetsSerial ex s key p q)
    (hf : Follows ex key s p q r') : Unmoved ex (s.cell key) p q := by
  obtain ⟨hm, hreply⟩ := hf
  by_cases hgone : ∃ d, p.deadline (s.cell key) = some d ∧ d ≤ q.env.clock.mono
  · obtain ⟨d, hd, hle⟩ := hgone
    rw [hd, SetCall.after, asRead_of_le hle] at hm hreply
    have hbare : q.Met ex (some p.value) := by
      refine Classical.byContradiction fun hbare => ?_
      obtain ⟨tr, hrefusal⟩ := weave_bare_refusal hp hbare
      rcases h _ _ _ _ hrefusal with hs | hs
      · obtain ⟨-, hnot, -⟩ := of_serial_refused hp hbare hs
        rw [hd, SetCall.after, asRead_of_le hle] at hnot
        exact hnot hm
      · exact SetCall.reply_ne_refusal hq.2 hbare (of_serial_first_met hq hs).symm
    -- in either order `q` replies as it would of a missing key
    have hsame : q.reply none = q.reply (some p.value) := by
      obtain ⟨tr, hlast⟩ := weave_bare_last hp hbare
      rcases h _ _ _ _ hlast with hs | hs
      · obtain ⟨-, -, hrep, -⟩ := of_serial_met hp hbare hs
        rwa [hd, SetCall.after, asRead_of_le hle] at hrep
      · exact hreply.trans (of_serial_first_met hq hs).symm
    have hdeaf : q.Deaf := (SetCall.deaf_of_reply hsame).resolve_right fun hv => nomatch hv
    exact ⟨hbare, .inl hdeaf, fun _ _ _ => ⟨hm, hdeaf⟩⟩
  · have hread : q.after p (p.deadline (s.cell key)) = some p.value := by
      cases hd : p.deadline (s.cell key) with
      | none => rfl
      | some d => exact asRead_of_lt (Nat.lt_of_not_le fun hle => hgone ⟨d, hd, hle⟩) _
    rw [hread] at hm hreply
    refine ⟨hm, ?_, fun d hd hle => absurd ⟨d, hd, hle⟩ hgone⟩
    rcases SetCall.deaf_of_reply hreply with hdeaf | rfl
    · exact .inl hdeaf
    · exact .inr hq.1

theorem mute_of_serial (hp : p.WritesOver ex (s.cell key) r)
    (hq : q.WritesOver ex (s.cell key) r') (h : SetsSerial ex s key p q) :
    Mute ex (s.cell key) p q := by
  intro d hd hle
  constructor
  · intro hm
    obtain ⟨tr, hlast⟩ := weave_bare_last hp hm
    rcases h _ _ _ _ hlast with hs | hs
    · obtain ⟨-, -, hrep, -⟩ := of_serial_met hp hm hs
      rw [hd, SetCall.after, asRead_of_le hle] at hrep
      exact .inl ((SetCall.deaf_of_reply hrep).resolve_right fun hv => nomatch hv)
    · rcases SetCall.deaf_of_reply (of_serial_first_met hq hs) with hdeaf | rfl
      · exact .inl hdeaf
      · exact .inr hq.1
  · intro hm
    obtain ⟨tr, hrefusal⟩ := weave_bare_refusal hp hm
    rcases h _ _ _ _ hrefusal with hs | hs
    · obtain ⟨-, hnot, hrep⟩ := of_serial_refused hp hm hs
      rw [hd, SetCall.after, asRead_of_le hle] at hnot hrep
      exact ⟨hnot, (SetCall.get_of_refusal hrep).resolve_right fun hv => nomatch hv⟩
    · exact absurd (of_serial_first_met hq hs).symm (SetCall.reply_ne_refusal hq.2 hm)

/-- Two SETs of different values set one deadline. -/
theorem deadline_of_serial (hp : p.WritesOver ex (s.cell key) r)
    (hq : q.WritesOver ex (s.cell key) r') (hd : NothingKept (s.cell key) p q)
    (h : SetsSerial ex s key p q) {d : Instant} (hpd : p.deadline (s.cell key) = some d) :
    p.value = q.value ∨ p.deadline (s.cell key) = q.deadline (s.cell key) := by
  obtain ⟨tr, hunder⟩ := weave_under hp hq hpd
  rcases h _ _ _ _ hunder with hs | hs
  · obtain ⟨-, -, -, hs'⟩ := of_serial_met hp hq.2 hs
    rw [deadline_after hd] at hs'
    exact .inr (hpd.trans (SetCall.cell_inj (setCell_inj hs')).2)
  · obtain ⟨-, -, -, hs'⟩ := of_serial_met hq hp.2 hs
    exact .inl (SetCall.cell_inj (setCell_inj hs')).1.symm

theorem bothWrite_of_serial (hp : p.WritesOver ex (s.cell key) r)
    (hq : q.WritesOver ex (s.cell key) r') (h : SetsSerial ex s key p q) :
    BothWrite ex (s.cell key) p q := by
  have hd := nothingKept_of_serial hp hq h
  refine ⟨hd, ?_⟩
  rcases follows_of_serial hp hq hd h with hpq | ⟨hqp, hv, hdd⟩
  · have hunmoved := hpq.unmoved hp hq h
    rcases follows_of_serial hq hp hd.symm h.symm with hqp | ⟨-, hv, hdd⟩
    · refine .inl ⟨hunmoved, hqp.unmoved hq hp h.symm, ?_⟩
      cases hpd : p.deadline (s.cell key) with
      | some d => exact hpd ▸ deadline_of_serial hp hq hd h hpd
      | none =>
          cases hqd : q.deadline (s.cell key) with
          | none => exact .inr rfl
          | some d =>
              have heq := deadline_of_serial hq hp hd.symm h.symm hqd
              rw [hpd, hqd] at heq
              exact heq.imp Eq.symm Eq.symm
    · exact .inr ⟨hv.symm, hdd.symm, .inl ⟨hunmoved, mute_of_serial hq hp h.symm⟩⟩
  · exact .inr ⟨hv, hdd, .inr ⟨hqp.unmoved hq hp h.symm, mute_of_serial hp hq h⟩⟩

/-! ### The pairs that go well -/

/-- Two SETs that end with what they have read. -/
theorem serial_of_idles (hp : ¬p.Writes ex (s.cell key)) (hq : ¬q.Writes ex (s.cell key)) :
    SetsSerial ex s key p q := by
  intro tr a b s' hw
  rw [SetCall.prog_eq, SetCall.prog_eq] at hw
  cases hw with
  | left hw =>
      rw [apply_get, SetCall.next_idle hp, ← SetCall.prog_eq] at hw
      obtain ⟨rfl, hq'⟩ := hw.ret_left
      exact .inl (serial_of_idle hp hq')
  | right hw =>
      rw [apply_get, SetCall.next_idle hq, ← SetCall.prog_eq] at hw
      obtain ⟨rfl, hp'⟩ := hw.ret_right
      exact .inr (serial_of_idle hq hp')

end

/-- **The pairs of SET that are atomic.**  Every interleaving of two SETs of a key, each with what
its client reads, is one of the two serial orders exactly when they are harmless to each other over
what the key holds. -/
theorem sets_serial_iff (ex : Executor) (s : StoreInner) (key : String) (p q : SetCall) :
    SetsSerial ex s key p q ↔ Harmless ex (s.cell key) p q := by
  constructor
  · intro h
    refine ⟨?_, ?_, ?_⟩
    · rintro ⟨r, hp⟩ ⟨r', hq⟩
      exact bothWrite_of_serial hp hq h
    · rintro ⟨r, hp⟩ hq
      exact oneWrites_of_serial hp hq h
    · rintro hp ⟨r', hq⟩
      exact oneWrites_of_serial hq hp h.symm
  · rintro ⟨hboth, hleft, hright⟩
    by_cases hp : p.Writes ex (s.cell key)
    · obtain ⟨r, hpr⟩ := hp
      by_cases hq : q.Writes ex (s.cell key)
      · obtain ⟨r', hqr⟩ := hq
        exact serial_of_bothWrite hpr hqr (hboth ⟨r, hpr⟩ ⟨r', hqr⟩)
      · exact serial_of_oneWrites hpr hq (hleft ⟨r, hpr⟩ hq)
    · by_cases hq : q.Writes ex (s.cell key)
      · obtain ⟨r', hqr⟩ := hq
        exact (serial_of_oneWrites hqr hp (hright hp ⟨r', hqr⟩)).symm
      · exact serial_of_idles hp hq

/-- `EX 10` at two readings of the clock is not one deadline. -/
example : ¬Harmless .plain .empty ⟨.at 0 0, "a", none, some (.ex 10), false⟩
    ⟨.at 0 1, "b", none, some (.ex 10), false⟩ := by
  rintro ⟨hboth, -, -⟩
  obtain ⟨-, ⟨-, -, hv | hd⟩ | ⟨hv, -⟩⟩ := hboth ⟨none, rfl, rfl⟩ ⟨none, rfl, rfl⟩
  · exact absurd hv (by decide)
  · exact absurd hd (by decide +kernel)
  · exact absurd hv (by decide)

/-- Two `SET k v NX` of a missing key are both answered OK, as in neither order. -/
theorem setNx_answered_twice :
    (∃ tr s', Weave applyEach (SetCall.prog .plain "k" ⟨.at 0 0, "v", some .nx, none, false⟩)
      (SetCall.prog .plain "k" ⟨.at 0 0, "v", some .nx, none, false⟩)
      Store.new tr (some okReply) (some okReply) s') ∧
    ¬∀ (ex : Executor) (s : StoreInner) (key : String) (p q : SetCall),
      SetsSerial ex s key p q := by
  have hwrites : SetCall.WritesOver .plain ⟨.at 0 0, "v", some .nx, none, false⟩
      (Store.new.cell "k") none := by
    refine ⟨?_, rfl⟩
    rw [cell_new]
    rfl
  obtain ⟨tr, hw⟩ := weave_last hwrites hwrites
  refine ⟨⟨tr, _, hw⟩, fun h => ?_⟩
  rcases h _ _ _ _ _ _ _ _ _ hw with hs | hs
  · obtain ⟨-, hread, -, -⟩ := of_serial_met hwrites hwrites.2 hs
    cases hread
  · obtain ⟨-, hread, -, -⟩ := of_serial_met hwrites hwrites.2 hs
    cases hread

end Thesaurus
