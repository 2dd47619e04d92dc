import Thesaurus.Wire.Parse

/-!
# Grammar — options of SET

What may follow `SET key value`: options, each spelled by one word or by a word and its value, in
any order, with at most one condition and at most one expiry.

* `setOptionsLoop_of_spells`: on the words of a list of options the scanner of `parse_set_command`
  puts the options together, one after the other.
* `parseSetCommand_eq_ok_iff`: the scanner accepts exactly these lists, and the order of the
  options does not matter.
-/

namespace Thesaurus
open Bytes Outcome

namespace Command

/-- The arguments of a frame, name included. -/
def toArgs (words : List String) : List RespValue := words.map fun s => .bulkString (some s)

theorem toArgs_injective : Function.Injective toArgs :=
  List.map_injective_iff.mpr fun s t h => by cases h; rfl

/-- An option of SET. -/
inductive SetOption where
  | condition (c : SetCondition)
  | expiry (e : SetExpiry)
  | get
  deriving DecidableEq

/-- The words that spell an option.  A value is any word that parses, also one that spells an
option itself. -/
inductive SetOption.Spells : SetOption → List String → Prop where
  | nx : Spells (.condition .nx) ["NX"]
  | xx : Spells (.condition .xx) ["XX"]
  | ifEq (v : String) : Spells (.condition (.ifEq v)) ["IFEQ", v]
  | ifNe (v : String) : Spells (.condition (.ifNe v)) ["IFNE", v]
  | ifDeq {h : String} {u : UInt64} (hu : toDigest h = .ok u) :
      Spells (.condition (.ifDeq u)) ["IFDEQ", h]
  | ifDne {h : String} {u : UInt64} (hu : toDigest h = .ok u) :
      Spells (.condition (.ifDne u)) ["IFDNE", h]
  | get : Spells .get ["GET"]
  | ex {s : String} {n : UInt64} (hn : toU64 s = .ok n) : Spells (.expiry (.ex n)) ["EX", s]
  | px {s : String} {n : UInt64} (hn : toU64 s = .ok n) : Spells (.expiry (.px n)) ["PX", s]
  | exAt {s : String} {n : UInt64} (hn : toU64 s = .ok n) : Spells (.expiry (.exAt n)) ["EXAT", s]
  | pxAt {s : String} {n : UInt64} (hn : toU64 s = .ok n) : Spells (.expiry (.pxAt n)) ["PXAT", s]
  | keepTtl : Spells (.expiry .keepTtl) ["KEEPTTL"]

/-- The words that spell a list of options, one option after the other. -/
inductive SpellsAll : List SetOption → List String → Prop where
  | nil : SpellsAll [] []
  | cons {o : SetOption} {os : List SetOption} {ws rest : List String} (h : o.Spells ws)
      (t : SpellsAll os rest) : SpellsAll (o :: os) (ws ++ rest)

/-- The conditions among the options. -/
def conditions (os : List SetOption) : List SetCondition :=
  os.filterMap fun | .condition c => some c | _ => none

/-- The expiries among the options. -/
def expiries (os : List SetOption) : List SetExpiry :=
  os.filterMap fun | .expiry e => some e | _ => none

/-- At most one option of each group. -/
def AtMostOne (os : List SetOption) : Prop :=
  (conditions os).length ≤ 1 ∧ (expiries os).length ≤ 1

instance (os : List SetOption) : Decidable (AtMostOne os) := inferInstanceAs (Decidable (_ ∧ _))

/-- The command with these options. -/
def setOf (key value : String) (os : List SetOption) : Command :=
  .set key value (conditions os).head? (expiries os).head? (decide (SetOption.get ∈ os))

/-! ### Putting options together -/

/-- One more option, if its group has none yet. -/
def SetOptions.put (o : SetOptions) : SetOption → Option SetOptions
  | .condition c => if o.condition.isSome then none else some { o with condition := some c }
  | .expiry e    => if o.expiry.isSome then none else some { o with expiry := some e }
  | .get         => some { o with get := true }

@[simp] theorem conditions_nil : conditions [] = [] := rfl

@[simp] theorem expiries_nil : expiries [] = [] := rfl

@[simp] theorem conditions_condition (c : SetCondition) (os : List SetOption) :
    conditions (.condition c :: os) = c :: conditions os := rfl

@[simp] theorem conditions_expiry (e : SetExpiry) (os : List SetOption) :
    conditions (.expiry e :: os) = conditions os := rfl

@[simp] theorem conditions_get (os : List SetOption) :
    conditions (.get :: os) = conditions os := rfl

@[simp] theorem expiries_condition (c : SetCondition) (os : List SetOption) :
    expiries (.condition c :: os) = expiries os := rfl

@[simp] theorem expiries_expiry (e : SetExpiry) (os : List SetOption) :
    expiries (.expiry e :: os) = e :: expiries os := rfl

@[simp] theorem expiries_get (os : List SetOption) :
    expiries (.get :: os) = expiries os := rfl

theorem foldlM_put (os : List SetOption) (o : SetOptions) :
    os.foldlM SetOptions.put o =
      if o.condition.toList.length + (conditions os).length ≤ 1 ∧
          o.expiry.toList.length + (expiries os).length ≤ 1 then
        some ⟨o.condition.or (conditions os).head?, o.expiry.or (expiries os).head?,
          o.get || decide (SetOption.get ∈ os)⟩
      else none := by
  induction os generalizing o with
  | nil =>
      obtain ⟨condition, expiry, get⟩ := o
      cases condition <;> cases expiry <;> simp
  | cons x os ih =>
      obtain ⟨condition, expiry, get⟩ := o
      rw [List.foldlM_cons]
      cases x with
      | condition c =>
          cases condition with
          | none => simp [SetOptions.put, ih, Nat.add_comm]
          | some c' => simp [SetOptions.put]
      | expiry e =>
          cases expiry with
          | none => simp [SetOptions.put, ih, Nat.add_comm]
          | some e' => simp [SetOptions.put]
      | get => simp [SetOptions.put, ih]

/-! ### The scanner -/

theorem spells_of_conditionOf {token next : String} {c : SetCondition}
    (ht : token = "IFEQ" ∨ token = "IFNE" ∨ token = "IFDEQ" ∨ token = "IFDNE")
    (h : conditionOf token next = .ok c) : (SetOption.condition c).Spells [token, next] := by
  rcases ht with rfl | rfl | rfl | rfl
  · cases h; exact .ifEq next
  · cases h; exact .ifNe next
  · obtain ⟨u, hu, h⟩ := bind_eq_ok.mp h
    cases h
    exact .ifDeq hu
  · obtain ⟨u, hu, h⟩ := bind_eq_ok.mp h
    cases h
    exact .ifDne hu

theorem spells_of_expiryOf {token next : String} {e : SetExpiry}
    (ht : token = "EX" ∨ token = "PX" ∨ token = "EXAT" ∨ token = "PXAT")
    (h : expiryOf token next = .ok e) : (SetOption.expiry e).Spells [token, next] := by
  obtain ⟨n, hn, h⟩ := bind_eq_ok.mp h
  rcases ht with rfl | rfl | rfl | rfl
  · cases h; exact .ex hn
  · cases h; exact .px hn
  · cases h; exact .exAt hn
  · cases h; exact .pxAt hn

theorem conditionOf_of_spells {token next : String} {c : SetCondition}
    (h : (SetOption.condition c).Spells [token, next]) : conditionOf token next = .ok c := by
  cases h with
  | ifEq => rfl
  | ifNe => rfl
  | ifDeq hu => rw [conditionOf, hu]; rfl
  | ifDne hu => rw [conditionOf, hu] <;> simp

theorem expiryOf_of_spells {token next : String} {e : SetExpiry}
    (h : (SetOption.expiry e).Spells [token, next]) : expiryOf token next = .ok e := by
  cases h with
  | ex hn => rw [expiryOf, hn]; rfl
  | px hn => rw [expiryOf, hn]; rfl
  | exAt hn => rw [expiryOf, hn]; rfl
  | pxAt hn => rw [expiryOf, hn]; rfl

/-- The scanner at the words of one option. -/
theorem setOptionsLoop_option {x : SetOption} {ws : List String} (hx : x.Spells ws)
    (args : List RespValue) (o : SetOptions) :
    setOptionsLoop (toArgs ws ++ args) o =
      match o.put x with
      | some o' => setOptionsLoop args o'
      | none    => .err .syntaxError := by
  -- A condition and an expiry are refused when there is one already.
  have condition (c : SetCondition) (r : Outcome HandlerError SetCondition) (hr : r = .ok c) :
      (if o.condition.isSome then .err .syntaxError
        else r >>= fun c => setOptionsLoop args { o with condition := some c }) =
      (match o.put (.condition c) with
        | some o' => setOptionsLoop args o'
        | none => .err .syntaxError) := by
    rw [hr, SetOptions.put]
    cases o.condition.isSome <;> rfl
  have expiry (e : SetExpiry) (r : Outcome HandlerError SetExpiry) (hr : r = .ok e) :
      (if o.expiry.isSome then .err .syntaxError
        else r >>= fun e => setOptionsLoop args { o with expiry := some e }) =
      (match o.put (.expiry e) with
        | some o' => setOptionsLoop args o'
        | none => .err .syntaxError) := by
    rw [hr, SetOptions.put]
    cases o.expiry.isSome <;> rfl
  cases hx with
  | nx => exact condition .nx (.ok .nx) rfl
  | xx => exact condition .xx (.ok .xx) rfl
  | ifEq v => exact condition _ _ (conditionOf_of_spells (.ifEq v))
  | ifNe v => exact condition _ _ (conditionOf_of_spells (.ifNe v))
  | ifDeq hu => exact condition _ _ (conditionOf_of_spells (.ifDeq hu))
  | ifDne hu => exact condition _ _ (conditionOf_of_spells (.ifDne hu))
  | get => rfl
  | ex hn => exact expiry _ _ (expiryOf_of_spells (.ex hn))
  | px hn => exact expiry _ _ (expiryOf_of_spells (.px hn))
  | exAt hn => exact expiry _ _ (expiryOf_of_spells (.exAt hn))
  | pxAt hn => exact expiry _ _ (expiryOf_of_spells (.pxAt hn))
  | keepTtl => exact expiry .keepTtl (.ok .keepTtl) rfl

/-- **The scanner on options.**  On the words of a list of options it adds them one by one, and
fails at the first that has no place. -/
theorem setOptionsLoop_of_spells {os : List SetOption} {ws : List String} (h : SpellsAll os ws)
    (o : SetOptions) :
    setOptionsLoop (toArgs ws) o = .ofOption .syntaxError (os.foldlM SetOptions.put o) := by
  induction h generalizing o with
  | nil => rfl
  | @cons x os ws rest hx _ ih =>
      rw [toArgs, List.map_append, List.foldlM_cons]
      refine (setOptionsLoop_option hx _ o).trans ?_
      cases o.put x with
      | none => rfl
      | some o' => exact ih o'

/-- What the scanner accepts is spelled by options. -/
theorem spells_of_setOptionsLoop {args : List RespValue} {o o' : SetOptions}
    (h : setOptionsLoop args o = .ok o') : ∃ os ws, args = toArgs ws ∧ SpellsAll os ws := by
  have word {x : SetOption} {w : String} (hx : x.Spells [w]) {args : List RespValue} :
      (∃ os ws, args = toArgs ws ∧ SpellsAll os ws) →
        ∃ os ws, .bulkString (some w) :: args = toArgs ws ∧ SpellsAll os ws := by
    rintro ⟨os, ws, rfl, hs⟩
    exact ⟨x :: os, _, rfl, SpellsAll.cons hx hs⟩
  have value {x : SetOption} {w v : String} (hx : x.Spells [w, v]) {args : List RespValue} :
      (∃ os ws, args = toArgs ws ∧ SpellsAll os ws) →
        ∃ os ws, .bulkString (some w) :: .bulkString (some v) :: args = toArgs ws ∧
          SpellsAll os ws := by
    rintro ⟨os, ws, rfl, hs⟩
    exact ⟨x :: os, _, rfl, SpellsAll.cons hx hs⟩
  -- No word is left, the word is refused, or it is the first of an option.
  fun_induction setOptionsLoop args o
  all_goals first
    | exact ⟨[], [], rfl, .nil⟩
    | cases h
    | (rename_i ih; exact word .nx (ih h))
    | (rename_i ih; exact word .xx (ih h))
    | (rename_i ih; exact word .get (ih h))
    | (rename_i ih; exact word .keepTtl (ih h))
    | (rename_i ih
       obtain ⟨c, hc, h⟩ := bind_eq_ok.mp h
       exact value (spells_of_conditionOf (by simp) hc) (ih c h))
    | (rename_i ih
       obtain ⟨e, he, h⟩ := bind_eq_ok.mp h
       exact value (spells_of_expiryOf (by simp) he) (ih e h))

/-! ### The command -/

theorem foldlM_put_start (os : List SetOption) :
    os.foldlM SetOptions.put ⟨none, none, false⟩ =
      if AtMostOne os then
        some ⟨(conditions os).head?, (expiries os).head?, decide (SetOption.get ∈ os)⟩
      else none := by
  rw [foldlM_put]
  exact if_congr (by simp [AtMostOne]) (by simp) rfl

/-- The parser on a key and a value is the scanner on the words behind them. -/
theorem parseSetCommand_toArgs (name key value : String) (ws : List String) :
    parseSetCommand (toArgs (name :: key :: value :: ws)) =
      setOptionsLoop (toArgs ws) ⟨none, none, false⟩ >>= fun o =>
        .ok (.set key value o.condition o.expiry o.get) := by
  have hmin : checkMinArity (toArgs (name :: key :: value :: ws)) 3 = .ok () :=
    if_neg (by simp [toArgs])
  rw [parseSetCommand, hmin]
  rfl

/-- The parser on a key, a value and the words of a list of options. -/
theorem parseSetCommand_of_spells {os : List SetOption} {ws : List String} (h : SpellsAll os ws)
    (name key value : String) :
    parseSetCommand (toArgs (name :: key :: value :: ws)) =
      if AtMostOne os then .ok (setOf key value os) else .err .syntaxError := by
  rw [parseSetCommand_toArgs, setOptionsLoop_of_spells h, foldlM_put_start]
  split <;> rfl

theorem AtMostOne.eq_of_perm {os os' : List SetOption} (h : os.Perm os') :
    AtMostOne os ↔ AtMostOne os' := by
  rw [AtMostOne, AtMostOne, conditions, expiries, (h.filterMap _).length_eq,
    (h.filterMap _).length_eq]
  rfl

theorem eq_of_perm_of_length_le {α : Type} {l l' : List α} (h : l.Perm l') (hl : l.length ≤ 1) :
    l = l' := by
  match l, hl with
  | [], _ => exact h.nil_eq
  | [a], _ => exact h.symm.eq_singleton.symm

theorem setOf_perm {os os' : List SetOption} (h : os.Perm os') (ho : AtMostOne os)
    (key value : String) : setOf key value os = setOf key value os' := by
  have hc : conditions os = conditions os' := eq_of_perm_of_length_le (h.filterMap _) ho.1
  have he : expiries os = expiries os' := eq_of_perm_of_length_le (h.filterMap _) ho.2
  rw [setOf, setOf, hc, he, decide_eq_decide.mpr h.mem_iff]

/-- **The options of SET.**  The words after the value are accepted exactly when they are a list
of options with at most one of each group, in whatever order, and the command then has these
options; two orders of one list give one result. -/
theorem parseSetCommand_eq_ok_iff (name key value : String) (ws : List String) :
    (∀ cmd, parseSetCommand (toArgs (name :: key :: value :: ws)) = .ok cmd ↔
      ∃ os, SpellsAll os ws ∧ AtMostOne os ∧ cmd = setOf key value os) ∧
    ∀ os os' ws', SpellsAll os ws → SpellsAll os' ws' → os.Perm os' →
      parseSetCommand (toArgs (name :: key :: value :: ws)) =
        parseSetCommand (toArgs (name :: key :: value :: ws')) := by
  refine ⟨fun cmd => ⟨fun h => ?_, ?_⟩, fun os os' ws' hs hs' hperm => ?_⟩
  · have hset := h
    obtain ⟨_, -, h⟩ := bind_eq_ok.mp h
    obtain ⟨_, -, h⟩ := bind_eq_ok.mp h
    obtain ⟨_, -, h⟩ := bind_eq_ok.mp h
    obtain ⟨_, hloop, -⟩ := bind_eq_ok.mp h
    obtain ⟨os, ws', hws, hs⟩ := spells_of_setOptionsLoop hloop
    obtain rfl : ws = ws' := toArgs_injective hws
    rw [parseSetCommand_of_spells hs] at hset
    split at hset
    · next ho => cases hset; exact ⟨os, hs, ho, rfl⟩
    · cases hset
  · rintro ⟨os, hs, ho, rfl⟩
    rw [parseSetCommand_of_spells hs, if_pos ho]
  · rw [parseSetCommand_of_spells hs, parseSetCommand_of_spells hs']
    by_cases ho : AtMostOne os
    · rw [if_pos ho, if_pos ((AtMostOne.eq_of_perm hperm).mp ho), setOf_perm hperm ho]
    · rw [if_neg ho, if_neg (mt (AtMostOne.eq_of_perm hperm).mpr ho)]

end Command

end Thesaurus
