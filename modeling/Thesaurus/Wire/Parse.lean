import Thesaurus.Model.Command
import Thesaurus.Wire.RoundTrip

/-!
# Wire — parsed commands

What is known of a frame once `from_resp2` has accepted it, and of the command it became.

* `fromResp2_eq_ok`: the frame is an array of bulk strings, so it survives the encoder.
* `fromResp2_shaped`: a command that takes a list of elements got at least one.
* `fromResp2_pexpireatFrame`: the entry that replaces a relative deadline parses.
-/

namespace Thesaurus
open Bytes Outcome

namespace Command

/-! ### Arguments -/

theorem isBulk_iff {v : RespValue} : isBulk v = true ↔ ∃ s, v = .bulkString (some s) := by
  cases v with
  | bulkString s => cases s <;> simp [isBulk]
  | simpleString | simpleError | integer | array => simp [isBulk]

theorem eq_bulks_of_isBulk {args : List RespValue} (h : ∀ arg ∈ args, isBulk arg = true) :
    ∃ ss : List String, args = ss.map fun s => .bulkString (some s) := by
  induction args with
  | nil => exact ⟨[], rfl⟩
  | cons arg args ih =>
      obtain ⟨s, rfl⟩ := isBulk_iff.mp (h arg List.mem_cons_self)
      obtain ⟨ss, rfl⟩ := ih fun a ha => h a (List.mem_cons_of_mem _ ha)
      exact ⟨s :: ss, rfl⟩

theorem find_not_isBulk (ss : List String) :
    (ss.map fun s => RespValue.bulkString (some s)).find? (fun arg => !isBulk arg) = none := by
  simp [isBulk]

theorem fromResp2_bulkArray (s : String) (ss : List String) :
    fromResp2 (bulkArray (s :: ss)) =
      parse s ((s :: ss).map fun s => .bulkString (some s)) := by
  simp only [fromResp2, bulkArray, find_not_isBulk]
  rfl

/-- **An accepted frame** is an array of at least one bulk string. -/
theorem fromResp2_eq_ok {frame : RespValue} {cmd : Command} (h : fromResp2 frame = .ok cmd) :
    ∃ s ss, frame = bulkArray (s :: ss) ∧
      parse s ((s :: ss).map fun s => .bulkString (some s)) = .ok cmd := by
  match frame, h with
  | .array (some args), h =>
      simp only [fromResp2] at h
      split at h
      · cases h
      · next hfind =>
          have hbulk : ∀ arg ∈ args, isBulk arg = true := by
            simpa using List.find?_eq_none.mp hfind
          obtain ⟨ss, rfl⟩ := eq_bulks_of_isBulk hbulk
          obtain ⟨first, hfirst, h⟩ := bind_eq_ok.mp h
          cases ss with
          | nil => cases hfirst
          | cons s ss => cases hfirst; exact ⟨_, ss, rfl, h⟩

theorem lineSafe_bulkArray (ss : List String) : LineSafe (bulkArray ss) := by
  rw [bulkArray, LineSafe, allLineSafe_iff]
  intro item hitem
  obtain ⟨s, -, rfl⟩ := List.mem_map.mp hitem
  trivial

theorem fits_bulkArray {ss : List String} :
    Fits (bulkArray ss) ↔
      ss.length < 2 ^ 63 ∧ ∀ s ∈ ss, (utf8 s).length + 2 ≤ 2 ^ 63 - 1 := by
  simp only [bulkArray, Fits, allFit_iff, List.length_map, List.forall_mem_map]

theorem bulkAt_eq_ok {args : List RespValue} {i : Nat} {s : String} (h : bulkAt args i = .ok s) :
    args[i]? = some (.bulkString (some s)) := by
  unfold bulkAt at h
  split at h
  · next hs => cases h; exact hs
  · cases h

theorem checkMinArity_eq_ok {args : List RespValue} {n : Nat} {u : Unit}
    (h : checkMinArity args n = .ok u) : n ≤ args.length := by
  unfold checkMinArity at h
  split at h
  · cases h
  · next hn => exact Nat.le_of_not_lt hn

theorem bulks_length {args : List RespValue} {ss : List String} (h : bulks args = .ok ss) :
    ss.length = args.length := by
  induction args generalizing ss with
  | nil => cases h; rfl
  | cons arg args ih =>
      unfold bulks at h
      split at h
      · next heq => cases heq
      · next s args' heq =>
          cases heq
          obtain ⟨ss', hss, h⟩ := bind_eq_ok.mp h
          cases h
          rw [List.length_cons, List.length_cons, ih hss]
      · cases h

/-! ### Parsers -/

theorem parseKeyCommand_eq_ok {args : List RespValue} {f : String → Command} {cmd : Command}
    (h : parseKeyCommand args f = .ok cmd) : ∃ key, cmd = f key := by
  obtain ⟨_, -, h⟩ := bind_eq_ok.mp h
  obtain ⟨key, -, h⟩ := bind_eq_ok.mp h
  cases h
  exact ⟨key, rfl⟩

theorem parseKeysCommand_eq_ok {args : List RespValue} {f : List String → Command}
    {cmd : Command} (h : parseKeysCommand args f = .ok cmd) :
    ∃ keys, keys ≠ [] ∧ cmd = f keys := by
  obtain ⟨_, ha, h⟩ := bind_eq_ok.mp h
  obtain ⟨keys, hk, h⟩ := bind_eq_ok.mp h
  cases h
  have hl := bulks_length hk
  rw [List.length_drop] at hl
  have := checkMinArity_eq_ok ha
  exact ⟨keys, fun h => by simp [h] at hl; omega, rfl⟩

theorem parseKeyWithElementsCommand_eq_ok {args : List RespValue}
    {f : String → List String → Command} {cmd : Command}
    (h : parseKeyWithElementsCommand args f = .ok cmd) :
    ∃ key elements, elements ≠ [] ∧ cmd = f key elements := by
  obtain ⟨_, ha, h⟩ := bind_eq_ok.mp h
  obtain ⟨key, -, h⟩ := bind_eq_ok.mp h
  obtain ⟨elements, he, h⟩ := bind_eq_ok.mp h
  cases h
  have hl := bulks_length he
  rw [List.length_drop] at hl
  have := checkMinArity_eq_ok ha
  exact ⟨key, elements, fun h => by simp [h] at hl; omega, rfl⟩

theorem parsePopCommand_eq_ok {args : List RespValue} {f : String → Option UInt64 → Command}
    {cmd : Command} (h : parsePopCommand args f = .ok cmd) : ∃ key count, cmd = f key count := by
  obtain ⟨_, -, h⟩ := bind_eq_ok.mp h
  obtain ⟨key, -, h⟩ := bind_eq_ok.mp h
  obtain ⟨count, -, h⟩ := bind_eq_ok.mp h
  cases h
  exact ⟨key, count, rfl⟩

theorem parseExpireCommands_eq_ok {args : List RespValue} {f : String → UInt64 → Command}
    {cmd : Command} (h : parseExpireCommands args f = .ok cmd) :
    ∃ key n, args[1]? = some (.bulkString (some key)) ∧ cmd = f key n := by
  obtain ⟨_, -, h⟩ := bind_eq_ok.mp h
  obtain ⟨key, hk, h⟩ := bind_eq_ok.mp h
  obtain ⟨_, -, h⟩ := bind_eq_ok.mp h
  obtain ⟨n, -, h⟩ := bind_eq_ok.mp h
  cases h
  exact ⟨key, n, bulkAt_eq_ok hk, rfl⟩

/-- What the parser guarantees of a command: lists of arguments are not empty, and the key of a
relative deadline is an argument. -/
def Shaped (args : List RespValue) : Command → Prop
  | .delete ks | .exists ks | .mGet ks => ks ≠ []
  | .mSet items => items ≠ []
  | .lPush _ elements | .rPush _ elements | .lPushX _ elements | .rPushX _ elements
  | .sAdd _ elements | .sMIsMember _ elements | .sRem _ elements => elements ≠ []
  | .expire key _ | .pExpire key _ => args[1]? = some (.bulkString (some key))
  | _ => True

theorem pairs_ne_nil {args : List RespValue} {items : List (String × String)}
    (h : pairs args = .ok items) (hl : 2 ≤ args.length) : items ≠ [] := by
  unfold pairs at h
  split at h
  · obtain ⟨rest, -, h⟩ := bind_eq_ok.mp h
    cases h
    simp
  · cases h
  · next h₁ h₂ =>
      match args, hl with
      | a :: b :: tail, _ => exact absurd rfl (h₂ a b tail)

theorem parse_shaped {name : String} {args : List RespValue} {cmd : Command}
    (h : parse name args = .ok cmd) : Shaped args cmd := by
  unfold parse at h
  split at h
  case h_2 | h_5 | h_9 | h_17 | h_21 | h_25 | h_29 | h_30 | h_31 | h_32 | h_33 | h_38 | h_39 =>
    obtain ⟨_, rfl⟩ := parseKeyCommand_eq_ok h
    trivial
  case h_4 | h_6 | h_7 =>
    obtain ⟨_, hk, rfl⟩ := parseKeysCommand_eq_ok h
    exact hk
  case h_10 | h_11 | h_12 | h_13 | h_20 | h_23 | h_28 =>
    obtain ⟨_, _, he, rfl⟩ := parseKeyWithElementsCommand_eq_ok h
    exact he
  -- a command without a list of words has nothing to show
  case h_14 | h_15 | h_27 =>
    obtain ⟨_, _, rfl⟩ := parsePopCommand_eq_ok h
    trivial
  case h_34 | h_35 | h_36 | h_37 =>
    obtain ⟨_, _, hk, rfl⟩ := parseExpireCommands_eq_ok h
    first | exact hk | trivial
  case h_1 =>
    unfold parsePingCommand at h
    split at h
    · cases h; trivial
    · obtain ⟨_, -, h⟩ := bind_eq_ok.mp h
      cases h; trivial
  case h_8 =>
    obtain ⟨_, ha, h⟩ := bind_eq_ok.mp h
    have hlen := checkMinArity_eq_ok ha
    split at h
    · cases h
    · obtain ⟨items, hi, h⟩ := bind_eq_ok.mp h
      cases h
      -- the arity check has left two words for a pair
      exact pairs_ne_nil hi (by rw [List.length_drop]; omega)
  case h_22 | h_24 =>
    obtain ⟨_, -, h⟩ := bind_eq_ok.mp h
    obtain ⟨_, -, h⟩ := bind_eq_ok.mp h
    obtain ⟨_, -, h⟩ := bind_eq_ok.mp h
    cases h; trivial
  case h_3 | h_18 | h_26 =>
    obtain ⟨_, -, h⟩ := bind_eq_ok.mp h
    obtain ⟨_, -, h⟩ := bind_eq_ok.mp h
    obtain ⟨_, -, h⟩ := bind_eq_ok.mp h
    obtain ⟨_, -, h⟩ := bind_eq_ok.mp h
    cases h; trivial
  case h_16 =>
    obtain ⟨_, -, h⟩ := bind_eq_ok.mp h
    obtain ⟨_, -, h⟩ := bind_eq_ok.mp h
    obtain ⟨_, -, h⟩ := bind_eq_ok.mp h
    obtain ⟨_, -, h⟩ := bind_eq_ok.mp h
    obtain ⟨_, -, h⟩ := bind_eq_ok.mp h
    cases h; trivial
  case h_19 =>
    obtain ⟨_, -, h⟩ := bind_eq_ok.mp h
    obtain ⟨_, -, h⟩ := bind_eq_ok.mp h
    obtain ⟨_, -, h⟩ := bind_eq_ok.mp h
    obtain ⟨_, -, h⟩ := bind_eq_ok.mp h
    obtain ⟨_, -, h⟩ := bind_eq_ok.mp h
    obtain ⟨_, -, h⟩ := bind_eq_ok.mp h
    cases h; trivial
  case h_40 =>
    obtain ⟨_, -, h⟩ := bind_eq_ok.mp h
    obtain ⟨_, -, h⟩ := bind_eq_ok.mp h
    split at h
    · cases h; trivial
    · split at h <;> cases h
  case h_41 =>
    obtain ⟨_, -, h⟩ := bind_eq_ok.mp h
    cases h; trivial
  case h_42 =>
    unfold parseFlushdbCommand at h
    split at h
    · cases h
    · split at h
      · cases h; trivial
      · split at h
        · cases h; trivial
        · split at h <;> cases h
          trivial
      · cases h
  case h_43 => cases h

/-- **A parsed command** keeps the promises of its parser. -/
theorem fromResp2_shaped {s : String} {ss : List String} {cmd : Command}
    (h : fromResp2 (bulkArray (s :: ss)) = .ok cmd) :
    Shaped ((s :: ss).map fun s => .bulkString (some s)) cmd := by
  rw [fromResp2_bulkArray] at h
  exact parse_shaped h

/-! ### The entry of a relative deadline -/

theorem parseU64_toString {n : Nat} (h : n < 2 ^ 64) :
    parseU64 (toString n) = some (UInt64.ofNat n) := by
  rw [parseU64, show utf8 (toString n) = decimal n from rfl, parseUnsigned_decimal h]
  rfl

theorem fromResp2_pexpireatFrame (key : String) {n : Nat} (h : n < 2 ^ 64) :
    fromResp2 (pexpireatFrame key n) = .ok (.pExpireAt key (UInt64.ofNat n)) := by
  have hn : toU64 (toString n) = .ok (UInt64.ofNat n) := by
    rw [toU64, parseU64_toString h]
    rfl
  have hp : parseExpireCommands
      (["PEXPIREAT", key, toString n].map fun s => .bulkString (some s)) .pExpireAt =
      .ok (.pExpireAt key (UInt64.ofNat n)) := by
    show (do let d ← toU64 (toString n); return Command.pExpireAt key d) = _
    rw [hn]
    rfl
  rw [pexpireatFrame, fromResp2_bulkArray]
  exact hp

theorem length_decimal_le {n : Nat} (h : n < 2 ^ 64) : (utf8 (toString n)).length ≤ 20 := by
  rw [show utf8 (toString n) = decimal n from rfl, decimal_eq_map, List.length_map]
  exact Nat.toDigitsCore_length 10 (n + 1) n 20 (by decide) (by omega)

theorem fits_pexpireatFrame {key : String} {n : Nat} (hk : (utf8 key).length + 2 ≤ 2 ^ 63 - 1)
    (h : n < 2 ^ 64) : Fits (pexpireatFrame key n) := by
  have hn := length_decimal_le h
  rw [pexpireatFrame, fits_bulkArray]
  refine ⟨by simp, fun s hs => ?_⟩
  simp only [List.mem_cons, List.not_mem_nil, or_false] at hs
  rcases hs with rfl | rfl | rfl
  · decide
  · exact hk
  · omega

end Command

end Thesaurus
