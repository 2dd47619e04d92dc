import Thesaurus.Commands.Digest
import Thesaurus.Grammar.Arity

/-!
# Grammar — canonical words

A spelling for every command: numbers in decimal, digests as DIGEST prints them, and the options of
SET in one order.

* `fromResp2_words`: the parser reads the spelling back as the command.
* `command_round_trip`: which commands frames can give, and that encoding, decoding and parsing is
  the identity on them.
-/

namespace Thesaurus
open Bytes Outcome

/-- The words of a condition. -/
def SetCondition.words : SetCondition → List String
  | .nx      => ["NX"]
  | .xx      => ["XX"]
  | .ifEq s  => ["IFEQ", s]
  | .ifNe s  => ["IFNE", s]
  | .ifDeq u => ["IFDEQ", Executor.hex16 u]
  | .ifDne u => ["IFDNE", Executor.hex16 u]

/-- The words of an expiry. -/
def SetExpiry.words : SetExpiry → List String
  | .ex secs           => ["EX", toString secs.toNat]
  | .px millis         => ["PX", toString millis.toNat]
  | .exAt deadlineSecs => ["EXAT", toString deadlineSecs.toNat]
  | .pxAt deadlineMs   => ["PXAT", toString deadlineMs.toNat]
  | .keepTtl           => ["KEEPTTL"]

/-- The words of an optional count. -/
def countWords (count : Option UInt64) : List String :=
  (count.map fun n => toString n.toNat).toList

namespace Command

/-- The words of a command. -/
def words : Command → List String
  | .ping message => "PING" :: message.toList
  | .get key => ["GET", key]
  | .set key value condition expiry g =>
      "SET" :: key :: value :: ((condition.map SetCondition.words).getD [] ++
        ((expiry.map SetExpiry.words).getD [] ++ if g then ["GET"] else []))
  | .delete ks => "DEL" :: ks
  | .getDel key => ["GETDEL", key]
  | .exists ks => "EXISTS" :: ks
  | .mGet ks => "MGET" :: ks
  | .mSet items => "MSET" :: pairWords items
  | .strLen key => ["STRLEN", key]
  | .lPush key elements => "LPUSH" :: key :: elements
  | .rPush key elements => "RPUSH" :: key :: elements
  | .lPushX key elements => "LPUSHX" :: key :: elements
  | .rPushX key elements => "RPUSHX" :: key :: elements
  | .lPop key count => "LPOP" :: key :: countWords count
  | .rPop key count => "RPOP" :: key :: countWords count
  | .lSet key index element => ["LSET", key, toString index.toInt, element]
  | .lLen key => ["LLEN", key]
  | .lIndex key index => ["LINDEX", key, toString index.toInt]
  | .lRange key start stop => ["LRANGE", key, toString start.toInt, toString stop.toInt]
  | .sAdd key members => "SADD" :: key :: members
  | .sMembers key => ["SMEMBERS", key]
  | .sIsMember key member => ["SISMEMBER", key, member]
  | .sMIsMember key members => "SMISMEMBER" :: key :: members
  | .sRandMember key count =>
      "SRANDMEMBER" :: key :: (count.map fun n => toString n.toInt).toList
  | .sCard key => ["SCARD", key]
  | .sMove source destination member => ["SMOVE", source, destination, member]
  | .sPop key count => "SPOP" :: key :: countWords count
  | .sRem key members => "SREM" :: key :: members
  | .ttl key => ["TTL", key]
  | .pTtl key => ["PTTL", key]
  | .expireTime key => ["EXPIRETIME", key]
  | .pExpireTime key => ["PEXPIRETIME", key]
  | .persist key => ["PERSIST", key]
  | .expire key seconds => ["EXPIRE", key, toString seconds.toNat]
  | .pExpire key milliseconds => ["PEXPIRE", key, toString milliseconds.toNat]
  | .expireAt key deadlineSecs => ["EXPIREAT", key, toString deadlineSecs.toNat]
  | .pExpireAt key deadlineMs => ["PEXPIREAT", key, toString deadlineMs.toNat]
  | .keys pattern => ["KEYS", pattern]
  | .digest key => ["DIGEST", key]
  | .select index => ["SELECT", toString index.toNat]
  | .dbSize => ["DBSIZE"]
  | .flushDb none => ["FLUSHDB"]
  | .flushDb (some .sync) => ["FLUSHDB", "SYNC"]
  | .flushDb (some .async) => ["FLUSHDB", "ASYNC"]

/-- The lists of the command are not empty. -/
def Filled : Command → Prop
  | .delete ks | .exists ks | .mGet ks => ks ≠ []
  | .mSet items => items ≠ []
  | .lPush _ elements | .rPush _ elements | .lPushX _ elements | .rPushX _ elements
  | .sAdd _ elements | .sMIsMember _ elements | .sRem _ elements => elements ≠ []
  | _ => True

theorem Shaped.filled {args : List RespValue} {cmd : Command} (h : Shaped args cmd) :
    cmd.Filled := by
  cases cmd <;> first | exact h | trivial

/-! ### Numbers -/

theorem toU64_toString (n : UInt64) : toU64 (toString n.toNat) = .ok n := by
  rw [toU64, parseU64_toString n.toNat_lt, UInt64.ofNat_toNat]
  rfl

theorem toI64_toString (i : Int64) : toI64 (toString i.toInt) = .ok i := by
  have hparse : parseI64 (toString i.toInt) = some i.toInt :=
    parseSigned_decimalInt i.le_toInt i.toInt_lt
  rw [toI64, hparse, Option.map_some, Int64.ofInt_toInt]
  rfl

theorem parse_count {name key : String} {f : String → Option UInt64 → Command}
    (count : Option UInt64) :
    parsePopCommand (toArgs (name :: key :: countWords count)) f = .ok (f key count) := by
  rw [parsePopCommand_toArgs]
  cases count with
  | none => rfl
  | some n =>
      show (toU64 (toString n.toNat) >>= fun n => .ok (f key (some n))) = _
      rw [toU64_toString]
      rfl

theorem parse_elements {name key : String} {f : String → List String → Command}
    {elements : List String} (h : elements ≠ []) :
    parseKeyWithElementsCommand (toArgs (name :: key :: elements)) f = .ok (f key elements) := by
  obtain ⟨element, elements, rfl⟩ := List.exists_cons_of_ne_nil h
  rw [parseKeyWithElementsCommand_toArgs]

theorem parse_keys {name : String} {f : List String → Command} {ks : List String} (h : ks ≠ []) :
    parseKeysCommand (toArgs (name :: ks)) f = .ok (f ks) := by
  obtain ⟨key, ks, rfl⟩ := List.exists_cons_of_ne_nil h
  rw [parseKeysCommand_toArgs]

theorem parse_deadline {name key : String} {f : String → UInt64 → Command} (n : UInt64) :
    parseExpireCommands (toArgs [name, key, toString n.toNat]) f = .ok (f key n) := by
  rw [parseExpireCommands_toArgs]
  show (toU64 (toString n.toNat) >>= fun n => .ok (f key n)) = _
  rw [toU64_toString]
  rfl

/-! ### Pairs -/

theorem pairs_pairWords (items : List (String × String)) :
    pairs (toArgs (pairWords items)) = .ok items := by
  induction items with
  | nil => rfl
  | cons item items ih =>
      show (pairs (toArgs (pairWords items)) >>= fun ps => .ok (item :: ps)) = _
      rw [ih]
      rfl

theorem length_pairWords (items : List (String × String)) :
    (pairWords items).length = 2 * items.length := by
  induction items with
  | nil => rfl
  | cons item items ih =>
      rw [pairWords, List.length_cons, List.length_cons, List.length_cons, ih]
      omega

theorem parse_pairs {name : String} {items : List (String × String)} (h : items ≠ []) :
    parseMsetCommand (toArgs (name :: pairWords items)) = .ok (.mSet items) := by
  have hlen := length_pairWords items
  have hpos := List.length_pos_of_ne_nil h
  rw [parseMsetCommand, checkMinArity_toArgs, length_toArgs, List.length_cons, hlen,
    if_neg (by omega), if_neg (by omega)]
  show (pairs (toArgs (pairWords items)) >>= fun ps => .ok (Command.mSet ps)) = _
  rw [pairs_pairWords]
  rfl

/-! ### Options -/

theorem SpellsAll.append {os os' : List SetOption} {ws ws' : List String} (h : SpellsAll os ws)
    (h' : SpellsAll os' ws') : SpellsAll (os ++ os') (ws ++ ws') := by
  induction h with
  | nil => exact h'
  | cons hx _ ih =>
      rw [List.append_assoc]
      exact .cons hx ih

theorem SetOption.Spells.all {x : SetOption} {ws : List String} (h : x.Spells ws) :
    SpellsAll [x] ws := by
  rw [← List.append_nil ws]
  exact .cons h .nil

theorem spells_condition (c : SetCondition) : (SetOption.condition c).Spells c.words := by
  cases c with
  | nx => exact .nx
  | xx => exact .xx
  | ifEq s => exact .ifEq s
  | ifNe s => exact .ifNe s
  | ifDeq u => exact .ifDeq (toDigest_hex16 u)
  | ifDne u => exact .ifDne (toDigest_hex16 u)

theorem spells_expiry (e : SetExpiry) : (SetOption.expiry e).Spells e.words := by
  cases e with
  | ex n => exact .ex (toU64_toString n)
  | px n => exact .px (toU64_toString n)
  | exAt n => exact .exAt (toU64_toString n)
  | pxAt n => exact .pxAt (toU64_toString n)
  | keepTtl => exact .keepTtl

/-- The options of SET in one order. -/
def optionsOf (condition : Option SetCondition) (expiry : Option SetExpiry) (g : Bool) :
    List SetOption :=
  (condition.map SetOption.condition).toList ++
    ((expiry.map SetOption.expiry).toList ++ if g then [.get] else [])

theorem spells_optionsOf (condition : Option SetCondition) (expiry : Option SetExpiry) (g : Bool) :
    SpellsAll (optionsOf condition expiry g) ((condition.map SetCondition.words).getD [] ++
      ((expiry.map SetExpiry.words).getD [] ++ if g then ["GET"] else [])) := by
  refine .append ?_ (.append ?_ ?_)
  · cases condition with
    | none => exact .nil
    | some c => exact (spells_condition c).all
  · cases expiry with
    | none => exact .nil
    | some e => exact (spells_expiry e).all
  · cases g with
    | false => exact .nil
    | true => exact SetOption.Spells.get.all

theorem parse_options (key value : String) (condition : Option SetCondition)
    (expiry : Option SetExpiry) (g : Bool) :
    parseSetCommand (toArgs (words (.set key value condition expiry g))) =
      .ok (.set key value condition expiry g) := by
  refine (parseSetCommand_of_spells (spells_optionsOf condition expiry g) "SET" key value).trans ?_
  cases condition <;> cases expiry <;> cases g <;> rfl

/-! ### Commands -/

/-- **The parser reads the words back.** -/
theorem fromResp2_words {cmd : Command} (h : cmd.Filled) :
    fromResp2 (bulkArray cmd.words) = .ok cmd := by
  cases cmd with
  | ping message => cases message <;> rfl
  | set key value condition expiry g =>
      exact (fromResp2_bulkArray _ _).trans (parse_options key value condition expiry g)
  | delete ks | «exists» ks | mGet ks => exact (fromResp2_bulkArray _ _).trans (parse_keys h)
  | mSet items => exact (fromResp2_bulkArray _ _).trans (parse_pairs h)
  | lPush key elements | rPush key elements | lPushX key elements | rPushX key elements
  | sAdd key elements | sMIsMember key elements | sRem key elements =>
      exact (fromResp2_bulkArray _ _).trans (parse_elements h)
  | lPop key count | rPop key count | sPop key count =>
      exact (fromResp2_bulkArray _ _).trans (parse_count count)
  | expire key n | pExpire key n | expireAt key n | pExpireAt key n =>
      exact (fromResp2_bulkArray _ _).trans (parse_deadline n)
  | sRandMember key count =>
      refine (fromResp2_bulkArray _ _).trans ((parseSrandmemberCommand_toArgs _ _).trans ?_)
      cases count with
      | none => rfl
      | some n =>
          show (toI64 (toString n.toInt) >>= fun n => .ok (Command.sRandMember key (some n))) = _
          rw [toI64_toString]
          rfl
  | lSet key index element =>
      refine (fromResp2_bulkArray _ _).trans ((parseLsetCommand_toArgs _ _).trans ?_)
      show (toI64 (toString index.toInt) >>= fun i => .ok (Command.lSet key i element)) = _
      rw [toI64_toString]
      rfl
  | lIndex key index =>
      refine (fromResp2_bulkArray _ _).trans ((parseLindexCommand_toArgs _ _).trans ?_)
      show (toI64 (toString index.toInt) >>= fun i => .ok (Command.lIndex key i)) = _
      rw [toI64_toString]
      rfl
  | lRange key start stop =>
      refine (fromResp2_bulkArray _ _).trans ((parseLrangeCommand_toArgs _ _).trans ?_)
      show (toI64 (toString start.toInt) >>= fun i =>
        toI64 (toString stop.toInt) >>= fun j => .ok (Command.lRange key i j)) = _
      rw [toI64_toString, toI64_toString]
      rfl
  | select index =>
      have hparse : parseUnsigned 10 (2 ^ 8) (utf8 (toString index.toNat)) = some index.toNat :=
        parseUnsigned_decimal index.toNat_lt
      refine (fromResp2_bulkArray _ _).trans ((parseSelectCommand_toArgs _ _).trans ?_)
      dsimp only
      rw [hparse]
      dsimp only
      rw [UInt8.ofNat_toNat]
  | flushDb mode => rcases mode with _ | _ | _ <;> rfl
  | _ => rfl

/-- **Commands on the wire.**  The commands that frames can give are those whose lists are not
empty.  Each is read back from its words, and from their encoding where it fits the machine,
whatever follows it. -/
theorem command_round_trip (cmd : Command) :
    ((∃ frame, fromResp2 frame = .ok cmd) ↔ cmd.Filled) ∧
      (cmd.Filled → fromResp2 (bulkArray cmd.words) = .ok cmd ∧
        (Fits (bulkArray cmd.words) → ∀ rest,
          decode (encode (bulkArray cmd.words) ++ rest) = .ok (bulkArray cmd.words, rest))) := by
  refine ⟨⟨?_, fun h => ⟨_, fromResp2_words h⟩⟩, fun h => ⟨fromResp2_words h, fun hfits rest => ?_⟩⟩
  · rintro ⟨frame, h⟩
    obtain ⟨s, ss, rfl, -⟩ := fromResp2_eq_ok h
    exact (fromResp2_shaped h).filled
  · exact decode_encode hfits (lineSafe_bulkArray cmd.words) rest

end Command

end Thesaurus
