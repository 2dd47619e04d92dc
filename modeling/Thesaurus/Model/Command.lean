import Thesaurus.Model.Resp2

/-!
# Model — Command

`command/`: the commands and the parser that reads one off a RESP2 array of bulk strings, with
the errors it replies with.  An index out of range and an `unreachable!` arm are panics.
-/

namespace Thesaurus
open Bytes

/-- Errors of a handler: why an array is not a command. -/
inductive HandlerError where
  | unexpectedType (expected : String) (got : RespValue)
  | unknownCommand (s : String)
  | wrongArity (expected got : UInt8)
  | notAnInteger (s : String)
  | dbIndexOutOfRange
  | syntaxError

/-- Condition flag of SET. -/
inductive SetCondition where
  /-- Only set if the key does not already exist. -/
  | nx
  /-- Only set if the key already exists. -/
  | xx
  /-- Only set if the current value equals the given string. -/
  | ifEq (s : String)
  /-- Only set if the current value does not equal the given string. -/
  | ifNe (s : String)
  /-- Only set if the digest of the current value equals the given digest. -/
  | ifDeq (u : UInt64)
  /-- Only set if the digest of the current value does not equal the given digest. -/
  | ifDne (u : UInt64)
  deriving DecidableEq

/-- Expiry option of SET. -/
inductive SetExpiry where
  /-- Set TTL in seconds. -/
  | ex (secs : UInt64)
  /-- Set TTL in milliseconds. -/
  | px (millis : UInt64)
  /-- Set expiry as a Unix timestamp in seconds. -/
  | exAt (deadlineSecs : UInt64)
  /-- Set expiry as a Unix timestamp in milliseconds. -/
  | pxAt (deadlineMs : UInt64)
  /-- Retain the existing TTL. -/
  | keepTtl
  deriving DecidableEq

/-- Argument of FLUSHDB. -/
inductive FlushMode where
  | sync
  | async
  deriving DecidableEq

/-- A command of a client. -/
inductive Command where
  | ping (message : Option String)
  | get (key : String)
  | set (key value : String) (condition : Option SetCondition) (expiry : Option SetExpiry)
      (get : Bool)
  | delete (keys : List String)
  | getDel (key : String)
  | exists (keys : List String)
  | mGet (keys : List String)
  | mSet (items : List (String × String))
  | strLen (key : String)
  | lPush (key : String) (elements : List String)
  | rPush (key : String) (elements : List String)
  | lPushX (key : String) (elements : List String)
  | rPushX (key : String) (elements : List String)
  | lPop (key : String) (count : Option UInt64)
  | rPop (key : String) (count : Option UInt64)
  | lSet (key : String) (index : Int64) (element : String)
  | lLen (key : String)
  | lIndex (key : String) (index : Int64)
  | lRange (key : String) (start stop : Int64)
  | sAdd (key : String) (members : List String)
  | sMembers (key : String)
  | sIsMember (key member : String)
  | sMIsMember (key : String) (members : List String)
  | sRandMember (key : String) (count : Option Int64)
  | sCard (key : String)
  | sMove (source destination member : String)
  | sPop (key : String) (count : Option UInt64)
  | sRem (key : String) (members : List String)
  | ttl (key : String)
  | pTtl (key : String)
  | expireTime (key : String)
  | pExpireTime (key : String)
  | persist (key : String)
  | expire (key : String) (seconds : UInt64)
  | pExpire (key : String) (milliseconds : UInt64)
  | expireAt (key : String) (deadlineSecs : UInt64)
  | pExpireAt (key : String) (deadlineMs : UInt64)
  | keys (pattern : String)
  | digest (key : String)
  | select (index : UInt8)
  | dbSize
  | flushDb (mode : Option FlushMode)
  deriving DecidableEq

/-! ### Error texts -/

/-- `char::escape_debug_ext` as `{:?}` of a string calls it.  `unprintable` is the table of the
characters that Unicode has as extending a grapheme or as not printable. -/
def escapeDebug (unprintable : Char → Bool) (c : Char) : String :=
  if c = Char.ofNat 0 then "\\0"
  else if c = '\t' then "\\t"
  else if c = '\r' then "\\r"
  else if c = '\n' then "\\n"
  else if c = '\\' then "\\\\"
  else if c = '"' then "\\\""
  else if unprintable c then
    "\\u\x7b" ++ String.ofList (Nat.toDigits 16 c.toNat) ++ "\x7d"
  else c.toString

/-- `{:?}` of a string. -/
def debugString (unprintable : Char → Bool) (s : String) : String :=
  "\"" ++ String.join (s.toList.map (escapeDebug unprintable)) ++ "\""

mutual

/-- `{:?}` of a `RespValue`. -/
def debugValue (unprintable : Char → Bool) : RespValue → String
  | .simpleString s      => "SimpleString(" ++ debugString unprintable s ++ ")"
  | .simpleError s       => "SimpleError(" ++ debugString unprintable s ++ ")"
  | .integer n           => "Integer(" ++ toString n ++ ")"
  | .bulkString none     => "BulkString(None)"
  | .bulkString (some s) => "BulkString(Some(" ++ debugString unprintable s ++ "))"
  | .array none          => "Array(None)"
  | .array (some items)  =>
      "Array(Some([" ++ String.intercalate ", " (debugItems unprintable items) ++ "]))"

/-- `{:?}` of each item. -/
def debugItems (unprintable : Char → Bool) : List RespValue → List String
  | []            => []
  | item :: items => debugValue unprintable item :: debugItems unprintable items

end

/-- `Display` of `HandlerError`. -/
def HandlerError.display (unprintable : Char → Bool) : HandlerError → String
  | .unexpectedType expected got =>
      "unexpected type: expected '" ++ expected ++ "', got '" ++ debugValue unprintable got ++ "'"
  | .unknownCommand s            => "unknown command: '" ++ s ++ "'"
  | .wrongArity expected got     =>
      "wrong number of arguments: expected " ++ toString expected ++ ", got " ++ toString got
  | .notAnInteger s              => "not an integer: '" ++ s ++ "'"
  | .dbIndexOutOfRange           => "ERR DB index is out of range"
  | .syntaxError                 => "ERR syntax error"

namespace Command

/-! ### Reading arguments -/

/-- `match &args[i] ...`: the bulk string at an index. -/
def bulkAt (args : List RespValue) (i : Nat) : Outcome HandlerError String :=
  match args[i]? with
  | some (.bulkString (some s)) => .ok s
  | _                           => .panic

/-- The loop that reads every argument left. -/
def bulks : List RespValue → Outcome HandlerError (List String)
  | []                             => .ok []
  | .bulkString (some s) :: args   => do return s :: (← bulks args)
  | _ :: _                         => .panic

/-- `check_arity`. -/
def checkArity (args : List RespValue) (expected : Nat) : Outcome HandlerError Unit :=
  if args.length ≠ expected then
    .err (.wrongArity (UInt8.ofNat expected) (UInt8.ofNat args.length))
  else .ok ()

/-- `check_min_arity`. -/
def checkMinArity (args : List RespValue) (minExpected : Nat) : Outcome HandlerError Unit :=
  if args.length < minExpected then
    .err (.wrongArity (UInt8.ofNat minExpected) (UInt8.ofNat args.length))
  else .ok ()

/-- `s.parse::<u64>().map_err(..)`. -/
def toU64 (s : String) : Outcome HandlerError UInt64 :=
  .ofOption (.notAnInteger s) (parseU64 s)

/-- `s.parse::<i64>().map_err(..)`. -/
def toI64 (s : String) : Outcome HandlerError Int64 :=
  .ofOption (.notAnInteger s) ((parseI64 s).map Int64.ofInt)

/-! ### Parsers -/

/-- `parse_ping_command`. -/
def parsePingCommand (args : List RespValue) : Outcome HandlerError Command := do
  if args.length = 1 then return .ping none
  else return .ping (some (← bulkAt args 1))

/-- `parse_key_command`. -/
def parseKeyCommand (args : List RespValue) (makeCmd : String → Command) :
    Outcome HandlerError Command := do
  checkArity args 2
  return makeCmd (← bulkAt args 1)

/-- `parse_keys_command`. -/
def parseKeysCommand (args : List RespValue) (makeCmd : List String → Command) :
    Outcome HandlerError Command := do
  checkMinArity args 2
  return makeCmd (← bulks (args.drop 1))

/-- `parse_key_with_elements_command`. -/
def parseKeyWithElementsCommand (args : List RespValue)
    (makeCmd : String → List String → Command) : Outcome HandlerError Command := do
  checkMinArity args 3
  let key ← bulkAt args 1
  return makeCmd key (← bulks (args.drop 2))

/-- `match args.get(2) ...`: an optional third argument. -/
def optionalCount {α : Type} (parse : String → Outcome HandlerError α) (args : List RespValue) :
    Outcome HandlerError (Option α) :=
  match args[(2 : Nat)]? with
  | some (.bulkString (some s)) => do return some (← parse s)
  | _                           => .ok none

/-- `parse_pop_command`. -/
def parsePopCommand (args : List RespValue) (makeCmd : String → Option UInt64 → Command) :
    Outcome HandlerError Command := do
  checkMinArity args 2
  let key ← bulkAt args 1
  return makeCmd key (← optionalCount toU64 args)

/-- `parse_expire_commands`. -/
def parseExpireCommands (args : List RespValue) (makeCmd : String → UInt64 → Command) :
    Outcome HandlerError Command := do
  checkArity args 3
  let key ← bulkAt args 1
  return makeCmd key (← toU64 (← bulkAt args 2))

/-- `parse_select_command`. -/
def parseSelectCommand (args : List RespValue) : Outcome HandlerError Command := do
  checkArity args 2
  let s ← bulkAt args 1
  match parseUnsigned 10 (2 ^ 8) (utf8 s) with
  | some n => return .select (UInt8.ofNat n)
  | none   => if (parseI64 s).isSome then .err .dbIndexOutOfRange else .err (.notAnInteger s)

/-- `parse_dbsize_command`. -/
def parseDbsizeCommand (args : List RespValue) : Outcome HandlerError Command := do
  checkArity args 1
  return .dbSize

/-- `parse_flushdb_command`. -/
def parseFlushdbCommand (args : List RespValue) : Outcome HandlerError Command :=
  if args.length > 2 then .err (.wrongArity 1 (UInt8.ofNat args.length))
  else
    match args[(1 : Nat)]? with
    | none                        => .ok (.flushDb none)
    | some (.bulkString (some s)) =>
        if s = "SYNC" then .ok (.flushDb (some .sync))
        else if s = "ASYNC" then .ok (.flushDb (some .async))
        else .err .syntaxError
    | some _                      => .panic

/-- What the option loop of SET has read so far. -/
structure SetOptions where
  condition : Option SetCondition
  expiry : Option SetExpiry
  get : Bool
  deriving DecidableEq

/-- `u64::from_str_radix(&next_token, 16).map_err(..)`. -/
def toDigest (s : String) : Outcome HandlerError UInt64 :=
  .ofOption (.notAnInteger s) ((parseUnsigned 16 (2 ^ 64) (utf8 s)).map UInt64.ofNat)

/-- The options of the condition group that take a value. -/
def conditionOf (token next : String) : Outcome HandlerError SetCondition :=
  match token with
  | "IFEQ"  => .ok (.ifEq next)
  | "IFNE"  => .ok (.ifNe next)
  | "IFDEQ" => do return .ifDeq (← toDigest next)
  | _       => do return .ifDne (← toDigest next)

/-- The options of the expiry group that take a value. -/
def expiryOf (token next : String) : Outcome HandlerError SetExpiry := do
  let n ← toU64 next
  match token with
  | "EX"   => return .ex n
  | "PX"   => return .px n
  | "EXAT" => return .exAt n
  | _      => return .pxAt n

/-- The loop of `parse_set_command` over the options. -/
def setOptionsLoop : List RespValue → SetOptions → Outcome HandlerError SetOptions
  | [],                             o => .ok o
  | .bulkString (some token) :: args, o =>
      match token with
      | "NX" =>
          if o.condition.isSome then .err .syntaxError
          else setOptionsLoop args { o with condition := some .nx }
      | "XX" =>
          if o.condition.isSome then .err .syntaxError
          else setOptionsLoop args { o with condition := some .xx }
      | "IFEQ" | "IFNE" | "IFDEQ" | "IFDNE" =>
          if o.condition.isSome then .err .syntaxError
          else
            match args with
            | .bulkString (some next) :: args => do
                let condition ← conditionOf token next
                setOptionsLoop args { o with condition := some condition }
            | _ => .err .syntaxError
      | "GET" => setOptionsLoop args { o with get := true }
      | "EX" | "PX" | "EXAT" | "PXAT" =>
          if o.expiry.isSome then .err .syntaxError
          else
            match args with
            | .bulkString (some next) :: args => do
                let expiry ← expiryOf token next
                setOptionsLoop args { o with expiry := some expiry }
            | _ => .err .syntaxError
      | "KEEPTTL" =>
          if o.expiry.isSome then .err .syntaxError
          else setOptionsLoop args { o with expiry := some .keepTtl }
      | _ => .err .syntaxError
  | _ :: _, _ => .panic

/-- `parse_set_command`. -/
def parseSetCommand (args : List RespValue) : Outcome HandlerError Command := do
  checkMinArity args 3
  let key ← bulkAt args 1
  let value ← bulkAt args 2
  let o ← setOptionsLoop (args.drop 3) ⟨none, none, false⟩
  return .set key value o.condition o.expiry o.get

/-- `args[1..].chunks_exact(2)`, each chunk a key and its value. -/
def pairs : List RespValue → Outcome HandlerError (List (String × String))
  | .bulkString (some k) :: .bulkString (some v) :: args => do return (k, v) :: (← pairs args)
  | _ :: _ :: _                                          => .panic
  | _                                                    => .ok []

/-- `parse_mset_command`.  The arity in the error is computed in `u8`. -/
def parseMsetCommand (args : List RespValue) : Outcome HandlerError Command := do
  checkMinArity args 3
  if args.length % 2 = 0 then
    .err (.wrongArity (UInt8.ofNat args.length + 1) (UInt8.ofNat args.length))
  else return .mSet (← pairs (args.drop 1))

/-- `parse_lset_command`. -/
def parseLsetCommand (args : List RespValue) : Outcome HandlerError Command := do
  checkArity args 4
  let key ← bulkAt args 1
  let index ← toI64 (← bulkAt args 2)
  return .lSet key index (← bulkAt args 3)

/-- `parse_lindex_command`. -/
def parseLindexCommand (args : List RespValue) : Outcome HandlerError Command := do
  checkArity args 3
  let key ← bulkAt args 1
  return .lIndex key (← toI64 (← bulkAt args 2))

/-- `parse_lrange_command`. -/
def parseLrangeCommand (args : List RespValue) : Outcome HandlerError Command := do
  checkArity args 4
  let key ← bulkAt args 1
  let start ← toI64 (← bulkAt args 2)
  return .lRange key start (← toI64 (← bulkAt args 3))

/-- `parse_smove_command`. -/
def parseSmoveCommand (args : List RespValue) : Outcome HandlerError Command := do
  checkArity args 4
  let source ← bulkAt args 1
  let destination ← bulkAt args 2
  return .sMove source destination (← bulkAt args 3)

/-- `parse_sismember_command`. -/
def parseSismemberCommand (args : List RespValue) : Outcome HandlerError Command := do
  checkArity args 3
  let key ← bulkAt args 1
  return .sIsMember key (← bulkAt args 2)

/-- `parse_smismember_command`. -/
def parseSmismemberCommand (args : List RespValue) : Outcome HandlerError Command :=
  parseKeyWithElementsCommand args .sMIsMember

/-- `parse_srandmember_command`. -/
def parseSrandmemberCommand (args : List RespValue) : Outcome HandlerError Command := do
  checkMinArity args 2
  let key ← bulkAt args 1
  return .sRandMember key (← optionalCount toI64 args)

/-- The match of `from_resp2` on the first argument. -/
def parse (firstArg : String) (args : List RespValue) : Outcome HandlerError Command :=
  match firstArg with
  | "PING"        => parsePingCommand args
  | "GET"         => parseKeyCommand args .get
  | "SET"         => parseSetCommand args
  | "DEL"         => parseKeysCommand args .delete
  | "GETDEL"      => parseKeyCommand args .getDel
  | "EXISTS"      => parseKeysCommand args .exists
  | "MGET"        => parseKeysCommand args .mGet
  | "MSET"        => parseMsetCommand args
  | "STRLEN"      => parseKeyCommand args .strLen
  | "LPUSH"       => parseKeyWithElementsCommand args .lPush
  | "RPUSH"       => parseKeyWithElementsCommand args .rPush
  | "LPUSHX"      => parseKeyWithElementsCommand args .lPushX
  | "RPUSHX"      => parseKeyWithElementsCommand args .rPushX
  | "LPOP"        => parsePopCommand args .lPop
  | "RPOP"        => parsePopCommand args .rPop
  | "LSET"        => parseLsetCommand args
  | "LLEN"        => parseKeyCommand args .lLen
  | "LINDEX"      => parseLindexCommand args
  | "LRANGE"      => parseLrangeCommand args
  | "SADD"        => parseKeyWithElementsCommand args .sAdd
  | "SMEMBERS"    => parseKeyCommand args .sMembers
  | "SISMEMBER"   => parseSismemberCommand args
  | "SMISMEMBER"  => parseSmismemberCommand args
  | "SRANDMEMBER" => parseSrandmemberCommand args
  | "SCARD"       => parseKeyCommand args .sCard
  | "SMOVE"       => parseSmoveCommand args
  | "SPOP"        => parsePopCommand args .sPop
  | "SREM"        => parseKeyWithElementsCommand args .sRem
  | "TTL"         => parseKeyCommand args .ttl
  | "PTTL"        => parseKeyCommand args .pTtl
  | "EXPIRETIME"  => parseKeyCommand args .expireTime
  | "PEXPIRETIME" => parseKeyCommand args .pExpireTime
  | "PERSIST"     => parseKeyCommand args .persist
  | "EXPIRE"      => parseExpireCommands args .expire
  | "PEXPIRE"     => parseExpireCommands args .pExpire
  | "EXPIREAT"    => parseExpireCommands args .expireAt
  | "PEXPIREAT"   => parseExpireCommands args .pExpireAt
  | "KEYS"        => parseKeyCommand args .keys
  | "DIGEST"      => parseKeyCommand args .digest
  | "SELECT"      => parseSelectCommand args
  | "DBSIZE"      => parseDbsizeCommand args
  | "FLUSHDB"     => parseFlushdbCommand args
  | _             => .err (.unknownCommand firstArg)

/-- `matches!(arg, RespValue::BulkString(Some(_)))`. -/
def isBulk : RespValue → Bool
  | .bulkString (some _) => true
  | _                    => false

/-- `Command::from_resp2`. -/
def fromResp2 : RespValue → Outcome HandlerError Command
  | .array (some args) =>
      match args.find? fun arg => !isBulk arg with
      | some badArg => .err (.unexpectedType "BulkString" badArg)
      | none        => do parse (← bulkAt args 0) args
  | respValue          => .err (.unexpectedType "Array" respValue)

/-- `Command::is_write`: whether the command is appended to the AOF. -/
def isWrite : Command → Bool
  | .set .. | .delete _ | .getDel _ | .mSet _ | .lPush .. | .rPush .. | .lPushX .. | .rPushX ..
  | .lPop .. | .rPop .. | .sAdd .. | .sMove .. | .sPop .. | .sRem .. | .persist _ | .expire ..
  | .pExpire .. | .expireAt .. | .pExpireAt .. | .flushDb _ => true
  | _ => false

end Command

end Thesaurus
