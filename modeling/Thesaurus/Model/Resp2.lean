import Thesaurus.Support.Bytes
import Thesaurus.Support.Outcome

/-!
# Model — Resp2

`resp2.rs`: the RESP2 values, their encoder and the decoder both readers share, over a byte
string.  `decode` takes the unread bytes and returns the value with what is left of them.

A decoded array calls the decoder for each element, so `decodeFuel` recurses on a bound of the
nesting; every element takes at least one byte, and `decode` starts with more fuel than there
are bytes.
-/

namespace Thesaurus
open Bytes

/-- The five data types of RESP2. -/
inductive RespValue where
  /-- `+OK\r\n` -/
  | simpleString (s : String)
  /-- `-ERR message\r\n` -/
  | simpleError (s : String)
  /-- `:42\r\n` -/
  | integer (n : Int)
  /-- `$6\r\nfoobar\r\n`; `none` is the null bulk string `$-1\r\n`. -/
  | bulkString (s : Option String)
  /-- `*1\r\n:1\r\n`; `none` is the null array `*-1\r\n`. -/
  | array (items : Option (List RespValue))

/-- The errors of the decoder. -/
inductive RespError where
  | unknownPrefix (c : Char)
  | invalidInteger (s : String)
  | invalidUtf8
  | unexpectedEof
  deriving DecidableEq, Repr

/-! ### Encoding -/

/-- `\r\n`. -/
def crlf : Bytes := [13, 10]

/-- `write!(buffer, "{prefix}{payload}\r\n")`. -/
def encodeLine (tag : UInt8) (payload : Bytes) : Bytes := tag :: payload ++ crlf

/-- `encode_bulk_string`: the length of a string is its number of bytes. -/
def encodeBulkString : Option String → Bytes
  | some s => encodeLine 36 (decimal (utf8 s).length) ++ (utf8 s ++ crlf)
  | none   => encodeLine 36 [45, 49]

mutual

/-- `encode`. -/
def encode : RespValue → Bytes
  | .simpleString s     => encodeLine 43 (utf8 s)
  | .simpleError s      => encodeLine 45 (utf8 s)
  | .integer n          => encodeLine 58 (decimalInt n)
  | .bulkString s       => encodeBulkString s
  | .array none         => encodeLine 42 [45, 49]
  | .array (some items) =>
      if items.isEmpty then encodeLine 42 [48]
      else encodeLine 42 (decimal items.length) ++ encodeItems items

/-- The loop of `encode_array` over the items. -/
def encodeItems : List RespValue → Bytes
  | []            => []
  | item :: items => encode item ++ encodeItems items

end

/-- The RESP2 array of bulk strings a command travels as. -/
def bulkArray (args : List String) : RespValue :=
  .array (some (args.map fun s => .bulkString (some s)))

/-- The command `convert_expire_to_pexpireat` and `convert_pexpire_to_pexpireat` write. -/
def pexpireatFrame (key : String) (deadlineMs : Nat) : RespValue :=
  bulkArray ["PEXPIREAT", key, toString deadlineMs]

/-- `convert_expire_to_pexpireat`.  The wall clock is read again; the sum is a `u64`, which
wraps in a release build. -/
def convertExpireToPexpireat (nowMillis : Nat) (key : String) (seconds : UInt64) : Bytes :=
  encode (pexpireatFrame key ((nowMillis + min (seconds.toNat * 1000) (2 ^ 64 - 1)) % 2 ^ 64))

/-- `convert_pexpire_to_pexpireat`. -/
def convertPexpireToPexpireat (nowMillis : Nat) (key : String) (milliseconds : UInt64) : Bytes :=
  encode (pexpireatFrame key ((nowMillis + milliseconds.toNat) % 2 ^ 64))

/-! ### Decoding -/

/-- `s.parse::<i64>()`. -/
def parseI64 (s : String) : Option Int := parseSigned (2 ^ 63) (utf8 s)

/-- `s.parse::<u64>()`. -/
def parseU64 (s : String) : Option UInt64 :=
  (parseUnsigned 10 (2 ^ 64) (utf8 s)).map UInt64.ofNat

/-- Drop every leading `\n\r` of a reversed line. -/
def trimStartLfcr : Bytes → Bytes
  | 10 :: 13 :: bs => trimStartLfcr bs
  | bs             => bs

/-- `trim_end_matches("\r\n")`. -/
def trimEndCrlf (bs : Bytes) : Bytes := (trimStartLfcr bs.reverse).reverse

/-- Whether a string may be cut right before these bytes: they do not start inside a
character. -/
def isCharBoundary : Bytes → Bool
  | []     => true
  | b :: _ => b &&& 0xC0 != 0x80

/-- `parse_header`: the prefix byte and the rest of the line.  Slicing `line[1..]` panics off a
character boundary. -/
def parseHeader : Bytes → Outcome RespError (UInt8 × String)
  | []                => .err .unexpectedEof
  | firstByte :: rest =>
      if isCharBoundary rest then
        match fromUtf8 (trimEndCrlf rest) with
        | some s => .ok (firstByte, s)
        | none   => .panic
      else .panic

/-- `parse_length`. -/
def parseLength (length : String) : Outcome RespError Int :=
  match parseI64 length with
  | none   => .err (.invalidInteger length)
  | some n => if n < -1 then .err (.invalidInteger (toString n)) else .ok n

/-- `bulk_string_from_bytes`. -/
def bulkStringFromBytes (lengthValue : Nat) (bytes : Bytes) : Outcome RespError RespValue :=
  match fromUtf8 (bytes.take lengthValue) with
  | some value => .ok (.bulkString (some value))
  | none       => .err .invalidUtf8

/-- `parse_bulk_string`.  `vec![0u8; n]` panics when `n` exceeds `isize::MAX`. -/
def parseBulkString (length : String) (reader : Bytes) : Outcome RespError (RespValue × Bytes) := do
  let lengthValue ← parseLength length
  if lengthValue = -1 then return (.bulkString none, reader)
  let size := lengthValue.toNat + 2
  if size > 2 ^ 63 - 1 then .panic
  else if reader.length < size then .err .unexpectedEof
  else
    let value ← bulkStringFromBytes lengthValue.toNat (reader.take size)
    return (value, reader.drop size)

/-- The loop of `parse_array`: `n` elements, one call of the decoder each. -/
def parseElements (dec : Bytes → Outcome RespError (RespValue × Bytes)) :
    Nat → Bytes → Outcome RespError (List RespValue × Bytes)
  | 0,     reader => .ok ([], reader)
  | n + 1, reader => do
      let (value, reader) ← dec reader
      let (values, reader) ← parseElements dec n reader
      return (value :: values, reader)

/-- `parse_array`, with the decoder it calls for each element. -/
def parseArray (dec : Bytes → Outcome RespError (RespValue × Bytes)) (length : String)
    (reader : Bytes) : Outcome RespError (RespValue × Bytes) := do
  let lengthValue ← parseLength length
  if lengthValue = -1 then return (.array none, reader)
  if lengthValue = 0 then return (.array (some []), reader)
  let (values, reader) ← parseElements dec lengthValue.toNat reader
  return (.array (some values), reader)

/-- `decode`, with a bound on the nesting of arrays. -/
def decodeFuel : Nat → Bytes → Outcome RespError (RespValue × Bytes)
  | 0,        _      => .panic
  | fuel + 1, reader => do
      let (line, reader) := readLine reader
      -- `read_line` fails on a line that is not UTF-8, and reports the end of input by `Ok(0)`.
      if line = [] ∨ fromUtf8 line = none then .err .unexpectedEof
      else
        let (firstByte, rest) ← parseHeader line
        if firstByte = 43 then .ok (.simpleString rest, reader)
        else if firstByte = 45 then .ok (.simpleError rest, reader)
        else if firstByte = 58 then
          match parseI64 rest with
          | some n => .ok (.integer n, reader)
          | none   => .err (.invalidInteger rest)
        else if firstByte = 36 then parseBulkString rest reader
        else if firstByte = 42 then parseArray (decodeFuel fuel) rest reader
        else .err (.unknownPrefix (Char.ofNat firstByte.toNat))

/-- `decode` / `decode_async`. -/
def decode (reader : Bytes) : Outcome RespError (RespValue × Bytes) :=
  decodeFuel (reader.length + 1) reader

/-- `matches!(response, RespValue::SimpleError(_))`. -/
def RespValue.isSimpleError : RespValue → Bool
  | .simpleError _ => true
  | _              => false

/-- `matches!(response, RespValue::Integer(0))`. -/
def RespValue.isIntegerZero : RespValue → Bool
  | .integer n => n == 0
  | _          => false

end Thesaurus
