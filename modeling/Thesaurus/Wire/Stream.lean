import Thesaurus.Wire.RoundTrip

/-!
# Wire — streams

A reader calls `decode` once for each value.  On the encodings of a list of values, one after the
other, it gets the values back and stops right behind them.

* `fits_of_encode_le`: a value of 64-bit integers whose encoding is a `Vec<u8>` fits the machine.
* `decode_stream`: the round trip of a list of values.
-/

namespace Thesaurus
open Bytes Outcome

mutual

/-- The integers of the value are `i64`s. -/
def I64s : RespValue → Prop
  | .integer n          => -2 ^ 63 ≤ n ∧ n < 2 ^ 63
  | .array (some items) => AllI64s items
  | _                   => True

/-- The integers of every item are `i64`s. -/
def AllI64s : List RespValue → Prop
  | []            => True
  | item :: items => I64s item ∧ AllI64s items

end

/-- A value that the program can hold and encode: its integers are `i64`s, and its encoding is a
`Vec<u8>`, which is never longer than `isize::MAX`. -/
def Encodable (v : RespValue) : Prop := I64s v ∧ (encode v).length ≤ 2 ^ 63 - 1

/-- One call of `decode` for each of `n` values. -/
def decodeMany (n : Nat) (reader : Bytes) : Outcome RespError (List RespValue × Bytes) :=
  parseElements decode n reader

theorem length_encodeItems_cons (v : RespValue) (vs : List RespValue) :
    (encodeItems (v :: vs)).length = (encode v).length + (encodeItems vs).length := by
  rw [encodeItems, List.length_append]

theorem length_le_encodeItems (vs : List RespValue) : vs.length ≤ (encodeItems vs).length := by
  induction vs with
  | nil => simp
  | cons v vs ih =>
      have := encode_ne_nil v
      rw [length_encodeItems_cons, List.length_cons]
      omega

mutual

theorem fits_of_encode_le : ∀ v : RespValue, I64s v → (encode v).length ≤ 2 ^ 63 - 1 → Fits v
  | .simpleString _, _, _ | .simpleError _, _, _ | .bulkString none, _, _ | .array none, _, _ =>
      trivial
  | .integer n, hn, _ => hn
  | .bulkString (some s), _, hl => by
      simp only [encode, encodeBulkString, encodeLine, crlf, List.length_append, List.length_cons,
        List.length_nil] at hl
      show (utf8 s).length + 2 ≤ 2 ^ 63 - 1
      omega
  | .array (some []), _, _ => ⟨by decide, trivial⟩
  | .array (some (item :: items)), hv, hl => by
      rw [encode, if_neg (by simp), List.length_append] at hl
      have hlen := length_le_encodeItems (item :: items)
      exact ⟨by omega, allFit_of_encode_le (item :: items) hv (by omega)⟩

theorem allFit_of_encode_le : ∀ vs : List RespValue, AllI64s vs →
    (encodeItems vs).length ≤ 2 ^ 63 - 1 → AllFit vs
  | [], _, _ => trivial
  | v :: vs, ⟨hv, hvs⟩, hl => by
      rw [length_encodeItems_cons] at hl
      exact ⟨fits_of_encode_le v hv (by omega), allFit_of_encode_le vs hvs (by omega)⟩

end

theorem Encodable.fits {v : RespValue} (h : Encodable v) : Fits v :=
  fits_of_encode_le v h.1 h.2

theorem decodeMany_encodeItems {vs : List RespValue} (hf : ∀ v ∈ vs, Fits v)
    (hs : ∀ v ∈ vs, LineSafe v) (rest : Bytes) :
    decodeMany vs.length (encodeItems vs ++ rest) = .ok (vs, rest) := by
  induction vs with
  | nil => rfl
  | cons v vs ih =>
      have ih := ih (fun v hv => hf v (List.mem_cons_of_mem _ hv))
        fun v hv => hs v (List.mem_cons_of_mem _ hv)
      rw [decodeMany] at ih ⊢
      rw [encodeItems, List.append_assoc, List.length_cons, parseElements,
        decode_encode (hf v List.mem_cons_self) (hs v List.mem_cons_self)]
      simp only [ok_bind, ih]
      rfl

/-- **Streams.**  On the encodings of values whose simple strings and errors hold no line feed,
one call of `decode` for each value returns the values in order, and leaves exactly what follows
the encodings. -/
theorem decode_stream (vs : List RespValue) (rest : Bytes) (hv : ∀ v ∈ vs, Encodable v)
    (hs : ∀ v ∈ vs, LineSafe v) :
    decodeMany vs.length (encodeItems vs ++ rest) = .ok (vs, rest) :=
  decodeMany_encodeItems (fun v h => (hv v h).fits) hs rest

/-- An error, a bulk string with a line break, and a nested array, with bytes after them. -/
theorem decode_stream_three :
    decodeMany 3 (encodeItems [.simpleError "ERR\r", .bulkString (some "a\r\nb"),
        .array (some [.integer (-7), .array none, .bulkString none])] ++ [36]) =
      .ok ([.simpleError "ERR\r", .bulkString (some "a\r\nb"),
        .array (some [.integer (-7), .array none, .bulkString none])], [36]) := by
  refine decode_stream [.simpleError "ERR\r", .bulkString (some "a\r\nb"),
    .array (some [.integer (-7), .array none, .bulkString none])] [36] ?_ ?_
  · intro v hv
    simp only [List.mem_cons, List.not_mem_nil, or_false] at hv
    rcases hv with rfl | rfl | rfl
    · exact ⟨trivial, by decide⟩
    · exact ⟨trivial, by decide⟩
    · exact ⟨⟨⟨by decide, by decide⟩, trivial, trivial, trivial⟩, by decide⟩
  · intro v hv
    simp only [List.mem_cons, List.not_mem_nil, or_false] at hv
    rcases hv with rfl | rfl | rfl
    · exact show (10 : UInt8) ∉ utf8 "ERR\r" by decide
    · trivial
    · exact ⟨trivial, trivial, trivial, trivial⟩

end Thesaurus
