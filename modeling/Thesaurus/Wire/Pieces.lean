import Thesaurus.Model.Connection
import Thesaurus.Wire.Delimited
import Thesaurus.Wire.Framing

/-!
# Wire — a stream in pieces

What a client sends reaches the handler in pieces that have nothing to do with its frames.

* `conversation_in_pieces`: the handler does with the pieces what a loop of `decode` over the whole
  stream does.
* `replies_at_once`: while the stream goes on, the handler has executed and answered every frame
  that is complete, and no other.
-/

namespace Thesaurus
open Bytes Outcome Arrival

/-! ### Complete streams -/

/-- `frames`, with a bound on their number. -/
def framesFuel : Nat → Bytes → List RespValue × Ending
  | 0,        _     => ([], .panicked)
  | fuel + 1, bytes =>
      match decode bytes with
      | .ok (frame, rest) => (frame :: (framesFuel fuel rest).1, (framesFuel fuel rest).2)
      | .err e            => ([], .of e)
      | .panic            => ([], .panicked)

/-- The values that a loop of `decode` reads off a stream, and what ends the loop.  Each value
takes a byte, so the bound is not reached. -/
def frames (bytes : Bytes) : List RespValue × Ending := framesFuel (bytes.length + 1) bytes

/-- The frames with what the execution of each reads. -/
def timed : (Nat → Env) → List RespValue → List (Env × RespValue)
  | _,    []          => []
  | envs, frame :: fs => (envs 0, frame) :: timed (fun i => envs (i + 1)) fs

/-- The frames of a client that have arrived completely with the first bytes `p` of its stream. -/
def whole : List RespValue → Bytes → List RespValue
  | [],      _ => []
  | v :: vs, p => if encode v <+: p then v :: whole vs (p.drop (encode v).length) else []

theorem timed_cons (envs : Nat → Env) (n : Nat) (frame : RespValue) (fs : List RespValue) :
    timed (fun i => envs (n + i)) (frame :: fs) =
      (envs n, frame) :: timed (fun i => envs (n + 1 + i)) fs := by
  simp only [timed, Nat.add_zero, Nat.add_assoc, Nat.add_comm 1]

theorem responses_cons {ex : Executor} {unprintable : Char → Bool} {s : StoreInner} {env : Env}
    {frame response : RespValue} (h : (handle ex unprintable env frame s).response = some response)
    (steps : List (Env × RespValue)) :
    responses ex unprintable s ((env, frame) :: steps) =
      response :: responses ex unprintable (handle ex unprintable env frame s).store steps := by
  rw [responses, exchange, h]
  rfl

namespace Connection

variable (ex : Executor) (unprintable : Char → Bool) (envs : Nat → Env)

/-- The connection `x` is what the execution of the frames makes of `w`: the store and the AOF of
their session, and their replies behind what `w` has sent. -/
structure Answered (w x : Connection) (steps : List (Env × RespValue)) : Prop where
  store : x.store = (Session.run ex unprintable ⟨w.store, w.aof, true⟩ steps).store
  aof : x.aof = (Session.run ex unprintable ⟨w.store, w.aof, true⟩ steps).aof
  sent : x.sent = w.sent ++ encodeItems (responses ex unprintable w.store steps)

variable {ex unprintable envs} {w x : Connection} {steps : List (Env × RespValue)}

/-- A turn of the loop is a step of the session. -/
theorem step_serve (w : Connection) (frame : RespValue) :
    Session.step ex unprintable ⟨w.store, w.aof, true⟩ (envs w.served) frame =
      ⟨(w.serve ex unprintable envs frame).store, (w.serve ex unprintable envs frame).aof,
        (handle ex unprintable (envs w.served) frame w.store).response.isSome⟩ := rfl

/-- After a reply the handler is at the next frame. -/
theorem task_serve {frame response : RespValue}
    (h : (handle ex unprintable (envs w.served) frame w.store).response = some response) :
    (w.serve ex unprintable envs frame).task = .decoding (.line []) := by
  simp only [serve, h, Option.isSome_some, if_true]

theorem task_serve_panicked {frame : RespValue}
    (h : (handle ex unprintable (envs w.served) frame w.store).response = none) :
    (w.serve ex unprintable envs frame).task = .ended .panicked := by
  simp only [serve, h, Option.isSome_none, Bool.false_eq_true, if_false]

/-- After a panic it reads no more. -/
theorem want_serve_panicked {frame : RespValue}
    (h : (handle ex unprintable (envs w.served) frame w.store).response = none) :
    (runHandler ex unprintable envs).want (w.serve ex unprintable envs frame) = .nothing := by
  show Connection.want _ = .nothing
  rw [want, task_serve_panicked h]

theorem Answered.nil (w : Connection) (t : Task) :
    Answered ex unprintable w { w with task := t } [] where
  store := rfl
  aof := rfl
  sent := (List.append_nil _).symm

/-- A frame that is answered, and then the others. -/
theorem Answered.cons {frame : RespValue}
    (halive : (handle ex unprintable (envs w.served) frame w.store).response.isSome)
    (h : Answered ex unprintable (w.serve ex unprintable envs frame) x steps) :
    Answered ex unprintable w x ((envs w.served, frame) :: steps) := by
  obtain ⟨hs, ha, hsent⟩ := h
  obtain ⟨response, hr⟩ := Option.isSome_iff_exists.mp halive
  refine ⟨?_, ?_, ?_⟩
  · rw [Session.run, step_serve, halive]
    exact hs
  · rw [Session.run, step_serve, halive]
    exact ha
  · rw [hsent, responses_cons hr, encodeItems]
    simp only [serve, hr, Option.map_some, Option.getD_some, List.append_assoc]

/-- A frame on which the handler panics; there are no others. -/
theorem Answered.panicked {frame : RespValue}
    (hdead : (handle ex unprintable (envs w.served) frame w.store).response = none) :
    Answered ex unprintable w (w.serve ex unprintable envs frame)
      ((envs w.served, frame) :: steps) := by
  refine ⟨?_, ?_, ?_⟩
  · rw [Session.run, step_serve, hdead, Session.run_of_not_alive rfl]
  · rw [Session.run, step_serve, hdead, Session.run_of_not_alive rfl]
  · rw [responses, exchange, hdead]
    simp [serve, hdead, encodeItems]

/-! ### The decoder, suspended and resumed -/

section Finish

/-- What the handler ends as when the call of the decoder has come to `r` on the whole stream. -/
def decoded (ex : Executor) (unprintable : Char → Bool) (envs : Nat → Env) (w : Connection)
    (loops : List ArrayLoop) : Outcome RespError (RespValue × Bytes) → Connection
  | .ok (v, rest) =>
      (runHandler ex unprintable envs).finish
        (w.polled ex unprintable envs (deliver v loops)) rest
  | .err e => { w with task := .ended (.of e) }
  | .panic => { w with task := .ended .panicked }

theorem last_line (w : Connection) (loops : List ArrayLoop) (bs : Bytes) :
    (runHandler ex unprintable envs).finish { w with task := .decoding (.line loops) } bs =
      (runHandler ex unprintable envs).finish
        (w.resumed ex unprintable envs (resumeLine loops (readLine bs).1)) (readLine bs).2 :=
  (runHandler ex unprintable envs).finish_of_last
    (s := { w with task := .decoding (.line loops) }) rfl

theorem last_body (w : Connection) (n : Nat) (loops : List ArrayLoop) (bs : Bytes) :
    (runHandler ex unprintable envs).finish { w with task := .decoding (.body n loops) } bs =
      (runHandler ex unprintable envs).finish
        (w.resumed ex unprintable envs (resumeBody n loops (bs.take (n + 2)))) (bs.drop (n + 2)) :=
  (runHandler ex unprintable envs).finish_of_last
    (s := { w with task := .decoding (.body n loops) }) rfl

theorem finish_err (w : Connection) (e : RespError) (rest : Bytes) :
    (runHandler ex unprintable envs).finish (w.resumed ex unprintable envs (.err e)) rest =
      { w with task := .ended (.of e) } :=
  (runHandler ex unprintable envs).finish_of_ended rfl rest

theorem finish_panic (w : Connection) (rest : Bytes) :
    (runHandler ex unprintable envs).finish (w.resumed ex unprintable envs .panic) rest =
      { w with task := .ended .panicked } :=
  (runHandler ex unprintable envs).finish_of_ended rfl rest

theorem resumeLine_of_noHeader (loops : List ArrayLoop) {bs : Bytes} (h : NoHeader bs) :
    resumeLine loops (readLine bs).1 = .err .unexpectedEof := if_pos h

theorem resumeLine_of_wideHeader (loops : List ArrayLoop) {bs : Bytes} (h : WideHeader bs) :
    resumeLine loops (readLine bs).1 = .panic := by
  have hno := h.not_noHeader
  rw [NoHeader] at hno
  rw [resumeLine, if_neg hno, h.parseHeader_eq]
  rfl

/-- The decoder goes on with the prefix byte and the text. -/
theorem resumeLine_of_header (loops : List ArrayLoop) {bs reader : Bytes} {tag : UInt8}
    {text : String} (h : Header bs tag text reader) :
    resumeLine loops (readLine bs).1 =
      (if tag = 43 then .ok (deliver (.simpleString text) loops)
       else if tag = 45 then .ok (deliver (.simpleError text) loops)
       else if tag = 58 then
         match parseI64 text with
         | some n => .ok (deliver (.integer n) loops)
         | none   => .err (.invalidInteger text)
       else if tag = 36 then beginBulkString text loops
       else if tag = 42 then beginArray text loops
       else .err (.unknownPrefix (Char.ofNat tag.toNat))) := by
  have hno := h.not_noHeader
  obtain ⟨line, hr, -, hp⟩ := h
  rw [NoHeader, hr] at hno
  rw [hr, resumeLine, if_neg hno, hp]
  rfl

theorem beginBulkString_nat {text : String} {n : Nat} (hl : parseLength text = .ok n)
    (loops : List ArrayLoop) :
    beginBulkString text loops =
      if 2 ^ 63 - 1 < n + 2 then .panic else .ok (.pending (.body n loops)) := by
  have hne : ¬(n : Int) = -1 := by omega
  rw [beginBulkString, hl]
  simp only [ok_bind, hne, if_false, Int.toNat_natCast, gt_iff_lt, pure_eq]

theorem beginArray_zero {text : String} (hl : parseLength text = .ok (0 : Nat))
    (loops : List ArrayLoop) :
    beginArray text loops = .ok (deliver (.array (some [])) loops) := by
  rw [beginArray, hl]
  rfl

theorem beginArray_succ {text : String} {n : Nat} (hl : parseLength text = .ok (n + 1 : Nat))
    (loops : List ArrayLoop) :
    beginArray text loops = .ok (.pending (.line (⟨[], n⟩ :: loops))) := by
  have hne : ¬((n + 1 : Nat) : Int) = -1 := by omega
  have hne' : ¬((n + 1 : Nat) : Int) = 0 := by omega
  rw [beginArray, hl]
  simp only [ok_bind, hne, hne', if_false, Int.toNat_natCast, pure_eq, Nat.add_sub_cancel]

/-- The rest of a bulk string. -/
theorem finish_body (w : Connection) (n : Nat) (loops : List ArrayLoop) {text : String}
    (hl : parseLength text = .ok n) (reader : Bytes) :
    (runHandler ex unprintable envs).finish
        (w.resumed ex unprintable envs (beginBulkString text loops)) reader =
      decoded ex unprintable envs w loops (parseBulkString text reader) := by
  rw [beginBulkString_nat hl, parseBulkString_nat hl]
  split
  · exact finish_panic w reader
  · show (runHandler ex unprintable envs).finish { w with task := .decoding (.body n loops) } reader
      = _
    have htake : (reader.take (n + 2)).take n = reader.take n := by
      rw [List.take_take, Nat.min_eq_left (by omega)]
    rw [last_body, resumeBody, List.length_take, bulkStringFromBytes, htake]
    by_cases hlen : reader.length < n + 2
    · rw [if_pos (by omega), if_pos hlen]
      exact finish_err w .unexpectedEof _
    · rw [if_neg (by omega), if_neg hlen]
      cases fromUtf8 (reader.take n) with
      | none => exact finish_err w .invalidUtf8 _
      | some s => rfl

/-- The elements of an array, of which `pushed` have been read. -/
theorem finish_elements {fuel : Nat}
    (ih : ∀ (w : Connection) (loops : List ArrayLoop) (bs : Bytes), bs.length < fuel →
      (runHandler ex unprintable envs).finish { w with task := .decoding (.line loops) } bs =
        decoded ex unprintable envs w loops (decodeFuel fuel bs))
    (w : Connection) (loops : List ArrayLoop) (n : Nat) (pushed : List RespValue) {bs : Bytes}
    (hf : bs.length < fuel) :
    (runHandler ex unprintable envs).finish
        { w with task := .decoding (.line (⟨pushed, n⟩ :: loops)) } bs =
      decoded ex unprintable envs w loops (parseElements (decodeFuel fuel) (n + 1) bs >>=
        fun p => .ok (.array (some (pushed ++ p.1)), p.2)) := by
  induction n generalizing pushed bs with
  | zero =>
      rw [ih w _ bs hf, parseElements]
      cases hd : decodeFuel fuel bs with
      | ok p => rfl
      | err e => rfl
      | panic => rfl
  | succ n ihn =>
      rw [ih w _ bs hf, parseElements]
      cases hd : decodeFuel fuel bs with
      | err e => rfl
      | panic => rfl
      | ok p =>
          obtain ⟨v, rest⟩ := p
          have hlt := (reads_of_decodeFuel hd).length_lt
          have hrest := ihn (pushed ++ [v]) (show rest.length < fuel by omega)
          simp only [decoded, deliver, polled, ok_bind]
          rw [hrest]
          cases parseElements (decodeFuel fuel) (n + 1) rest with
          | ok q =>
              simp only [ok_bind, pure_eq, List.append_assoc, List.singleton_append]
              rfl
          | err e => rfl
          | panic => rfl

variable (ex unprintable envs) in
/-- **The suspended decoder is the decoder.**  On the whole stream, a call of `decode_async` that
is suspended inside loops goes on as `decode` reads the value, which then goes to the loops. -/
theorem finish_decode (fuel : Nat) (w : Connection) (loops : List ArrayLoop) (bs : Bytes)
    (hf : bs.length < fuel) :
    (runHandler ex unprintable envs).finish { w with task := .decoding (.line loops) } bs =
      decoded ex unprintable envs w loops (decodeFuel fuel bs) := by
  induction fuel generalizing w loops bs with
  | zero => exact absurd hf (Nat.not_lt_zero _)
  | succ fuel ih =>
      rw [last_line]
      rcases header_cases bs with hno | hwide | ⟨tag, text, reader, hh⟩
      · rw [resumeLine_of_noHeader loops hno, decodeFuel_noHeader fuel hno]
        exact finish_err w _ _
      · rw [resumeLine_of_wideHeader loops hwide, decodeFuel_wideHeader fuel hwide]
        exact finish_panic w _
      · have hlt := hh.length_lt
        have hr : (readLine bs).2 = reader := by
          obtain ⟨line, hr, -, -⟩ := hh
          rw [hr]
        rw [resumeLine_of_header loops hh, decodeFuel_header fuel hh, hr]
        by_cases h₄₃ : tag = 43
        · rw [if_pos h₄₃, if_pos h₄₃]
          rfl
        rw [if_neg h₄₃, if_neg h₄₃]
        by_cases h₄₅ : tag = 45
        · rw [if_pos h₄₅, if_pos h₄₅]
          rfl
        rw [if_neg h₄₅, if_neg h₄₅]
        by_cases h₅₈ : tag = 58
        · rw [if_pos h₅₈, if_pos h₅₈]
          cases parseI64 text with
          | some n => rfl
          | none => exact finish_err w _ _
        rw [if_neg h₅₈, if_neg h₅₈]
        by_cases h₃₆ : tag = 36
        · rw [if_pos h₃₆, if_pos h₃₆]
          rcases parseLength_cases text with ⟨e, hl⟩ | hl | ⟨n, hl⟩
          · rw [beginBulkString, hl, parseBulkString_err hl]
            exact finish_err w _ _
          · rw [beginBulkString, hl, parseBulkString_null hl]
            rfl
          · exact finish_body w n loops hl reader
        rw [if_neg h₃₆, if_neg h₃₆]
        by_cases h₄₂ : tag = 42
        · rw [if_pos h₄₂, if_pos h₄₂]
          rcases parseLength_cases text with ⟨e, hl⟩ | hl | ⟨n, hl⟩
          · rw [beginArray, hl, parseArray_err hl]
            exact finish_err w _ _
          · rw [beginArray, hl, parseArray_null hl]
            rfl
          · rw [parseArray_nat hl]
            cases n with
            | zero => rw [beginArray_zero hl]; rfl
            | succ n =>
                rw [beginArray_succ hl]
                exact finish_elements ih w loops n [] (by omega)
        · rw [if_neg h₄₂, if_neg h₄₂]
          exact finish_err w _ _

end Finish

variable (ex unprintable envs) in
/-- A loop of `decode` over the whole stream. -/
theorem finish_frames {fuel : Nat} {w : Connection} (hw : w.task = .decoding (.line []))
    {bs : Bytes} (hf : bs.length < fuel) :
    Answered ex unprintable w ((runHandler ex unprintable envs).finish w bs)
        (timed (fun i => envs (w.served + i)) (framesFuel fuel bs).1) ∧
      ((runHandler ex unprintable envs).finish w bs).task =
        .ended (if (Session.run ex unprintable ⟨w.store, w.aof, true⟩
          (timed (fun i => envs (w.served + i)) (framesFuel fuel bs).1)).alive
          then (framesFuel fuel bs).2 else .panicked) := by
  induction fuel generalizing w bs with
  | zero => exact absurd hf (Nat.not_lt_zero _)
  | succ fuel ih =>
      have hfin : (runHandler ex unprintable envs).finish w bs =
          decoded ex unprintable envs w [] (decode bs) := by
        have h := finish_decode ex unprintable envs (bs.length + 1) w [] bs
          (Nat.lt_succ_self _)
        rwa [← hw] at h
      rw [hfin, framesFuel]
      cases hd : decode bs with
      | err e => exact ⟨.nil w _, rfl⟩
      | panic => exact ⟨.nil w _, rfl⟩
      | ok p =>
          obtain ⟨frame, rest⟩ := p
          have hlt := (decode_eq_ok_iff.mp hd).length_lt
          have hserve : decoded ex unprintable envs w [] (.ok (frame, rest)) =
              (runHandler ex unprintable envs).finish (w.serve ex unprintable envs frame) rest :=
            rfl
          dsimp only
          rw [timed_cons, Session.run, step_serve, hserve]
          cases hr : (handle ex unprintable (envs w.served) frame w.store).response with
          | none =>
              rw [(runHandler ex unprintable envs).finish_of_ended (want_serve_panicked hr)]
              refine ⟨.panicked hr, ?_⟩
              rw [Session.run_of_not_alive rfl]
              exact task_serve_panicked hr
          | some response =>
              obtain ⟨h₁, h₂⟩ := ih (task_serve hr) (show rest.length < fuel by omega)
              exact ⟨.cons (by rw [hr]; rfl) h₁, h₂⟩

/-! ### Streams that go on -/

/-- The handler has executed nothing since `w`. -/
def Waiting (w x : Connection) : Prop := ∃ d, x = { w with task := .decoding d }

theorem Waiting.answered (h : Waiting w x) : Answered ex unprintable w x [] := by
  obtain ⟨d, rfl⟩ := h
  exact .nil w _

section Walk

variable (ex unprintable envs)

/-- The line of a value, which starts with its type. -/
theorem walk_line (w : Connection) (loops : List ArrayLoop) {s : String} (tag : String) (b : UInt8)
    (ht : utf8 tag = [b]) (hb : b ≠ 10) (hs : (10 : UInt8) ∉ utf8 s) :
    (runHandler ex unprintable envs).Walk (Waiting w) { w with task := .decoding (.line loops) }
      (encodeLine b (utf8 s))
      (w.resumed ex unprintable envs
        (if b = 43 then .ok (deliver (.simpleString s) loops)
         else if b = 45 then .ok (deliver (.simpleError s) loops)
         else if b = 58 then
           match parseI64 s with
           | some n => .ok (deliver (.integer n) loops)
           | none   => .err (.invalidInteger s)
         else if b = 36 then beginBulkString s loops
         else if b = 42 then beginArray s loops
         else .err (.unknownPrefix (Char.ofNat b.toNat)))) := by
  have hh := header_encodeLine b tag ht hb hs []
  have hline : (readLine (encodeLine b (utf8 s) ++ [])).1 = encodeLine b (utf8 s) := by
    rw [readLine_encodeLine hb hs]
  have hmet : Want.line.Met (encodeLine b (utf8 s)) :=
    ⟨b :: utf8 s ++ [13], by simp [Ne.symm hb, hs], by simp [encodeLine, crlf]⟩
  have h : (runHandler ex unprintable envs).Walk (Waiting w)
      { w with task := .decoding (.line loops) } (encodeLine b (utf8 s)) _ := .one ⟨_, rfl⟩ hmet
  have hres := resumeLine_of_header loops hh
  rw [hline] at hres
  rw [← hres]
  exact h

mutual

/-- **The way through a value.**  From its first byte to its last the handler waits, and with the
last one the value is delivered. -/
theorem walk_encode (w : Connection) : ∀ (v : RespValue), Fits v → LineSafe v →
    ∀ loops : List ArrayLoop,
    (runHandler ex unprintable envs).Walk (Waiting w) { w with task := .decoding (.line loops) }
      (encode v) (w.polled ex unprintable envs (deliver v loops))
  | .simpleString s, _, hs, loops => by
      rw [encode]
      exact walk_line ex unprintable envs w loops "+" 43 rfl (by decide) hs
  | .simpleError s, _, hs, loops => by
      rw [encode]
      exact walk_line ex unprintable envs w loops "-" 45 rfl (by decide) hs
  | .integer n, hn, _, loops => by
      have hp : parseI64 (toString n) = some n :=
        parseSigned_decimalInt (by simpa using hn.1) (by simpa using hn.2)
      have h := walk_line ex unprintable envs w loops ":" 58 rfl
        (by decide) (not_mem_decimalInt n)
      rw [hp] at h
      rw [encode]
      exact h
  | .bulkString none, _, _, loops => by
      have h := walk_line ex unprintable envs w loops "$" 36 rfl
        (by decide) (show (10 : UInt8) ∉ utf8 "-1" by decide)
      have hb : beginBulkString "-1" loops = .ok (deliver (.bulkString none) loops) := by
        rw [beginBulkString, parseLength_neg_one]
        rfl
      simp only [hb] at h
      rw [encode, encodeBulkString]
      exact h
  | .bulkString (some s), hs, _, loops => by
      have hfit : (utf8 s).length + 2 ≤ 2 ^ 63 - 1 := hs
      have h := walk_line ex unprintable envs w loops "$" 36 rfl
        (by decide) (not_mem_decimal (utf8 s).length)
      have hb : beginBulkString (toString (utf8 s).length) loops =
          .ok (.pending (.body (utf8 s).length loops)) := by
        rw [beginBulkString_nat (parseLength_toString (by omega)), if_neg (by omega)]
      simp only [hb] at h
      -- the string and its line break are a second read
      have hmet : (Want.exact ((utf8 s).length + 2)).Met (utf8 s ++ crlf) := by
        show (utf8 s ++ crlf).length = _
        simp [crlf]
      have hbody : resumeBody (utf8 s).length loops (utf8 s ++ crlf) =
          .ok (deliver (.bulkString (some s)) loops) := by
        rw [resumeBody, if_neg (by simp [crlf]), bulkStringFromBytes, List.take_left, fromUtf8_utf8]
        rfl
      have h' : (runHandler ex unprintable envs).Walk (Waiting w)
          { w with task := .decoding (.body (utf8 s).length loops) } (utf8 s ++ crlf)
          (w.resumed ex unprintable envs (resumeBody (utf8 s).length loops (utf8 s ++ crlf))) :=
        .one ⟨_, rfl⟩ hmet
      rw [hbody] at h'
      rw [encode, encodeBulkString]
      exact h.trans h'
  | .array none, _, _, loops => by
      have h := walk_line ex unprintable envs w loops "*" 42 rfl
        (by decide) (show (10 : UInt8) ∉ utf8 "-1" by decide)
      have hb : beginArray "-1" loops = .ok (deliver (.array none) loops) := by
        rw [beginArray, parseLength_neg_one]
        rfl
      simp only [hb] at h
      rw [encode]
      exact h
  | .array (some []), _, _, loops => by
      have h := walk_line ex unprintable envs w loops "*" 42 rfl
        (by decide) (not_mem_decimal 0)
      have hb : beginArray (toString 0) loops = .ok (deliver (.array (some [])) loops) :=
        beginArray_zero (parseLength_toString (by decide)) loops
      simp only [hb] at h
      rw [encode, List.isEmpty_nil, if_pos rfl]
      exact h
  | .array (some (item :: items)), ⟨hl, hv, hvs⟩, ⟨hs, hss⟩, loops => by
      have h := walk_line ex unprintable envs w loops "*" 42 rfl
        (by decide) (not_mem_decimal (items.length + 1))
      have hb : beginArray (toString (items.length + 1)) loops =
          .ok (.pending (.line (⟨[], items.length⟩ :: loops))) :=
        beginArray_succ (parseLength_toString hl) loops
      simp only [hb] at h
      rw [encode, if_neg (by simp), List.length_cons]
      exact h.trans (walk_items w loops (item :: items) ⟨hv, hvs⟩ ⟨hs, hss⟩ (by simp) [])

/-- The way through the elements of an array. -/
theorem walk_items (w : Connection) (loops : List ArrayLoop) : ∀ (items : List RespValue),
    AllFit items → AllLineSafe items → items ≠ [] → ∀ pushed : List RespValue,
    (runHandler ex unprintable envs).Walk (Waiting w)
      { w with task := .decoding (.line (⟨pushed, items.length - 1⟩ :: loops)) }
      (encodeItems items)
      (w.polled ex unprintable envs (deliver (.array (some (pushed ++ items))) loops))
  | [], _, _, hne, _ => absurd rfl hne
  | [item], ⟨hf, _⟩, ⟨hs, _⟩, _, pushed => by
      rw [encodeItems, encodeItems, List.append_nil]
      exact walk_encode w item hf hs (⟨pushed, 0⟩ :: loops)
  | item :: next :: items, ⟨hf, hfs⟩, ⟨hs, hss⟩, _, pushed => by
      have h := (walk_encode w item hf hs (⟨pushed, items.length + 1⟩ :: loops)).trans
        (walk_items w loops (next :: items) hfs hss (by simp) (pushed ++ [item]))
      rw [List.append_assoc, List.singleton_append] at h
      rw [encodeItems]
      exact h

end

end Walk

variable (ex unprintable envs) in
/-- The first bytes of a stream of frames. -/
theorem settle_whole {vs : List RespValue} (hf : ∀ v ∈ vs, Fits v) (hs : ∀ v ∈ vs, LineSafe v)
    {p : Bytes} (hp : p <+: encodeItems vs) {w : Connection} (hw : w.task = .decoding (.line [])) :
    Answered ex unprintable w ((runHandler ex unprintable envs).settle w p).1
        (timed (fun i => envs (w.served + i)) (whole vs p)) ∧
      ((Session.run ex unprintable ⟨w.store, w.aof, true⟩
          (timed (fun i => envs (w.served + i)) (whole vs p))).alive →
        ∃ d, ((runHandler ex unprintable envs).settle w p).1.task = .decoding d) := by
  induction vs generalizing p w with
  | nil =>
      rw [List.prefix_nil.mp hp]
      exact ⟨.nil w w.task, fun _ => ⟨_, hw⟩⟩
  | cons v vs ih =>
      have hwalk : (runHandler ex unprintable envs).Walk (Waiting w) w (encode v)
          (w.serve ex unprintable envs v) := by
        have h := walk_encode ex unprintable envs w v
          (hf v List.mem_cons_self) (hs v List.mem_cons_self) []
        rwa [← hw] at h
      rw [encodeItems] at hp
      rw [whole]
      by_cases hfull : encode v <+: p
      -- the first frame is complete, and the handler serves it
      · rw [if_pos hfull]
        obtain ⟨p', rfl⟩ := hfull
        rw [List.drop_left, timed_cons, Session.run, step_serve, hwalk.settle]
        have hp' := (List.prefix_append_right_inj _).mp hp
        cases hr : (handle ex unprintable (envs w.served) v w.store).response with
        | none =>
            rw [(runHandler ex unprintable envs).settle_of_ended (want_serve_panicked hr)]
            refine ⟨.panicked hr, fun halive => ?_⟩
            rw [Session.run_of_not_alive rfl] at halive
            cases halive
        | some response =>
            obtain ⟨h₁, h₂⟩ := ih (fun v hv => hf v (List.mem_cons_of_mem _ hv))
              (fun v hv => hs v (List.mem_cons_of_mem _ hv)) hp' (task_serve hr)
            exact ⟨.cons (by rw [hr]; rfl) h₁, h₂⟩
      -- the first frame is not complete, and the handler waits for the rest
      · rw [if_neg hfull]
        have hpre : p <+: encode v := by
          rcases List.prefix_or_prefix_of_prefix hp (List.prefix_append (encode v) _) with h | h
          · exact h
          · exact absurd h hfull
        have hwait := hwalk.stays hpre fun he => hfull (he ▸ List.prefix_refl _)
        exact ⟨hwait.answered, fun _ => by obtain ⟨d, hd⟩ := hwait; exact ⟨d, by rw [hd]⟩⟩

end Connection

open Connection

/-- **A stream in pieces.**  However the bytes of a client are cut into pieces, when the client is
gone the handler has done what a loop of `decode` over all bytes does: it has executed and logged
the same frames in the same order, has written the same replies, and has ended in the same way. -/
theorem conversation_in_pieces (ex : Executor) (unprintable : Char → Bool) (envs : Nat → Env)
    (s : StoreInner) (aof : Bytes) (pieces : List Bytes) :
    let c := (runHandler ex unprintable envs).feed pieces (.start s aof, [])
    let w := (runHandler ex unprintable envs).finish c.1 c.2
    let steps := timed envs (frames pieces.flatten).1
    Answered ex unprintable (.start s aof) w steps ∧
      w.task = .ended (if (Session.run ex unprintable ⟨s, aof, true⟩ steps).alive
        then (frames pieces.flatten).2 else .panicked) := by
  intro c w steps
  have hw : w = (runHandler ex unprintable envs).finish (.start s aof) pieces.flatten :=
    (runHandler ex unprintable envs).finish_feed pieces _
  have h := finish_frames ex unprintable envs (show (start s aof).task = _ from rfl)
    (Nat.lt_succ_self pieces.flatten.length)
  rw [← hw] at h
  have hserved : (fun i => envs ((Connection.start s aof).served + i)) = envs :=
    funext fun i => congrArg envs (Nat.zero_add i)
  rw [hserved] at h
  exact h

/-- **Replies at once.**  While the frames of a client come in, in whatever pieces, the handler has
executed, logged and answered exactly the frames that are complete, and it is still there, unless
one of them made it panic. -/
theorem replies_at_once (ex : Executor) (unprintable : Char → Bool) (envs : Nat → Env)
    (s : StoreInner) (aof : Bytes) {vs : List RespValue} (hv : ∀ v ∈ vs, Encodable v)
    (hs : ∀ v ∈ vs, LineSafe v) {p : Bytes} (hp : p <+: encodeItems vs) {pieces : List Bytes}
    (hpieces : pieces.flatten = p) :
    let w := ((runHandler ex unprintable envs).feed pieces (.start s aof, [])).1
    let steps := timed envs (whole vs p)
    Answered ex unprintable (.start s aof) w steps ∧
      ((Session.run ex unprintable ⟨s, aof, true⟩ steps).alive → ∃ d, w.task = .decoding d) := by
  intro w steps
  have h := settle_whole ex unprintable envs (fun v hm => (hv v hm).fits) hs hp
    (show (start s aof).task = _ from rfl)
  have hw : w = ((runHandler ex unprintable envs).settle (.start s aof) p).1 := by
    rw [← hpieces, ← (runHandler ex unprintable envs).feed_eq]
  rw [← hw] at h
  have hserved : (fun i => envs ((Connection.start s aof).served + i)) = envs :=
    funext fun i => congrArg envs (Nat.zero_add i)
  rw [hserved] at h
  exact h

/-- Two PINGs, of which the first has arrived in two pieces and the second with its first byte. -/
theorem replies_at_once_ping :
    ((runHandler .plain (fun _ => false) fun _ => Env.at 0 0).feed
      [(encode (bulkArray ["PING"])).take 5, (encode (bulkArray ["PING"])).drop 5 ++ [42]]
      (.start Store.new [], [])).1.sent = encode (.simpleString "PONG") := by
  have hfit : Encodable (bulkArray ["PING"]) := ⟨⟨trivial, trivial⟩, by decide⟩
  have hsafe : LineSafe (bulkArray ["PING"]) := ⟨trivial, trivial⟩
  have hp : encode (bulkArray ["PING"]) ++ [42] <+:
      encodeItems [bulkArray ["PING"], bulkArray ["PING"]] := by
    rw [encodeItems, List.prefix_append_right_inj]
    decide
  have hwhole : whole [bulkArray ["PING"], bulkArray ["PING"]]
      (encode (bulkArray ["PING"]) ++ [42]) = [bulkArray ["PING"]] := by
    rw [whole, if_pos (List.prefix_append _ _), List.drop_left, whole, if_neg (by decide)]
  obtain ⟨⟨-, -, hsent⟩, -⟩ := replies_at_once .plain (fun _ => false) (fun _ => Env.at 0 0)
    Store.new [] (by simp [hfit]) (by simp [hsafe]) hp
    (show [(encode (bulkArray ["PING"])).take 5,
        (encode (bulkArray ["PING"])).drop 5 ++ [42]].flatten = _ by
      simp [← List.append_assoc, List.take_append_drop])
  rw [hwhole] at hsent
  rw [hsent]
  rfl

end Thesaurus
