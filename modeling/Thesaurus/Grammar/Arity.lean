import Thesaurus.Grammar.SetOptions

/-!
# Grammar — arities

Each parser of `from_resp2` on an array of bulk strings, as a function of its words: what it makes
of the numbers of words it takes, and the arity error it replies with on any other.

* `parse_ne_panic`: on an array with a name no parser indexes out of range.
* `fromResp2_total_iff`: the empty array is the one value on which `from_resp2` panics.
-/

namespace Thesaurus
open Bytes Outcome

namespace Command

@[simp] theorem length_toArgs (words : List String) : (toArgs words).length = words.length :=
  List.length_map _

theorem bulks_toArgs (words : List String) : bulks (toArgs words) = .ok words := by
  induction words with
  | nil => rfl
  | cons w words ih =>
      show (bulks (toArgs words) >>= fun ws => .ok (w :: ws)) = _
      rw [ih]
      rfl

/-- The error of `check_arity` and `check_min_arity`. -/
def arityError (expected : Nat) (words : List String) : HandlerError :=
  .wrongArity (UInt8.ofNat expected) (UInt8.ofNat words.length)

theorem checkArity_toArgs (words : List String) (n : Nat) :
    checkArity (toArgs words) n =
      if words.length = n then .ok () else .err (arityError n words) := by
  rw [checkArity, length_toArgs]
  by_cases h : words.length = n
  · rw [if_neg (not_not.mpr h), if_pos h]
  · rw [if_pos h, if_neg h]
    rfl

theorem checkMinArity_toArgs (words : List String) (n : Nat) :
    checkMinArity (toArgs words) n =
      if words.length < n then .err (arityError n words) else .ok () := by
  rw [checkMinArity, length_toArgs]
  rfl

/-! ### Parsers -/

section Parsers

variable (name : String) (words : List String)

theorem parsePingCommand_toArgs :
    parsePingCommand (toArgs (name :: words)) = .ok (.ping words.head?) := by
  cases words <;> rfl

theorem parseKeyCommand_toArgs (f : String → Command) :
    parseKeyCommand (toArgs (name :: words)) f =
      match words with
      | [key] => .ok (f key)
      | _     => .err (arityError 2 (name :: words)) := by
  rw [parseKeyCommand, checkArity_toArgs]
  match words with
  | [] => rfl
  | [key] => rfl
  | _ :: _ :: _ => rw [if_neg (by simp)]; rfl

theorem parseKeysCommand_toArgs (f : List String → Command) :
    parseKeysCommand (toArgs (name :: words)) f =
      match words with
      | [] => .err (arityError 2 (name :: words))
      | _  => .ok (f words) := by
  rw [parseKeysCommand, checkMinArity_toArgs]
  match words with
  | [] => rfl
  | key :: rest =>
      rw [if_neg (by simp)]
      show (bulks (toArgs (key :: rest)) >>= fun ks => .ok (f ks)) = _
      rw [bulks_toArgs]
      rfl

theorem parseKeyWithElementsCommand_toArgs (f : String → List String → Command) :
    parseKeyWithElementsCommand (toArgs (name :: words)) f =
      match words with
      | key :: element :: elements => .ok (f key (element :: elements))
      | _ => .err (arityError 3 (name :: words)) := by
  rw [parseKeyWithElementsCommand, checkMinArity_toArgs]
  match words with
  | [] => rfl
  | [_] => rfl
  | key :: element :: elements =>
      rw [if_neg (by simp)]
      show (bulks (toArgs (element :: elements)) >>= fun es => .ok (f key es)) = _
      rw [bulks_toArgs]
      rfl

theorem parsePopCommand_toArgs (f : String → Option UInt64 → Command) :
    parsePopCommand (toArgs (name :: words)) f =
      match words with
      | []               => .err (arityError 2 (name :: words))
      | [key]            => .ok (f key none)
      | key :: count :: _ => toU64 count >>= fun n => .ok (f key (some n)) := by
  rw [parsePopCommand, checkMinArity_toArgs]
  match words with
  | [] => rfl
  | [key] => rfl
  | key :: count :: rest =>
      rw [if_neg (by simp)]
      show ((toU64 count >>= fun n => .ok (some n)) >>= fun c => .ok (f key c)) =
        (toU64 count >>= fun n => .ok (f key (some n)))
      cases toU64 count <;> rfl

theorem parseSrandmemberCommand_toArgs :
    parseSrandmemberCommand (toArgs (name :: words)) =
      match words with
      | []               => .err (arityError 2 (name :: words))
      | [key]            => .ok (.sRandMember key none)
      | key :: count :: _ => toI64 count >>= fun n => .ok (.sRandMember key (some n)) := by
  rw [parseSrandmemberCommand, checkMinArity_toArgs]
  match words with
  | [] => rfl
  | [key] => rfl
  | key :: count :: rest =>
      rw [if_neg (by simp)]
      show ((toI64 count >>= fun n => .ok (some n)) >>= fun c => .ok (Command.sRandMember key c)) =
        (toI64 count >>= fun n => .ok (Command.sRandMember key (some n)))
      cases toI64 count <;> rfl

theorem parseExpireCommands_toArgs (f : String → UInt64 → Command) :
    parseExpireCommands (toArgs (name :: words)) f =
      match words with
      | [key, s] => toU64 s >>= fun n => .ok (f key n)
      | _        => .err (arityError 3 (name :: words)) := by
  rw [parseExpireCommands, checkArity_toArgs]
  match words with
  | [] => rfl
  | [_] => rfl
  | [key, s] => rfl
  | _ :: _ :: _ :: _ => rw [if_neg (by simp)]; rfl

theorem parseSelectCommand_toArgs :
    parseSelectCommand (toArgs (name :: words)) =
      match words with
      | [s] =>
          match parseUnsigned 10 (2 ^ 8) (utf8 s) with
          | some n => .ok (.select (UInt8.ofNat n))
          | none   => if (parseI64 s).isSome then .err .dbIndexOutOfRange else .err (.notAnInteger s)
      | _ => .err (arityError 2 (name :: words)) := by
  rw [parseSelectCommand, checkArity_toArgs]
  match words with
  | [] => rfl
  | [s] => rfl
  | _ :: _ :: _ => rw [if_neg (by simp)]; rfl

theorem parseDbsizeCommand_toArgs :
    parseDbsizeCommand (toArgs (name :: words)) =
      match words with
      | [] => .ok .dbSize
      | _  => .err (arityError 1 (name :: words)) := by
  rw [parseDbsizeCommand, checkArity_toArgs]
  match words with
  | [] => rfl
  | _ :: _ => rw [if_neg (by simp)]; rfl

theorem parseFlushdbCommand_toArgs :
    parseFlushdbCommand (toArgs (name :: words)) =
      match words with
      | []  => .ok (.flushDb none)
      | [s] =>
          if s = "SYNC" then .ok (.flushDb (some .sync))
          else if s = "ASYNC" then .ok (.flushDb (some .async))
          else .err .syntaxError
      | _ => .err (arityError 1 (name :: words)) := by
  rw [parseFlushdbCommand, length_toArgs]
  match words with
  | [] => rfl
  | [s] => rfl
  | _ :: _ :: _ => rw [if_pos (by simp)]; rfl

/-- The words of the pairs, one after the other. -/
def pairWords : List (String × String) → List String
  | []           => []
  | (k, v) :: ps => k :: v :: pairWords ps

theorem pairs_toArgs (words : List String) :
    ∃ items, pairs (toArgs words) = .ok items ∧
      (words.length % 2 = 0 → pairWords items = words) := by
  match words with
  | [] => exact ⟨[], rfl, fun _ => rfl⟩
  | [w] => exact ⟨[], rfl, fun h => by simp at h⟩
  | k :: v :: words =>
      obtain ⟨items, hi, hw⟩ := pairs_toArgs words
      refine ⟨(k, v) :: items, ?_, fun h => ?_⟩
      · show (pairs (toArgs words) >>= fun ps => .ok ((k, v) :: ps)) = _
        rw [hi]
        rfl
      · rw [pairWords, hw (by simp only [List.length_cons] at h; omega)]

theorem parseMsetCommand_toArgs :
    (∃ e, parseMsetCommand (toArgs (name :: words)) = .err e) ∨
    ∃ items, items ≠ [] ∧ words = pairWords items ∧
      parseMsetCommand (toArgs (name :: words)) = .ok (.mSet items) := by
  rw [parseMsetCommand, checkMinArity_toArgs, length_toArgs]
  split
  · exact .inl ⟨_, rfl⟩
  · next hmin =>
      obtain ⟨items, hi, hw⟩ := pairs_toArgs words
      by_cases heven : (name :: words).length % 2 = 0
      · exact .inl ⟨_, by rw [if_pos heven]; rfl⟩
      · have hw := hw (by simp only [List.length_cons] at heven; omega)
        refine .inr ⟨items, ?_, hw.symm, ?_⟩
        · rintro rfl
          rw [← hw] at hmin
          exact hmin (by simp [pairWords])
        · rw [if_neg heven]
          show (pairs (toArgs words) >>= fun ps => .ok (Command.mSet ps)) = _
          rw [hi]
          rfl

theorem parseLsetCommand_toArgs :
    parseLsetCommand (toArgs (name :: words)) =
      match words with
      | [key, i, element] => toI64 i >>= fun i => .ok (.lSet key i element)
      | _                 => .err (arityError 4 (name :: words)) := by
  rw [parseLsetCommand, checkArity_toArgs]
  match words with
  | [] => rfl
  | [_] => rfl
  | [_, _] => rfl
  | [key, i, element] => rfl
  | _ :: _ :: _ :: _ :: _ => rw [if_neg (by simp)]; rfl

theorem parseLindexCommand_toArgs :
    parseLindexCommand (toArgs (name :: words)) =
      match words with
      | [key, i] => toI64 i >>= fun i => .ok (.lIndex key i)
      | _        => .err (arityError 3 (name :: words)) := by
  rw [parseLindexCommand, checkArity_toArgs]
  match words with
  | [] => rfl
  | [_] => rfl
  | [key, i] => rfl
  | _ :: _ :: _ :: _ => rw [if_neg (by simp)]; rfl

theorem parseLrangeCommand_toArgs :
    parseLrangeCommand (toArgs (name :: words)) =
      match words with
      | [key, i, j] => toI64 i >>= fun i => toI64 j >>= fun j => .ok (.lRange key i j)
      | _           => .err (arityError 4 (name :: words)) := by
  rw [parseLrangeCommand, checkArity_toArgs]
  match words with
  | [] => rfl
  | [_] => rfl
  | [_, _] => rfl
  | [key, i, j] => rfl
  | _ :: _ :: _ :: _ :: _ => rw [if_neg (by simp)]; rfl

theorem parseSmoveCommand_toArgs :
    parseSmoveCommand (toArgs (name :: words)) =
      match words with
      | [source, destination, member] => .ok (.sMove source destination member)
      | _                             => .err (arityError 4 (name :: words)) := by
  rw [parseSmoveCommand, checkArity_toArgs]
  match words with
  | [] => rfl
  | [_] => rfl
  | [_, _] => rfl
  | [source, destination, member] => rfl
  | _ :: _ :: _ :: _ :: _ => rw [if_neg (by simp)]; rfl

theorem parseSismemberCommand_toArgs :
    parseSismemberCommand (toArgs (name :: words)) =
      match words with
      | [key, member] => .ok (.sIsMember key member)
      | _             => .err (arityError 3 (name :: words)) := by
  rw [parseSismemberCommand, checkArity_toArgs]
  match words with
  | [] => rfl
  | [_] => rfl
  | [key, member] => rfl
  | _ :: _ :: _ :: _ => rw [if_neg (by simp)]; rfl

theorem toU64_ne_panic (s : String) : toU64 s ≠ .panic := ofOption_ne_panic _ _

theorem toI64_ne_panic (s : String) : toI64 s ≠ .panic := ofOption_ne_panic _ _

theorem conditionOf_ne_panic (token next : String) : conditionOf token next ≠ .panic := by
  unfold conditionOf
  split
  · simp
  · simp
  · exact bind_ne_panic (ofOption_ne_panic _ _) (by simp)
  · exact bind_ne_panic (ofOption_ne_panic _ _) (by simp)

theorem expiryOf_ne_panic (token next : String) : expiryOf token next ≠ .panic :=
  bind_ne_panic (toU64_ne_panic next) fun _ => by split <;> simp

theorem setOptionsLoop_ne_panic {args : List RespValue} (h : ∀ arg ∈ args, isBulk arg = true)
    (o : SetOptions) : setOptionsLoop args o ≠ .panic := by
  have tail {v : RespValue} {vs : List RespValue} (h : ∀ arg ∈ v :: vs, isBulk arg = true) :
      ∀ arg ∈ vs, isBulk arg = true := fun arg ha => h arg (List.mem_cons_of_mem _ ha)
  -- The last arm is for an argument that is not a bulk string.
  fun_induction setOptionsLoop args o
  all_goals first
    | (intro hp; cases hp; done)
    | (rename_i ih; exact ih (tail h))
    | (rename_i ih; exact bind_ne_panic (conditionOf_ne_panic _ _) fun c => ih c (tail (tail h)))
    | (rename_i ih; exact bind_ne_panic (expiryOf_ne_panic _ _) fun e => ih e (tail (tail h)))
    | (rename_i hne
       obtain ⟨s, hs⟩ := isBulk_iff.mp (h _ List.mem_cons_self)
       exact absurd hs (hne s))

theorem isBulk_of_mem_toArgs {words : List String} {arg : RespValue} (h : arg ∈ toArgs words) :
    isBulk arg = true := by
  obtain ⟨s, -, rfl⟩ := List.mem_map.mp h
  rfl

theorem parseSetCommand_ne_panic : parseSetCommand (toArgs (name :: words)) ≠ .panic := by
  rw [parseSetCommand, checkMinArity_toArgs]
  rcases words with _ | ⟨key, _ | ⟨value, ws⟩⟩
  · intro h
    cases h
  · intro h
    cases h
  · rw [if_neg (by simp)]
    have hloop : setOptionsLoop (toArgs ws) ⟨none, none, false⟩ ≠ .panic :=
      setOptionsLoop_ne_panic (fun _ => isBulk_of_mem_toArgs) _
    show (setOptionsLoop (toArgs ws) ⟨none, none, false⟩ >>= fun o =>
      .ok (Command.set key value o.condition o.expiry o.get)) ≠ .panic
    exact bind_ne_panic hloop (by simp)

end Parsers

/-! ### Totality -/

/-- **The parsers** do not panic on an array with a name. -/
theorem parse_ne_panic (first name : String) (words : List String) :
    parse first (toArgs (name :: words)) ≠ .panic := by
  unfold parse
  split
  -- the families of parsers, then those of a single command
  all_goals first
    | (rw [parseKeyCommand_toArgs]; split <;> simp)
    | (rw [parseKeysCommand_toArgs]; split <;> simp)
    | (rw [parseKeyWithElementsCommand_toArgs]; split <;> simp)
    | (rw [parseSmismemberCommand, parseKeyWithElementsCommand_toArgs]; split <;> simp)
    | (rw [parsePopCommand_toArgs]; split
       · simp
       · simp
       · exact bind_ne_panic (toU64_ne_panic _) (by simp))
    | (rw [parseExpireCommands_toArgs]; split
       · exact bind_ne_panic (toU64_ne_panic _) (by simp)
       · simp)
    | (rw [parsePingCommand_toArgs]; simp)
    | exact parseSetCommand_ne_panic name words
    | (intro h; cases h)
    | (obtain ⟨e, he⟩ | ⟨items, -, -, hi⟩ := parseMsetCommand_toArgs name words
       · simp [he]
       · simp [hi])
    | (rw [parseLsetCommand_toArgs]; split
       · exact bind_ne_panic (toI64_ne_panic _) (by simp)
       · simp)
    | (rw [parseLindexCommand_toArgs]; split
       · exact bind_ne_panic (toI64_ne_panic _) (by simp)
       · simp)
    | (rw [parseLrangeCommand_toArgs]; split
       · exact bind_ne_panic (toI64_ne_panic _) fun _ => bind_ne_panic (toI64_ne_panic _) (by simp)
       · simp)
    | (rw [parseSmoveCommand_toArgs]; split <;> simp)
    | (rw [parseSismemberCommand_toArgs]; split <;> simp)
    | (rw [parseSrandmemberCommand_toArgs]; split
       · simp
       · simp
       · exact bind_ne_panic (toI64_ne_panic _) (by simp))
    | (rw [parseSelectCommand_toArgs]; split
       · split
         · simp
         · split <;> simp
       · simp)
    | (rw [parseDbsizeCommand_toArgs]; split <;> simp)
    | (rw [parseFlushdbCommand_toArgs]; split
       · simp
       · split_ifs <;> simp
       · simp)

/-- The arity that MSET reports is a `u8` one above the number of arguments: the sum overflows on
an even number of arguments that ends in 255 only. -/
def ArityFits (frame : RespValue) : Prop :=
  ∀ args, frame = .array (some args) → args.length % 2 = 0 →
    (UInt8.ofNat args.length).toNat + 1 < 2 ^ 8

theorem arityFits (frame : RespValue) : ArityFits frame := fun args _ heven => by
  rw [UInt8.toNat_ofNat']
  omega

/-- The parser panics on the empty array only. -/
theorem fromResp2_ne_panic_iff {frame : RespValue} :
    fromResp2 frame ≠ .panic ↔ frame ≠ .array (some []) := by
  constructor
  · rintro h rfl
    exact h rfl
  · intro hne
    cases frame with
    | simpleString | simpleError | integer | bulkString => simp [fromResp2]
    | array items =>
        cases items with
        | none => simp [fromResp2]
        | some args =>
            rw [fromResp2]
            split
            · simp
            · next hfind =>
                have hbulk : ∀ arg ∈ args, isBulk arg = true := by
                  simpa using List.find?_eq_none.mp hfind
                obtain ⟨words, rfl⟩ := eq_bulks_of_isBulk hbulk
                cases words with
                | nil => exact absurd rfl hne
                | cons name words => exact parse_ne_panic name name words

/-- **Totality.**  The parser returns a command or an error, and computes every arity it reports
without overflow, exactly when the value is not the empty array. -/
theorem fromResp2_total_iff (frame : RespValue) :
    (fromResp2 frame ≠ .panic ∧ ArityFits frame) ↔ frame ≠ .array (some []) := by
  rw [and_iff_left (arityFits frame)]
  exact fromResp2_ne_panic_iff

/-- The decoder reads `*0\r\n`, and the parser then takes the first of no arguments. -/
theorem fromResp2_panics :
    decode (Bytes.utf8 "*0\r\n") = .ok (.array (some []), []) ∧
      ¬∀ frame : RespValue, fromResp2 frame ≠ .panic ∧ ArityFits frame := by
  refine ⟨?_, fun h => (h (.array (some []))).1 rfl⟩
  have hd : decode (encode (.array (some [])) ++ []) = .ok (.array (some []), []) :=
    decode_encode (v := .array (some [])) ⟨by decide, trivial⟩ trivial []
  rwa [List.append_nil] at hd

end Command

end Thesaurus
