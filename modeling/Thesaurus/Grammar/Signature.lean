import Thesaurus.Grammar.Arity

/-!
# Grammar — signatures

`Spells cmd words`: the words are the command as `docs/commands.md` writes it, with nothing in
them that the command does not hold.  `Exceeds words`: the signature of the command that the words
name has no room for all of them.

* `signature_iff`: what the parser accepts has the signature of its command, and words beyond a
  signature are an error of the arity or of the syntax, but for the arguments that PING, the pops
  and SRANDMEMBER ignore, and for SETs that repeat GET or have a number that is none.
-/

namespace Thesaurus
open Bytes Outcome

namespace Command

/-- The words of a command. -/
def Spells : Command → List String → Prop
  | .ping none, ws                     => ws = ["PING"]
  | .ping (some message), ws           => ws = ["PING", message]
  | .get key, ws                       => ws = ["GET", key]
  | .set key value condition expiry g, ws =>
      ∃ os opts, ws = "SET" :: key :: value :: opts ∧ SpellsAll os opts ∧ AtMostOne os ∧
        os.count .get ≤ 1 ∧ setOf key value os = .set key value condition expiry g
  | .delete ks, ws                     => ks ≠ [] ∧ ws = "DEL" :: ks
  | .getDel key, ws                    => ws = ["GETDEL", key]
  | .exists ks, ws                     => ks ≠ [] ∧ ws = "EXISTS" :: ks
  | .mGet ks, ws                       => ks ≠ [] ∧ ws = "MGET" :: ks
  | .mSet items, ws                    => items ≠ [] ∧ ws = "MSET" :: pairWords items
  | .strLen key, ws                    => ws = ["STRLEN", key]
  | .lPush key elements, ws            => elements ≠ [] ∧ ws = "LPUSH" :: key :: elements
  | .rPush key elements, ws            => elements ≠ [] ∧ ws = "RPUSH" :: key :: elements
  | .lPushX key elements, ws           => elements ≠ [] ∧ ws = "LPUSHX" :: key :: elements
  | .rPushX key elements, ws           => elements ≠ [] ∧ ws = "RPUSHX" :: key :: elements
  | .lPop key none, ws                 => ws = ["LPOP", key]
  | .lPop key (some n), ws             => ∃ s, toU64 s = .ok n ∧ ws = ["LPOP", key, s]
  | .rPop key none, ws                 => ws = ["RPOP", key]
  | .rPop key (some n), ws             => ∃ s, toU64 s = .ok n ∧ ws = ["RPOP", key, s]
  | .lSet key i element, ws            => ∃ s, toI64 s = .ok i ∧ ws = ["LSET", key, s, element]
  | .lLen key, ws                      => ws = ["LLEN", key]
  | .lIndex key i, ws                  => ∃ s, toI64 s = .ok i ∧ ws = ["LINDEX", key, s]
  | .lRange key i j, ws                =>
      ∃ s t, toI64 s = .ok i ∧ toI64 t = .ok j ∧ ws = ["LRANGE", key, s, t]
  | .sAdd key members, ws              => members ≠ [] ∧ ws = "SADD" :: key :: members
  | .sMembers key, ws                  => ws = ["SMEMBERS", key]
  | .sIsMember key member, ws          => ws = ["SISMEMBER", key, member]
  | .sMIsMember key members, ws        => members ≠ [] ∧ ws = "SMISMEMBER" :: key :: members
  | .sRandMember key none, ws          => ws = ["SRANDMEMBER", key]
  | .sRandMember key (some n), ws      => ∃ s, toI64 s = .ok n ∧ ws = ["SRANDMEMBER", key, s]
  | .sCard key, ws                     => ws = ["SCARD", key]
  | .sMove source destination member, ws => ws = ["SMOVE", source, destination, member]
  | .sPop key none, ws                 => ws = ["SPOP", key]
  | .sPop key (some n), ws             => ∃ s, toU64 s = .ok n ∧ ws = ["SPOP", key, s]
  | .sRem key members, ws              => members ≠ [] ∧ ws = "SREM" :: key :: members
  | .ttl key, ws                       => ws = ["TTL", key]
  | .pTtl key, ws                      => ws = ["PTTL", key]
  | .expireTime key, ws                => ws = ["EXPIRETIME", key]
  | .pExpireTime key, ws               => ws = ["PEXPIRETIME", key]
  | .persist key, ws                   => ws = ["PERSIST", key]
  | .expire key n, ws                  => ∃ s, toU64 s = .ok n ∧ ws = ["EXPIRE", key, s]
  | .pExpire key n, ws                 => ∃ s, toU64 s = .ok n ∧ ws = ["PEXPIRE", key, s]
  | .expireAt key n, ws                => ∃ s, toU64 s = .ok n ∧ ws = ["EXPIREAT", key, s]
  | .pExpireAt key n, ws               => ∃ s, toU64 s = .ok n ∧ ws = ["PEXPIREAT", key, s]
  | .keys pattern, ws                  => ws = ["KEYS", pattern]
  | .digest key, ws                    => ws = ["DIGEST", key]
  | .select index, ws                  =>
      ∃ s, parseUnsigned 10 (2 ^ 8) (utf8 s) = some index.toNat ∧ ws = ["SELECT", s]
  | .dbSize, ws                        => ws = ["DBSIZE"]
  | .flushDb none, ws                  => ws = ["FLUSHDB"]
  | .flushDb (some .sync), ws          => ws = ["FLUSHDB", "SYNC"]
  | .flushDb (some .async), ws         => ws = ["FLUSHDB", "ASYNC"]

/-- The three groups of options of SET. -/
inductive OptionGroup where
  | condition
  | get
  | expiry
  deriving DecidableEq

/-- The group of the option that a word begins, and whether a value follows the word. -/
def optionOf : String → Option (OptionGroup × Bool)
  | "NX" | "XX"                          => some (.condition, false)
  | "IFEQ" | "IFNE" | "IFDEQ" | "IFDNE" => some (.condition, true)
  | "GET"                                => some (.get, false)
  | "EX" | "PX" | "EXAT" | "PXAT"       => some (.expiry, true)
  | "KEEPTTL"                            => some (.expiry, false)
  | _                                    => none

/-- One of the words has no place in `[condition] [GET] [expiry]`, where the groups `taken` have
their option: it begins no option, or one more of its group. -/
def exceedsOptions : List OptionGroup → List String → Bool
  | _,     []      => false
  | taken, w :: ws =>
      match optionOf w with
      | none                => true
      | some (group, false) => taken.contains group || exceedsOptions (group :: taken) ws
      | some (group, true)  =>
          taken.contains group ||
            match ws with
            | []      => false
            | _ :: ws => exceedsOptions (group :: taken) ws

/-- The most arguments that the signature of a command has room for, if there is a most. -/
def maxArguments : String → Option Nat
  | "DBSIZE" => some 0
  | "PING" | "GET" | "GETDEL" | "STRLEN" | "LLEN" | "SMEMBERS" | "SCARD" | "TTL" | "PTTL"
  | "EXPIRETIME" | "PEXPIRETIME" | "PERSIST" | "KEYS" | "DIGEST" | "SELECT" | "FLUSHDB" => some 1
  | "LPOP" | "RPOP" | "SPOP" | "SRANDMEMBER" | "LINDEX" | "SISMEMBER" | "EXPIRE" | "PEXPIRE"
  | "EXPIREAT" | "PEXPIREAT" => some 2
  | "LSET" | "LRANGE" | "SMOVE" => some 3
  | _ => none

/-- The words go beyond the signature of the command that the first one names. -/
def Exceeds : List String → Prop
  | "SET" :: _ :: _ :: opts => exceedsOptions [] opts = true
  | "MSET" :: words         => words.length % 2 = 1
  | name :: words           => ∃ n, maxArguments name = some n ∧ n < words.length
  | []                      => False

/-- The error of words that go beyond a signature. -/
def BlamesWords : HandlerError → Prop
  | .wrongArity .. | .syntaxError => True
  | _                             => False

/-- The word begins an option of a group that has none yet, and the number behind it is none. -/
def Unreadable (noCondition noExpiry : Prop) (token number : String) : Prop :=
  (token = "IFDEQ" ∨ token = "IFDNE") ∧ noCondition ∧ (∀ u, toDigest number ≠ .ok u) ∨
  (token = "EX" ∨ token = "PX" ∨ token = "EXAT" ∨ token = "PXAT") ∧ noExpiry ∧
    ∀ n, toU64 number ≠ .ok n

/-- Words that go beyond the signature, which the parser drops or does not get to: all behind the
message of PING, all behind a count, a GET of SET when there was one before, and words of a SET
that has a number that is none before the first of them that is refused. -/
inductive Surplus : List String → Prop where
  | ping (message w : String) (ws : List String) : Surplus ("PING" :: message :: w :: ws)
  | pop {name : String} (hname : name ∈ ["LPOP", "RPOP", "SPOP"]) (key count w : String)
      (ws : List String) : Surplus (name :: key :: count :: w :: ws)
  | sRandMember (key count w : String) (ws : List String) :
      Surplus ("SRANDMEMBER" :: key :: count :: w :: ws)
  | set (key value : String) {os : List SetOption} {opts : List String} (hs : SpellsAll os opts)
      (ho : AtMostOne os) (hg : 1 < os.count .get) : Surplus ("SET" :: key :: value :: opts)
  | setNumber (key value : String) {os : List SetOption} {opts : List String}
      {token number : String} {ws : List String} (hs : SpellsAll os opts) (ho : AtMostOne os)
      (hn : Unreadable (conditions os = []) (expiries os = []) token number)
      (hx : exceedsOptions [] (opts ++ token :: number :: ws) = true) :
      Surplus ("SET" :: key :: value :: (opts ++ token :: number :: ws))

/-! ### Options are read in one way -/

theorem SetOption.Spells.unique {x x' : SetOption} {ws ws' rest rest' : List String}
    (h : x.Spells ws) (h' : x'.Spells ws') (heq : ws ++ rest = ws' ++ rest') :
    x = x' ∧ rest = rest' := by
  cases h <;> cases h' <;> simp_all

theorem SetOption.Spells.ne_nil {x : SetOption} {ws : List String} (h : x.Spells ws) : ws ≠ [] := by
  cases h <;> simp

theorem SpellsAll.unique {os os' : List SetOption} {ws : List String} (h : SpellsAll os ws)
    (h' : SpellsAll os' ws) : os = os' := by
  induction h generalizing os' with
  | nil =>
      generalize hw : ([] : List String) = w at h'
      cases h' with
      | nil => rfl
      | cons hx t => exact absurd (List.append_eq_nil_iff.mp hw.symm).1 hx.ne_nil
  | @cons x os ws rest hx _ ih =>
      generalize hw : ws ++ rest = w at h'
      cases h' with
      | nil => exact absurd (List.append_eq_nil_iff.mp hw).1 hx.ne_nil
      | cons hx' t' =>
          obtain ⟨rfl, rfl⟩ := hx.unique hx' hw
          rw [ih t']

/-! ### Words of SET beyond its signature -/

/-- The group of an option. -/
def SetOption.group : SetOption → OptionGroup
  | .condition _ => .condition
  | .expiry _    => .expiry
  | .get         => .get

theorem count_group (os : List SetOption) :
    (os.map SetOption.group).count .condition = (conditions os).length ∧
    (os.map SetOption.group).count .expiry = (expiries os).length ∧
    (os.map SetOption.group).count .get = os.count .get := by
  induction os with
  | nil => exact ⟨rfl, rfl, rfl⟩
  | cons x os ih => cases x <;> simp [SetOption.group, ih]

theorem nodup_group {os : List SetOption} (ho : AtMostOne os) (hg : os.count .get ≤ 1) :
    (os.map SetOption.group).Nodup := by
  obtain ⟨hc, he, hget⟩ := count_group os
  refine List.nodup_iff_count_le_one.mpr fun group => ?_
  cases group with
  | condition => exact hc ▸ ho.1
  | expiry => exact he ▸ ho.2
  | get => exact hget ▸ hg

theorem exceedsOptions_option {x : SetOption} {ws : List String} (hx : x.Spells ws)
    (taken : List OptionGroup) (rest : List String) :
    exceedsOptions taken (ws ++ rest) =
      (taken.contains x.group || exceedsOptions (x.group :: taken) rest) := by
  cases hx <;> rfl

/-- Options of different groups have their places. -/
theorem exceedsOptions_of_spells {os : List SetOption} {ws : List String} (h : SpellsAll os ws)
    {taken : List OptionGroup} (hn : (os.map SetOption.group).Nodup)
    (hd : ∀ group ∈ os.map SetOption.group, group ∉ taken) : exceedsOptions taken ws = false := by
  induction h generalizing taken with
  | nil => rfl
  | @cons x os ws rest hx _ ih =>
      rw [List.map_cons, List.nodup_cons] at hn
      have hfree : x.group ∉ taken := hd _ List.mem_cons_self
      have hrest : exceedsOptions (x.group :: taken) rest = false := by
        refine ih hn.2 fun group hgroup hmem => ?_
        rcases List.mem_cons.mp hmem with rfl | hmem
        · exact hn.1 hgroup
        · exact hd group (List.mem_cons_of_mem _ hgroup) hmem
      simp [exceedsOptions_option hx, hrest, hfree]

/-- The options that are put together at the start are at most one of each group, and leave the
groups without an option free. -/
theorem put_start_iff {os : List SetOption} {o : SetOptions} :
    os.foldlM SetOptions.put ⟨none, none, false⟩ = some o ↔ AtMostOne os ∧
      ⟨(conditions os).head?, (expiries os).head?, decide (SetOption.get ∈ os)⟩ = o := by
  rw [foldlM_put_start]
  split
  · next ho => simp [ho]
  · next ho => simp [ho]

/-- The scanner behind options that it has put together. -/
theorem setOptionsLoop_append {os : List SetOption} {ws : List String} (h : SpellsAll os ws)
    {o o' : SetOptions} (ho : os.foldlM SetOptions.put o = some o') (args : List RespValue) :
    setOptionsLoop (toArgs ws ++ args) o = setOptionsLoop args o' := by
  induction h generalizing o with
  | nil => cases ho; rfl
  | @cons x os ws rest hx _ ih =>
      rw [List.foldlM_cons] at ho
      obtain ⟨o₁, hput, ho⟩ := Option.bind_eq_some_iff.mp ho
      rw [toArgs, List.map_append, List.append_assoc]
      refine (setOptionsLoop_option hx _ o).trans ?_
      rw [hput]
      exact ih ho

/-- A word is a number or is blamed. -/
theorem ok_or_notAnInteger {α : Type} (parsed : Option α) (s : String) :
    (∃ n, ofOption (HandlerError.notAnInteger s) parsed = .ok n) ∨
      ofOption (HandlerError.notAnInteger s) parsed = .err (.notAnInteger s) := by
  cases parsed with
  | none => exact .inr rfl
  | some n => exact .inl ⟨n, rfl⟩

/-- The scanner at a number that is none. -/
theorem setOptionsLoop_unreadable {o : SetOptions} {token number : String}
    (h : Unreadable (o.condition = none) (o.expiry = none) token number) (args : List RespValue) :
    setOptionsLoop (.bulkString (some token) :: .bulkString (some number) :: args) o =
      .err (.notAnInteger number) := by
  obtain ⟨condition, expiry, get⟩ := o
  rcases h with ⟨ht, ho, hn⟩ | ⟨ht, ho, hn⟩
  · cases ho
    have hd : toDigest number = .err (.notAnInteger number) :=
      (ok_or_notAnInteger _ number).resolve_left fun h => h.elim hn
    rcases ht with rfl | rfl <;> simp [setOptionsLoop, conditionOf, hd]
  · cases ho
    have hu : toU64 number = .err (.notAnInteger number) :=
      (ok_or_notAnInteger _ number).resolve_left fun h => h.elim hn
    rcases ht with rfl | rfl | rfl | rfl <;> simp [setOptionsLoop, expiryOf, hu]

/-- The arguments are some options that have their places in `o`, a word of one more such option,
and a number behind it that is none. -/
def StopsAtNumber (args : List RespValue) (o : SetOptions) : Prop :=
  ∃ os opts token number rest o',
    args = toArgs opts ++ .bulkString (some token) :: .bulkString (some number) :: rest ∧
    SpellsAll os opts ∧ os.foldlM SetOptions.put o = some o' ∧
    Unreadable (o'.condition = none) (o'.expiry = none) token number

theorem StopsAtNumber.option {x : SetOption} {ws : List String} (hx : x.Spells ws)
    {o o' : SetOptions} (hput : o.put x = some o') {args : List RespValue}
    (h : StopsAtNumber args o') : StopsAtNumber (toArgs ws ++ args) o := by
  obtain ⟨os, opts, token, number, rest, o₂, rfl, hs, hfold, hn⟩ := h
  refine ⟨x :: os, ws ++ opts, token, number, rest, o₂, ?_, .cons hx hs, ?_, hn⟩
  · rw [toArgs, toArgs, toArgs, List.map_append, List.append_assoc]
  · rw [List.foldlM_cons, hput]
    exact hfold

/-- What the scanner does not accept has a word without a place or a missing value, unless a
number that is none comes first. -/
theorem setOptionsLoop_err {args : List RespValue} {o : SetOptions} {e : HandlerError}
    (h : setOptionsLoop args o = .err e) : e = .syntaxError ∨ StopsAtNumber args o := by
  have option {x : SetOption} {ws : List String} (hx : x.Spells ws) {o o' : SetOptions}
      (hput : o.put x = some o') {args : List RespValue}
      (h : e = .syntaxError ∨ StopsAtNumber args o') :
      e = .syntaxError ∨ StopsAtNumber (toArgs ws ++ args) o := h.imp_right (.option hx hput)
  have number {token number : String} {o : SetOptions} {args : List RespValue}
      (h : Unreadable (o.condition = none) (o.expiry = none) token number) :
      e = .syntaxError ∨
        StopsAtNumber (.bulkString (some token) :: .bulkString (some number) :: args) o :=
    .inr ⟨[], [], token, number, args, o, rfl, .nil, rfl, h⟩
  -- a condition with a value, and an expiry with a value
  have condition {token next : String} {o : SetOptions} {args : List RespValue}
      (ht : token = "IFEQ" ∨ token = "IFNE" ∨ token = "IFDEQ" ∨ token = "IFDNE")
      (hfree : ¬o.condition.isSome = true)
      (h : (conditionOf token next >>= fun c =>
        setOptionsLoop args { o with condition := some c }) = .err e)
      (ih : ∀ c, setOptionsLoop args { o with condition := some c } = .err e →
        e = .syntaxError ∨ StopsAtNumber args { o with condition := some c }) :
      e = .syntaxError ∨
        StopsAtNumber (.bulkString (some token) :: .bulkString (some next) :: args) o := by
    rcases bind_eq_err.mp h with h | ⟨c, hc, h⟩
    · refine number (.inl ⟨?_, by simpa using hfree, fun u hu => ?_⟩)
      · rcases ht with rfl | rfl | ht
        · cases h
        · cases h
        · exact ht
      · rcases ht with rfl | rfl | rfl | rfl <;> simp [conditionOf, hu] at h
    · exact option (spells_of_conditionOf ht hc) (if_neg hfree) (ih c h)
  have expiry {token next : String} {o : SetOptions} {args : List RespValue}
      (ht : token = "EX" ∨ token = "PX" ∨ token = "EXAT" ∨ token = "PXAT")
      (hfree : ¬o.expiry.isSome = true)
      (h : (expiryOf token next >>= fun x =>
        setOptionsLoop args { o with expiry := some x }) = .err e)
      (ih : ∀ x, setOptionsLoop args { o with expiry := some x } = .err e →
        e = .syntaxError ∨ StopsAtNumber args { o with expiry := some x }) :
      e = .syntaxError ∨
        StopsAtNumber (.bulkString (some token) :: .bulkString (some next) :: args) o := by
    rcases bind_eq_err.mp h with h | ⟨x, hx, h⟩
    · refine number (.inr ⟨ht, by simpa using hfree, fun n hn => ?_⟩)
      rcases ht with rfl | rfl | rfl | rfl <;> simp [expiryOf, hn] at h
    · exact option (spells_of_expiryOf ht hx) (if_neg hfree) (ih x h)
  -- No word is left, the word is refused, or it is the first of an option.
  fun_induction setOptionsLoop args o
  all_goals first
    | (cases h; exact .inl rfl)
    | cases h
    | (rename_i hfree ih; exact option .nx (if_neg hfree) (ih h))
    | (rename_i hfree ih; exact option .xx (if_neg hfree) (ih h))
    | (rename_i hfree ih; exact option .keepTtl (if_neg hfree) (ih h))
    | (rename_i ih; exact option .get rfl (ih h))
    | (rename_i hfree _ _ ih; exact condition (by simp) hfree h ih)
    | (rename_i hfree _ _ ih; exact expiry (by simp) hfree h ih)

/-! ### Signatures -/

theorem parseUnsigned_lt {radix bound n : Nat} {bs : Bytes}
    (h : parseUnsigned radix bound bs = some n) : n < bound := by
  unfold parseUnsigned at h
  split at h <;> exact magnitude_lt h

/-- The words of an accepted array are the words of its command, or some of them are surplus. -/
theorem spells_of_parse {name : String} {words : List String} {cmd : Command}
    (h : parse name (toArgs (name :: words)) = .ok cmd) (hs : ¬Surplus (name :: words)) :
    Spells cmd (name :: words) := by
  unfold parse at h
  split at h
  -- PING takes one word and drops the others
  case h_1 =>
    rw [parsePingCommand_toArgs] at h
    cases h
    rcases words with _ | ⟨message, _ | ⟨w, ws⟩⟩
    · rfl
    · rfl
    · exact absurd (.ping message w ws) hs
  -- SET: a second GET would be surplus
  case h_3 =>
    rcases words with _ | ⟨key, _ | ⟨value, opts⟩⟩
    · cases h
    · cases h
    · obtain ⟨os, hos, ho, rfl⟩ := ((parseSetCommand_eq_ok_iff "SET" key value opts).1 cmd).mp h
      refine ⟨os, opts, rfl, hos, ho, ?_, rfl⟩
      exact Nat.le_of_not_lt fun hg => hs (.set key value hos ho hg)
  -- the commands of one key
  case h_2 | h_5 | h_9 | h_17 | h_21 | h_25 | h_29 | h_30 | h_31 | h_32 | h_33 | h_38 | h_39 =>
    rw [parseKeyCommand_toArgs] at h
    split at h
    · cases h; rfl
    · cases h
  -- the commands of a list of keys
  case h_4 | h_6 | h_7 =>
    rw [parseKeysCommand_toArgs] at h
    split at h
    · cases h
    · next hne => cases h; exact ⟨fun h => hne h, rfl⟩
  -- the commands of a key and a list
  case h_10 | h_11 | h_12 | h_13 | h_20 | h_28 =>
    rw [parseKeyWithElementsCommand_toArgs] at h
    split at h
    · cases h; exact ⟨by simp, rfl⟩
    · cases h
  case h_23 =>
    rw [parseSmismemberCommand, parseKeyWithElementsCommand_toArgs] at h
    split at h
    · cases h; exact ⟨by simp, rfl⟩
    · cases h
  -- the pops take one count and drop what follows it
  case h_14 | h_15 | h_27 =>
    rw [parsePopCommand_toArgs] at h
    rcases words with _ | ⟨key, _ | ⟨count, _ | ⟨w, ws⟩⟩⟩
    · cases h
    · cases h
      rfl
    · obtain ⟨n, hn, h⟩ := bind_eq_ok.mp h
      cases h
      exact ⟨count, hn, rfl⟩
    · obtain ⟨n, hn, h⟩ := bind_eq_ok.mp h
      exact absurd (.pop (by simp) key count w ws) hs
  case h_24 =>
    rw [parseSrandmemberCommand_toArgs] at h
    rcases words with _ | ⟨key, _ | ⟨count, _ | ⟨w, ws⟩⟩⟩
    · cases h
    · cases h
      rfl
    · obtain ⟨n, hn, h⟩ := bind_eq_ok.mp h
      cases h
      exact ⟨count, hn, rfl⟩
    · obtain ⟨n, hn, h⟩ := bind_eq_ok.mp h
      exact absurd (.sRandMember key count w ws) hs
  case h_8 =>
    obtain ⟨e, he⟩ | ⟨items, hne, hw, hi⟩ := parseMsetCommand_toArgs "MSET" words
    · cases he.symm.trans h
    · cases hi.symm.trans h
      exact ⟨hne, by rw [hw]⟩
  case h_16 =>
    rw [parseLsetCommand_toArgs] at h
    split at h
    · obtain ⟨i, hi, h⟩ := bind_eq_ok.mp h
      cases h
      exact ⟨_, hi, rfl⟩
    · cases h
  case h_18 =>
    rw [parseLindexCommand_toArgs] at h
    split at h
    · obtain ⟨i, hi, h⟩ := bind_eq_ok.mp h
      cases h
      exact ⟨_, hi, rfl⟩
    · cases h
  case h_19 =>
    rw [parseLrangeCommand_toArgs] at h
    split at h
    · obtain ⟨i, hi, h⟩ := bind_eq_ok.mp h
      obtain ⟨j, hj, h⟩ := bind_eq_ok.mp h
      cases h
      exact ⟨_, _, hi, hj, rfl⟩
    · cases h
  case h_22 =>
    rw [parseSismemberCommand_toArgs] at h
    split at h
    · cases h; rfl
    · cases h
  case h_26 =>
    rw [parseSmoveCommand_toArgs] at h
    split at h
    · cases h; rfl
    · cases h
  -- the commands of a deadline
  case h_34 | h_35 | h_36 | h_37 =>
    rw [parseExpireCommands_toArgs] at h
    split at h
    · obtain ⟨n, hn, h⟩ := bind_eq_ok.mp h
      cases h
      exact ⟨_, hn, rfl⟩
    · cases h
  case h_40 =>
    rw [parseSelectCommand_toArgs] at h
    split at h
    · split at h
      · next n hn =>
          cases h
          have hlt := parseUnsigned_lt hn
          exact ⟨_, by rw [hn, UInt8.toNat_ofNat', Nat.mod_eq_of_lt hlt], rfl⟩
      · split at h <;> cases h
    · cases h
  case h_41 =>
    rw [parseDbsizeCommand_toArgs] at h
    split at h
    · cases h; rfl
    · cases h
  case h_42 =>
    rw [parseFlushdbCommand_toArgs] at h
    split at h
    · cases h; rfl
    · split_ifs at h with hs ha
      · cases h; subst hs; rfl
      · cases h; subst ha; rfl
    · cases h
  case h_43 => cases h

theorem parseMsetCommand_odd (name : String) {words : List String} (h : words.length % 2 = 1) :
    ∃ m n, parseMsetCommand (toArgs (name :: words)) = .err (.wrongArity m n) := by
  rw [parseMsetCommand, checkMinArity_toArgs, length_toArgs]
  split
  · exact ⟨_, _, rfl⟩
  · have heven : (name :: words).length % 2 = 0 := by rw [List.length_cons]; omega
    exact ⟨_, _, if_pos heven⟩

/-- Words of SET without a place are an error of the syntax. -/
theorem rejected_of_exceedsOptions {key value : String} {opts : List String}
    (hx : exceedsOptions [] opts = true) (hs : ¬Surplus ("SET" :: key :: value :: opts)) :
    ∃ e, parseSetCommand (toArgs ("SET" :: key :: value :: opts)) = .err e ∧ BlamesWords e := by
  cases hset : parseSetCommand (toArgs ("SET" :: key :: value :: opts)) with
  | panic => exact absurd hset (parseSetCommand_ne_panic "SET" _)
  | ok cmd =>
      obtain ⟨os, hos, ho, rfl⟩ := ((parseSetCommand_eq_ok_iff "SET" key value opts).1 cmd).mp hset
      have hg : os.count .get ≤ 1 := Nat.le_of_not_lt fun hg => hs (.set key value hos ho hg)
      rw [exceedsOptions_of_spells hos (nodup_group ho hg) (by simp)] at hx
      cases hx
  | err e =>
      refine ⟨e, rfl, ?_⟩
      rw [parseSetCommand_toArgs] at hset
      rcases bind_eq_err.mp hset with herr | ⟨o, -, herr⟩
      · rcases setOptionsLoop_err herr with
          rfl | ⟨os, ws, token, number, rest, o, hargs, hos, ho, hn⟩
        · trivial
        · obtain ⟨hone, rfl⟩ := put_start_iff.mp ho
          simp only [List.head?_eq_none_iff] at hn
          obtain ⟨ws', tail, rfl, hws, htail⟩ := List.map_eq_append_iff.mp hargs
          obtain rfl : ws' = ws := toArgs_injective hws
          obtain ⟨_, tail, rfl, ht, htail⟩ := List.map_eq_cons_iff.mp htail
          obtain ⟨_, tail, rfl, hnumber, -⟩ := List.map_eq_cons_iff.mp htail
          cases ht
          cases hnumber
          exact absurd (.setNumber key value hos hone hn hx) hs
      · cases herr

/-- Words beyond the signature of an array without surplus are an error. -/
theorem rejected_of_exceeds {name : String} {words : List String} (hx : Exceeds (name :: words))
    (hs : ¬Surplus (name :: words)) :
    ∃ e, parse name (toArgs (name :: words)) = .err e ∧ BlamesWords e := by
  unfold parse
  split
  -- PING takes one word and drops the others
  case h_1 =>
    obtain ⟨n, hn, hlt⟩ := hx
    cases hn
    rcases words with _ | ⟨message, _ | ⟨w, ws⟩⟩
    · cases hlt
    · exact absurd hlt (Nat.lt_irrefl _)
    · exact absurd (.ping message w ws) hs
  case h_3 =>
    rcases words with _ | ⟨key, _ | ⟨value, opts⟩⟩
    · obtain ⟨n, hn, -⟩ := hx
      cases hn
    · obtain ⟨n, hn, -⟩ := hx
      cases hn
    · exact rejected_of_exceedsOptions hx hs
  -- the commands of one key
  case h_2 | h_5 | h_9 | h_17 | h_21 | h_25 | h_29 | h_30 | h_31 | h_32 | h_33 | h_38 | h_39 =>
    obtain ⟨n, hn, hlt⟩ := hx
    cases hn
    rw [parseKeyCommand_toArgs]
    rcases words with _ | ⟨key, _ | ⟨w, ws⟩⟩
    · cases hlt
    · exact absurd hlt (Nat.lt_irrefl _)
    · exact ⟨_, rfl, trivial⟩
  -- the pops take one count and drop what follows it
  case h_14 | h_15 | h_27 =>
    obtain ⟨n, hn, hlt⟩ := hx
    cases hn
    rcases words with _ | ⟨key, _ | ⟨count, _ | ⟨w, ws⟩⟩⟩
    · cases hlt
    · simp at hlt
    · exact absurd hlt (Nat.lt_irrefl _)
    · exact absurd (.pop (by simp) key count w ws) hs
  case h_24 =>
    obtain ⟨n, hn, hlt⟩ := hx
    cases hn
    rcases words with _ | ⟨key, _ | ⟨count, _ | ⟨w, ws⟩⟩⟩
    · cases hlt
    · simp at hlt
    · exact absurd hlt (Nat.lt_irrefl _)
    · exact absurd (.sRandMember key count w ws) hs
  case h_8 =>
    obtain ⟨m, n, he⟩ := parseMsetCommand_odd "MSET" hx
    exact ⟨_, he, trivial⟩
  -- the parsers of three words and of four
  case h_18 | h_22 | h_34 | h_35 | h_36 | h_37 =>
    obtain ⟨n, hn, hlt⟩ := hx
    cases hn
    first
      | rw [parseLindexCommand_toArgs]
      | rw [parseSismemberCommand_toArgs]
      | rw [parseExpireCommands_toArgs]
    rcases words with _ | ⟨key, _ | ⟨word, _ | ⟨w, ws⟩⟩⟩
    · cases hlt
    · simp at hlt
    · exact absurd hlt (Nat.lt_irrefl _)
    · exact ⟨_, rfl, trivial⟩
  case h_16 | h_19 | h_26 =>
    obtain ⟨n, hn, hlt⟩ := hx
    cases hn
    first
      | rw [parseLsetCommand_toArgs]
      | rw [parseLrangeCommand_toArgs]
      | rw [parseSmoveCommand_toArgs]
    rcases words with _ | ⟨key, _ | ⟨word, _ | ⟨word', _ | ⟨w, ws⟩⟩⟩⟩
    · cases hlt
    · simp at hlt
    · simp at hlt
    · exact absurd hlt (Nat.lt_irrefl _)
    · exact ⟨_, rfl, trivial⟩
  case h_40 =>
    obtain ⟨n, hn, hlt⟩ := hx
    cases hn
    rw [parseSelectCommand_toArgs]
    rcases words with _ | ⟨s, _ | ⟨w, ws⟩⟩
    · cases hlt
    · exact absurd hlt (Nat.lt_irrefl _)
    · exact ⟨_, rfl, trivial⟩
  case h_41 =>
    obtain ⟨n, hn, hlt⟩ := hx
    cases hn
    rw [parseDbsizeCommand_toArgs]
    rcases words with _ | ⟨w, ws⟩
    · cases hlt
    · exact ⟨_, rfl, trivial⟩
  case h_42 =>
    obtain ⟨n, hn, hlt⟩ := hx
    cases hn
    rw [parseFlushdbCommand_toArgs]
    rcases words with _ | ⟨s, _ | ⟨w, ws⟩⟩
    · cases hlt
    · exact absurd hlt (Nat.lt_irrefl _)
    · exact ⟨_, rfl, trivial⟩
  -- a list has no most
  case h_4 | h_6 | h_7 | h_10 | h_11 | h_12 | h_13 | h_20 | h_23 | h_28 =>
    obtain ⟨n, hn, -⟩ := hx
    cases hn
  case h_43 =>
    have hnone : maxArguments name = none := by
      unfold maxArguments
      split <;> first | rfl | contradiction
    unfold Exceeds at hx
    split at hx
    · next heq => cases heq; contradiction
    · next heq => cases heq; contradiction
    · next heq =>
        cases heq
        obtain ⟨n, hn, -⟩ := hx
        cases hnone.symm.trans hn
    · next heq => cases heq

/-- Surplus words do not keep the parser from accepting, and the command does not hold them, or
the parser blames a number. -/
theorem kept_of_surplus {name : String} {words : List String} (hs : Surplus (name :: words)) :
    (∃ cmd, parse name (toArgs (name :: words)) = .ok cmd ∧ ¬Spells cmd (name :: words)) ∨
    Exceeds (name :: words) ∧
      ∃ s, parse name (toArgs (name :: words)) = .err (.notAnInteger s) := by
  have counted {α : Type} {key count w : String} {ws : List String} {f : α → Command}
      {read : Outcome HandlerError α} {name : String}
      (hread : (∃ n, read = .ok n) ∨ read = .err (.notAnInteger count))
      (hx : Exceeds (name :: key :: count :: w :: ws))
      (hp : parse name (toArgs (name :: key :: count :: w :: ws)) = read >>= fun n => .ok (f n))
      (hno : ∀ n, ¬Spells (f n) (name :: key :: count :: w :: ws)) :
      (∃ cmd, parse name (toArgs (name :: key :: count :: w :: ws)) = .ok cmd ∧
        ¬Spells cmd (name :: key :: count :: w :: ws)) ∨
      Exceeds (name :: key :: count :: w :: ws) ∧
        ∃ s, parse name (toArgs (name :: key :: count :: w :: ws)) = .err (.notAnInteger s) := by
    rcases hread with ⟨n, rfl⟩ | rfl
    · exact .inl ⟨f n, hp, hno n⟩
    · exact .inr ⟨hx, count, hp⟩
  generalize hw : name :: words = all at hs
  cases hs with
  | ping message w ws =>
      cases hw
      exact .inl ⟨_, parsePingCommand_toArgs "PING" _, by simp [Spells]⟩
  | @pop name' hname key count w ws =>
      cases hw
      simp only [List.mem_cons, List.not_mem_nil, or_false] at hname
      rcases hname with rfl | rfl | rfl
      · exact counted (ok_or_notAnInteger _ count) ⟨2, rfl, by simp⟩
          (parsePopCommand_toArgs "LPOP" _ _)
          (by simp [Spells])
      · exact counted (ok_or_notAnInteger _ count) ⟨2, rfl, by simp⟩
          (parsePopCommand_toArgs "RPOP" _ _)
          (by simp [Spells])
      · exact counted (ok_or_notAnInteger _ count) ⟨2, rfl, by simp⟩
          (parsePopCommand_toArgs "SPOP" _ _)
          (by simp [Spells])
  | sRandMember key count w ws =>
      cases hw
      exact counted (ok_or_notAnInteger _ count) ⟨2, rfl, by simp⟩
        (parseSrandmemberCommand_toArgs "SRANDMEMBER" _) (by simp [Spells])
  | @set key value os opts hos ho hg =>
      cases hw
      refine .inl ⟨setOf key value os,
        ((parseSetCommand_eq_ok_iff "SET" key value opts).1 _).mpr ⟨os, hos, ho, rfl⟩, ?_⟩
      rintro ⟨os', opts', heq, hos', -, hg', -⟩
      cases heq
      rw [hos.unique hos'] at hg
      exact absurd hg' (Nat.not_le.mpr hg)
  | @setNumber key value os opts token number ws hos ho hn hx =>
      cases hw
      refine .inr ⟨hx, number, ?_⟩
      have hloop : setOptionsLoop (toArgs (opts ++ token :: number :: ws)) ⟨none, none, false⟩ =
          .err (.notAnInteger number) := by
        rw [toArgs, List.map_append]
        refine (setOptionsLoop_append hos (put_start_iff.mpr ⟨ho, rfl⟩) _).trans ?_
        exact setOptionsLoop_unreadable (by simpa only [List.head?_eq_none_iff] using hn) _
      show parseSetCommand _ = _
      rw [parseSetCommand_toArgs, hloop]
      rfl

/-- **Signatures.**  Whatever command the parser makes of an array has exactly the words of the
array for its signature, and words beyond the signature are an error of the arity or of the syntax,
unless some of the words are surplus. -/
theorem signature_iff (name : String) (words : List String) :
    ((∀ cmd, fromResp2 (bulkArray (name :: words)) = .ok cmd → Spells cmd (name :: words)) ∧
      (Exceeds (name :: words) →
        ∃ e, fromResp2 (bulkArray (name :: words)) = .err e ∧ BlamesWords e)) ↔
      ¬Surplus (name :: words) := by
  rw [fromResp2_bulkArray]
  constructor
  · rintro ⟨haccepted, hrejected⟩ hs
    rcases kept_of_surplus hs with ⟨cmd, hcmd, hnot⟩ | ⟨hx, s, herr⟩
    · exact hnot (haccepted cmd hcmd)
    · obtain ⟨e, he, hblames⟩ := hrejected hx
      rw [show toArgs (name :: words) = _ from rfl] at herr
      cases herr.symm.trans he
      exact hblames
  · exact fun hs => ⟨fun cmd h => spells_of_parse h hs, fun hx => rejected_of_exceeds hx hs⟩

/-- `PING a b` is accepted, and `b` is dropped. -/
theorem ping_drops : ¬∀ (name : String) (words : List String) (cmd : Command),
    fromResp2 (bulkArray (name :: words)) = .ok cmd → Spells cmd (name :: words) := fun h => by
  have hp := h "PING" ["a", "b"] (.ping (some "a")) rfl
  simp [Spells] at hp

end Command

end Thesaurus
