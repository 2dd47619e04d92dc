import Thesaurus.Cells.Exec
import Thesaurus.Grammar.SetOptions

/-!
# Commands — DIGEST

DIGEST prints the hash of a string as sixteen hexadecimal digits; IFDEQ and IFDNE of SET read such
digits back.

* `parseUnsigned_hex16`: the parser reads what the executor prints, for every hash.
* `digest_set`: a SET with the reply of DIGEST compares with the string that was digested.
-/

namespace Thesaurus
open Bytes Command StoreInner

/-! ### Sixteen digits -/

theorem utf8_hex16 (n : UInt64) :
    utf8 (Executor.hex16 n) =
      List.replicate (16 - (Nat.toDigits 16 n.toNat).length) 48 ++
        (Nat.toDigits 16 n.toNat).map fun c => c.toNat.toUInt8 := by
  rw [Executor.hex16, utf8_ofList_ascii, List.leftpad, List.map_append, List.map_replicate]
  · rfl
  · intro c hc
    rw [List.leftpad, List.mem_append] at hc
    rcases hc with hc | hc
    · rw [List.eq_of_mem_replicate hc]
      decide
    · exact forall_mem_toDigits (P := fun c => c.toNat < 128) (by decide) (by decide) n.toNat c hc

/-- **The parser inverts the printer** on every hash, with or without zeros in front. -/
theorem parseUnsigned_hex16 (n : UInt64) :
    parseUnsigned 16 (2 ^ 64) (utf8 (Executor.hex16 n)) = some n.toNat := by
  have hdigits : digits 16 0 (utf8 (Executor.hex16 n)) = some n.toNat := by
    rw [utf8_hex16, digits_replicate (by decide), digits_toDigits (by decide) (by decide)]
  have hne : utf8 (Executor.hex16 n) ≠ [] := by
    rw [utf8_hex16]
    exact fun h => Nat.toDigits_ne_nil (List.map_eq_nil_iff.mp (List.append_eq_nil_iff.mp h).2)
  have hsign : (43 : UInt8) ∉ utf8 (Executor.hex16 n) := by
    rw [utf8_hex16, List.mem_append, not_or]
    constructor
    · exact fun h => absurd (List.eq_of_mem_replicate h) (by decide)
    · intro h
      obtain ⟨c, hc, he⟩ := List.mem_map.mp h
      exact forall_mem_toDigits (P := fun c => c.toNat.toUInt8 ≠ 43) (by decide) (by decide) n.toNat
        c hc he
  rw [parseUnsigned_of_not_mem hsign, magnitude, if_neg hne, hdigits, Option.filter_some,
    if_pos (decide_eq_true n.toNat_lt)]

theorem toDigest_hex16 (n : UInt64) : toDigest (Executor.hex16 n) = .ok n := by
  rw [toDigest, parseUnsigned_hex16, Option.map_some, UInt64.ofNat_toNat]
  rfl

/-! ### SET with a digest -/

variable {ex : Executor}

/-- The condition of IFDEQ holds for the strings with this hash. -/
theorem conditionMet_ifDeq_iff {u : UInt64} {prev : Option String} :
    ex.conditionMet (some (.ifDeq u)) prev = true ↔ ∃ v, prev = some v ∧ ex.digestValue v = u := by
  rw [Executor.conditionMet, Option.any_eq_true]
  simp only [beq_iff_eq]

/-- The condition of IFDNE holds for the strings with another hash. -/
theorem conditionMet_ifDne_iff {u : UInt64} {prev : Option String} :
    ex.conditionMet (some (.ifDne u)) prev = true ↔ ∃ v, prev = some v ∧ ex.digestValue v ≠ u := by
  rw [Executor.conditionMet, Option.any_eq_true]
  simp only [bne_iff_ne]

/-- SET with a single option, a condition. -/
theorem fromResp2_set_condition {c : SetCondition} {ws : List String}
    (h : (SetOption.condition c).Spells ws) (key value : String) :
    fromResp2 (bulkArray ("SET" :: key :: value :: ws)) =
      .ok (.set key value (some c) none false) := by
  have hspells : SpellsAll [.condition c] ws := by
    have hcons := SpellsAll.cons h .nil
    rwa [List.append_nil] at hcons
  rw [fromResp2_bulkArray]
  exact parseSetCommand_of_spells hspells "SET" key value

/-- **A digest can be fed back.**  Whatever the hash function: the reply of DIGEST for a live string
makes a SET with IFDEQ that parses and whose condition holds exactly for the current values with the
same hash, and a SET with IFDNE that parses and whose condition holds exactly for those with
another. -/
theorem digest_set (ex : Executor) (env : Env) (s : StoreInner) (key v d : String)
    (hlive : s.get env.clock.mono key = some (.str v))
    (hdigest : (ex.exec env (.digest key) s).1 = some (.bulkString (some d))) (w : String) :
    ∃ u,
      fromResp2 (bulkArray ["SET", key, w, "IFDEQ", d]) =
          .ok (.set key w (some (.ifDeq u)) none false) ∧
        fromResp2 (bulkArray ["SET", key, w, "IFDNE", d]) =
          .ok (.set key w (some (.ifDne u)) none false) ∧
        (∀ prev, ex.conditionMet (some (.ifDeq u)) prev = true ↔
          ∃ v', prev = some v' ∧ ex.digestValue v' = ex.digestValue v) ∧
        ∀ prev, ex.conditionMet (some (.ifDne u)) prev = true ↔
          ∃ v', prev = some v' ∧ ex.digestValue v' ≠ ex.digestValue v := by
  have hreply : (ex.exec env (.digest key) s).1 =
      some (.bulkString (some (Executor.hex16 (ex.digestValue v)))) := by
    show some (replyOf (fun v => RespValue.bulkString (v.map fun s =>
      Executor.hex16 (ex.digestValue s))) (Store.getString s env.clock.mono key)) = _
    rw [Store.getString, Store.get_eq_live, ← get_eq_live, hlive]
    rfl
  obtain rfl : Executor.hex16 (ex.digestValue v) = d :=
    Option.some.inj (RespValue.bulkString.inj (Option.some.inj (hreply.symm.trans hdigest)))
  have hread := toDigest_hex16 (ex.digestValue v)
  exact ⟨ex.digestValue v, fromResp2_set_condition (.ifDeq hread) key w,
    fromResp2_set_condition (.ifDne hread) key w, fun _ => conditionMet_ifDeq_iff,
    fun _ => conditionMet_ifDne_iff⟩

/-- The digest of `v` under a hash that is 255 everywhere. -/
theorem digest_set_padded :
    ∃ u,
      fromResp2 (bulkArray ["SET", "k", "w", "IFDEQ", "00000000000000ff"]) =
          .ok (.set "k" "w" (some (.ifDeq u)) none false) ∧
        fromResp2 (bulkArray ["SET", "k", "w", "IFDNE", "00000000000000ff"]) =
          .ok (.set "k" "w" (some (.ifDne u)) none false) ∧
        (∀ prev, (Executor.mk false fun _ => 255).conditionMet (some (.ifDeq u)) prev = true ↔
          ∃ v', prev = some v' ∧ (Executor.mk false fun _ => 255).digestValue v' =
            (Executor.mk false fun _ => 255).digestValue "v") ∧
        ∀ prev, (Executor.mk false fun _ => 255).conditionMet (some (.ifDne u)) prev = true ↔
          ∃ v', prev = some v' ∧ (Executor.mk false fun _ => 255).digestValue v' ≠
            (Executor.mk false fun _ => 255).digestValue "v" :=
  digest_set ⟨false, fun _ => 255⟩ (Env.at 0 0) (Store.new.putData "k" (.str "v")) "k" "v"
    "00000000000000ff" rfl rfl "w"

end Thesaurus
