import Mathlib.Data.List.Infix
import Mathlib.Data.Nat.Find

/-!
# Support — append-only files

A file that is only appended to, and a buffered writer in front of it.  The kernel has taken what
was written, and the disk has what was synced; a crash leaves what was synced, with any part of
what came after it.

* `File.Leaves f p`: a crash may leave `p`.  `Grows.prefix_of_leaves`: what was synced once is
  left by every later crash.
* `BufWriter.writeAll`, `BufWriter.flushBuf`: the writer.  A write to the file takes some of the
  bytes, and then the next one fails or none is left; how many the kernel takes is given.
* `content_writeAll`: a write that does not go past the buffer is all or nothing, failures
  included.
* `exists_last_prefix`: what a crash leaves of a log that grew is one of its states, and a part of
  what came next.
-/

namespace AppendFile

variable {α : Type}

/-- A file that is only appended to. -/
structure File (α : Type) where
  /-- What the kernel has taken. -/
  written : List α
  /-- How much of it is on the disk. -/
  synced : Nat
  synced_le : synced ≤ written.length

namespace File

/-- The kernel takes `l`. -/
def write (f : File α) (l : List α) : File α where
  written := f.written ++ l
  synced := f.synced
  synced_le := by
    rw [List.length_append]
    exact Nat.le_add_right_of_le f.synced_le

/-- What the kernel has taken is brought to the disk. -/
def sync (f : File α) : File α := ⟨f.written, f.written.length, le_rfl⟩

/-- A crash may leave `p`. -/
def Leaves (f : File α) (p : List α) : Prop := p <+: f.written ∧ f.synced ≤ p.length

/-- The file `g` is a later state of `f`. -/
structure Grows (f g : File α) : Prop where
  written : f.written <+: g.written
  synced : f.synced ≤ g.synced

variable {f g h : File α}

theorem Grows.refl (f : File α) : f.Grows f := ⟨List.prefix_rfl, le_rfl⟩

theorem Grows.trans (hfg : f.Grows g) (hgh : g.Grows h) : f.Grows h :=
  ⟨hfg.written.trans hgh.written, hfg.synced.trans hgh.synced⟩

theorem grows_write (f : File α) (l : List α) : f.Grows (f.write l) :=
  ⟨List.prefix_append _ _, le_rfl⟩

theorem grows_sync (f : File α) : f.Grows f.sync := ⟨List.prefix_rfl, f.synced_le⟩

/-- What is synced is in every file that a later crash leaves. -/
theorem Grows.prefix_of_leaves (hg : f.Grows g) {l p : List α} (hl : l <+: f.written)
    (hs : l.length ≤ f.synced) (hp : g.Leaves p) : l <+: p :=
  List.prefix_of_prefix_length_le (hl.trans hg.written) hp.1 ((hs.trans hg.synced).trans hp.2)

end File

/-- A writer that collects what it is given in a buffer. -/
structure BufWriter (α : Type) where
  file : File α
  buf : List α
  capacity : Nat

namespace BufWriter

/-- What the writer has accepted: what is in the file, and what is still in the buffer. -/
def content (w : BufWriter α) : List α := w.file.written ++ w.buf

/-- The buffer goes to the file; the kernel takes `n`, if there are so many. -/
def flushBuf (n : Nat) (w : BufWriter α) : Bool × BufWriter α :=
  (decide (w.buf.length ≤ n), { w with file := w.file.write (w.buf.take n), buf := w.buf.drop n })

/-- The writer is given `l`.  The buffer is flushed when `l` does not fit behind it, and what is as
large as the buffer goes past it; the kernel takes `n` of the buffer and `m` of `l`. -/
def writeAll (n m : Nat) (l : List α) (w : BufWriter α) : Bool × BufWriter α :=
  if l.length < w.capacity - w.buf.length then (true, { w with buf := w.buf ++ l })
  else
    let flushed := if l.length > w.capacity - w.buf.length then w.flushBuf n else (true, w)
    if flushed.1 then
      if l.length ≥ flushed.2.capacity then
        (decide (l.length ≤ m), { flushed.2 with file := flushed.2.file.write (l.take m) })
      else (true, { flushed.2 with buf := flushed.2.buf ++ l })
    else flushed

variable {n m : Nat} {l : List α} {w : BufWriter α}

@[simp] theorem capacity_flushBuf : (w.flushBuf n).2.capacity = w.capacity := rfl

/-- A flush moves bytes from the buffer to the file. -/
@[simp] theorem content_flushBuf : (w.flushBuf n).2.content = w.content := by
  simp [flushBuf, content, File.write, List.append_assoc, List.take_append_drop]

theorem buf_flushBuf (h : (w.flushBuf n).1 = true) : (w.flushBuf n).2.buf = [] :=
  List.drop_eq_nil_of_le (of_decide_eq_true h)

/-- After a flush the file is all that was accepted. -/
theorem written_flushBuf (h : (w.flushBuf n).1 = true) :
    (w.flushBuf n).2.file.written = w.content := by
  rw [← content_flushBuf (n := n), content, buf_flushBuf h, List.append_nil]

theorem grows_flushBuf : w.file.Grows (w.flushBuf n).2.file := File.grows_write _ _

/-- The ways of a write: into the buffer, perhaps behind a flush; or past an empty buffer; or it
ends with a flush that fails. -/
theorem writeAll_cases (n m : Nat) (l : List α) (w : BufWriter α) :
    (∃ v : BufWriter α, (v = w ∨ v = (w.flushBuf n).2) ∧
        writeAll n m l w = (true, { v with buf := v.buf ++ l })) ∨
    (∃ v : BufWriter α, (v = w ∨ v = (w.flushBuf n).2) ∧ (v.buf = [] ∨ l = []) ∧
        w.capacity ≤ l.length ∧
        writeAll n m l w = (decide (l.length ≤ m), { v with file := v.file.write (l.take m) })) ∨
    writeAll n m l w = (false, (w.flushBuf n).2) := by
  rw [writeAll]
  by_cases hfast : l.length < w.capacity - w.buf.length
  · exact .inl ⟨w, .inl rfl, if_pos hfast⟩
  rw [if_neg hfast]
  by_cases hroom : l.length > w.capacity - w.buf.length
  · simp only [if_pos hroom]
    by_cases hok : (w.flushBuf n).1 = true
    · rw [if_pos hok]
      by_cases hlarge : l.length ≥ (w.flushBuf n).2.capacity
      · exact .inr (.inl ⟨_, .inr rfl, .inl (buf_flushBuf hok), hlarge, if_pos hlarge⟩)
      · exact .inl ⟨_, .inr rfl, if_neg hlarge⟩
    · rw [if_neg hok]
      exact .inr (.inr (Prod.ext ((Bool.not_eq_true _).mp hok) rfl))
  · simp only [if_neg hroom, if_true]
    by_cases hlarge : l.length ≥ w.capacity
    · refine .inr (.inl ⟨w, .inl rfl, ?_, hlarge, if_pos hlarge⟩)
      rcases Nat.eq_zero_or_pos w.capacity with hc | hc
      · exact .inr (List.length_eq_zero_iff.mp (by omega))
      · exact .inl (List.length_eq_zero_iff.mp (by omega))
    · exact .inl ⟨w, .inl rfl, if_neg hlarge⟩

theorem capacity_writeAll : (writeAll n m l w).2.capacity = w.capacity := by
  rcases writeAll_cases n m l w with ⟨v, rfl | rfl, h⟩ | ⟨v, rfl | rfl, -, -, h⟩ | h <;>
    rw [h] <;> rfl

theorem content_of_flushed {v : BufWriter α} (hv : v = w ∨ v = (w.flushBuf n).2) :
    v.content = w.content := by
  rcases hv with rfl | rfl
  · rfl
  · exact content_flushBuf

/-- What was accepted grows by the bytes of the write, or by a part of them. -/
theorem content_writeAll_prefix : (writeAll n m l w).2.content <+: w.content ++ l := by
  rcases writeAll_cases n m l w with ⟨v, hv, he⟩ | ⟨v, hv, hbuf, -, he⟩ | he
  all_goals rw [he]
  · rw [← content_of_flushed hv]
    exact (List.append_assoc _ _ _).symm ▸ List.prefix_rfl
  · rw [← content_of_flushed hv]
    rcases hbuf with hbuf | rfl
    · simp only [content, File.write, hbuf, List.append_nil]
      exact (List.prefix_append_right_inj _).mpr (List.take_prefix _ _)
    · simp [content, File.write]
  · rw [content_flushBuf]
    exact List.prefix_append _ _

/-- A write that succeeds is accepted as a whole. -/
theorem content_writeAll_of_ok (h : (writeAll n m l w).1 = true) :
    (writeAll n m l w).2.content = w.content ++ l := by
  rcases writeAll_cases n m l w with ⟨v, hv, he⟩ | ⟨v, hv, hbuf, -, he⟩ | he
  all_goals rw [he] at h ⊢
  · rw [← content_of_flushed hv]
    exact (List.append_assoc _ _ _).symm
  · rw [← content_of_flushed hv, List.take_of_length_le (of_decide_eq_true h)]
    rcases hbuf with hbuf | rfl
    · simp [content, File.write, hbuf]
    · simp [content, File.write]
  · cases h

/-- **All or nothing.**  A write that fits the buffer, or that the kernel takes completely, is
accepted as a whole or not at all. -/
theorem content_writeAll (h : l.length < w.capacity ∨ l.length ≤ m) :
    (writeAll n m l w).2.content =
      w.content ++ if (writeAll n m l w).1 = true then l else [] := by
  by_cases hok : (writeAll n m l w).1 = true
  · rw [if_pos hok, content_writeAll_of_ok hok]
  rw [if_neg hok, List.append_nil]
  rcases writeAll_cases n m l w with ⟨v, -, he⟩ | ⟨v, -, -, hlarge, he⟩ | he
  all_goals rw [he] at hok ⊢
  · exact absurd rfl hok
  · exact absurd (decide_eq_true (h.resolve_left (by omega))) hok
  · exact content_flushBuf

theorem grows_writeAll : w.file.Grows (writeAll n m l w).2.file := by
  rcases writeAll_cases n m l w with ⟨v, hv, he⟩ | ⟨v, hv, -, -, he⟩ | he
  all_goals rw [he]
  · rcases hv with rfl | rfl
    · exact .refl _
    · exact grows_flushBuf
  · rcases hv with rfl | rfl
    · exact File.grows_write _ _
    · exact grows_flushBuf.trans (File.grows_write _ _)
  · exact grows_flushBuf

end BufWriter

/-- The states of a log that grows. -/
theorem prefix_of_le {log : Nat → List α} {n : Nat} (hlog : ∀ i, i < n → log i <+: log (i + 1))
    {i j : Nat} (hij : i ≤ j) (hj : j ≤ n) : log i <+: log j := by
  induction j, hij using Nat.le_induction with
  | base => exact List.prefix_rfl
  | succ j _ ih => exact (ih (Nat.le_of_succ_le hj)).trans (hlog j hj)

/-- **The last state.**  A part of a log that grows is one of the log's states, and a part of what
the next step adds. -/
theorem exists_last_prefix {log : Nat → List α} {n : Nat}
    (hlog : ∀ i, i < n → log i <+: log (i + 1)) {p : List α} (h₀ : log 0 <+: p) (hp : p <+: log n) :
    ∃ j, j ≤ n ∧ log j <+: p ∧ (∀ i, i ≤ n → log i <+: p → i ≤ j) ∧
      (p = log j ∨ j < n ∧ p <+: log (j + 1) ∧ p ≠ log (j + 1)) := by
  classical
  obtain ⟨j, hj, hmax⟩ : ∃ j, (j ≤ n ∧ log j <+: p) ∧ ∀ i, i ≤ n → log i <+: p → i ≤ j :=
    ⟨Nat.findGreatest (fun i => log i <+: p) n,
      ⟨Nat.findGreatest_le n,
        Nat.findGreatest_spec (P := fun i => log i <+: p) (Nat.zero_le n) h₀⟩,
      fun i hi h => Nat.le_findGreatest hi h⟩
  refine ⟨j, hj.1, hj.2, hmax, ?_⟩
  rcases Nat.lt_or_ge j n with hlt | hge
  · have hnot : ¬log (j + 1) <+: p := fun h => absurd (hmax _ hlt h) (by omega)
    have hn := prefix_of_le hlog hlt le_rfl
    refine .inr ⟨hlt, ?_, fun h => hnot (h ▸ List.prefix_rfl)⟩
    rcases List.prefix_or_prefix_of_prefix hp hn with h | h
    · exact h
    · exact absurd h hnot
  · obtain rfl : j = n := le_antisymm hj.1 hge
    exact .inl (hp.eq_of_length_le hj.2.length_le)

end AppendFile
