import Thesaurus.Model.Aof

/-!
# Log — appends

What the AOF holds when system calls fail and when the machine crashes.

* `appends_survive`: after any calls with any outcomes, a crash leaves whole entries and perhaps
  a part of the next one; every entry that was accepted before the last fsync is among them.
* `append_cut`: an entry that goes past the buffer can be cut in the middle of the file.
-/

namespace Thesaurus
open AppendFile

/-- The entries that are handed to the writer. -/
def AofCall.entries : List AofCall → List Bytes
  | []                           => []
  | .append _ cmdBytes :: calls => cmdBytes :: entries calls
  | .fsync _ :: calls            => entries calls

/-- The entry fits the buffer, or the kernel takes it whole. -/
def AofCall.Whole : AofCall → Prop
  | .append io cmdBytes => cmdBytes.length < 8192 ∨ cmdBytes.length ≤ io.direct
  | .fsync _            => True

/-- The file is `bytes` and whole entries: the accepted ones are among those the kernel has, and
the durable ones among those on the disk. -/
structure Ledger.Intact (bytes : Bytes) (entries : List Bytes) (l : Ledger) : Prop where
  capacity : l.writer.file.capacity = 8192
  whole : ∃ onDisk taken rest : List Bytes,
    l.writer.content = bytes ++ (taken ++ rest).flatten ∧
    bytes ++ taken.flatten <+: l.writer.written ∧
    onDisk <+: taken ∧ (bytes ++ onDisk.flatten).length ≤ l.writer.file.file.synced ∧
    l.durable.Sublist onDisk ∧ l.accepted.Sublist taken ∧ (taken ++ rest).Sublist entries

variable {bytes : Bytes} {entries : List Bytes} {l : Ledger}

theorem Ledger.intact_start (bytes : Bytes) (fsyncMode : AppendFSyncMode) :
    Ledger.Intact bytes [] (.start bytes fsyncMode) where
  capacity := rfl
  whole := ⟨[], [], [], by simp [start, AofWriter.new, BufWriter.content],
    by simp [start, AofWriter.new], List.nil_prefix, by simp [start, AofWriter.new],
    List.nil_sublist _, List.nil_sublist _, List.nil_sublist _⟩

/-- An append. -/
theorem Ledger.Intact.append (h : l.Intact bytes entries) {io : AppendIo} {cmdBytes : Bytes}
    (hw : cmdBytes.length < 8192 ∨ cmdBytes.length ≤ io.direct) :
    (l.step (.append io cmdBytes)).Intact bytes (entries ++ [cmdBytes]) := by
  obtain ⟨hcap, onDisk, taken, rest, hc, hwr, hpre, hsync, hd, ha, hsub⟩ := h
  have hcontent : (l.writer.file.writeAll io.room io.direct cmdBytes).2.content =
      l.writer.content ++ if (l.writer.file.writeAll io.room io.direct cmdBytes).1 = true
        then cmdBytes else [] := BufWriter.content_writeAll (hcap ▸ hw)
  have hcapacity : (l.writer.file.writeAll io.room io.direct cmdBytes).2.capacity = 8192 :=
    BufWriter.capacity_writeAll.trans hcap
  have hgrows : l.writer.file.file.Grows
      (l.writer.file.writeAll io.room io.direct cmdBytes).2.file := BufWriter.grows_writeAll
  have hone : (taken ++ rest ++ [cmdBytes]).Sublist (entries ++ [cmdBytes]) :=
    hsub.append (List.Sublist.refl _)
  rcases AofWriter.append_cases io cmdBytes l.writer with
    ⟨v, hv, he⟩ | ⟨v, hv, -, he⟩ | ⟨v, hv, hf, he⟩
  all_goals rw [hv] at hcontent hcapacity hgrows
  -- the writer refuses the entry
  · rw [if_neg Bool.false_ne_true, List.append_nil] at hcontent
    simp only [step, he, Bool.false_eq_true, if_false, false_and]
    exact ⟨hcapacity, onDisk, taken, rest, hcontent.trans hc, hwr.trans hgrows.written, hpre,
      hsync.trans hgrows.synced, hd, ha, hsub.trans (List.sublist_append_left _ _)⟩
  -- the entry stays in the buffer, with a part of it perhaps in the file
  · rw [if_pos rfl, hc] at hcontent
    simp only [step, he, Bool.false_eq_true, if_false, false_and]
    have hg := hgrows.trans (BufWriter.grows_flushBuf (n := io.flush))
    refine ⟨hcapacity, onDisk, taken, rest ++ [cmdBytes], ?_, hwr.trans hg.written, hpre,
      hsync.trans hg.synced, hd, ha, ?_⟩
    · show (v.flushBuf io.flush).2.content = _
      rw [BufWriter.content_flushBuf]
      simp [hcontent]
    · rwa [← List.append_assoc]
  -- the entry goes to the file, behind all that was in the buffer
  · rw [if_pos rfl, hc] at hcontent
    have hg := hgrows.trans (BufWriter.grows_flushBuf (n := io.flush))
    have hwritten : (v.flushBuf io.flush).2.file.written =
        bytes ++ (taken ++ rest ++ [cmdBytes]).flatten := by
      rw [BufWriter.written_flushBuf hf]
      simp [hcontent]
    have hfull : (v.flushBuf io.flush).2.content =
        bytes ++ (taken ++ rest ++ [cmdBytes] ++ []).flatten := by
      rw [BufWriter.content_flushBuf]
      simp [hcontent]
    have htaken : taken.Sublist (taken ++ rest ++ [cmdBytes]) := by
      rw [List.append_assoc]
      exact List.sublist_append_left _ _
    have haccepted : (l.accepted ++ [cmdBytes]).Sublist (taken ++ rest ++ [cmdBytes]) :=
      (ha.trans (List.sublist_append_left _ _)).append (List.Sublist.refl _)
    have hpre' : onDisk <+: taken ++ rest ++ [cmdBytes] := by
      rw [List.append_assoc]
      exact hpre.trans (List.prefix_append _ _)
    by_cases hm : l.writer.fsyncMode = .always
    · rw [if_pos hm] at he
      cases hs : io.sync with
      | false =>
          rw [hs] at he
          simp only [step, he, Bool.false_eq_true, if_false, false_and]
          exact ⟨hcapacity, onDisk, taken ++ rest ++ [cmdBytes], [], hfull,
            hwritten ▸ List.prefix_rfl, hpre', hsync.trans hg.synced, hd, ha.trans htaken,
            by rwa [List.append_nil]⟩
      | true =>
          rw [hs] at he
          simp only [step, he, if_true, AofWriter.fsyncMode_syncData, hm, and_self]
          refine ⟨hcapacity, taken ++ rest ++ [cmdBytes], taken ++ rest ++ [cmdBytes], [], hfull,
            hwritten ▸ List.prefix_rfl, List.prefix_rfl, ?_, haccepted, haccepted,
            by rwa [List.append_nil]⟩
          exact (congrArg List.length hwritten).ge
    · rw [if_neg hm] at he
      simp only [step, he, if_true, hm, and_false, if_false]
      exact ⟨hcapacity, onDisk, taken ++ rest ++ [cmdBytes], [], hfull,
        hwritten ▸ List.prefix_rfl, hpre', hsync.trans hg.synced, hd, haccepted,
        by rwa [List.append_nil]⟩

/-- An fsync. -/
theorem Ledger.Intact.fsync (h : l.Intact bytes entries) (ok : Bool) :
    (l.step (.fsync ok)).Intact bytes entries := by
  obtain ⟨hcap, onDisk, taken, rest, hc, hwr, hpre, hsync, hd, ha, hsub⟩ := h
  by_cases hm : l.writer.fsyncMode = .everySec
  · cases ok with
    | false =>
        simp only [step, AofWriter.fsyncTask, if_pos hm, Bool.false_eq_true, false_and, if_false]
        exact ⟨hcap, onDisk, taken, rest, hc, hwr, hpre, hsync, hd, ha, hsub⟩
    | true =>
        simp only [step, AofWriter.fsyncTask, hm, and_self, if_true]
        exact ⟨hcap, taken, taken, rest, hc, hwr, List.prefix_rfl, hwr.length_le, ha, ha, hsub⟩
  · simp only [step, AofWriter.fsyncTask, hm, and_false, if_false]
    exact ⟨hcap, onDisk, taken, rest, hc, hwr, hpre, hsync, hd, ha, hsub⟩

theorem Ledger.Intact.run (h : l.Intact bytes entries) {calls : List AofCall}
    (hw : ∀ call ∈ calls, call.Whole) :
    (l.run calls).Intact bytes (entries ++ AofCall.entries calls) := by
  induction calls generalizing l entries with
  | nil => rwa [AofCall.entries, List.append_nil]
  | cons call calls ih =>
      have hcalls : ∀ call ∈ calls, call.Whole := fun c hc => hw c (List.mem_cons_of_mem _ hc)
      cases call with
      | append io cmdBytes =>
          have h' := ih (h.append (hw _ List.mem_cons_self)) hcalls
          rw [List.append_assoc] at h'
          exact h'
      | fsync ok => exact ih (h.fsync ok) hcalls

/-- What a crash leaves of an intact file. -/
theorem Ledger.Intact.survives (h : l.Intact bytes entries) {p : Bytes}
    (hp : l.writer.file.file.Leaves p) :
    ∃ kept rest : List Bytes,
      bytes ++ kept.flatten <+: p ∧ p <+: bytes ++ (kept ++ rest).flatten ∧
      l.durable.Sublist kept ∧ (p = l.writer.written → l.accepted.Sublist kept) ∧
      (kept ++ rest).Sublist entries := by
  obtain ⟨-, onDisk, taken, rest, hc, hwr, ⟨later, hlater⟩, hsync, hd, ha, hsub⟩ := h
  have hpc : p <+: bytes ++ (taken ++ rest).flatten := hc ▸ hp.1.trans (List.prefix_append _ _)
  by_cases hall : p = l.writer.written
  · exact ⟨taken, rest, hall ▸ hwr, hpc, hd.trans (hlater ▸ List.sublist_append_left _ _),
      fun _ => ha, hsub⟩
  · refine ⟨onDisk, later ++ rest, ?_, ?_, hd, fun h => absurd h hall, ?_⟩
    · refine (File.Grows.refl _).prefix_of_leaves (List.IsPrefix.trans ?_ hwr) hsync hp
      rw [← hlater, List.flatten_append, ← List.append_assoc]
      exact List.prefix_append _ _
    · rwa [← List.append_assoc, hlater]
    · rwa [← List.append_assoc, hlater]

/-- **Appends survive.**  Any number of connections append to a file of `bytes`, in any mode, and
any of the system calls fail; every entry is shorter than the buffer, or is taken whole.  What a
crash leaves is the old bytes and whole entries, in the order of the appends, with perhaps a part
of one more; every entry that was accepted before the last fsync is among them.  When only the
process is gone and the file is as the kernel has it, every accepted entry is. -/
theorem appends_survive (fsyncMode : AppendFSyncMode) (bytes : Bytes) {calls : List AofCall}
    (hw : ∀ call ∈ calls, call.Whole) {p : Bytes}
    (hp : ((Ledger.start bytes fsyncMode).run calls).writer.file.file.Leaves p) :
    let l := (Ledger.start bytes fsyncMode).run calls
    ∃ kept rest : List Bytes,
      bytes ++ kept.flatten <+: p ∧ p <+: bytes ++ (kept ++ rest).flatten ∧
      l.durable.Sublist kept ∧ (p = l.writer.written → l.accepted.Sublist kept) ∧
      (kept ++ rest).Sublist (AofCall.entries calls) := by
  intro l
  have hl : l.Intact bytes ([] ++ AofCall.entries calls) :=
    (Ledger.intact_start bytes fsyncMode).run hw
  exact hl.survives hp

/-- A SET that is fsynced, and a DEL of which the kernel takes three bytes. -/
theorem appends_survive_set : ∃ kept rest : List Bytes,
    kept.flatten <+: encode (bulkArray ["SET", "k", "v"]) ++ [42, 50, 13] ∧
    encode (bulkArray ["SET", "k", "v"]) ++ [42, 50, 13] <+: (kept ++ rest).flatten ∧
    [encode (bulkArray ["SET", "k", "v"])].Sublist kept ∧
    (kept ++ rest).Sublist
      [encode (bulkArray ["SET", "k", "v"]), encode (bulkArray ["DEL", "k"])] := by
  obtain ⟨kept, rest, hk, hp, hd, -, hs⟩ := appends_survive .always []
    (show ∀ call ∈ [AofCall.append ⟨0, 0, 64, true⟩ (encode (bulkArray ["SET", "k", "v"])),
        .append ⟨0, 0, 3, true⟩ (encode (bulkArray ["DEL", "k"]))], call.Whole by
      intro call hc
      simp only [List.mem_cons, List.not_mem_nil, or_false] at hc
      rcases hc with rfl | rfl <;> exact .inl (by decide))
    (show File.Leaves _ (encode (bulkArray ["SET", "k", "v"]) ++ [42, 50, 13]) from
      ⟨by decide, by decide⟩)
  exact ⟨kept, rest, hk, hp, hd, hs⟩

/-- An entry that goes past the buffer can be cut, and the next one comes behind the cut. -/
theorem append_cut (fsyncMode : AppendFSyncMode) (bytes : Bytes) {entry next : Bytes} {m : Nat}
    (he : 8192 ≤ entry.length) (hm : m < entry.length) (hn : next.length < 8192) :
    let l := (Ledger.start bytes fsyncMode).run
      [.append ⟨0, m, 0, true⟩ entry, .append ⟨0, 0, next.length, true⟩ next]
    l.accepted = [next] ∧ l.writer.written = bytes ++ entry.take m ++ next := by
  have hfirst : (Ledger.start bytes fsyncMode).step (.append ⟨0, m, 0, true⟩ entry) =
      ⟨⟨⟨(AofWriter.new bytes fsyncMode).file.file.write (entry.take m), [], 8192⟩, fsyncMode⟩,
        [], []⟩ := by
    have hslow : ¬entry.length < 8192 - 0 := by omega
    have hcut : ¬entry.length ≤ m := by omega
    simp [Ledger.step, Ledger.start, AofWriter.append, AofWriter.new, BufWriter.writeAll,
      BufWriter.flushBuf, hslow, hcut, he, File.write]
  intro l
  have hl : l = (Ledger.mk ⟨⟨(AofWriter.new bytes fsyncMode).file.file.write (entry.take m), [],
      8192⟩, fsyncMode⟩ [] []).step (.append ⟨0, 0, next.length, true⟩ next) := by
    rw [← hfirst]
    rfl
  rw [hl]
  by_cases hmode : fsyncMode = .always <;>
    simp [Ledger.step, AofWriter.append, AofWriter.syncData, AofWriter.new, BufWriter.writeAll,
      BufWriter.flushBuf, File.write, File.sync, hn, hmode]

end Thesaurus
