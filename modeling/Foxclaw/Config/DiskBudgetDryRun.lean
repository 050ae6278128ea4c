import Foxclaw.Config.DiskBudgetSound

/-!
# The dry run of a sweep

A dry run does not touch the files: it remembers what it would have removed, and takes the sizes
from the listing. A sound sweep removes nothing else that has bytes, so that the dry run goes step
by step with the run (`Sound.agrees`).
-/

namespace Foxclaw.Config.DiskBudget

open Foxclaw.Config.SessionStore (SessionEntry Store)
open Foxclaw.Sweep

variable {δ : Type}
variable {env : BudgetEnv δ} {dir : SessionsDir} {storePath : String} {store : Store δ}
  {active : Option String}

/-- The states of a run and of a dry run agree on what is reported, and on the sizes of the files
that a sound sweep removes. -/
structure Agrees (dir : SessionsDir) (s t : SweepState δ) : Prop where
  entries : SameStore s t
  total : t.total = s.total
  removedFiles : t.removedFiles = s.removedFiles
  freedBytes : t.freedBytes = s.freedBytes
  bytes : ∀ path, (dir.disk path).getD 0 = 0 ∨ (dir.sizeOf path).isSome → (s.disk path).getD 0 =
    if path ∈ t.simulatedRemovedPaths then 0 else (dir.sizeOf path).getD 0

theorem removeFileForBudget_counts (dir : SessionsDir) (dryRun : Bool) (path : String)
    (s : SweepState δ) : (removeFileForBudget dir dryRun path s).1.removedFiles = s.removedFiles ∧
      (removeFileForBudget dir dryRun path s).1.freedBytes = s.freedBytes := by
  unfold removeFileForBudget
  dsimp only
  split
  · split
    · exact ⟨rfl, rfl⟩
    · split <;> exact ⟨rfl, rfl⟩
  · split <;> exact ⟨rfl, rfl⟩

theorem removed_dry (path : String) (t : SweepState δ) : (removeFileForBudget dir true path t).2 =
    if path ∈ t.simulatedRemovedPaths then 0 else (dir.sizeOf path).getD 0 := by
  unfold removeFileForBudget
  dsimp only
  rw [if_pos rfl]
  split
  · rfl
  · split
    · omega
    · rfl

theorem bytes_dry (path path' : String) (t : SweepState δ) :
    (if path' ∈ (removeFile dir true path t).simulatedRemovedPaths then 0
      else (dir.sizeOf path').getD 0) =
    if path' = path then 0
    else if path' ∈ t.simulatedRemovedPaths then 0 else (dir.sizeOf path').getD 0 := by
  have hsimulated : (removeFile dir true path t).simulatedRemovedPaths =
      (removeFileForBudget dir true path t).1.simulatedRemovedPaths := by
    unfold removeFile
    dsimp only
    split <;> rfl
  rw [hsimulated]
  unfold removeFileForBudget
  dsimp only
  rw [if_pos rfl]
  by_cases heq : path' = path
  · subst heq
    split
    · simp
    · rename_i hnot
      split
      · rename_i hzero
        rw [if_pos rfl]
        exact Nat.le_zero.mp hzero
      · simp
  · rw [if_neg heq]
    split
    · rfl
    · split
      · rfl
      · simp [heq]

variable {s t : SweepState δ}

theorem Agrees.removeFile (h : Agrees dir s t) {path : String}
    (hpath : (dir.disk path).getD 0 = 0 ∨ (dir.sizeOf path).isSome) :
    Agrees dir (removeFile dir false path s) (removeFile dir true path t) := by
  have hdeleted : (removeFileForBudget dir true path t).2 = (removeFileForBudget dir false path s).2 := by
    rw [removed_dry, removed_real, h.bytes path hpath]
  have hcounts (dryRun : Bool) (u : SweepState δ) :
      (DiskBudget.removeFile dir dryRun path u).removedFiles =
        (if (removeFileForBudget dir dryRun path u).2 ≤ 0 then u.removedFiles else u.removedFiles + 1) ∧
      (DiskBudget.removeFile dir dryRun path u).freedBytes =
        u.freedBytes + (removeFileForBudget dir dryRun path u).2 := by
    have hsame := removeFileForBudget_counts dir dryRun path u
    unfold DiskBudget.removeFile
    dsimp only
    split
    · rename_i hzero
      refine ⟨hsame.1, hsame.2.trans ?_⟩
      rw [Nat.le_zero.mp hzero, Nat.add_zero]
    · exact ⟨congrArg (· + 1) hsame.1, congrArg (· + _) hsame.2⟩
  refine ⟨?_, ?_, ?_, ?_, ?_⟩
  · exact ((removeFile_sameStore path s).symm.trans h.entries).trans (removeFile_sameStore path t)
  · rw [total_removeFile, total_removeFile, hdeleted, h.total]
  · rw [(hcounts true t).1, (hcounts false s).1, hdeleted, h.removedFiles]
  · rw [(hcounts true t).2, (hcounts false s).2, hdeleted, h.freedBytes]
  · intro path' hpath'
    rw [bytes_dry, disk_removeFile, ← h.bytes path' hpath']
    split <;> rfl

/-- Taking an entry out does not touch the files. -/
theorem countDown_withFiles (env : BudgetEnv δ) (key : String) (entry : SessionEntry δ)
    (s : SweepState δ) (disk : String → Option ℕ) (simulated : List String) (files bytes : ℕ)
    (log : List RemovedFile) :
    countDown env key entry { s with
        disk := disk, simulatedRemovedPaths := simulated, removedFiles := files, freedBytes := bytes
        fileRemovals := log } =
      { countDown env key entry s with
        disk := disk, simulatedRemovedPaths := simulated, removedFiles := files, freedBytes := bytes
        fileRemovals := log } := by
  unfold countDown
  dsimp only
  split
  · rfl
  · split <;> rfl

theorem Agrees.countDown (h : Agrees dir s t) (key : String)
    (entry : SessionEntry δ) : Agrees dir (countDown env key entry s) (countDown env key entry t) := by
  have ht : t = { s with
      disk := t.disk, simulatedRemovedPaths := t.simulatedRemovedPaths
      removedFiles := t.removedFiles, freedBytes := t.freedBytes
      fileRemovals := t.fileRemovals } := by
    cases t
    simp only [SweepState.mk.injEq, true_and, and_true]
    exact ⟨h.entries.store, h.entries.projectedStoreBytes, h.total, h.entries.removedEntries,
      h.entries.sessionIdRefCounts, h.entries.removals⟩
  obtain ⟨counts, hs⟩ := countDown_cases env key entry s
  have hcount := (congrArg (DiskBudget.countDown env key entry) ht).trans
    (countDown_withFiles env key entry s t.disk t.simulatedRemovedPaths t.removedFiles t.freedBytes
      t.fileRemovals)
  rw [hcount, hs]
  exact ⟨⟨rfl, rfl, rfl, rfl, rfl⟩, rfl, h.removedFiles, h.freedBytes, h.bytes⟩

theorem Agrees.applyStep (h : Agrees dir s t) (hs : Kept env s) (ht : Kept env t)
    (x : Step) (hpath : ∀ path, stepPath env active s x = some path →
      (dir.disk path).getD 0 = 0 ∨ (dir.sizeOf path).isSome) :
    Agrees dir (applyStep env dir false active s x) (applyStep env dir true active t x) := by
  cases x with
  | file path => exact h.removeFile (hpath path rfl)
  | entry key =>
    change Agrees dir (removeEntry env dir false active s key) (removeEntry env dir true active t key)
    cases hactive : isActive env active key with
    | true =>
      rw [removeEntry_of_active hactive, removeEntry_of_active hactive]
      exact h
    | false =>
      cases hget : s.store.get? key with
      | none =>
        rw [removeEntry_of_absent hget, removeEntry_of_absent (h.entries.store ▸ hget)]
        exact h
      | some entry =>
        have hget' : t.store.get? key = some entry := h.entries.store ▸ hget
        have hlast : IsLast env t entry ↔ IsLast env s entry := by
          unfold IsLast
          rw [h.entries.store]
        have hcount : Agrees dir (DiskBudget.countDown env key entry s)
            (DiskBudget.countDown env key entry t) := h.countDown key entry
        rw [stepPath_entry hactive hget] at hpath
        obtain ⟨hnot, heq⟩ | ⟨hyes, path, htranscript, heq⟩ := removeEntry_eq dir false hs hactive hget
        · obtain ⟨-, heq'⟩ | ⟨hyes', path, htranscript', -⟩ := removeEntry_eq dir true ht hactive hget'
          · rw [heq, heq']
            exact hcount
          · obtain hnot | hnot := hnot
            · exact absurd (hlast.mp hyes') hnot
            · exact absurd (hnot.symm.trans htranscript') (by simp)
        · obtain ⟨hnot', -⟩ | ⟨-, path', htranscript', heq'⟩ := removeEntry_eq dir true ht hactive hget'
          · obtain hnot' | hnot' := hnot'
            · exact absurd (hlast.mpr hyes) hnot'
            · exact absurd (hnot'.symm.trans htranscript) (by simp)
          · obtain rfl := Option.some.inj (htranscript.symm.trans htranscript')
            rw [heq, heq']
            exact hcount.removeFile (hpath path (by rw [if_pos hyes, htranscript]))

variable {bound : ℤ} {pre post : List Step}

/-- A dry run of a sound sweep agrees with the run, step by step. -/
theorem Sound.agrees (h : Sound env dir storePath store active bound)
    (hstops : Stops env dir storePath store active bound pre post) (p : List Step) :
    ∀ q, pre = p ++ q → Agrees dir (realRun env dir storePath store active p)
      (exec env dir true active p (startState env dir storePath store)) := by
  induction p using List.reverseRecOn with
  | nil =>
    intro q hpre
    refine ⟨⟨rfl, rfl, rfl, rfl, rfl⟩, rfl, rfl, rfl, ?_⟩
    intro path hpath
    change (dir.disk path).getD 0 = if path ∈ [] then 0 else (dir.sizeOf path).getD 0
    rw [if_neg List.not_mem_nil]
    unfold SessionsDir.disk at *
    cases hsize : dir.sizeOf path with
    | none => simpa [hsize] using hpath
    | some size => rfl
  | append_singleton p x ih =>
    intro q hpre
    rw [List.append_assoc] at hpre
    have hplan : plan env dir store = p ++ x :: (q ++ post) := by
      rw [hstops.split, hpre]
      simp
    have hturn := (hstops.turn_iff (h.accounted hstops) (x := x)).mpr (by simp [hpre])
    rw [realRun_concat, exec_concat]
    refine (ih (x :: q) hpre).applyStep (kept_realRun p) (kept_exec Kept.start p) x ?_
    rw [stepPath_eq_stepFile hplan]
    intro path hpath
    cases hsize : dir.disk path with
    | none => exact .inl rfl
    | some size =>
      obtain hzero | ⟨-, hlisted⟩ := h.counted hturn hpath hsize
      · exact .inl hzero
      · exact .inr hlisted

/-- The dry run of a sound sweep stops where the run does. -/
theorem Sound.dry_eq (h : Sound env dir storePath store active bound)
    (hstops : Stops env dir storePath store active bound pre post) :
    sweepTo (applyStep env dir true active) (·.total) bound (plan env dir store)
      (startState env dir storePath store) =
        exec env dir true active pre (startState env dir storePath store) := by
  have htotal (p q : List Step) (hpre : pre = p ++ q) :
      (exec env dir true active p (startState env dir storePath store)).total =
        (realRun env dir storePath store active p).total := (h.agrees hstops p q hpre).total
  rw [hstops.split]
  refine sweepTo_of_prefix ?_ ?_
  · intro p x q hpre
    exact (hstops.above p x q hpre).trans_eq (htotal p (x :: q) hpre).symm
  · exact hstops.stop.imp_right (htotal pre [] (List.append_nil pre).symm).trans_le

end Foxclaw.Config.DiskBudget
