import Foxclaw.Config.DiskBudgetDryRun

/-!
# A sweep is exact when it is sound

## What is proved

* `exact_realRun` — whatever the directory and the store are, a sweep keeps the active entry, takes
  the entries in order, stops in time and goes on till then.
* `sound_of_exact` — a sweep whose total is right, and which leaves the transcripts of the entries
  that are left, is sound.
* `enforces_iff_sound` — for each maintenance and mode, `enforceSessionDiskBudget` does what is
  asked exactly when there is no sweep or the sweep is sound.
* `shared_transcript_removed` — of two sessions with one transcript, the older takes it along.
-/

namespace Foxclaw.Config.DiskBudget

open Foxclaw.Config.SessionStore (SessionEntry Store)
open List Option Foxclaw.Sweep

variable {δ : Type}
variable {env : BudgetEnv δ} {dir : SessionsDir} {storePath : String} {store : Store δ}
  {active : Option String}

/-! ### Sound sweeps are exact -/

variable {pre post : List Step} {bound : ℤ}

theorem mem_plan_file {file : SessionsDirFileStat} (h : file ∈ removableFileQueue env dir store) :
    .file file.canonicalPath ∈ plan env dir store :=
  mem_append_left _ (List.mem_map_of_mem h)

theorem mem_plan_entry {key : String} {entry : SessionEntry δ} (h : store.get? key = some entry) :
    .entry key ∈ plan env dir store :=
  mem_append_right _ (List.mem_map_of_mem (mem_keysByAge.mpr ⟨entry, h⟩))

/-- A file that goes with one of the steps taken is gone. -/
theorem gone_of_mem (hstops : Stops env dir storePath store active bound pre post) {x : Step}
    {path : String} (hmem : x ∈ pre) (hpath : stepFile env store active x = some path) :
    (realRun env dir storePath store active pre).disk path = none := by
  rw [disk_realRun pre post hstops.split]
  exact if_pos (List.mem_filterMap.mpr ⟨x, hmem, hpath⟩)

/-- What a sweep does, whatever the directory and the store are, if its total is right and it leaves
the transcripts of the entries that are left. -/
theorem exact_realRun (hstops : Stops env dir storePath store active bound pre post)
    (hacc : Accounted env dir storePath (realRun env dir storePath store active pre))
    (htranscripts : ∀ key entry path,
      (realRun env dir storePath store active pre).store.get? key = some entry →
        transcriptOf env entry = some path → (dir.disk path).isSome →
          ((realRun env dir storePath store active pre).disk path).isSome)
    {reported : Option SessionDiskBudgetSweepResult} {warnOnly : Bool}
    (htotal : ∀ result, reported = some result →
      result.totalBytesAfter = (realRun env dir storePath store active pre).total)
    (hbound : ∀ result, reported = some result → result.highWaterBytes = bound ∨
      pre = [] ∧ (result.overBudget = true → warnOnly = true)) :
    Exact env dir storePath store active warnOnly (realRun env dir storePath store active pre) reported
      reported where
  total result hresult := (htotal result hresult).trans hacc
  keepsActive key entry hactive hget := by
    rw [get?_realRun, if_neg (fun hgone => by simp [hactive] at hgone), hget]
  transcripts := htranscripts
  oldestFirst := oldestFirst_exec hstops.split
  removed key entry hget hgone := removals_of_gone Kept.start pre hget hgone
  removedFiles path hdisk hgone := by
    rw [disk_realRun pre post hstops.split] at hgone
    have hmem : path ∈ pre.filterMap (stepFile env store active) := by
      by_contra hnot
      rw [diskLeft, if_neg hnot] at hgone
      simp [hgone] at hdisk
    exact List.mem_map.mp ((paths_realRun pre post hstops.split).symm ▸ hmem)
  stops result hresult removed hremoved := by
    obtain hstart | ⟨before, after, hpre, htotalBefore, -⟩ := mem_removals_exec Kept.start pre hremoved
    · cases hstart
    · obtain hbound | ⟨hnil, -⟩ := hbound result hresult
      · rw [hbound, htotalBefore]
        exact hstops.above before _ after hpre
      · simp [hnil] at hpre
  stopsFiles result hresult file hfile := by
    obtain hstart | ⟨before, x, after, hpre, htakes⟩ := mem_fileRemovals_exec Kept.start pre hfile
    · cases hstart
    · obtain ⟨-, htotalBefore⟩ | ⟨key, entry, rfl, hactive, hget, hpath⟩ := htakes
      · obtain hbound | ⟨hnil, -⟩ := hbound result hresult
        · rw [hbound, htotalBefore]
          exact .inl (hstops.above before _ after hpre)
        · simp [hnil] at hpre
      · have hget' : store.get? key = some entry :=
          (ite_none_left_eq_some.mp ((get?_exec Kept.start before key).symm.trans hget)).2
        have hgone : (realRun env dir storePath store active pre).store.get? key = none := by
          rw [get?_realRun, if_pos ⟨by simp [hpre], hactive⟩]
        obtain ⟨removed, hmem, -, rfl⟩ := removals_of_gone Kept.start pre hget' hgone
        exact .inr ⟨removed, hmem, hpath⟩
  goesOn hwarn result hresult hover hhigh := by
    obtain hbound | ⟨-, honly⟩ := hbound result hresult
    · have hall : pre = plan env dir store := by
        obtain rfl | hle := hstops.stop
        · exact (hstops.split.trans (append_nil pre)).symm
        · rw [htotal result hresult, hbound] at hhigh
          exact absurd hle (not_le.mpr hhigh)
      constructor
      · intro file hfile
        exact gone_of_mem hstops (hall ▸ mem_plan_file hfile) rfl
      · intro key entry hget
        rw [get?_realRun] at hget
        obtain ⟨hleft, hget⟩ := ite_none_left_eq_some.mp hget
        by_contra hactive
        exact hleft ⟨hall ▸ mem_plan_entry hget, by simpa using hactive⟩
    · exact absurd (honly hover) (by simp [hwarn])
  sameReport := rfl

/-- Where a sound sweep stops, the transcripts of the entries that are left are there. -/
theorem Sound.transcripts (h : Sound env dir storePath store active bound)
    (hstops : Stops env dir storePath store active bound pre post) {key path : String}
    {entry : SessionEntry δ}
    (hget : (realRun env dir storePath store active pre).store.get? key = some entry)
    (htranscript : transcriptOf env entry = some path) (hdisk : (dir.disk path).isSome) :
    ((realRun env dir storePath store active pre).disk path).isSome := by
  rw [get?_realRun] at hget
  obtain ⟨hleft, hget⟩ := ite_none_left_eq_some.mp hget
  rw [disk_realRun pre post hstops.split]
  unfold diskLeft
  split
  · rename_i hmem
    obtain ⟨x, hx, hpath⟩ := List.mem_filterMap.mp hmem
    have hacc := h.accounted hstops
    obtain ⟨hactive, hturn⟩ :=
      h.referred ((hstops.turn_iff hacc).mpr hx) hpath hdisk hget htranscript
    exact absurd ⟨(hstops.turn_iff hacc).mp hturn, hactive⟩ hleft
  · exact hdisk

/-! ### Exact sweeps are sound -/

theorem shortfall_le_applyStep {s : SweepState δ} (hkept : Kept env s) (hdisk : OnDisk dir s)
    (storePath : String) (x : Step) :
    shortfall env dir storePath s ≤ shortfall env dir storePath (applyStep env dir false active s x) := by
  rw [(applyStep_real dir storePath hkept x).shortfall_eq]
  cases stepPath env active s x with
  | none => simp
  | some path => exact le_add_of_nonneg_right (missedBytes_nonneg hdisk path)

theorem shortfall_le_realRun (p q : List Step) :
    shortfall env dir storePath (realRun env dir storePath store active p) ≤
      shortfall env dir storePath (realRun env dir storePath store active (p ++ q)) := by
  induction q using List.reverseRecOn with
  | nil => rw [append_nil]
  | append_singleton q x ih =>
    rw [← append_assoc, realRun_concat]
    exact ih.trans (shortfall_le_applyStep (kept_realRun _) (onDisk_realRun _) storePath x)

/-- Bytes that are not counted are never made up for. -/
theorem accountedAll_of_accounted
    (h : Accounted env dir storePath (realRun env dir storePath store active pre)) :
    AccountedAll env dir storePath store active pre := by
  rintro p q rfl
  rw [accounted_iff] at h ⊢
  have hstart : shortfall env dir storePath (realRun env dir storePath store active []) = 0 :=
    accounted_iff.mp accounted_start
  have hbefore : shortfall env dir storePath (realRun env dir storePath store active []) ≤
      shortfall env dir storePath (realRun env dir storePath store active p) := shortfall_le_realRun [] p
  have hafter : shortfall env dir storePath (realRun env dir storePath store active p) ≤
      shortfall env dir storePath (realRun env dir storePath store active (p ++ q)) :=
    shortfall_le_realRun p q
  omega

/-- If the total is right, all bytes of a file that is gone were counted. -/
theorem counted_of_accounted (hacc : AccountedAll env dir storePath store active pre) {path : String}
    (hgone : (realRun env dir storePath store active pre).disk path = none) {size : ℕ}
    (hsize : dir.disk path = some size) : size = 0 ∨ path ≠ storePath ∧ (dir.sizeOf path).isSome := by
  obtain ⟨before, x, after, hpre, hpath, hthere⟩ := removed_realRun hgone (by simp [hsize])
  have hbefore := hacc before (x :: after) hpre
  have hafter := hacc (before ++ [x]) after (by simp [hpre])
  rw [realRun_concat, accounted_applyStep (kept_realRun before) hbefore] at hafter
  exact (countedBytes_eq_iff (onDisk_realRun before) path).mp (hafter path hpath) size
    (hthere.trans hsize)

/-- A sweep whose total is right, and which leaves the transcripts of the entries that are left, is
sound. -/
theorem sound_of_exact (hstops : Stops env dir storePath store active bound pre post)
    (haccounted : Accounted env dir storePath (realRun env dir storePath store active pre))
    (htranscripts : ∀ key entry path,
      (realRun env dir storePath store active pre).store.get? key = some entry →
        transcriptOf env entry = some path → (dir.disk path).isSome →
          ((realRun env dir storePath store active pre).disk path).isSome) :
    Sound env dir storePath store active bound := by
  have hacc := accountedAll_of_accounted haccounted
  have hgoes {path : String} (hgone : (realRun env dir storePath store active pre).disk path = none)
      (hdisk : (dir.disk path).isSome) {key : String} {entry : SessionEntry δ}
      (hget : store.get? key = some entry) (htranscript : transcriptOf env entry = some path) :
      Goes env dir storePath store active bound key := by
    by_contra hstays
    have hleft : ¬ (.entry key ∈ pre ∧ isActive env active key = false) := fun hgone =>
      hstays ⟨hgone.2, (hstops.turn_iff hacc).mpr hgone.1⟩
    have hthere := htranscripts key entry path (by rw [get?_realRun, if_neg hleft, hget])
      htranscript hdisk
    simp [hgone] at hthere
  have hqueue {file : SessionsDirFileStat}
      (hturn : Turn env dir storePath store active bound (.file file.canonicalPath)) :
      (realRun env dir storePath store active pre).disk file.canonicalPath = none :=
    gone_of_mem hstops ((hstops.turn_iff hacc).mp hturn) rfl
  have hwith {key path : String} (hentry : Goes env dir storePath store active bound key)
      (hpath : GoesWith env store active key path) :
      (realRun env dir storePath store active pre).disk path = none :=
    gone_of_mem hstops ((hstops.turn_iff hacc).mp hentry.2) (stepFile_entry_iff.mpr ⟨hentry.1, hpath⟩)
  refine ⟨?_, ?_, ?_, ?_⟩
  · intro file hmem hturn hstore
    obtain hzero | ⟨hne, -⟩ := counted_of_accounted hacc (hqueue hturn) (disk_of_mem (mem_files_of_queue hmem))
    · exact hzero
    · exact absurd hstore hne
  · intro file hmem hturn key entry hget htranscript
    exact hgoes (hqueue hturn) (by simp [disk_of_mem (mem_files_of_queue hmem)]) hget htranscript
  · intro key path size hentry hpath hsize
    exact counted_of_accounted hacc (hwith hentry hpath) hsize
  · intro key path hentry hpath hdisk key' entry' hget htranscript
    exact hgoes (hwith hentry hpath) hdisk hget htranscript

/-- For each maintenance and mode, what is asked is done exactly when there is no sweep or the sweep
is sound. -/
theorem enforces_iff_sound (env : BudgetEnv δ) (dir : SessionsDir) (storePath : String) (store : Store δ)
    (active : Option String) (maintenance : SessionDiskBudgetConfig) (warnOnly : Bool) :
    Enforces env dir storePath store active maintenance warnOnly ↔
      ∀ highWaterBytes,
        Sweeps env dir storePath store active maintenance warnOnly highWaterBytes →
          Sound env dir storePath store active highWaterBytes := by
  unfold Enforces
  obtain ⟨o, hno, ho, hresult⟩ | ⟨maxBytes, bound, hsweeps, hsweep⟩ :=
    enforce_cases env dir storePath store active maintenance warnOnly
  · rw [ho false, ho true]
    refine iff_of_true ?_ fun bound hsweeps => absurd hsweeps (hno bound)
    have hstops : Stops env dir storePath store active (startState env dir storePath store).total []
        (plan env dir store) := ⟨rfl, by simp, .inr le_rfl⟩
    refine exact_realRun hstops accounted_start ?_ ?_ ?_
    · intro key entry path _ _ hdisk
      exact hdisk
    · intro result hsome
      exact (hresult result hsome).1
    · intro result hsome
      exact .inr ⟨rfl, (hresult result hsome).2⟩
  · have honly (bound' : ℤ)
        (h : Sweeps env dir storePath store active maintenance warnOnly bound') : bound' = bound :=
      some.inj (h.2.1.symm.trans hsweeps.2.1)
    obtain ⟨pre, post, hstops, heq⟩ := exists_stops env dir storePath store active bound
    rw [hsweep false, hsweep true, heq]
    dsimp only
    constructor
    · intro hexact bound' hsweeps'
      rw [honly bound' hsweeps']
      exact sound_of_exact hstops (hexact.total _ rfl) hexact.transcripts
    · intro hall
      have h := hall bound hsweeps
      have hagrees := h.agrees hstops pre [] (append_nil pre).symm
      have hreport : report (startState env dir storePath store)
          (exec env dir true active pre (startState env dir storePath store)) maxBytes bound true =
          report (startState env dir storePath store)
            (realRun env dir storePath store active pre) maxBytes bound true := by
        unfold report
        rw [hagrees.total, hagrees.removedFiles, hagrees.entries.removedEntries, hagrees.freedBytes]
      rw [h.dry_eq hstops, hreport]
      refine exact_realRun hstops (h.accounted hstops pre [] (append_nil pre).symm) ?_ ?_ ?_
      · intro key entry path hget htranscript hdisk
        exact h.transcripts hstops hget htranscript hdisk
      · rintro result ⟨⟩
        rfl
      · rintro result ⟨⟩
        exact .inl rfl

/-! ### Two sessions with one transcript -/

/-- A session: its id and its transcript, if it has one of its own. -/
abbrev Session := String × Option String

/-- The directory `/s`, and the lines of entries without texts that have to be escaped. -/
def plainEnv : BudgetEnv Session where
  toLowerCase x := String.ofList (x.toList.map Char.toLower)
  sessionId := Prod.fst
  sessionFile := Prod.snd
  resolveSessionFilePath id file := some ("/s/" ++ file.getD (id ++ ".jsonl"))
  lines key entry := ("  \"" ++ key ++ "\": \x7b\n    \"sessionId\": \"" ++ entry.payload.1 ++
    "\",\n    \"updatedAt\": " ++ toString (getEntryUpdatedAt entry).num ++
    ((entry.payload.2.map fun file => ",\n    \"sessionFile\": \"" ++ file ++ "\"").getD "") ++
    "\n  \x7d").toList

/-- The store, and a transcript of 1000 bytes. -/
def sharedDir : SessionsDir where
  files := [⟨"/s/sessions.json", "sessions.json", 190, 3⟩, ⟨"/s/t.jsonl", "t.jsonl", 1000, 2⟩]
  elsewhere _ := none
  nodup := by decide

/-- Two sessions that have the transcript. -/
def sharedStore : Store Session where
  entries := [("a", ⟨some 1, ("s1", some "t.jsonl")⟩), ("b", ⟨some 2, ("s2", some "t.jsonl")⟩)]
  nodup_keys := by decide

/-- The older session is removed, and with it the transcript of the younger. -/
theorem shared_transcript_removed : ¬ Enforces plainEnv sharedDir "/s/sessions.json" sharedStore none
    ⟨some 1000, some 800⟩ false := by
  intro h
  have hthere := h.transcripts "b" ⟨some 2, ("s2", some "t.jsonl")⟩ "/s/t.jsonl" (by decide +kernel) rfl
    (by decide +kernel)
  exact absurd hthere (by decide +kernel)

end Foxclaw.Config.DiskBudget
