import Foxclaw.Agents.ApplyPatchParse
import Foxclaw.Lib.JsMap

/-!
# Applying a patch

`applyPatch` (`agents/apply-patch.ts`) runs the hunks of a patch one after the other: it adds,
deletes and updates files, and moves an updated file by writing the destination and removing the
source. The files are reached through `PatchFileOps`, on the host or over a sandbox bridge, and
paths are resolved and checked first. Both are parameters (`Options`); what they do to the tree of
files is assumed (`FileLaws`): a path, resolved, names a file, two paths may name one file, and an
operation that succeeds reads, writes or removes the file that its path names.

What a patch means is said of trees of files alone (`meaning`). A move of a file onto itself writes
the file and then removes it, where the patch says that it stays. The tree is the one meant in the
end unless such a file is named by no later hunk (`NoneLost`).

## What is proved

* `resolvePatchPath_ok` — a path that is accepted is the one it resolves to.
* `applyOne_spec`, `applyHunks_spec` — one hunk and a run of hunks against their meaning.
* `applyPatch_sequential_iff` — when the final tree is the one meant.
-/

namespace Foxclaw.ApplyPatch

open Function Option

structure PathAliasPolicy where
  allowFinalSymlinkForUnlink : Bool
  allowFinalHardlinkForUnlink : Bool
deriving DecidableEq

namespace PathAliasPolicy

def strict : PathAliasPolicy := ⟨false, false⟩

def unlinkTarget : PathAliasPolicy := ⟨true, true⟩

end PathAliasPolicy

/-- What the bridge of a sandbox makes of a path. -/
structure SandboxPath where
  hostPath : Text
  relativePath : Text

structure PatchFileOps (World : Type) where
  readFile : World → Text → Except Text Text
  writeFile : World → Text → Text → Except Text World
  remove : World → Text → Except Text World
  mkdirp : World → Text → Except Text World

/-- `ApplyPatchOptions`, and what the program takes from elsewhere for one working directory. -/
structure Options (World : Type) where
  /-- `sandbox.bridge.resolvePath`, with a sandbox. -/
  sandbox : Option (Text → Except Text SandboxPath)
  workspaceOnly : Bool
  /-- `signal.aborted` before each hunk. -/
  aborted : ℕ → Bool
  resolveSandboxPath : Text → Except Text Text
  assertNoPathAliasEscape : World → Text → PathAliasPolicy → Except Text Unit
  resolvePathFromInput : Text → Text
  toDisplayPath : Text → Text
  dirname : Text → Text
  fileOps : PatchFileOps World

structure ApplyPatchSummary where
  added : List Text
  modified : List Text
  deleted : List Text
deriving DecidableEq

structure ApplyPatchResult where
  summary : ApplyPatchSummary
  text : Text
deriving DecidableEq

/-- The result of `resolvePatchPath`. -/
structure Target where
  resolved : Text
  display : Text

/-! ### The program -/

section Program

variable {World : Type} (o : Options World)

variable (w : World) (filePath : Text)

def assertSandboxPath (policy : PathAliasPolicy) : Except Text Text := do
  let resolved ← o.resolveSandboxPath filePath
  o.assertNoPathAliasEscape w resolved policy
  return resolved

def resolvePatchPath (aliasPolicy : PathAliasPolicy) : Except Text Target :=
  match o.sandbox with
  | some resolvePath => do
      let resolved ← resolvePath filePath
      if o.workspaceOnly then
        let _ ← assertSandboxPath o w resolved.hostPath aliasPolicy
      return ⟨resolved.hostPath,
        if resolved.relativePath = [] then resolved.hostPath else resolved.relativePath⟩
  | none =>
      let resolved :=
        if o.workspaceOnly then assertSandboxPath o w filePath aliasPolicy
        else .ok (o.resolvePathFromInput filePath)
      resolved.map fun resolved => ⟨resolved, o.toDisplayPath resolved⟩

def ensureDir : Except Text World :=
  let parent := o.dirname filePath
  if parent = [] ∨ parent = ['.'] then .ok w else o.fileOps.mkdirp w parent

/-- One bucket in `recordSummary`. -/
def recordIn (bucket : List Text) (value : Text) : List Text :=
  if value ∈ bucket then bucket else bucket ++ [value]

/-- `hunk.movePath`, unless it is falsy. -/
def moveTarget? (movePath : Option Text) : Option Text := movePath.filter (· ≠ [])

/-- One turn of the loop of `applyPatch`. -/
def applyOne (summary : ApplyPatchSummary) (hunk : Hunk) : Except Text (World × ApplyPatchSummary) :=
  match hunk with
  | .add path contents => do
      let target ← resolvePatchPath o w path .strict
      let w ← ensureDir o w target.resolved
      let w ← o.fileOps.writeFile w target.resolved contents
      return (w, { summary with added := recordIn summary.added target.display })
  | .delete path => do
      let target ← resolvePatchPath o w path .unlinkTarget
      let w ← o.fileOps.remove w target.resolved
      return (w, { summary with deleted := recordIn summary.deleted target.display })
  | .update path movePath chunks => do
      let target ← resolvePatchPath o w path .strict
      let applied ← applyUpdateHunk target.resolved chunks (o.fileOps.readFile w)
      match moveTarget? movePath with
      | some movePath =>
          let moveTarget ← resolvePatchPath o w movePath .strict
          let w ← ensureDir o w moveTarget.resolved
          let w ← o.fileOps.writeFile w moveTarget.resolved applied
          let w ← o.fileOps.remove w target.resolved
          return (w, { summary with modified := recordIn summary.modified moveTarget.display })
      | none =>
          let w ← o.fileOps.writeFile w target.resolved applied
          return (w, { summary with modified := recordIn summary.modified target.display })

/-- The loop of `applyPatch`, from hunk `i` on. -/
def applyHunks : ℕ → World → ApplyPatchSummary → List Hunk → Except Text (World × ApplyPatchSummary)
  | _, w, summary, [] => .ok (w, summary)
  | i, w, summary, hunk :: hunks =>
      if o.aborted i then .error "Aborted".toList
      else do
        let (w, summary) ← applyOne o w summary hunk
        applyHunks (i + 1) w summary hunks

def formatSummary (summary : ApplyPatchSummary) : Text :=
  ['\n'].intercalate ("Success. Updated the following files:".toList ::
    (summary.added.map ("A ".toList ++ ·) ++ summary.modified.map ("M ".toList ++ ·) ++
      summary.deleted.map ("D ".toList ++ ·)))

def applyPatch (input : Text) (w : World) : Except Text (World × ApplyPatchResult) :=
  match parsePatchText input with
  | .error err => .error err
  | .ok parsed =>
      if parsed.hunks = [] then .error "No files were modified.".toList
      else (applyHunks o 0 w ⟨[], [], []⟩ parsed.hunks).map fun r => (r.1, ⟨r.2, formatSummary r.2⟩)

end Program

/-! ### What a patch means -/

section Meaning

variable {World File : Type} [DecidableEq File] (o : Options World) (fileAt : Text → File)

/-- What a path resolves to. -/
def pathOf (filePath : Text) : Option Text :=
  match o.sandbox with
  | some resolvePath => (resolvePath filePath).toOption.map SandboxPath.hostPath
  | none =>
      if o.workspaceOnly then (o.resolveSandboxPath filePath).toOption
      else some (o.resolvePathFromInput filePath)

/-- The file that a path names. -/
def file? (filePath : Text) : Option File := (pathOf o filePath).map fileAt

/-- What a hunk makes of a tree of files. -/
def meaning (hunk : Hunk) (t : File → Option Text) : Option (File → Option Text) :=
  match hunk with
  | .add path contents => (file? o fileAt path).map fun f => Function.update t f (some contents)
  | .delete path => (file? o fileAt path).map fun f => Function.update t f none
  | .update path movePath chunks => do
      let resolved ← pathOf o path
      let source := fileAt resolved
      let old ← t source
      let new ← (applyUpdateHunk resolved chunks fun _ => .ok old).toOption
      match moveTarget? movePath with
      | none => return Function.update t source (some new)
      | some movePath =>
          let destination ← file? o fileAt movePath
          let written := Function.update t destination (some new)
          return if destination = source then written else Function.update written source none

/-- What hunks, one after the other, make of a tree of files. -/
def meanings : List Hunk → (File → Option Text) → Option (File → Option Text)
  | [], t => some t
  | hunk :: hunks, t => (meaning o fileAt hunk t).bind (meanings hunks)

/-- The paths in a hunk. -/
def Hunk.paths : Hunk → List Text
  | .add path _ => [path]
  | .delete path => [path]
  | .update path movePath _ => path :: (moveTarget? movePath).toList

/-- A path of the hunk names the file. -/
def Touches (hunk : Hunk) (f : File) : Prop := ∃ path ∈ hunk.paths, file? o fileAt path = some f

/-- The hunk moves the file onto itself. -/
def SelfMove (hunk : Hunk) (f : File) : Prop :=
  match hunk with
  | .update path movePath _ =>
      file? o fileAt path = some f ∧ ∃ destination, moveTarget? movePath = some destination ∧
        file? o fileAt destination = some f
  | _ => False

/-- A file that a hunk moves onto itself is named again by a later hunk. -/
def NoneLost (hunks : List Hunk) : Prop :=
  ∀ before hunk after, hunks = before ++ hunk :: after → ∀ f, SelfMove o fileAt hunk f →
    ∃ later ∈ after, Touches o fileAt later f

/-- What the operations do to the tree of files. -/
structure FileLaws (ops : PatchFileOps World) (tree : World → File → Option Text) (fileAt : Text → File) :
    Prop where
  readFile {w : World} {p c : Text} : ops.readFile w p = .ok c → tree w (fileAt p) = some c
  writeFile {w w' : World} {p c : Text} : ops.writeFile w p c = .ok w' →
    tree w' = Function.update (tree w) (fileAt p) (some c)
  remove {w w' : World} {p : Text} : ops.remove w p = .ok w' →
    tree w' = Function.update (tree w) (fileAt p) none
  mkdirp {w w' : World} {p : Text} : ops.mkdirp w p = .ok w' → tree w' = tree w

/-! ### What one hunk does -/

theorem exists_of_bind_eq_ok {ε α β : Type} {x : Except ε α} {f : α → Except ε β} {y : β}
    (h : x >>= f = .ok y) : ∃ a, x = .ok a ∧ f a = .ok y := by
  cases x with
  | error err => cases h
  | ok a => exact ⟨a, rfl, h⟩

variable {o fileAt}

variable {filePath : Text}

variable {w : World}

/-- A path that is accepted is the one it resolves to. -/
theorem resolvePatchPath_ok {policy : PathAliasPolicy} {target : Target}
    (h : resolvePatchPath o w filePath policy = .ok target) : pathOf o filePath = some target.resolved := by
  have hassert : ∀ {p r : Text}, assertSandboxPath o w p policy = .ok r → o.resolveSandboxPath p = .ok r := by
    intro p r hr
    obtain ⟨resolved, hresolved, hr⟩ := exists_of_bind_eq_ok hr
    obtain ⟨-, -, hr⟩ := exists_of_bind_eq_ok hr
    cases hr
    exact hresolved
  cases hsandbox : o.sandbox with
  | some resolvePath =>
    simp only [resolvePatchPath, hsandbox] at h
    obtain ⟨resolved, hresolved, h⟩ := exists_of_bind_eq_ok h
    have hpath : pathOf o filePath = some resolved.hostPath := by
      simp only [pathOf, hsandbox, hresolved, Except.toOption, map_some]
    rw [hpath]
    split at h
    · obtain ⟨-, -, h⟩ := exists_of_bind_eq_ok h
      cases h
      rfl
    · cases h
      rfl
  | none =>
    simp only [resolvePatchPath, hsandbox] at h
    obtain ⟨resolved, hresolved, rfl⟩ := exists_of_map_eq_ok h
    simp only [pathOf, hsandbox]
    split at hresolved
    · rename_i honly
      rw [if_pos honly, hassert hresolved]
      rfl
    · rename_i honly
      cases hresolved
      rw [if_neg honly]

omit [DecidableEq File] in
theorem file?_of_resolve {policy : PathAliasPolicy} {target : Target}
    (h : resolvePatchPath o w filePath policy = .ok target) :
    file? o fileAt filePath = some (fileAt target.resolved) := by
  rw [file?, resolvePatchPath_ok h]
  rfl

variable {tree : World → File → Option Text} (laws : FileLaws o.fileOps tree fileAt)

include laws in
theorem tree_ensureDir {w w' : World} {p : Text} (h : ensureDir o w p = .ok w') : tree w' = tree w := by
  rw [ensureDir] at h
  split at h
  · cases h
    rfl
  · exact laws.mkdirp h

/-- The tree `t` is the tree `u` but for files in `lost`, which are gone in `t` only. -/
structure Behind (t u : File → Option Text) (lost : File → Prop) : Prop where
  same : ∀ f, ¬ lost f → t f = u f
  gone : ∀ f, lost f → t f = none ∧ u f ≠ none

/-- The files lost when a hunk has been run. -/
def LostBy (o : Options World) (fileAt : Text → File) (hunk : Hunk) (lost : File → Prop) (f : File) : Prop :=
  SelfMove o fileAt hunk f ∨ (lost f ∧ ¬ Touches o fileAt hunk f)

variable {lost lost' : File → Prop} {t u : File → Option Text}

/-- Both trees get the same contents for a file. -/
theorem Behind.update (h : Behind t u lost) (f : File)
    (c : Option Text) (hlost : ∀ g, lost' g ↔ lost g ∧ g ≠ f) :
    Behind (Function.update t f c) (Function.update u f c) lost' where
  same g hg := by
    by_cases hgf : g = f
    · rw [hgf, Function.update_self, Function.update_self]
    · rw [update_of_ne hgf, update_of_ne hgf]
      exact h.same g fun hl => hg ((hlost g).mpr ⟨hl, hgf⟩)
  gone g hg := by
    obtain ⟨hl, hgf⟩ := (hlost g).mp hg
    rw [update_of_ne hgf, update_of_ne hgf]
    exact h.gone g hl

/-- A file is written in both trees and then removed from the one. -/
theorem Behind.lose (h : Behind t u lost) (f : File)
    (c : Text) (hlost : ∀ g, lost' g ↔ g = f ∨ lost g ∧ g ≠ f) :
    Behind (Function.update (Function.update t f (some c)) f none) (Function.update u f (some c)) lost' where
  same g hg := by
    have hgf : g ≠ f := fun hgf => hg ((hlost g).mpr (.inl hgf))
    rw [update_of_ne hgf, update_of_ne hgf, update_of_ne hgf]
    exact h.same g fun hl => hg ((hlost g).mpr (.inr ⟨hl, hgf⟩))
  gone g hg := by
    rcases (hlost g).mp hg with rfl | ⟨hl, hgf⟩
    · rw [Function.update_self, Function.update_self]
      exact ⟨rfl, some_ne_none c⟩
    · rw [update_of_ne hgf, update_of_ne hgf, update_of_ne hgf]
      exact h.gone g hl

/-- An update reads its file and nothing else. -/
theorem applyUpdateHunk_read {chunks : List UpdateFileChunk} {readFile : Text → Except Text Text}
    {applied : Text} (h : applyUpdateHunk filePath chunks readFile = .ok applied) :
    ∃ old, readFile filePath = .ok old ∧ applyUpdateHunk filePath chunks (fun _ => .ok old) = .ok applied := by
  rw [applyUpdateHunk] at h
  split at h
  · cases h
  · rename_i old hread
    exact ⟨old, hread, h⟩

variable {summary summary' : ApplyPatchSummary}

include laws in
/-- What one hunk does to the tree, against what it means. -/
theorem applyOne_spec {w w' : World} {hunk : Hunk} (h : applyOne o w summary hunk = .ok (w', summary'))
    (hbehind : Behind (tree w) u lost) :
    ∃ u', meaning o fileAt hunk u = some u' ∧ Behind (tree w') u' (LostBy o fileAt hunk lost) := by
  cases hunk with
  | add path contents =>
    obtain ⟨target, htarget, h⟩ := exists_of_bind_eq_ok h
    obtain ⟨w₁, hdir, h⟩ := exists_of_bind_eq_ok h
    obtain ⟨w₂, hwrite, h⟩ := exists_of_bind_eq_ok h
    cases h
    have hfile : file? o fileAt path = some (fileAt target.resolved) := file?_of_resolve htarget
    refine ⟨_, by rw [meaning, hfile]; rfl, ?_⟩
    rw [laws.writeFile hwrite, tree_ensureDir laws hdir]
    refine hbehind.update _ _ fun g => ?_
    simp [LostBy, SelfMove, Touches, Hunk.paths, hfile, eq_comm]
  | delete path =>
    obtain ⟨target, htarget, h⟩ := exists_of_bind_eq_ok h
    obtain ⟨w₁, hremove, h⟩ := exists_of_bind_eq_ok h
    cases h
    have hfile : file? o fileAt path = some (fileAt target.resolved) := file?_of_resolve htarget
    refine ⟨_, by rw [meaning, hfile]; rfl, ?_⟩
    rw [laws.remove hremove]
    refine hbehind.update _ _ fun g => ?_
    simp [LostBy, SelfMove, Touches, Hunk.paths, hfile, eq_comm]
  | update path movePath chunks =>
    obtain ⟨target, htarget, h⟩ := exists_of_bind_eq_ok h
    obtain ⟨applied, happlied, h⟩ := exists_of_bind_eq_ok h
    have hfile : file? o fileAt path = some (fileAt target.resolved) := file?_of_resolve htarget
    obtain ⟨old, hread, hupdate⟩ := applyUpdateHunk_read happlied
    -- a file that is read is there, so it is none of the lost ones
    have htree := laws.readFile hread
    have hu : u (fileAt target.resolved) = some old := by
      rw [← hbehind.same _ fun hl => by rw [(hbehind.gone _ hl).1] at htree; cases htree]
      exact htree
    cases hmove : moveTarget? movePath with
    | none =>
      simp only [hmove] at h
      obtain ⟨w₁, hwrite, h⟩ := exists_of_bind_eq_ok h
      cases h
      refine ⟨Function.update u (fileAt target.resolved) (some applied), ?_, ?_⟩
      · simp only [meaning, resolvePatchPath_ok htarget, bind_eq_bind, bind_some, hu, hupdate,
          Except.toOption, hmove]
        rfl
      · rw [laws.writeFile hwrite]
        refine hbehind.update _ _ fun g => ?_
        simp [LostBy, SelfMove, Touches, Hunk.paths, hfile, hmove, eq_comm]
    | some destination =>
      simp only [hmove] at h
      obtain ⟨moveTarget, hmoveTarget, h⟩ := exists_of_bind_eq_ok h
      obtain ⟨w₁, hdir, h⟩ := exists_of_bind_eq_ok h
      obtain ⟨w₂, hwrite, h⟩ := exists_of_bind_eq_ok h
      obtain ⟨w₃, hremove, h⟩ := exists_of_bind_eq_ok h
      cases h
      have hdest : file? o fileAt destination = some (fileAt moveTarget.resolved) :=
        file?_of_resolve hmoveTarget
      have hmeaning : meaning o fileAt (.update path movePath chunks) u =
          some (if fileAt moveTarget.resolved = fileAt target.resolved then
            Function.update u (fileAt moveTarget.resolved) (some applied)
          else Function.update (Function.update u (fileAt moveTarget.resolved) (some applied))
            (fileAt target.resolved) none) := by
        simp only [meaning, resolvePatchPath_ok htarget, bind_eq_bind, bind_some, hu, hupdate,
          Except.toOption, hmove, hdest]
        rfl
      refine ⟨_, hmeaning, ?_⟩
      rw [laws.remove hremove, laws.writeFile hwrite, tree_ensureDir laws hdir]
      split
      · rename_i hsame
        rw [hsame]
        refine hbehind.lose _ _ fun g => ?_
        simp [LostBy, SelfMove, Touches, Hunk.paths, hfile, hmove, hdest, hsame, eq_comm]
      · rename_i hdiffer
        have hwritten := hbehind.update (fileAt moveTarget.resolved) (some applied) fun g => Iff.rfl
        refine hwritten.update _ _ fun g => ?_
        have hlost : LostBy o fileAt (.update path movePath chunks) lost g ↔
            g = fileAt target.resolved ∧ g = fileAt moveTarget.resolved ∨
              lost g ∧ g ≠ fileAt target.resolved ∧ g ≠ fileAt moveTarget.resolved := by
          simp [LostBy, SelfMove, Touches, Hunk.paths, hfile, hmove, hdest, eq_comm]
        have hnot : ¬ (g = fileAt target.resolved ∧ g = fileAt moveTarget.resolved) :=
          fun h => hdiffer (h.2.symm.trans h.1)
        rw [hlost]
        tauto

/-! ### A run of hunks -/

/-- The files lost when hunks have been run. -/
def LostByAll (o : Options World) (fileAt : Text → File) (hunks : List Hunk) (lost : File → Prop) (f : File) :
    Prop :=
  (∃ before hunk after, hunks = before ++ hunk :: after ∧ SelfMove o fileAt hunk f ∧
    ∀ later ∈ after, ¬ Touches o fileAt later f) ∨
  (lost f ∧ ∀ hunk ∈ hunks, ¬ Touches o fileAt hunk f)

omit [DecidableEq File] in
theorem lostByAll_cons (hunk : Hunk) (hunks : List Hunk) (lost : File → Prop) (f : File) :
    LostByAll o fileAt hunks (LostBy o fileAt hunk lost) f ↔ LostByAll o fileAt (hunk :: hunks) lost f := by
  constructor
  · rintro (⟨before, h, after, rfl, hself, hlater⟩ | ⟨hself | ⟨hlost, hnot⟩, hlater⟩)
    · exact .inl ⟨hunk :: before, h, after, rfl, hself, hlater⟩
    · exact .inl ⟨[], hunk, hunks, rfl, hself, hlater⟩
    · refine .inr ⟨hlost, fun h hmem => ?_⟩
      rcases List.mem_cons.mp hmem with rfl | hmem
      · exact hnot
      · exact hlater h hmem
  · rintro (⟨before, h, after, heq, hself, hlater⟩ | ⟨hlost, hlater⟩)
    · cases before with
      | nil =>
        obtain ⟨rfl, rfl⟩ := List.cons.inj heq
        exact .inr ⟨.inl hself, hlater⟩
      | cons hunk' before =>
        obtain ⟨rfl, rfl⟩ := List.cons.inj heq
        exact .inl ⟨before, h, after, rfl, hself, hlater⟩
    · exact .inr ⟨.inr ⟨hlost, hlater hunk List.mem_cons_self⟩, fun h hmem =>
        hlater h (List.mem_cons_of_mem _ hmem)⟩

include laws in
/-- What a run of hunks does to the tree, against what they mean. -/
theorem applyHunks_spec {i : ℕ} {w w' : World} {hunks : List Hunk}
    (h : applyHunks o i w summary hunks = .ok (w', summary')) (hbehind : Behind (tree w) u lost) :
    ∃ u', meanings o fileAt hunks u = some u' ∧ Behind (tree w') u' (LostByAll o fileAt hunks lost) := by
  induction hunks generalizing i w summary u lost with
  | nil =>
    cases h
    refine ⟨u, rfl, ?_⟩
    have hsame : LostByAll o fileAt [] lost = lost := by
      funext f
      simp [LostByAll]
    rwa [hsame]
  | cons hunk hunks ih =>
    rw [applyHunks] at h
    split at h
    · cases h
    · obtain ⟨⟨w₁, summary₁⟩, hone, hrest⟩ := exists_of_bind_eq_ok h
      obtain ⟨u₁, hmeaning, hbehind₁⟩ := applyOne_spec laws hone hbehind
      obtain ⟨u', hmeanings, hbehind'⟩ := ih hrest hbehind₁
      refine ⟨u', by rw [meanings, hmeaning]; exact hmeanings, ?_⟩
      have hsame : LostByAll o fileAt hunks (LostBy o fileAt hunk lost) =
          LostByAll o fileAt (hunk :: hunks) lost := by
        funext f
        exact propext (lostByAll_cons hunk hunks lost f)
      rwa [← hsame]

include laws in
/-- The final tree is the one that the patch means exactly when no file is lost by moving it onto itself,
and the hunks are what the lines of the patch say. -/
theorem applyPatch_sequential_iff {input : Text} {w w' : World} {result : ApplyPatchResult}
    (hrun : applyPatch o input w = .ok (w', result)) :
    ∃ parsed body, parsePatchText input = .ok parsed ∧ PatchBody input body ∧ PatchLines body parsed.hunks ∧
      (meanings o fileAt parsed.hunks (tree w) = some (tree w') ↔ NoneLost o fileAt parsed.hunks) := by
  rw [applyPatch] at hrun
  split at hrun
  · cases hrun
  · rename_i parsed hparsed
    obtain ⟨body, hbody, hlines⟩ := patchLines_of_parsePatchText hparsed
    refine ⟨parsed, body, hparsed, hbody, hlines, ?_⟩
    split at hrun
    · cases hrun
    · obtain ⟨⟨w₁, summary⟩, hhunks, heq⟩ := exists_of_map_eq_ok hrun
      cases heq
      have hstart : Behind (tree w) (tree w) fun _ => False := ⟨fun _ _ => rfl, fun _ => False.elim⟩
      obtain ⟨u, hmeanings, hbehind⟩ := applyHunks_spec laws hhunks hstart
      rw [hmeanings, some.injEq]
      constructor
      · rintro rfl before hunk after heq f hself
        by_contra hnone
        refine (hbehind.gone f (.inl ⟨before, hunk, after, heq, hself, ?_⟩)).elim fun hgone hthere => hthere hgone
        exact fun later hlater htouch => hnone ⟨later, hlater, htouch⟩
      · intro hnone
        funext f
        refine (hbehind.same f ?_).symm
        rintro (⟨before, hunk, after, heq, hself, hlater⟩ | ⟨hlost, -⟩)
        · obtain ⟨later, hmem, htouch⟩ := hnone before hunk after heq f hself
          exact hlater later hmem htouch
        · exact hlost

end Meaning

/-! ### Files in memory -/

/-- File operations on a map from paths to contents. -/
def memoryOps : PatchFileOps (JsMap Text Text) where
  readFile w p := match w.get? p with
    | some c => .ok c
    | none => .error "ENOENT".toList
  writeFile w p c := .ok (w.set p c)
  remove w p := if w.has p then .ok (w.delete p) else .error "ENOENT".toList
  mkdirp w _ := .ok w

/-- Options with files in memory, under the working directory `/ws`. -/
def memoryOptions : Options (JsMap Text Text) where
  sandbox := none
  workspaceOnly := true
  aborted _ := false
  resolveSandboxPath p := .ok ("/ws/".toList ++ (after? "./".toList p).getD p)
  assertNoPathAliasEscape _ _ _ := .ok ()
  resolvePathFromInput p := p
  toDisplayPath p := p.drop 4
  dirname _ := "/ws".toList
  fileOps := memoryOps

theorem memoryOps_laws : FileLaws memoryOps JsMap.get? id where
  readFile {w p c} h := by
    rw [memoryOps] at h
    dsimp only at h
    split at h
    · rename_i hget
      cases h
      exact hget
    · cases h
  writeFile {w w' p c} h := by
    cases h
    funext q
    rw [JsMap.get?_set, update_apply]
    exact if_congr eq_comm rfl rfl
  remove {w w' p} h := by
    rw [memoryOps] at h
    dsimp only at h
    split at h
    · cases h
      funext q
      rw [JsMap.get?_delete, update_apply]
      exact if_congr eq_comm rfl rfl
    · cases h
  mkdirp h := by
    cases h
    rfl

/-- A patch that changes the one line of `a.txt` and moves the file. -/
def movePatch (destination : String) : Text :=
  ("*** Begin Patch\n*** Update File: a.txt\n*** Move to: " ++ destination ++
    "\n@@\n-x\n+y\n*** End Patch").toList

def oneFile : JsMap Text Text := JsMap.empty.set "/ws/a.txt".toList "x\n".toList

/-- A move to another file. -/
theorem applyPatch_sequential_iff_move :
    ∃ parsed body, parsePatchText (movePatch "b.txt") = .ok parsed ∧ PatchBody (movePatch "b.txt") body ∧
      PatchLines body parsed.hunks ∧
      (meanings memoryOptions id parsed.hunks oneFile.get? =
          some (JsMap.empty.set "/ws/b.txt".toList "y\n".toList).get? ↔
        NoneLost memoryOptions id parsed.hunks) := by
  have hrun : applyPatch memoryOptions (movePatch "b.txt") oneFile =
      .ok (JsMap.empty.set "/ws/b.txt".toList "y\n".toList,
        ⟨⟨[], ["b.txt".toList], []⟩, "Success. Updated the following files:\nM b.txt".toList⟩) := by
    decide +kernel
  exact applyPatch_sequential_iff memoryOps_laws hrun

/-- A move of `a.txt` to `./a.txt` succeeds and leaves no file. -/
theorem applyPatch_self_move_loses_file :
    ∃ parsed, parsePatchText (movePatch "./a.txt") = .ok parsed ∧
      applyPatch memoryOptions (movePatch "./a.txt") oneFile =
        .ok (JsMap.empty,
          ⟨⟨[], ["a.txt".toList], []⟩, "Success. Updated the following files:\nM a.txt".toList⟩) ∧
      meanings memoryOptions id parsed.hunks oneFile.get? ≠
        some (JsMap.get? (JsMap.empty : JsMap Text Text)) := by
  refine ⟨_, rfl, by decide +kernel, fun h => ?_⟩
  have hat := congrArg (Option.map fun t => t "/ws/a.txt".toList) h
  revert hat
  decide +kernel

end Foxclaw.ApplyPatch
