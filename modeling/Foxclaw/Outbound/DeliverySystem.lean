import Foxclaw.Lib.Runs
import Foxclaw.Outbound.DeliveryQueue
import Mathlib.Data.List.AList
import Mathlib.Data.List.Perm.Basic

/-!
# The queue directory and the functions at work on it

Live deliveries, acknowledgements and the recovery that the gateway starts in the background
work on one directory, in one process or in several. A function waits for each of its calls,
and in the meantime the others go on.

## The model

A step is one call of one task, or a task begins, or a process dies with all its tasks
(`Action`, `next`). A file operation is atomic. It fails with any error the environment
picks, and then it has done nothing; and a `rename`, `stat` or `readFile` of a file that is
not there fails with `ENOENT`. A listing comes in any order, and an id is drawn only once.

Beside the directory and the tasks, the state remembers what has happened: which ids were
drawn and for what payload, which entries were published and which acknowledged, and what
was sent by which task (`enqueued`, `published`, `acked`, `sends`). No step depends on these
but the draw of an id.
-/

namespace Foxclaw.Outbound

variable {δ : Type}

/-! ### The directory -/

/-- The files of the queue. A temporary file belongs to a process. -/
structure Disk (δ : Type) where
  /-- `{id}.json`. -/
  json : AList fun _ : String => QueuedDelivery δ
  /-- `{id}.delivered`. -/
  delivered : AList fun _ : String => QueuedDelivery δ
  /-- `failed/{id}.json`. -/
  failed : AList fun _ : String => QueuedDelivery δ
  /-- `{id}.json.{pid}.tmp`. -/
  tmp : AList fun _ : ℕ × String => QueuedDelivery δ

/-- The id of a `.delivered` file. -/
def FileName.deliveredId : FileName → Option String
  | delivered id => some id
  | _ => none

/-- What the environment has to say to a call. -/
structure Environment where
  error : Option JsError
  uuid : String
  now : ℤ
  files : List FileName

/-- The error of a path that is not there. -/
def enoent : JsError := ⟨some "ENOENT", "ENOENT: no such file or directory"⟩

/-- A call that may fail, with what it does when it does not. -/
def fallible {α : Type} (env : Environment) (disk : Disk δ) (done : Disk δ × Except JsError α) :
    Disk δ × Except JsError α :=
  match env.error with
  | some err => (disk, .error err)
  | none => done

/-- `rename` of a file with the content `source`. -/
def rename (source : Option (QueuedDelivery δ)) (disk : Disk δ) (moved : QueuedDelivery δ → Disk δ) :
    Disk δ × Except JsError Unit :=
  match source with
  | none => (disk, .error enoent)
  | some entry => (moved entry, .ok ())

/-- The effect of a call and the reply to it; `none` where the environment says what cannot be. -/
def perform (pid : ℕ) (drawn : List String) (env : Environment) (disk : Disk δ) :
    (c : Command δ) → Option (Disk δ × Reply c)
  | .mkdir => some (fallible env disk (disk, .ok ()))
  | .generateSecureUuid => if env.uuid ∈ drawn then none else some (disk, .ok env.uuid)
  | .now => some (disk, .ok env.now)
  | .writeTmp id entry =>
    some (fallible env disk ({ disk with tmp := disk.tmp.insert (pid, id) entry }, .ok ()))
  | .renameTmp id =>
    some (fallible env disk (rename (disk.tmp.lookup (pid, id)) disk fun entry =>
      { disk with json := disk.json.insert id entry, tmp := disk.tmp.erase (pid, id) }))
  | .renameDelivered id =>
    some (fallible env disk (rename (disk.json.lookup id) disk fun entry =>
      { disk with json := disk.json.erase id, delivered := disk.delivered.insert id entry }))
  | .renameFailed id =>
    some (fallible env disk (rename (disk.json.lookup id) disk fun entry =>
      { disk with json := disk.json.erase id, failed := disk.failed.insert id entry }))
  | .unlinkDelivered id =>
    some (fallible env disk (rename (disk.delivered.lookup id) disk fun _ =>
      { disk with delivered := disk.delivered.erase id }))
  | .readdir =>
    if (env.files.filterMap FileName.jsonId).Perm disk.json.keys ∧
        (env.files.filterMap FileName.deliveredId).Perm disk.delivered.keys then
      some (fallible env disk (disk, .ok env.files))
    else
      none
  | .stat id =>
    some (fallible env disk
      (disk, (disk.json.lookup id).elim (.error enoent) fun _ => .ok true))
  | .readFile id =>
    some (fallible env disk (disk, (disk.json.lookup id).elim (.error enoent) .ok))
  | .deliver _ => some (fallible env disk (disk, .ok ()))

/-! ### Tasks -/

/-- The functions of the queue, with what they are called with. -/
inductive Op (δ : Type) where
  /-- `enqueueDelivery`. -/
  | enqueue (params : δ)
  /-- `ackDelivery`. -/
  | ack (id : String)
  /-- `failDelivery`. -/
  | fail (id error : String)
  | moveToFailed (id : String)
  /-- `loadPendingDeliveries`. -/
  | load
  /-- `recoverPendingDeliveries`. -/
  | recover (maxRecoveryMs : Option ℤ)

/-- The program of a call. -/
def Op.program : Op δ → Io δ Unit
  | enqueue params => (enqueueDelivery params).bind fun _ => pure ()
  | ack id => ackDelivery id
  | fail id error => failDelivery id error
  | moveToFailed id => Outbound.moveToFailed id
  | load => loadPendingDeliveries.bind fun _ => pure ()
  | recover maxRecoveryMs => (recoverPendingDeliveries maxRecoveryMs).bind fun _ => pure ()

/-- What a task has learned and done so far. -/
structure View (δ : Type) where
  /-- The entries it has read, and the one it drew an id for. -/
  seen : List (String × δ)
  /-- The ids of the entries it has sent. -/
  sent : List String

/-- What a task has learned and done after one call more. -/
def View.after (op : Op δ) (view : View δ) : (c : Command δ) → Reply c → View δ
  | .generateSecureUuid, .ok id =>
    match op with
    | .enqueue params => { view with seen := (id, params) :: view.seen }
    | _ => view
  | .readFile id, .ok entry => { view with seen := (id, entry.payload) :: view.seen }
  | .deliver entry, _ => { view with sent := entry.id :: view.sent }
  | _, _ => view

/-- A call that is under way, or has ended. -/
structure Task (δ : Type) where
  pid : ℕ
  op : Op δ
  /-- The entries that were acknowledged when it began. -/
  barred : List String
  view : View δ
  prog : Io δ Unit

/-- A call of `deliver`. -/
structure Send (δ : Type) where
  task : ℕ
  /-- The entries that were acknowledged when that task began. -/
  barred : List String
  entry : QueuedDelivery δ

/-! ### Steps -/

/-- The directory, the tasks, and what has happened. -/
structure QueueSystem (δ : Type) where
  disk : Disk δ
  /-- The tasks, in the order they began. -/
  tasks : List (Task δ)
  /-- The ids that were drawn, with the payload of the entry. -/
  enqueued : List (String × δ)
  /-- The ids whose file was renamed to `{id}.json`. -/
  published : List String
  /-- The ids whose file was renamed to `{id}.delivered`. -/
  acked : List String
  sends : List (Send δ)

/-- The id a call drew, with the payload. -/
def enqueuedBy (op : Op δ) : (c : Command δ) → Reply c → List (String × δ)
  | .generateSecureUuid, .ok id =>
    match op with
    | .enqueue params => [(id, params)]
    | _ => []
  | _, _ => []

/-- The id a call published. -/
def publishedBy : (c : Command δ) → Reply c → List String
  | .renameTmp id, .ok () => [id]
  | _, _ => []

/-- The id a call acknowledged. -/
def ackedBy : (c : Command δ) → Reply c → List String
  | .renameDelivered id, .ok () => [id]
  | _, _ => []

/-- The send a call made. -/
def sendsBy (number : ℕ) (barred : List String) : (c : Command δ) → Reply c → List (Send δ)
  | .deliver entry, _ => [⟨number, barred, entry⟩]
  | _, _ => []

/-- The state after the call `c` of a task with the reply `r`. -/
def QueueSystem.called (s : QueueSystem δ) (number : ℕ) (task : Task δ) (c : Command δ)
    (k : Reply c → Io δ Unit) (disk : Disk δ) (r : Reply c) : QueueSystem δ where
  disk := disk
  tasks := s.tasks.set number { task with view := task.view.after task.op c r, prog := k r }
  enqueued := enqueuedBy task.op c r ++ s.enqueued
  published := publishedBy c r ++ s.published
  acked := ackedBy c r ++ s.acked
  sends := sendsBy number task.barred c r ++ s.sends

/-- What can happen. -/
inductive Action (δ : Type) where
  /-- A task begins in the process `pid`. -/
  | start (pid : ℕ) (op : Op δ)
  | step (number : ℕ) (env : Environment)
  | crash (pid : ℕ)

/-- A task whose process has died does nothing more. -/
def Task.killedBy (pid : ℕ) (task : Task δ) : Task δ :=
  if task.pid = pid then { task with prog := .pure () } else task

def next (s : QueueSystem δ) : Action δ → Option (QueueSystem δ)
  | .start pid op =>
    some { s with tasks := s.tasks ++ [⟨pid, op, s.acked, ⟨[], []⟩, op.program⟩] }
  | .step number env =>
    match s.tasks[number]? with
    | none => none
    | some task =>
      match task.prog with
      | .pure _ => none
      | .throw _ => none
      | .step c k =>
        (perform task.pid (s.enqueued.map Prod.fst) env s.disk c).map fun done =>
          s.called number task c k done.1 done.2
  | .crash pid => some { s with tasks := s.tasks.map (Task.killedBy pid) }

/-- What a step of a task is. -/
theorem next_step {s s' : QueueSystem δ} {number : ℕ} {env : Environment}
    (h : next s (.step number env) = some s') :
    ∃ task c k disk r, s.tasks[number]? = some task ∧ task.prog = .step c k ∧
      perform task.pid (s.enqueued.map Prod.fst) env s.disk c = some (disk, r) ∧
      s' = s.called number task c k disk r := by
  rw [next] at h
  split at h
  · cases h
  · rename_i task htask
    split at h
    · cases h
    · cases h
    · rename_i c k hprog
      obtain ⟨⟨disk, r⟩, hdone, rfl⟩ := Option.map_eq_some_iff.mp h
      exact ⟨task, c, k, disk, r, htask, hprog, hdone, rfl⟩

end Foxclaw.Outbound
