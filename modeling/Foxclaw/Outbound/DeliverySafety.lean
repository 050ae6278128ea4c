import Foxclaw.Outbound.DeliveryEffects

/-!
# The delivery queue over whole runs

Three things are asked of the queue, whatever fails, whichever process dies and however the
tasks take turns:

* an entry that is acknowledged is not sent by a recovery that begins later (`NeverResent`);
* an entry that was published and is not acknowledged is in the queue or in `failed/`, with
  the payload it was enqueued with (`NothingLost`);
* one recovery sends an entry at most once, and only while it has retries left (`SentOnce`).

## What is proved

The last two hold in every run. The first does not: `failDelivery` and the migration in
`loadPendingDeliveries` read `{id}.json` and later rename a new version of it into place, and
when an acknowledgement comes between the two, the entry is back in the queue
(`fail_revives_acked`). Where no such rename comes after the acknowledgement (`KeepsAcked`),
the first holds too (`queue_safe`).
-/

namespace Foxclaw.Outbound

open List Option Monitor Runs

variable {δ : Type}

/-! ### What is asked -/

/-- A file of the directory `files` is the entry that was enqueued as `p`. -/
def Holds (files : AList fun _ : String => QueuedDelivery δ) (p : String × δ) : Prop :=
  ∃ entry, files.lookup p.1 = some entry ∧ entry.id = p.1 ∧ entry.payload = p.2

/-- No task sends an entry that was acknowledged before the task began. -/
def NeverResent (s : QueueSystem δ) : Prop := ∀ send ∈ s.sends, send.entry.id ∉ send.barred

/-- What was published and not acknowledged is pending or in `failed/`. -/
def NothingLost (s : QueueSystem δ) : Prop :=
  ∀ p ∈ s.enqueued, p.1 ∈ s.published → p.1 ∉ s.acked → Holds s.disk.json p ∨ Holds s.disk.failed p

/-- No task sends an entry twice, or one without retries left. -/
def SentOnce (s : QueueSystem δ) : Prop :=
  s.sends.Pairwise (fun a b => a.task = b.task → a.entry.id ≠ b.entry.id) ∧
    ∀ send ∈ s.sends, send.entry.retryCount < MAX_RETRIES

/-! ### The invariant -/

/-- What is known of the `number`-th task. -/
structure TaskInv (s : QueueSystem δ) (number : ℕ) (task : Task δ) : Prop where
  /-- The rest of it keeps the contract. -/
  keeps : (contract task.op).wp task.prog (fun _ _ => True) (fun _ _ => True) task.view
  seen : task.view.seen ⊆ s.enqueued
  sent : ∀ send ∈ s.sends, send.task = number → send.entry.id ∈ task.view.sent

/-- What holds in every run. -/
structure Inv (s : QueueSystem δ) : Prop where
  /-- No id was drawn twice. -/
  keys : (s.enqueued.map Prod.fst).Nodup
  filed : Filed s.enqueued s.disk
  /-- Only entries of the queue were acknowledged. -/
  acked : s.acked ⊆ s.enqueued.map Prod.fst
  /-- What was published and not acknowledged is there. -/
  kept : ∀ id ∈ s.published, id ∉ s.acked → id ∈ s.disk.json ∨ id ∈ s.disk.failed
  tasks : ∀ number task, s.tasks[number]? = some task → TaskInv s number task
  /-- Every send is that of a task. -/
  senders : ∀ send ∈ s.sends, send.task < s.tasks.length
  /-- The sends of a task are in order. -/
  sends : SentOnce s

/-- What holds as long as no acknowledged entry is revived. -/
structure Settled (s : QueueSystem δ) : Prop where
  /-- No acknowledged entry is in the queue. -/
  gone : ∀ id ∈ s.acked, id ∉ s.disk.json
  /-- What a task found acknowledged is acknowledged. -/
  barred : ∀ task ∈ s.tasks, task.barred ⊆ s.acked
  /-- No task has seen what it found acknowledged. -/
  seen : ∀ task ∈ s.tasks, ∀ p ∈ task.view.seen, p.1 ∉ task.barred
  /-- No task has sent it. -/
  never : NeverResent s

/-! ### Every step keeps the invariant -/

section Step

variable {s : QueueSystem δ} {number : ℕ} {task : Task δ} {c : Command δ}
  {k : Reply c → Io δ Unit} {disk : Disk δ} {r : Reply c}

/-- What a task may do next, and what it goes on with. -/
theorem TaskInv.called (h : TaskInv s number task) (hfiled : Filed s.enqueued s.disk)
    (hprog : task.prog = .step c k) (he : Effect task.pid (s.enqueued.map Prod.fst) s.disk c r disk) :
    (contract task.op).ok task.view c ∧
      TaskInv (s.called number task c k disk r) number
        { task with view := task.view.after task.op c r, prog := k r } := by
  have hwp := h.keeps
  rw [hprog, wp_step] at hwp
  refine ⟨hwp.1, hwp.2 r (he.valid hfiled), he.seen hfiled h.seen, fun send hsend hnumber => ?_⟩
  rcases mem_append.mp hsend with hsend | hsend
  · obtain ⟨entry, rfl, rfl⟩ := mem_sendsBy hsend
    exact mem_cons_self
  · exact after_sent _ _ _ _ (h.sent send hsend hnumber)

/-- What is known of a task does not depend on the calls of the others. -/
theorem TaskInv.other {number' : ℕ} {task' : Task δ} (h : TaskInv s number' task')
    (hne : number' ≠ number) : TaskInv (s.called number task c k disk r) number' task' := by
  refine ⟨h.keeps, fun _ hp => mem_append_right _ (h.seen hp), fun send hsend hnumber => ?_⟩
  rcases mem_append.mp hsend with hsend | hsend
  · obtain ⟨entry, rfl, rfl⟩ := mem_sendsBy hsend
    exact absurd hnumber.symm hne
  · exact h.sent send hsend hnumber

/-- The sends stay in order: a task sends nothing it has sent, and nothing without retries. -/
theorem SentOnce.called (h : SentOnce s) (htask : TaskInv s number task)
    (hok : (contract task.op).ok task.view c) : SentOnce (s.called number task c k disk r) := by
  cases c with
  | deliver entry =>
    obtain ⟨-, hsent, hretry⟩ := hok
    refine ⟨pairwise_cons.mpr ⟨fun send hsend hnumber hid => ?_, h.1⟩, forall_mem_cons.mpr ⟨hretry, h.2⟩⟩
    have hmem : send.entry.id ∈ task.view.sent := htask.sent send hsend hnumber.symm
    exact hsent (hid ▸ hmem)
  | _ => exact h

theorem Inv.called (h : Inv s) (htask : s.tasks[number]? = some task) (hprog : task.prog = .step c k)
    (he : Effect task.pid (s.enqueued.map Prod.fst) s.disk c r disk) :
    Inv (s.called number task c k disk r) := by
  have hinv := h.tasks number task htask
  obtain ⟨hok, hnew⟩ := hinv.called h.filed hprog he
  have hacked : ackedBy c r ++ s.acked ⊆ s.enqueued.map Prod.fst :=
    append_subset.mpr ⟨he.acked h.filed, h.acked⟩
  refine
    { keys := he.keys h.keys
      filed := (h.filed.effect he hok hinv.seen).mono
      acked := fun id hid => ?_
      kept := fun id hid hnot => ?_
      tasks := fun number' task' htask' => ?_
      senders := fun send hsend => ?_
      sends := h.sends.called hinv hok }
  · obtain ⟨p, hp, rfl⟩ := List.mem_map.mp (hacked hid)
    exact List.mem_map_of_mem (mem_append_right _ hp)
  · obtain ⟨hnow, hbefore⟩ := not_or.mp (fun hmem => hnot (mem_append.mpr hmem))
    refine he.kept ?_ hnow
    rcases mem_append.mp hid with hid | hid
    · exact .inl hid
    · exact .inr (h.kept id hid hbefore)
  · rw [QueueSystem.called, getElem?_set] at htask'
    split at htask'
    · rename_i hnumber
      subst hnumber
      split at htask'
      · cases htask'
        exact hnew
      · cases htask'
    · rename_i hnumber
      exact (h.tasks number' task' htask').other (Ne.symm hnumber)
  · rw [QueueSystem.called, length_set]
    rcases mem_append.mp hsend with hsend | hsend
    · obtain ⟨entry, rfl, rfl⟩ := mem_sendsBy hsend
      exact (List.getElem?_eq_some_iff.mp htask).1
    · exact h.senders send hsend

end Step

variable {s s' : QueueSystem δ}

theorem Inv.start (h : Inv s) (pid : ℕ) (op : Op δ) :
    Inv { s with tasks := s.tasks ++ [⟨pid, op, s.acked, ⟨[], []⟩, op.program⟩] } := by
  refine { h with tasks := fun number task htask => ?_, senders := fun send hsend => ?_ }
  · rcases Nat.lt_or_ge number s.tasks.length with hlt | hge
    · rw [getElem?_append_left hlt] at htask
      have hinv := h.tasks number task htask
      exact ⟨hinv.keeps, hinv.seen, hinv.sent⟩
    · rw [getElem?_append_right hge] at htask
      obtain ⟨hlt, rfl⟩ := List.getElem?_eq_some_iff.mp htask
      have hnumber : number = s.tasks.length := by
        rw [length_singleton] at hlt
        omega
      rw [getElem_singleton]
      refine ⟨Op.program_spec op, nil_subset _, fun send hsend heq => ?_⟩
      exact absurd (h.senders send hsend) (by omega)
  · rw [length_append]
    exact Nat.lt_add_right _ (h.senders send hsend)

@[simp] theorem killedBy_barred (pid : ℕ) (task : Task δ) : (task.killedBy pid).barred = task.barred := by
  unfold Task.killedBy
  split <;> rfl

@[simp] theorem killedBy_view (pid : ℕ) (task : Task δ) : (task.killedBy pid).view = task.view := by
  unfold Task.killedBy
  split <;> rfl

theorem Inv.crash (h : Inv s) (pid : ℕ) : Inv { s with tasks := s.tasks.map (Task.killedBy pid) } := by
  refine { h with tasks := fun number task htask => ?_, senders := fun send hsend => ?_ }
  · rw [getElem?_map] at htask
    obtain ⟨old, hold, rfl⟩ := map_eq_some_iff.mp htask
    have hinv := h.tasks number old hold
    unfold Task.killedBy
    split
    · exact ⟨trivial, hinv.seen, hinv.sent⟩
    · exact ⟨hinv.keeps, hinv.seen, hinv.sent⟩
  · rw [length_map]
    exact h.senders send hsend

theorem Inv.next (h : Inv s) (a : Action δ) (hs : next s a = some s') : Inv s' := by
  cases a with
  | start pid op =>
    cases hs
    exact h.start pid op
  | crash pid =>
    cases hs
    exact h.crash pid
  | step number env =>
    obtain ⟨task, c, k, disk, r, htask, hprog, hdone, rfl⟩ := next_step hs
    exact h.called htask hprog (perform_effect hdone)

/-- An entry that is in the queue or in `failed/` has the payload it was enqueued with. -/
theorem Inv.nothingLost (h : Inv s) : NothingLost s := by
  rintro ⟨id, params⟩ hp hpublished hacked
  have hpayload (entry : QueuedDelivery δ) (he : (id, entry.payload) ∈ s.enqueued) :
      entry.payload = params :=
    congrArg Prod.snd (inj_on_of_nodup_map h.keys he hp rfl)
  rcases h.kept id hpublished hacked with hmem | hmem
  · obtain ⟨entry, hentry⟩ := isSome_iff_exists.mp (AList.lookup_isSome.mpr hmem)
    obtain ⟨hid, he⟩ := h.filed.json id entry hentry
    exact .inl ⟨entry, hentry, hid, hpayload entry he⟩
  · obtain ⟨entry, hentry⟩ := isSome_iff_exists.mp (AList.lookup_isSome.mpr hmem)
    obtain ⟨hid, he⟩ := h.filed.failed id entry hentry
    exact .inr ⟨entry, hentry, hid, hpayload entry he⟩

/-! ### No acknowledged entry is revived -/

/-- The step is not one that renames a temporary file to `{id}.json` after `{id}.json` was
renamed to `{id}.delivered`. -/
def KeepsAcked (s : QueueSystem δ) : Action δ → Prop
  | .step number env =>
    match s.tasks[number]? with
    | none => True
    | some task =>
      match task.prog with
      | .step (.renameTmp id) _ => env.error = none → (task.pid, id) ∈ s.disk.tmp → id ∉ s.acked
      | _ => True
  | _ => True

instance (s : QueueSystem δ) (a : Action δ) : Decidable (KeepsAcked s a) := by
  unfold KeepsAcked
  split
  · split
    · exact inferInstance
    · split <;> exact inferInstance
  · exact inferInstance

section Settled

variable {pid : ℕ} {drawn acked : List String} {disk disk' : Disk δ} {c : Command δ} {r : Reply c}

/-- A call of a task that revives no entry keeps the entries settled. -/
theorem Settled.called {number : ℕ} {task : Task δ} {k : Reply c → Io δ Unit} (h : Settled s) (hinv : Inv s)
    (htask : s.tasks[number]? = some task) (hprog : task.prog = .step c k)
    (he : Effect task.pid (s.enqueued.map Prod.fst) s.disk c r disk)
    (hpublished : ∀ id ∈ publishedBy c r, id ∉ s.acked) : Settled (s.called number task c k disk r) := by
  have hmem : task ∈ s.tasks := mem_of_getElem? htask
  have hok := ((hinv.tasks number task htask).called hinv.filed hprog he).1
  refine ⟨he.gone h.gone hpublished, fun task' htask' => ?_, fun task' htask' p hp => ?_,
    fun send hsend => ?_⟩
  · rcases mem_or_eq_of_mem_set htask' with htask' | rfl
    · exact subset_append_of_subset_right _ (h.barred task' htask')
    · exact subset_append_of_subset_right _ (h.barred task hmem)
  · rcases mem_or_eq_of_mem_set htask' with htask' | rfl
    · exact h.seen task' htask' p hp
    · intro hbarred
      rcases he.sees task.op task.view p hp with hp | hp | hp
      · exact h.seen task hmem p hp hbarred
      · exact h.gone p.1 (h.barred task hmem hbarred) hp
      · exact hp (hinv.acked (h.barred task hmem hbarred))
  · rcases mem_append.mp hsend with hsend | hsend
    · obtain ⟨entry, rfl, rfl⟩ := mem_sendsBy hsend
      exact h.seen task hmem _ hok.1
    · exact h.never send hsend

/-- Every step that revives no entry keeps the entries settled. -/
theorem Settled.next (h : Settled s) (hinv : Inv s) (a : Action δ) (hkeeps : KeepsAcked s a)
    (hs : next s a = some s') : Settled s' := by
  cases a with
  | start pid op =>
    cases hs
    refine { h with barred := fun task htask => ?_, seen := fun task htask p hp => ?_ }
    · rcases mem_append.mp htask with htask | htask
      · exact h.barred task htask
      · obtain rfl := mem_singleton.mp htask
        exact fun _ hid => hid
    · rcases mem_append.mp htask with htask | htask
      · exact h.seen task htask p hp
      · obtain rfl := mem_singleton.mp htask
        cases hp
  | crash pid =>
    cases hs
    refine { h with barred := fun task htask => ?_, seen := fun task htask p hp => ?_ } <;>
      obtain ⟨old, hold, rfl⟩ := List.mem_map.mp htask
    · exact (killedBy_barred pid old).symm ▸ h.barred old hold
    · rw [killedBy_view] at hp
      rw [killedBy_barred]
      exact h.seen old hold p hp
  | step number env =>
    obtain ⟨task, c, k, disk, r, htask, hprog, hdone, rfl⟩ := next_step hs
    refine h.called hinv htask hprog (perform_effect hdone) fun id hid => ?_
    obtain ⟨rfl, herror, htmp⟩ := publishedBy_of_perform hdone id hid
    rw [KeepsAcked, htask] at hkeeps
    dsimp only at hkeeps
    rw [hprog] at hkeeps
    exact hkeeps herror htmp

end Settled

/-! ### Every run -/

/-- The queue at a start: no task is running, and the files are those of `enqueued`. -/
structure Boot (s : QueueSystem δ) : Prop where
  /-- No id was drawn twice. -/
  keys : (s.enqueued.map Prod.fst).Nodup
  filed : Filed s.enqueued s.disk
  kept : ∀ id ∈ s.published, id ∈ s.disk.json ∨ id ∈ s.disk.failed
  /-- No task is running. -/
  tasks : s.tasks = []
  /-- Nothing was acknowledged yet. -/
  acked : s.acked = []
  /-- Nothing was sent yet. -/
  sends : s.sends = []

theorem Boot.inv (h : Boot s) : Inv s where
  keys := h.keys
  filed := h.filed
  acked := h.acked ▸ nil_subset _
  kept id hid _ := h.kept id hid
  tasks number task htask := by
    rw [h.tasks] at htask
    cases htask
  senders := h.sends ▸ List.forall_mem_nil _
  sends := by
    rw [SentOnce, h.sends]
    exact ⟨List.Pairwise.nil, List.forall_mem_nil _⟩

theorem Boot.settled (h : Boot s) : Settled s where
  gone := h.acked ▸ List.forall_mem_nil _
  barred := h.tasks ▸ List.forall_mem_nil _
  seen := h.tasks ▸ List.forall_mem_nil _
  never := by
    rw [NeverResent, h.sends]
    exact List.forall_mem_nil _

/-- In every run nothing is lost and no task sends an entry twice; and where no step revives
an acknowledged entry, none is sent by a task that begins after its acknowledgement. -/
theorem queue_safe {as : List (Action δ)} (hboot : Boot s) (h : exec next s as = some s') :
    (Meets next KeepsAcked s as → NeverResent s') ∧ NothingLost s' ∧ SentOnce s' := by
  have hinv : Inv s' := exec_invariant (fun _ a _ hs h => hs.next a h) hboot.inv h
  refine ⟨fun hkeeps => ?_, hinv.nothingLost, hinv.sends⟩
  have hboth := exec_invariant_of_meets (I := fun s : QueueSystem δ => Inv s ∧ Settled s)
    (fun s a s' hs ha h => ⟨hs.1.next a h, hs.2.next hs.1 a ha h⟩) hkeeps
    ⟨hboot.inv, hboot.settled⟩ h
  exact hboth.2.never

def emptyQueue : QueueSystem String := ⟨⟨∅, ∅, ∅, ∅⟩, [], [], [], [], []⟩

theorem emptyQueue_boot : Boot emptyQueue where
  keys := nodup_nil
  filed := ⟨fun _ _ h => (by cases h), fun _ _ h => (by cases h), fun _ _ _ h => (by cases h)⟩
  kept := List.forall_mem_nil _
  tasks := rfl
  acked := rfl
  sends := rfl

/-- `n` calls of a task, at the time `now`, in a queue with the files `files`. -/
def calls (number : ℕ) (now : ℤ) (files : List FileName) (n : ℕ) : List (Action String) :=
  List.replicate n (.step number ⟨none, "a", now, files⟩)

def timeout (number : ℕ) : List (Action String) :=
  [.step number ⟨some ⟨none, "timeout"⟩, "", 0, []⟩]

/-- A message is enqueued; its send times out in a first recovery. In a second one it is sent,
and the process dies before the marker is gone. The third one removes the marker. -/
def recoveringRun : List (Action String) :=
  .start 1 (.enqueue "hello") :: calls 0 1000 [] 6 ++
  .start 1 (.recover none) :: calls 1 2000 [.json "a"] 5 ++ timeout 1 ++ calls 1 2000 [] 4 ++
  .crash 1 :: .start 2 (.recover none) :: calls 2 90000 [.json "a"] 7 ++
  .crash 2 :: .start 3 (.recover none) :: calls 3 95000 [.delivered "a"] 2

theorem queue_safe_recovering :
    ∃ s', exec next emptyQueue recoveringRun = some s' ∧ NeverResent s' ∧ NothingLost s' ∧
      SentOnce s' := by
  obtain ⟨s', hs'⟩ := isSome_iff_exists.mp (by decide : (exec next emptyQueue recoveringRun).isSome)
  obtain ⟨hnever, hlost, honce⟩ := queue_safe emptyQueue_boot hs'
  exact ⟨s', hs', hnever (by decide), hlost, honce⟩

/-- A recovery finds the entry of a live delivery and its send times out; while it records
the failure, the live delivery succeeds and is acknowledged. -/
def revivingRun : List (Action String) :=
  .start 1 (.enqueue "hello") :: calls 0 1000 [] 6 ++
  .start 1 (.recover none) :: calls 1 2000 [.json "a"] 5 ++ timeout 1 ++ calls 1 3000 [] 1 ++
  .start 1 (.ack "a") :: calls 2 3000 [] 2 ++ calls 1 3000 [] 3 ++
  .crash 1 :: .start 2 (.recover none) :: calls 3 100000 [.json "a"] 6

instance (s : QueueSystem δ) : Decidable (NeverResent s) :=
  inferInstanceAs (Decidable (∀ send ∈ s.sends, send.entry.id ∉ send.barred))

/-- The next recovery sends the acknowledged entry again. -/
theorem fail_revives_acked :
    ¬ ∀ (as : List (Action String)) (s' : QueueSystem String),
      exec next emptyQueue as = some s' → NeverResent s' ∧ NothingLost s' ∧ SentOnce s' := by
  intro h
  have hresent : (exec next emptyQueue revivingRun).map (fun s' => decide (NeverResent s')) =
      some false := by decide
  obtain ⟨s', hs', hnot⟩ := map_eq_some_iff.mp hresent
  exact of_decide_eq_false hnot (h revivingRun s' hs').1

end Foxclaw.Outbound
