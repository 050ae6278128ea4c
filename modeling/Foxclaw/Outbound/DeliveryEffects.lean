import Foxclaw.Outbound.DeliveryContract

/-!
# What one call does to the queue directory

`Effect` lists all that a call of a task can do to the directory and all it can reply that
matters to anyone; everything that is proved of a step goes through it.

## What is proved

* `perform_effect` — a call has one of the effects.
* The files keep the names of their entries (`Filed.effect`), so the replies are as the
  contract of the functions promises (`Effect.valid`, `Effect.seen`).
* No file is lost by a call other than an acknowledgement (`Effect.kept`), and an
  acknowledged entry comes back only when a temporary file is renamed (`Effect.gone`).
-/

namespace Foxclaw.Outbound

open List Monitor

variable {δ : Type}

/-! ### Effects -/

/-- A reply that tells a task nothing, and publishes and acknowledges nothing. -/
structure Uneventful {c : Command δ} (r : Reply c) : Prop where
  published : publishedBy c r = []
  acked : ackedBy c r = []
  enqueued : ∀ op, enqueuedBy op c r = []
  /-- The task knows of no further entry. -/
  seen : ∀ op view, (View.after op view c r).seen = view.seen
  /-- The contract promises nothing of it. -/
  valid : ∀ op view, (contract op).valid view c r

/-- All that a call of a task of the process `pid` can do. -/
inductive Effect (pid : ℕ) (drawn : List String) (disk : Disk δ) :
    (c : Command δ) → Reply c → Disk δ → Prop where
  /-- Nothing. -/
  | none {c : Command δ} {r : Reply c} (h : Uneventful r) : Effect pid drawn disk c r disk
  | draw {id : String} (h : id ∉ drawn) : Effect pid drawn disk .generateSecureUuid (.ok id) disk
  /-- The names in the queue are listed. -/
  | list {files : List FileName} (h : (files.filterMap FileName.jsonId).Perm disk.json.keys) :
    Effect pid drawn disk .readdir (.ok files) disk
  | read {id : String} {entry : QueuedDelivery δ} (h : disk.json.lookup id = some entry) :
    Effect pid drawn disk (.readFile id) (.ok entry) disk
  | write (id : String) (entry : QueuedDelivery δ) :
    Effect pid drawn disk (.writeTmp id entry) (.ok ())
      { disk with tmp := disk.tmp.insert (pid, id) entry }
  /-- A temporary file becomes an entry. -/
  | publish {id : String} {entry : QueuedDelivery δ} (h : disk.tmp.lookup (pid, id) = some entry) :
    Effect pid drawn disk (.renameTmp id) (.ok ())
      { disk with json := disk.json.insert id entry, tmp := disk.tmp.erase (pid, id) }
  | ack {id : String} {entry : QueuedDelivery δ} (h : disk.json.lookup id = some entry) :
    Effect pid drawn disk (.renameDelivered id) (.ok ())
      { disk with json := disk.json.erase id, delivered := disk.delivered.insert id entry }
  | giveUp {id : String} {entry : QueuedDelivery δ} (h : disk.json.lookup id = some entry) :
    Effect pid drawn disk (.renameFailed id) (.ok ())
      { disk with json := disk.json.erase id, failed := disk.failed.insert id entry }
  | unlink (id : String) :
    Effect pid drawn disk (.unlinkDelivered id) (.ok ())
      { disk with delivered := disk.delivered.erase id }

theorem uneventful_error {c : Command δ} (err : JsError) : Uneventful (.error err : Reply c) := by
  cases c <;> exact ⟨rfl, rfl, fun _ => rfl, fun _ _ => rfl, fun _ _ => trivial⟩

section Effect

variable {pid : ℕ} {drawn : List String} {env : Environment} {disk disk' : Disk δ}
  {c : Command δ} {r : Reply c}

/-- A call that may fail fails, or it does what it does. -/
theorem fallible_effect {done : Disk δ × Reply c} (hdone : Effect pid drawn disk c done.2 done.1)
    (h : some (fallible env disk done) = some (disk', r)) : Effect pid drawn disk c r disk' := by
  unfold fallible at h
  split at h
  · cases h
    exact .none (uneventful_error _)
  · cases h
    exact hdone

/-- A rename finds its file, or it fails. -/
theorem rename_effect {source : Option (QueuedDelivery δ)} {moved : QueuedDelivery δ → Disk δ}
    (hc : Reply c = Except JsError Unit)
    (herror : Effect pid drawn disk c (cast hc.symm (.error enoent)) disk)
    (hok : ∀ entry, source = some entry → Effect pid drawn disk c (cast hc.symm (.ok ())) (moved entry)) :
    Effect pid drawn disk c (cast hc.symm (rename source disk moved).2)
      (rename source disk moved).1 := by
  cases source with
  | none => exact herror
  | some entry => exact hok entry rfl

theorem perform_effect (h : perform pid drawn env disk c = some (disk', r)) :
    Effect pid drawn disk c r disk' := by
  cases c with
  | mkdir =>
    refine fallible_effect (.none ?_) h
    exact ⟨rfl, rfl, fun _ => rfl, fun _ _ => rfl, fun _ _ => trivial⟩
  | generateSecureUuid =>
    rw [perform] at h
    split at h
    · cases h
    · rename_i hnew
      cases h
      exact .draw hnew
  | now =>
    cases h
    exact .none ⟨rfl, rfl, fun _ => rfl, fun _ _ => rfl, fun _ _ => trivial⟩
  | writeTmp id entry => exact fallible_effect (.write id entry) h
  | renameTmp id =>
    exact fallible_effect
      (rename_effect rfl (.none (uneventful_error _)) fun entry hentry => .publish hentry) h
  | renameDelivered id =>
    exact fallible_effect (rename_effect rfl (.none (uneventful_error _)) fun entry hentry => .ack hentry) h
  | renameFailed id =>
    exact fallible_effect
      (rename_effect rfl (.none (uneventful_error _)) fun entry hentry => .giveUp hentry) h
  | unlinkDelivered id =>
    exact fallible_effect (rename_effect rfl (.none (uneventful_error _)) fun entry _ => .unlink id) h
  | readdir =>
    rw [perform] at h
    split at h
    · rename_i hfiles
      exact fallible_effect (.list hfiles.1) h
    · cases h
  | stat id =>
    refine fallible_effect (.none ?_) h
    cases disk.json.lookup id <;>
      exact ⟨rfl, rfl, fun _ => rfl, fun _ _ => rfl, fun _ _ => trivial⟩
  | readFile id =>
    refine fallible_effect ?_ h
    cases hentry : disk.json.lookup id with
    | none => exact .none (uneventful_error _)
    | some entry => exact .read hentry
  | deliver entry =>
    refine fallible_effect (.none ?_) h
    exact ⟨rfl, rfl, fun _ => rfl, fun _ _ => rfl, fun _ _ => trivial⟩

end Effect

/-! ### The files -/

/-- Every file of the queue holds the entry it is named after, with its payload. -/
structure Filed (enqueued : List (String × δ)) (disk : Disk δ) : Prop where
  /-- The files `{id}.json`. -/
  json : ∀ id entry, disk.json.lookup id = some entry →
    entry.id = id ∧ (id, entry.payload) ∈ enqueued
  /-- The files in `failed/`. -/
  failed : ∀ id entry, disk.failed.lookup id = some entry →
    entry.id = id ∧ (id, entry.payload) ∈ enqueued
  tmp : ∀ pid id entry, disk.tmp.lookup (pid, id) = some entry →
    entry.id = id ∧ (id, entry.payload) ∈ enqueued

section Call

variable {pid : ℕ} {disk disk' : Disk δ} {c : Command δ} {r : Reply c} {op : Op δ}
  {view : View δ} {enqueued : List (String × δ)} {drawn : List String}

theorem Filed.mono {more : List (String × δ)} (h : Filed enqueued disk) : Filed (more ++ enqueued) disk where
  json id entry he := ⟨(h.json id entry he).1, mem_append_right _ (h.json id entry he).2⟩
  failed id entry he := ⟨(h.failed id entry he).1, mem_append_right _ (h.failed id entry he).2⟩
  tmp pid id entry he := ⟨(h.tmp pid id entry he).1, mem_append_right _ (h.tmp pid id entry he).2⟩

/-- A file that was there is there after another one was removed. -/
theorem lookup_of_erase {κ : Type} [DecidableEq κ] {β : Type} {files : AList fun _ : κ => β} {key other : κ}
    {entry : β} (h : (files.erase other).lookup key = some entry) : files.lookup key = some entry := by
  by_cases hkey : key = other
  · rw [hkey, AList.lookup_erase] at h
    cases h
  · rwa [AList.lookup_erase_ne hkey] at h

/-- After a file was replaced, a file is that one or was there. -/
theorem lookup_of_insert {κ : Type} [DecidableEq κ] {β : Type} {files : AList fun _ : κ => β}
    {key other : κ} {entry new : β} (h : (files.insert other new).lookup key = some entry) :
    key = other ∧ entry = new ∨ files.lookup key = some entry := by
  by_cases hkey : key = other
  · rw [hkey, AList.lookup_insert] at h
    exact .inl ⟨hkey, (Option.some.inj h).symm⟩
  · rw [AList.lookup_insert_ne hkey] at h
    exact .inr h

/-- A call that keeps the contract keeps the files in order. -/
theorem Filed.effect (h : Filed enqueued disk) (he : Effect pid drawn disk c r disk')
    (hok : (contract op).ok view c) (hseen : view.seen ⊆ enqueued) : Filed enqueued disk' := by
  cases he with
  | none _ | draw _ | list _ | read _ => exact h
  | unlink _ => exact ⟨h.json, h.failed, h.tmp⟩
  | write id entry =>
    refine ⟨h.json, h.failed, fun pid' id' entry' hentry => ?_⟩
    rcases lookup_of_insert hentry with ⟨hkey, rfl⟩ | hentry
    · cases hkey
      exact ⟨hok.1, hseen hok.2⟩
    · exact h.tmp pid' id' entry' hentry
  | publish htmp =>
    refine ⟨fun id' entry' hentry => ?_, h.failed, fun pid' id' entry' hentry =>
      h.tmp pid' id' entry' (lookup_of_erase hentry)⟩
    rcases lookup_of_insert hentry with ⟨rfl, rfl⟩ | hentry
    · exact h.tmp _ _ _ htmp
    · exact h.json id' entry' hentry
  | ack hjson =>
    exact ⟨fun id' entry' hentry => h.json id' entry' (lookup_of_erase hentry), h.failed, h.tmp⟩
  | giveUp hjson =>
    refine ⟨fun id' entry' hentry => h.json id' entry' (lookup_of_erase hentry),
      fun id' entry' hentry => ?_, h.tmp⟩
    rcases lookup_of_insert hentry with ⟨rfl, rfl⟩ | hentry
    · exact h.json _ _ hjson
    · exact h.failed id' entry' hentry

variable (he : Effect pid drawn disk c r disk')
include he

/-- The replies are as the contract promises. -/
theorem Effect.valid (h : Filed enqueued disk) : (contract op).valid view c r := by
  cases he with
  | none hr => exact hr.valid op view
  | list hfiles => exact hfiles.nodup_iff.mpr disk.json.keys_nodup
  | read hentry => exact (h.json _ _ hentry).1
  | draw _ | write _ _ | publish _ | ack _ | giveUp _ | unlink _ => trivial

/-- What a task sees was enqueued. -/
theorem Effect.seen (h : Filed enqueued disk) (hseen : view.seen ⊆ enqueued) :
    (view.after op c r).seen ⊆ enqueuedBy op c r ++ enqueued := by
  have hold : view.seen ⊆ enqueuedBy op c r ++ enqueued := fun _ hp =>
    mem_append_right _ (hseen hp)
  cases he with
  | none hr => exact (hr.seen op view) ▸ hold
  | read hentry => exact cons_subset.mpr ⟨(h.json _ _ hentry).2, hseen⟩
  | draw _ =>
    cases op with
    | enqueue params => exact cons_subset_cons _ hseen
    | _ => exact hold
  | list _ | write _ _ | publish _ | ack _ | giveUp _ | unlink _ => exact hold

omit he in
/-- No id is drawn twice. -/
theorem Effect.keys (he : Effect pid (enqueued.map Prod.fst) disk c r disk')
    (h : (enqueued.map Prod.fst).Nodup) : ((enqueuedBy op c r ++ enqueued).map Prod.fst).Nodup := by
  cases he with
  | none hr =>
    rw [hr.enqueued op]
    exact h
  | draw hnew =>
    cases op with
    | enqueue params => exact nodup_cons.mpr ⟨hnew, h⟩
    | _ => exact h
  | list _ | read _ | write _ _ | publish _ | ack _ | giveUp _ | unlink _ => exact h

/-- What is acknowledged was in the queue. -/
theorem Effect.acked (h : Filed enqueued disk) : ackedBy c r ⊆ enqueued.map Prod.fst := by
  cases he with
  | none hr => exact hr.acked ▸ nil_subset _
  | ack hentry =>
    exact cons_subset.mpr ⟨List.mem_map_of_mem (f := Prod.fst) (h.json _ _ hentry).2, nil_subset _⟩
  | draw _ | list _ | read _ | write _ _ | publish _ | giveUp _ | unlink _ =>
    exact nil_subset _

/-- What was there, or is published now, is there unless it is acknowledged now. -/
theorem Effect.kept {id : String} (h : id ∈ publishedBy c r ∨ id ∈ disk.json ∨ id ∈ disk.failed)
    (hacked : id ∉ ackedBy c r) : id ∈ disk'.json ∨ id ∈ disk'.failed := by
  cases he with
  | none hr =>
    rw [hr.published] at h
    exact h.resolve_left not_mem_nil
  | publish htmp =>
    rw [AList.mem_insert]
    rcases h with h | h | h
    · exact .inl (.inl (mem_singleton.mp h))
    · exact .inl (.inr h)
    · exact .inr h
  | ack hentry =>
    rw [AList.mem_erase]
    rcases h with h | h | h
    · cases h
    · exact .inl ⟨fun hid => hacked (mem_singleton.mpr hid), h⟩
    · exact .inr h
  | @giveUp id' entry hentry =>
    rw [AList.mem_erase, AList.mem_insert]
    rcases h with h | h | h
    · cases h
    · by_cases hid : id = id'
      · exact .inr (.inl hid)
      · exact .inl ⟨hid, h⟩
    · exact .inr (.inr h)
  | draw _ | list _ | read _ | write _ _ | unlink _ => exact h.resolve_left not_mem_nil

omit he in
theorem after_sent (op : Op δ) (view : View δ) (c : Command δ) (r : Reply c) :
    view.sent ⊆ (view.after op c r).sent := by
  unfold View.after
  split <;> try exact fun _ h => h
  · split <;> exact fun _ h => h
  · exact fun _ h => mem_cons_of_mem _ h

omit he in
/-- A send is one of `deliver`. -/
theorem mem_sendsBy {number : ℕ} {barred : List String} {send : Send δ}
    (h : send ∈ sendsBy number barred c r) :
    ∃ entry, c = .deliver entry ∧ send = ⟨number, barred, entry⟩ := by
  cases c with
  | deliver entry => exact ⟨entry, rfl, mem_singleton.mp h⟩
  | _ => cases h

/-- An acknowledged entry stays out of the queue, unless it is published. -/
theorem Effect.gone {acked : List String} (h : ∀ id ∈ acked, id ∉ disk.json)
    (hpublished : ∀ id ∈ publishedBy c r, id ∉ acked) : ∀ id ∈ ackedBy c r ++ acked, id ∉ disk'.json := by
  cases he with
  | none hr =>
    rw [hr.acked]
    exact h
  | @publish id entry _ =>
    intro id' hid' hmem
    rcases (AList.mem_insert _).mp hmem with rfl | hmem
    · exact hpublished id' mem_cons_self hid'
    · exact h id' hid' hmem
  | ack _ =>
    intro id' hid' hmem
    obtain ⟨hne, hmem⟩ := AList.mem_erase.mp hmem
    rcases mem_cons.mp hid' with rfl | hid'
    · exact hne rfl
    · exact h id' hid' hmem
  | giveUp _ => exact fun id' hid' hmem => h id' hid' (AList.mem_erase.mp hmem).2
  | draw _ | list _ | read _ | write _ _ | unlink _ => exact h

/-- What a task sees now is in the queue, or has an id that was not drawn before. -/
theorem Effect.sees (op : Op δ) (view : View δ) :
    ∀ p ∈ (view.after op c r).seen, p ∈ view.seen ∨ p.1 ∈ disk.json ∨ p.1 ∉ drawn := by
  intro p hp
  cases he with
  | none hr => exact .inl (hr.seen op view ▸ hp)
  | read hentry =>
    rcases mem_cons.mp hp with rfl | hp
    · exact .inr (.inl (AList.lookup_isSome.mp (Option.isSome_of_eq_some hentry)))
    · exact .inl hp
  | draw hnew =>
    cases op with
    | enqueue params =>
      rcases mem_cons.mp hp with rfl | hp
      · exact .inr (.inr hnew)
      · exact .inl hp
    | _ => exact .inl hp
  | list _ | write _ _ | publish _ | ack _ | giveUp _ | unlink _ => exact .inl hp

omit he

/-- What a rename needs to publish an entry. -/
theorem publishedBy_of_perform {env : Environment} (h : perform pid drawn env disk c = some (disk', r)) :
    ∀ id ∈ publishedBy c r, c = .renameTmp id ∧ env.error = none ∧ (pid, id) ∈ disk.tmp := by
  intro id hid
  cases c with
  | renameTmp id' =>
    rw [perform, fallible] at h
    split at h
    · cases h
      cases hid
    · rename_i herror
      unfold rename at h
      split at h
      · cases h
        cases hid
      · rename_i entry hentry
        cases h
        obtain rfl := mem_singleton.mp hid
        exact ⟨rfl, herror, AList.lookup_isSome.mp (Option.isSome_of_eq_some hentry)⟩
  | _ => cases hid

end Call

end Foxclaw.Outbound
