import Foxclaw.Outbound.DeliverySystem

/-!
# What the functions of the queue do, whatever else happens

Between two calls of a function the directory may change in any way. What is left is a
contract on its calls: with any replies, but that a file `{id}.json` holds an entry with
that id and a listing has no name twice.

## What is proved

Every function of the queue keeps `contract` (`Op.program_spec`):

* it writes under `{id}` only an entry with that id and the payload it has read there or
  drawn the id for;
* it sends only an entry it has read, with retries left, and none twice.
-/

namespace Foxclaw.Outbound

open List Monitor

variable {δ : Type}

/-- What a function of the queue may do, and what it may rely on. -/
def contract (op : Op δ) : Monitor (Command δ) Reply (View δ) where
  ok view
    | .generateSecureUuid => ∃ params, op = .enqueue params
    | .writeTmp id entry => entry.id = id ∧ (id, entry.payload) ∈ view.seen
    | .deliver entry =>
      (entry.id, entry.payload) ∈ view.seen ∧ entry.id ∉ view.sent ∧
        entry.retryCount < MAX_RETRIES
    | _ => True
  valid _
    | .readdir, .ok files => (files.filterMap FileName.jsonId).Nodup
    | .readFile id, .ok entry => entry.id = id
    | _, _ => True
  next view c r := view.after op c r

/-- A later view that has sent nothing more. -/
structure View.Extends (base view : View δ) : Prop where
  /-- It knows what the earlier one knew. -/
  seen : base.seen ⊆ view.seen
  /-- It has sent what the earlier one had. -/
  sent : view.sent = base.sent

theorem View.Extends.refl (view : View δ) : view.Extends view := ⟨fun _ h => h, rfl⟩

theorem View.Extends.trans {a b c : View δ} (hab : a.Extends b) (hbc : b.Extends c) :
    a.Extends c := ⟨fun _ h => hbc.seen (hab.seen h), hbc.sent.trans hab.sent⟩

/-- The function keeps the contract, and sends nothing. -/
def Quiet (op : Op δ) {α : Type} (p : Io δ α) (base view : View δ) : Prop :=
  (contract op).wp p (fun v _ => base.Extends v) (fun v _ => base.Extends v) view

variable {op : Op δ} {base view : View δ}

/-! ### Calls -/

variable {E : View δ → JsError → Prop}

theorem wp_io {c : Command δ} {Q : View δ → Value c → Prop} :
    (contract op).wp (io c) Q E view ↔ (contract op).ok view c ∧
      (∀ a, (contract op).valid view c (.ok a) → Q (view.after op c (.ok a)) a) ∧
      ∀ e, (contract op).valid view c (.error e) → E (view.after op c (.error e)) e := by
  rw [io, wp_bind, wp_call]
  refine and_congr_right fun _ => ⟨fun h => ⟨fun a => h (.ok a), fun e => h (.error e)⟩, ?_⟩
  rintro ⟨hok, herror⟩ (e | a)
  · exact herror e
  · exact hok a

/-- A call that neither draws, reads, writes nor sends. -/
def Command.Plain : Command δ → Prop
  | .generateSecureUuid | .writeTmp _ _ | .readdir | .readFile _ | .deliver _ => False
  | _ => True

theorem wp_io_plain (c : Command δ) (hc : c.Plain) {Q : View δ → Value c → Prop} (hQ : ∀ a, Q view a)
    (hE : ∀ e, E view e) : (contract op).wp (io c) Q E view := by
  rw [wp_io]
  cases c <;> first | exact ⟨trivial, fun a _ => hQ a, fun e _ => hE e⟩ | exact hc.elim

theorem wp_io_writeTmp {id : String} {entry : QueuedDelivery δ} {Q : View δ → Unit → Prop}
    (hid : entry.id = id) (hseen : (id, entry.payload) ∈ view.seen) (hQ : Q view ()) (hE : ∀ e, E view e) :
    (contract op).wp (io (.writeTmp id entry)) Q E view :=
  wp_io.mpr ⟨⟨hid, hseen⟩, fun _ _ => hQ, fun e _ => hE e⟩

theorem wp_io_readFile {id : String} {Q : View δ → QueuedDelivery δ → Prop}
    (hQ : ∀ entry, entry.id = id → Q ⟨(id, entry.payload) :: view.seen, view.sent⟩ entry)
    (hE : ∀ e, E view e) : (contract op).wp (io (.readFile id)) Q E view :=
  wp_io.mpr ⟨trivial, fun entry h => hQ entry h, fun e _ => hE e⟩

/-! ### One entry -/

theorem unlinkBestEffort_quiet (id : String) (h : base.Extends view) :
    Quiet op (unlinkBestEffort id) base view :=
  wp_seq (wp_caught (wp_io_plain (.unlinkDelivered id) trivial (fun _ => h) fun _ => h))

theorem replaceFile_quiet {id : String} {entry : QueuedDelivery δ} (hid : entry.id = id)
    (hseen : (id, entry.payload) ∈ view.seen) (h : base.Extends view) :
    Quiet op (replaceFile id entry) base view :=
  wp_seq (wp_io_writeTmp hid hseen
    (wp_io_plain (.renameTmp id) trivial (fun _ => h) fun _ => h) fun _ => h)

theorem ackDelivery_quiet (id : String) (h : base.Extends view) : Quiet op (ackDelivery id) base view := by
  refine wp_seq (wp_caught (wp_io_plain (.renameDelivered id) trivial ?_ ?_))
  · exact fun _ => unlinkBestEffort_quiet id h
  · intro err
    dsimp only
    split
    · exact unlinkBestEffort_quiet id h
    · exact h

theorem failDelivery_quiet (id error : String) (h : base.Extends view) :
    Quiet op (failDelivery id error) base view := by
  refine wp_seq (wp_io_readFile (fun entry hid => ?_) fun _ => h)
  have h' : base.Extends ⟨(id, entry.payload) :: view.seen, view.sent⟩ :=
    h.trans ⟨fun _ hp => mem_cons_of_mem _ hp, rfl⟩
  refine wp_seq (wp_io_plain .now trivial (fun now => ?_) fun _ => h')
  exact replaceFile_quiet hid mem_cons_self h'

theorem moveToFailed_quiet (id : String) (h : base.Extends view) : Quiet op (moveToFailed id) base view :=
  wp_seq (wp_io_plain .mkdir trivial
    (fun _ => wp_io_plain (.renameFailed id) trivial (fun _ => h) fun _ => h) fun _ => h)

theorem Quiet.attempt {α : Type} {p : Io δ α} (h : Quiet op p base view) :
    Quiet op p.attempt base view := wp_caught h

/-- The new entry is written under the id that was drawn for it. -/
theorem enqueueDelivery_spec (params : δ) :
    (contract (.enqueue params)).wp (enqueueDelivery params) (fun _ _ => True)
      (fun _ _ => True) view := by
  refine wp_seq (wp_seq (wp_io_plain .mkdir trivial (fun _ => ?_) fun _ => trivial))
  refine wp_io_plain .mkdir trivial (fun _ => ?_) fun _ => trivial
  refine wp_seq (wp_io.mpr ⟨⟨params, rfl⟩, fun id _ => ?_, fun _ _ => trivial⟩)
  refine wp_seq (wp_io_plain .now trivial (fun now => ?_) fun _ => trivial)
  exact wp_seq (wp_mono (fun _ _ _ => trivial) (fun _ _ _ => trivial)
    (replaceFile_quiet rfl mem_cons_self (View.Extends.refl _)))

/-! ### The backlog -/

theorem normalizeLegacy_fst (entry : QueuedDelivery δ) :
    (normalizeLegacyQueuedDeliveryEntry entry).1.id = entry.id ∧
      (normalizeLegacyQueuedDeliveryEntry entry).1.payload = entry.payload := by
  unfold normalizeLegacyQueuedDeliveryEntry
  split_ifs <;> exact ⟨rfl, rfl⟩

/-- What is loaded from `{id}.json` is an entry `id` that was read there. -/
theorem loadEntry_spec (id : String) (h : base.Extends view) :
    (contract op).wp (loadEntry id)
      (fun v loaded => base.Extends v ∧
        ∀ entry ∈ loaded, entry.id = id ∧ (id, entry.payload) ∈ v.seen)
      (fun v _ => base.Extends v) view := by
  refine wp_seq (wp_io_plain (.stat id) trivial (fun isFile => ?_) fun _ => h)
  split
  · refine wp_seq (wp_io_readFile (fun parsed hid => ?_) fun _ => h)
    obtain ⟨hid', hpayload⟩ := normalizeLegacy_fst parsed
    have h' : base.Extends ⟨(id, parsed.payload) :: view.seen, view.sent⟩ :=
      h.trans ⟨fun _ hp => mem_cons_of_mem _ hp, rfl⟩
    dsimp only
    generalize normalizeLegacyQueuedDeliveryEntry parsed = normalized at hid' hpayload ⊢
    have hloaded {v : View δ} (hv : View.Extends ⟨(id, parsed.payload) :: view.seen, view.sent⟩ v) :
        base.Extends v ∧ ∀ entry ∈ some normalized.1, entry.id = id ∧ (id, entry.payload) ∈ v.seen := by
      refine ⟨h'.trans hv, fun entry hentry => ?_⟩
      obtain rfl := Option.mem_some_iff.mp hentry
      exact ⟨hid'.trans hid, hpayload ▸ hv.seen mem_cons_self⟩
    split
    · refine wp_seq (wp_mono (fun v _ hv => hloaded hv) (fun v _ hv => h'.trans hv) ?_)
      exact replaceFile_quiet (hid'.trans hid) (hpayload ▸ mem_cons_self) (View.Extends.refl _)
    · exact hloaded (View.Extends.refl _)
  · exact ⟨h, fun _ hentry => by cases hentry⟩

/-- The entries that are loaded were read, and their ids are among those of the files. -/
theorem loadEntries_spec (ids : List String) (h : base.Extends view) :
    (contract op).wp (loadEntries ids)
      (fun v entries => base.Extends v ∧ (entries.map QueuedDelivery.id).Sublist ids ∧
        ∀ entry ∈ entries, (entry.id, entry.payload) ∈ v.seen)
      (fun _ _ => True) view := by
  induction ids generalizing base view with
  | nil => exact ⟨h, List.Sublist.refl _, fun _ hentry => by cases hentry⟩
  | cons id ids ih =>
    refine wp_seq (wp_caught (wp_mono ?_ ?_ (loadEntry_spec id h)))
    · rintro v loaded ⟨hv, hloaded⟩
      refine wp_seq (wp_mono ?_ (fun _ _ h => h) (ih (View.Extends.refl v)))
      rintro w entries ⟨hw, hsub, hseen⟩
      cases loaded with
      | none => exact ⟨hv.trans hw, hsub.cons id, hseen⟩
      | some entry =>
        obtain ⟨rfl, hentry⟩ := hloaded entry rfl
        refine ⟨hv.trans hw, hsub.cons_cons entry.id, fun e he => ?_⟩
        rcases mem_cons.mp he with rfl | he
        · exact hw.seen hentry
        · exact hseen e he
    · intro v _ hv
      refine wp_seq (wp_mono ?_ (fun _ _ h => h) (ih hv))
      exact fun w entries hw => ⟨hw.1, hw.2.1.cons id, hw.2.2⟩

theorem unlinkMarkers_quiet (files : List FileName) (h : base.Extends view) :
    Quiet op (unlinkMarkers files) base view := by
  refine wp_forM (fun file _ v hv => ?_) h
  cases file with
  | delivered id => exact unlinkBestEffort_quiet id hv
  | json id => exact hv
  | other name => exact hv

/-- The entries that are pending, each once, were read. -/
theorem loadPendingDeliveries_spec :
    (contract op).wp loadPendingDeliveries
      (fun v entries => v.sent = view.sent ∧ (entries.map QueuedDelivery.id).Nodup ∧
        ∀ entry ∈ entries, (entry.id, entry.payload) ∈ v.seen)
      (fun _ _ => True) view := by
  refine wp_seq (wp_caught (wp_io.mpr ⟨trivial, fun files hfiles => ?_, ?_⟩))
  · refine wp_seq (wp_mono (fun v _ hv => ?_) (fun _ _ _ => trivial)
      (unlinkMarkers_quiet files (View.Extends.refl view)))
    exact wp_mono (fun w entries hw => ⟨hw.1.sent, hw.2.1.nodup hfiles, hw.2.2⟩) (fun _ _ h => h)
      (loadEntries_spec _ hv)
  · intro err _
    dsimp only
    split
    · exact ⟨rfl, nodup_nil, fun _ hentry => by cases hentry⟩
    · trivial

/-! ### Recovery -/

/-- A later view in which at most the entry `id` was sent meanwhile. -/
structure View.Sends (id : String) (base view : View δ) : Prop where
  /-- It knows what the earlier one knew. -/
  seen : base.seen ⊆ view.seen
  sent : view.sent ⊆ id :: base.sent

theorem View.Sends.quiet {id : String} {v w : View δ} (h : base.Sends id v) (hw : v.Extends w) :
    base.Sends id w :=
  ⟨fun _ hx => hw.seen (h.seen hx), fun _ hx => h.sent (hw.sent ▸ hx)⟩

theorem Quiet.sends {α : Type} {p : Io δ α} (h : Quiet op p view view) {id : String}
    (hv : base.Sends id view) :
    (contract op).wp p (fun v _ => base.Sends id v) (fun v _ => base.Sends id v) view :=
  wp_mono (fun _ _ hw => hv.quiet hw) (fun _ _ hw => hv.quiet hw) h

theorem View.Sends.refl (id : String) (view : View δ) : view.Sends id view :=
  ⟨fun _ h => h, fun _ h => mem_cons_of_mem id h⟩

/-- One attempt sends the entry once. -/
theorem retryDelivery_spec {entry : QueuedDelivery δ} (hseen : (entry.id, entry.payload) ∈ view.seen)
    (hsent : entry.id ∉ view.sent) (hretry : entry.retryCount < MAX_RETRIES) :
    (contract op).wp (retryDelivery entry) (fun v _ => view.Sends entry.id v)
      (fun v _ => view.Sends entry.id v) view := by
  have hdelivered (r : Reply (.deliver entry)) :
      view.Sends entry.id (view.after op (.deliver entry) r) := ⟨fun _ h => h, fun _ h => h⟩
  -- what follows an error of the send or of the acknowledgement
  have hfailed (v : View δ) (err : JsError) (hv : view.Sends entry.id v) :
      (contract op).wp (if isPermanentDeliveryError err.message then do
          let _ ← (moveToFailed entry.id).attempt
          pure .failed
        else do
          let _ ← (failDelivery entry.id err.message).attempt
          pure .failed : Io δ EntryOutcome)
        (fun v _ => view.Sends entry.id v) (fun v _ => view.Sends entry.id v) v := by
    split
    · exact wp_seq ((moveToFailed_quiet entry.id (View.Extends.refl _)).attempt.sends hv)
    · exact wp_seq ((failDelivery_quiet entry.id err.message (View.Extends.refl _)).attempt.sends hv)
  refine wp_seq (wp_caught (wp_seq (wp_io.mpr ⟨⟨hseen, hsent, hretry⟩, ?_, ?_⟩)))
  · intro _ _
    exact wp_mono (fun v _ hv => hv) (fun v err hv => hfailed v err hv)
      ((ackDelivery_quiet entry.id (View.Extends.refl _)).sends (hdelivered (.ok ())))
  · exact fun err _ => hfailed _ err (hdelivered (.error err))

/-- The body of the loop sends at most its entry. -/
theorem recoverEntry_spec (deadline : ℤ) {entry : QueuedDelivery δ}
    (hseen : (entry.id, entry.payload) ∈ view.seen) (hsent : entry.id ∉ view.sent) :
    (contract op).wp (recoverEntry deadline entry) (fun v _ => view.Sends entry.id v)
      (fun _ _ => True) view := by
  refine wp_seq (wp_io_plain .now trivial (fun now => ?_) fun _ => trivial)
  split
  · exact View.Sends.refl _ _
  split
  · exact wp_seq (wp_mono (fun _ _ hv => hv) (fun _ _ _ => trivial)
      ((moveToFailed_quiet entry.id (View.Extends.refl _)).attempt.sends (View.Sends.refl _ _)))
  · rename_i hretry
    split
    · exact View.Sends.refl _ _
    · exact wp_seq (wp_mono (fun _ _ hv => hv) (fun _ _ _ => trivial)
        (retryDelivery_spec hseen hsent (not_le.mp hretry)))

/-- The loop sends each entry at most once, as their ids differ. -/
theorem recoverEntries_spec (deadline : ℤ) {pending : List (QueuedDelivery δ)}
    (summary : RecoverySummary) (hids : (pending.map QueuedDelivery.id).Nodup)
    (hseen : ∀ entry ∈ pending, (entry.id, entry.payload) ∈ view.seen)
    (hsent : ∀ entry ∈ pending, entry.id ∉ view.sent) :
    (contract op).wp (recoverEntries deadline pending summary) (fun _ _ => True)
      (fun _ _ => True) view := by
  induction pending generalizing view summary with
  | nil => trivial
  | cons entry pending ih =>
    rw [map_cons, nodup_cons] at hids
    refine wp_seq (wp_mono (fun v outcome hv => ?_) (fun _ _ h => h)
      (recoverEntry_spec deadline (hseen entry mem_cons_self)
        (hsent entry mem_cons_self)))
    cases outcome with
    | none => trivial
    | some outcome =>
      refine ih (summary.add outcome) hids.2 (fun e he => hv.seen (hseen e (mem_cons_of_mem _ he)))
        fun e he hmem => ?_
      rcases mem_cons.mp (hv.sent hmem) with hid | hmem
      · exact hids.1 (hid ▸ List.mem_map_of_mem he)
      · exact hsent e (mem_cons_of_mem _ he) hmem

theorem recoverPendingDeliveries_spec (maxRecoveryMs : Option ℤ) (hsent : view.sent = []) :
    (contract op).wp (recoverPendingDeliveries maxRecoveryMs) (fun _ _ => True)
      (fun _ _ => True) view := by
  refine wp_seq (wp_mono (fun v pending hv => ?_) (fun _ _ h => h) loadPendingDeliveries_spec)
  obtain ⟨hv, hids, hseen⟩ := hv
  dsimp only
  split
  · trivial
  · have hperm := perm_insertionSort (fun a b : QueuedDelivery δ => a.enqueuedAt ≤ b.enqueuedAt) pending
    refine wp_seq (wp_io_plain .now trivial (fun now => ?_) fun _ => trivial)
    refine recoverEntries_spec _ _ ((hperm.map _).nodup_iff.mpr hids)
      (fun entry hentry => hseen entry (hperm.mem_iff.mp hentry)) fun entry _ hmem => ?_
    rw [hv, hsent] at hmem
    cases hmem

/-! ### Every function -/

/-- Every function of the queue keeps the contract. -/
theorem Op.program_spec (op : Op δ) :
    (contract op).wp op.program (fun _ _ => True) (fun _ _ => True) ⟨[], []⟩ := by
  have hquiet {p : Io δ Unit} (h : Quiet op p ⟨[], []⟩ ⟨[], []⟩) :
      (contract op).wp p (fun _ _ => True) (fun _ _ => True) ⟨[], []⟩ :=
    wp_mono (fun _ _ _ => trivial) (fun _ _ _ => trivial) h
  cases op with
  | enqueue params => exact (wp_bind _ _).mpr (enqueueDelivery_spec params)
  | ack id => exact hquiet (ackDelivery_quiet id (View.Extends.refl _))
  | fail id error => exact hquiet (failDelivery_quiet id error (View.Extends.refl _))
  | moveToFailed id => exact hquiet (moveToFailed_quiet id (View.Extends.refl _))
  | load =>
    exact (wp_bind _ _).mpr (wp_mono (fun _ _ _ => trivial) (fun _ _ _ => trivial) loadPendingDeliveries_spec)
  | recover maxRecoveryMs =>
    exact (wp_bind _ _).mpr (recoverPendingDeliveries_spec maxRecoveryMs rfl)

end Foxclaw.Outbound
