import Foxclaw.Infra.DevicePairing

/-!
# What a device token can obtain

A token is checked against the scopes that were approved for its device. While `approvedScopes`
is there, only an approval changes it. A device that was approved without scopes has none, and
then `scopes` is used in its place, which `updatePairedDeviceMetadata` extends as it is told to.

## What is proved

* `verifyDeviceToken_ok_iff` — when a token is accepted.
* `next_inv` — every operation keeps the invariant, but for the metadata updates above.
* `unapproved_scope_obtained` — a scope that was never approved is obtained.
* `device_authority_bounded` — without such updates an accepted token is the one issued last,
  not revoked, and obtains nothing but approved scopes; and no update widens what is accepted.
-/

namespace Foxclaw.Infra.DevicePairing

open JsMap Function Text Option Shared Runs

/-! ### When a token is accepted -/

/-- The token is accepted. -/
def Verifies (s : System) (params : VerifyParams) : Prop :=
  ∃ now file, verifyDeviceToken now params s.file = .ok file

/-- What the check looks at: the device, the token for the role and the scopes. -/
structure Accepted (device : PairedDevice) (role : String) (params : VerifyParams)
    (entry : DeviceAuthToken) : Prop where
  /-- The device has the token for the role. -/
  found : device.tokens.bind (·.get? role) = some entry
  live : entry.revokedAtMs = none
  /-- It is the token that was shown. -/
  token : verifyPairingToken params.token entry.token = true
  /-- Its scopes are within those approved for the device. -/
  within : scopesWithinApprovedDeviceBaseline role entry.scopes
    (resolveApprovedDeviceScopeBaseline device) = true
  /-- It has the scopes that are asked for. -/
  allowed : roleScopesAllow role (normalizeDeviceAuthScopes (some params.scopes)) entry.scopes = true

variable {params : VerifyParams}

variable {now : ℕ+}

/-- When `verifyDeviceToken` succeeds, and what it writes. -/
theorem verifyDeviceToken_ok_iff {file file' : StateFile} :
    verifyDeviceToken now params file = .ok file' ↔
      ∃ device role entry, getPairedDeviceFromState file params.deviceId = some device ∧
        normalizeRole (some params.role) = some role ∧ Accepted device role params entry ∧
        file' = putDevice (loadState now file)
          { device with
            tokens := some
              ((device.tokens.getD .empty).set role { entry with lastUsedAtMs := some now }) } := by
  have hload : getPairedDeviceFromState (loadState now file) params.deviceId =
      getPairedDeviceFromState file params.deviceId := rfl
  unfold verifyDeviceToken
  dsimp only
  rw [hload]
  constructor
  · intro h
    split at h
    · cases h
    · rename_i device hdevice
      split at h
      · cases h
      · rename_i role hrole
        split at h
        · cases h
        · rename_i entry hentry
          split at h
          · cases h
          · rename_i hlive
            split at h
            · cases h
            · rename_i htoken
              split at h
              · cases h
              · rename_i hwithin
                split at h
                · cases h
                · rename_i hallowed
                  refine ⟨device, role, entry, hdevice, hrole, ⟨hentry, by simpa using hlive,
                    by simpa using htoken, by simpa using hwithin, by simpa using hallowed⟩, ?_⟩
                  exact (Except.ok.inj h).symm
  · rintro ⟨device, role, entry, hdevice, hrole, hacc, rfl⟩
    simp only [hdevice, hrole, hacc.found, hacc.live, hacc.token, hacc.within, hacc.allowed]
    rfl

variable {s : System}

theorem verifies_iff :
    Verifies s params ↔
      ∃ device role entry, getPairedDeviceFromState s.file params.deviceId = some device ∧
        normalizeRole (some params.role) = some role ∧ Accepted device role params entry := by
  constructor
  · rintro ⟨now, file, h⟩
    obtain ⟨device, role, entry, hdevice, hrole, hacc, -⟩ := verifyDeviceToken_ok_iff.mp h
    exact ⟨device, role, entry, hdevice, hrole, hacc⟩
  · rintro ⟨device, role, entry, hdevice, hrole, hacc⟩
    exact ⟨1, _, verifyDeviceToken_ok_iff.mpr ⟨device, role, entry, hdevice, hrole, hacc, rfl⟩⟩

theorem normalizeRole_eq_some {role : Option String} {trimmed : String}
    (h : normalizeRole role = some trimmed) : ∃ r, role = some r ∧ trimmed = trimString r := by
  unfold normalizeRole at h
  obtain ⟨r, rfl, hr⟩ := bind_eq_some_iff.mp h
  obtain ⟨-, hr⟩ := ite_none_right_eq_some.mp hr
  exact ⟨r, rfl, (some.inj hr).symm⟩

/-! ### Merged scopes -/

variable {key scope : String}

theorem mem_mergeScopes {items : List (Option (List String))} :
    scope ∈ normalizeScopeList ((mergeScopes items).getD []) ↔
      ∃ item ∈ items, scope ∈ normalizeScopeList (item.getD []) := by
  have hmerged : ∀ scope, scope ∈ (mergeScopes items).getD [] ↔
      scope ∈ normalizeScopeList (items.map (·.getD [])).flatten := fun scope => by
    unfold mergeScopes mergeLists
    dsimp only
    split
    · rename_i hnil
      rw [hnil]
      rfl
    · rfl
  rw [mem_normalizeScopeList_of_mem_iff hmerged]
  simp only [mem_normalizeScopeList, List.mem_flatten, List.mem_map]
  constructor
  · rintro ⟨hne, s, ⟨l, ⟨item, hitem, rfl⟩, hs⟩, rfl⟩
    exact ⟨item, hitem, hne, s, hs, rfl⟩
  · rintro ⟨item, hitem, hne, s, hs, rfl⟩
    exact ⟨hne, s, ⟨_, ⟨item, hitem, rfl⟩, hs⟩, rfl⟩

/-! ### The invariant -/

/-- A paired device and what was done about it. -/
structure DeviceOk (events : List DeviceEvent) (key : String) (device : PairedDevice) : Prop where
  id : device.deviceId = key
  /-- Without approved scopes there are no scopes. -/
  scopes : device.approvedScopes = none → device.scopes = none
  /-- The approved scopes were approved. -/
  approved : ∀ scope ∈ normalizeScopeList (device.approvedScopes.getD []),
    scope ∈ normalizeScopeList (approvedSince events)
  /-- A token that is not revoked is the one issued last. -/
  tokens : ∀ role entry, device.tokens.bind (·.get? role) = some entry → entry.revokedAtMs = none →
    liveToken role events = some entry.token

/-- The invariant of the system; a device stored under an id that is not trimmed is never found. -/
structure Inv (s : System) : Prop where
  paired : ∀ key device, normalizeDeviceId key = key →
    s.file.pairedByDeviceId.get? key = some device → DeviceOk (s.history key) key device
  /-- A pending request has a trimmed id. -/
  pending : ∀ id pending, s.file.pendingById.get? id = some pending →
    normalizeDeviceId pending.deviceId = pending.deviceId

@[simp] theorem normalizeDeviceId_idem (deviceId : String) :
    normalizeDeviceId (normalizeDeviceId deviceId) = normalizeDeviceId deviceId :=
  trimString_trimString deviceId

theorem Inv.init : Inv .init where
  paired _ _ _ h := by cases h
  pending _ _ h := by cases h

variable {file : StateFile}

theorem get?_loadState {id : String} {pending : PendingRequest}
    (h : (loadState now file).pendingById.get? id = some pending) :
    file.pendingById.get? id = some pending := by
  have hdelete (m : JsMap String PendingRequest) (keys : List String)
      (h : (m.deleteAll keys).get? id = some pending) : m.get? id = some pending := by
    induction keys generalizing m with
    | nil => exact h
    | cons key keys ih =>
      have hkey := ih (m.delete key) h
      rw [get?_delete] at hkey
      split at hkey
      · cases hkey
      · exact hkey
  exact hdelete _ _ h

theorem Inv.withPending (h : Inv s)
    (hpaired : file.pairedByDeviceId = s.file.pairedByDeviceId)
    (hpending : ∀ id pending, file.pendingById.get? id = some pending →
      normalizeDeviceId pending.deviceId = pending.deviceId) : Inv { s with file } where
  paired key device hkey hdevice := h.paired key device hkey (hpaired ▸ hdevice)
  pending := hpending

theorem Inv.pending_loadState (h : Inv s) (now : ℕ+) (id : String) (pending : PendingRequest)
    (hget : (loadState now s.file).pendingById.get? id = some pending) :
    normalizeDeviceId pending.deviceId = pending.deviceId :=
  h.pending id pending (get?_loadState hget)

variable {events : List DeviceEvent} {deviceId : String}

/-- A device is stored, and something is done about it. -/
theorem Inv.put (h : Inv s) {device : PairedDevice}
    (hok : DeviceOk (events ++ s.history deviceId) deviceId device)
    (hpaired : ∀ key, file.pairedByDeviceId.get? key =
      if deviceId = key then some device else s.file.pairedByDeviceId.get? key)
    (hpending : ∀ id pending, file.pendingById.get? id = some pending →
      normalizeDeviceId pending.deviceId = pending.deviceId) :
    Inv (s.record file deviceId events) where
  paired key device' hkey hdevice := by
    dsimp only [System.record] at hdevice ⊢
    rw [hpaired] at hdevice
    by_cases heq : deviceId = key
    · subst heq
      rw [if_pos rfl] at hdevice
      rw [Function.update_self]
      exact some.inj hdevice ▸ hok
    · rw [if_neg heq] at hdevice
      rw [update_of_ne (Ne.symm heq)]
      exact h.paired key device' hkey hdevice
  pending := hpending

theorem Inv.delete (h : Inv s)
    (hpaired : file.pairedByDeviceId = s.file.pairedByDeviceId.delete deviceId)
    (hpending : ∀ id pending, file.pendingById.get? id = some pending →
      normalizeDeviceId pending.deviceId = pending.deviceId) :
    Inv (s.record file deviceId [.unpaired]) where
  paired key device hkey hdevice := by
    dsimp only [System.record] at hdevice ⊢
    rw [hpaired, get?_delete] at hdevice
    by_cases heq : deviceId = key
    · rw [if_pos heq] at hdevice
      cases hdevice
    · rw [if_neg heq] at hdevice
      rw [update_of_ne (Ne.symm heq)]
      exact h.paired key device hkey hdevice
  pending := hpending

theorem get?_putDevice (file : StateFile) (device : PairedDevice) (key : String) :
    (putDevice file device).pairedByDeviceId.get? key =
      if device.deviceId = key then some device else file.pairedByDeviceId.get? key :=
  get?_set _ _ _ _

/-! ### Tokens -/

variable {role : String}

variable {entry : DeviceAuthToken}

/-- A token of one role is replaced, and what is done about the device concerns that role only. -/
theorem DeviceOk.setToken {events events' : List DeviceEvent} {device : PairedDevice}
    (h : DeviceOk events key device) (happroved : approvedSince events' = approvedSince events)
    (hother : ∀ role', role ≠ role' → liveToken role' events' = liveToken role' events)
    (hrole : entry.revokedAtMs = none → liveToken role events' = some entry.token) :
    DeviceOk events' key
      { device with tokens := some ((device.tokens.getD .empty).set role entry) } where
  id := h.id
  scopes := h.scopes
  approved := happroved ▸ h.approved
  tokens role' entry' hentry' hlive := by
    rw [bind_some, get?_set] at hentry'
    by_cases heq : role = role'
    · subst heq
      rw [if_pos rfl] at hentry'
      obtain rfl := some.inj hentry'
      exact hrole hlive
    · rw [if_neg heq] at hentry'
      rw [hother role' heq]
      refine h.tokens role' entry' ?_ hlive
      cases htokens : device.tokens with
      | none =>
        rw [htokens] at hentry'
        cases hentry'
      | some tokens =>
        rw [htokens] at hentry'
        exact hentry'

theorem DeviceOk.issue {device : PairedDevice}
    (h : DeviceOk events key device) (role : String) (entry : DeviceAuthToken) :
    DeviceOk (.issued role entry.token :: events) key
      { device with tokens := some ((device.tokens.getD .empty).set role entry) } := by
  refine h.setToken rfl (fun role' hne => ?_) fun _ => ?_
  · rw [liveToken, if_neg hne]
  · rw [liveToken, if_pos rfl]

theorem DeviceOk.reissue {device : PairedDevice} (h : DeviceOk events key device)
    (hentry : device.tokens.bind (·.get? role) = some entry) :
    DeviceOk (.issued role entry.token :: events) key device where
  id := h.id
  scopes := h.scopes
  approved := h.approved
  tokens role' entry' hentry' hlive := by
    rw [liveToken]
    split
    · rename_i heq
      subst heq
      obtain rfl := some.inj (hentry.symm.trans hentry')
      rfl
    · exact h.tokens role' entry' hentry' hlive

theorem DeviceOk.revoke {device : PairedDevice} (h : DeviceOk events key device) (role : String)
    (hrevoked : entry.revokedAtMs ≠ none) :
    DeviceOk (.revoked role :: events) key
      { device with tokens := some ((device.tokens.getD .empty).set role entry) } := by
  refine h.setToken rfl (fun role' hne => ?_) fun hlive => absurd hlive hrevoked
  rw [liveToken, if_neg hne]

/-! ### Approvals and updates -/

variable {existing : Option PairedDevice}

theorem approved_of_approval
    (h : ∀ device, existing = some device → DeviceOk events key device) {pending : PendingRequest}
    (hscope : scope ∈ normalizeScopeList ((mergeScopes
      [(existing.bind (·.approvedScopes)).or (existing.bind (·.scopes)), pending.scopes]).getD [])) :
    scope ∈ normalizeScopeList (pending.scopes.getD [] ++ approvedSince events) := by
  rw [mem_normalizeScopeList_append]
  obtain ⟨item, hitem, hmem⟩ := mem_mergeScopes.mp hscope
  rcases List.mem_cons.mp hitem with rfl | hitem
  · right
    cases existing with
    | none => simp [normalizeScopeList] at hmem
    | some device =>
      have hok := h device rfl
      refine hok.approved scope ?_
      rw [bind_some, bind_some] at hmem
      cases happroved : device.approvedScopes with
      | none =>
        rw [happroved, hok.scopes happroved] at hmem
        exact hmem
      | some scopes =>
        rw [happroved] at hmem
        exact hmem
  · obtain rfl := List.mem_singleton.mp hitem
    exact .inl hmem

theorem approvedDevice_ok {pending : PendingRequest}
    (h : ∀ device, existing = some device → DeviceOk events pending.deviceId device) (now : ℕ+)
    (newToken : String) :
    DeviceOk (approvalEvents newToken pending ++ events) pending.deviceId
      (approvedDevice now newToken pending existing) := by
  have hbase : DeviceOk (.approved (pending.scopes.getD []) :: events) pending.deviceId
      { approvedDevice now newToken pending existing with
        tokens := some ((existing.bind (·.tokens)).getD .empty) } := by
    refine ⟨rfl, id, fun scope hscope => approved_of_approval h hscope, fun role entry hentry hlive => ?_⟩
    cases existing with
    | none => cases hentry
    | some device =>
      cases htokens : device.tokens with
      | none =>
        dsimp only [bind_some] at hentry
        rw [htokens] at hentry
        cases hentry
      | some tokens =>
        dsimp only [bind_some] at hentry
        rw [htokens] at hentry
        exact (h device rfl).tokens role entry (by rw [htokens]; exact hentry) hlive
  cases hrole : normalizeRole pending.role with
  | none =>
    have hdevice : approvedDevice now newToken pending existing =
        { approvedDevice now newToken pending existing with
          tokens := some ((existing.bind (·.tokens)).getD .empty) } := by
      simp [approvedDevice, hrole]
    rw [hdevice, approvalEvents, hrole]
    exact hbase
  | some role =>
    rw [approvalEvents, hrole]
    unfold approvedDevice at hbase ⊢
    rw [hrole] at hbase ⊢
    exact hbase.issue role (approvedToken now newToken role pending existing _ _)

theorem mergeScopes_none_cons (scopes : Option (List String)) :
    mergeScopes [none, scopes] = mergeScopes [scopes] := by
  simp [mergeScopes, mergeLists]

/-- The update leaves the tokens alone, and gives no scopes to a device that was approved
without. -/
def MetadataSound (s : System) : Action → Prop
  | .updateMetadata _ deviceId patch =>
    match getPairedDeviceFromState s.file deviceId with
    | none => True
    | some existing =>
      normalizeDeviceId deviceId = deviceId →
        patch.tokens.join.isNone ∧ (existing.approvedScopes.isNone → (mergeScopes [patch.scopes]).isNone)
  | _ => True

instance (s : System) (a : Action) : Decidable (MetadataSound s a) := by
  unfold MetadataSound
  split
  · split <;> exact inferInstance
  · exact inferInstance

variable {patch : MetadataPatch}

/-- A device that is updated so. -/
theorem patchedDevice_ok {existing : PairedDevice}
    (h : DeviceOk events key existing) (htokens : patch.tokens.join.isNone)
    (hscopes : existing.approvedScopes.isNone → (mergeScopes [patch.scopes]).isNone) :
    DeviceOk events key (patchedDevice existing patch) where
  id := h.id
  scopes hnone := by
    have hnone' : existing.approvedScopes = none := hnone
    have hmerged : mergeScopes [patch.scopes] = none :=
      isNone_iff_eq_none.mp (hscopes (isNone_iff_eq_none.mpr hnone'))
    unfold patchedDevice
    dsimp only
    rw [h.scopes hnone', mergeScopes_none_cons, hmerged]
  approved := h.approved
  tokens role entry hentry hlive := by
    unfold patchedDevice at hentry
    rcases htok : patch.tokens with _ | _ | tokens
    · rw [htok] at hentry
      exact h.tokens role entry hentry hlive
    · rw [htok] at hentry
      cases hentry
    · rw [htok] at htokens
      cases htokens

/-! ### The operations -/

theorem Inv.device (h : Inv s) {device : PairedDevice}
    (hdevice : getPairedDeviceFromState s.file deviceId = some device) :
    DeviceOk (s.history (normalizeDeviceId deviceId)) (normalizeDeviceId deviceId) device :=
  h.paired _ device (normalizeDeviceId_idem deviceId) hdevice

theorem Inv.putBack (h : Inv s) (now : ℕ+) {device : PairedDevice}
    (hok : DeviceOk (events ++ s.history (normalizeDeviceId deviceId)) (normalizeDeviceId deviceId) device) :
    Inv (s.record (putDevice (loadState now s.file) device) (normalizeDeviceId deviceId) events) := by
  refine h.put hok (fun key => ?_) (h.pending_loadState now)
  rw [get?_putDevice, hok.id]
  rfl

variable {token : DeviceAuthToken}

/-- What `ensureDeviceToken` hands out: a new token, or the one that is there. -/
theorem context_eq_some {deviceId role : String} {file : StateFile} {context}
    (h : resolveDeviceTokenUpdateContext (loadState now file) deviceId role = some context) :
    ∃ device, getPairedDeviceFromState file deviceId = some device ∧
      (device, trimString role, cloneDeviceTokens device,
        (cloneDeviceTokens device).get? (trimString role)) = context := by
  unfold resolveDeviceTokenUpdateContext at h
  cases hdevice : getPairedDeviceFromState (loadState now file) deviceId with
  | none =>
    rw [hdevice] at h
    cases h
  | some device =>
    rw [hdevice] at h
    cases hrole : normalizeRole (some role) with
    | none =>
      rw [hrole] at h
      cases h
    | some role' =>
      obtain ⟨_, hr, rfl⟩ := normalizeRole_eq_some hrole
      cases hr
      rw [hrole] at h
      cases h
      exact ⟨device, hdevice, rfl⟩

theorem ensureDeviceToken_eq_some {newToken deviceId role : String} {scopes : List String}
    {file file' : StateFile}
    (h : ensureDeviceToken now newToken deviceId role scopes file = some (file', token)) :
    ∃ device, getPairedDeviceFromState file deviceId = some device ∧
      ((file' = file ∧ device.tokens.bind (·.get? (trimString role)) = some token) ∨
        file' = putDevice (loadState now file)
          { device with
            tokens := some ((device.tokens.getD .empty).set (trimString role) token) }) := by
  unfold ensureDeviceToken at h
  dsimp only at h
  split at h
  · cases h
  · rename_i device _ _ _ hcontext
    obtain ⟨_, hdevice, heq⟩ := context_eq_some hcontext
    cases heq
    refine ⟨device, hdevice, ?_⟩
    split_ifs at h
    split at h
    · cases h
      exact .inr rfl
    · rename_i hexisting
      split_ifs at h
      · cases h
        refine .inl ⟨rfl, ?_⟩
        cases htokens : device.tokens with
        | none =>
          rw [cloneDeviceTokens, htokens] at hexisting
          cases hexisting
        | some tokens =>
          rw [cloneDeviceTokens, htokens] at hexisting
          exact hexisting
      · cases h
        exact .inr rfl

theorem rotateDeviceToken_eq_some {newToken deviceId role : String}
    {scopes : Option (List String)} {file file' : StateFile}
    (h : rotateDeviceToken now newToken deviceId role scopes file = some (file', token)) :
    ∃ device, getPairedDeviceFromState file deviceId = some device ∧
      file' = putDevice (loadState now file)
        { device with
          tokens := some ((device.tokens.getD .empty).set (trimString role) token) } := by
  unfold rotateDeviceToken at h
  dsimp only at h
  split at h
  · cases h
  · rename_i device _ _ _ hcontext
    obtain ⟨_, hdevice, heq⟩ := context_eq_some hcontext
    cases heq
    split_ifs at h
    cases h
    exact ⟨device, hdevice, rfl⟩

theorem revokeDeviceToken_eq_some {deviceId role role' : String} {file file' : StateFile}
    (h : revokeDeviceToken now deviceId role file = some (file', role')) :
    ∃ device, ∃ entry : DeviceAuthToken, getPairedDeviceFromState file deviceId = some device ∧
      file' = putDevice (loadState now file)
        { device with
          tokens := some ((device.tokens.getD .empty).set role'
            { entry with revokedAtMs := some now }) } := by
  unfold revokeDeviceToken at h
  dsimp only at h
  split at h
  · cases h
  · rename_i device _ _ _ hcontext
    obtain ⟨_, hdevice, heq⟩ := context_eq_some hcontext
    cases heq
    obtain ⟨entry, -, heq⟩ := map_eq_some_iff.mp h
    cases heq
    exact ⟨device, entry, hdevice, rfl⟩

/-! ### Runs -/

/-- The pending requests after `requestDevicePairing`. -/
theorem requestDevicePairing_pending (h : Inv s) {randomUUID : String}
    {req : PairingRequest} {request : PendingRequest} {created : Bool}
    (hreq : requestDevicePairing now randomUUID req s.file = some (file, request, created)) :
    file.pairedByDeviceId = s.file.pairedByDeviceId ∧
      ∀ id pending, file.pendingById.get? id = some pending →
        normalizeDeviceId pending.deviceId = pending.deviceId := by
  have hset (m : JsMap String PendingRequest) (key : String) (new : PendingRequest)
      (hm : ∀ id pending, m.get? id = some pending →
        normalizeDeviceId pending.deviceId = pending.deviceId)
      (hnew : normalizeDeviceId new.deviceId = new.deviceId) (id : String) (pending : PendingRequest)
      (hget : (m.set key new).get? id = some pending) :
      normalizeDeviceId pending.deviceId = pending.deviceId := by
    rw [get?_set] at hget
    split at hget
    · exact some.inj hget ▸ hnew
    · exact hm id pending hget
  unfold requestDevicePairing at hreq
  dsimp only at hreq
  split at hreq
  · cases hreq
  · split at hreq
    · rename_i existing hexisting
      cases hreq
      obtain ⟨id, hid⟩ := mem_values_iff.mp (List.mem_of_find?_eq_some hexisting)
      exact ⟨rfl, hset _ _ _ (h.pending_loadState now) (h.pending_loadState now id existing hid)⟩
    · cases hreq
      exact ⟨rfl, hset _ _ _ (h.pending_loadState now) (normalizeDeviceId_idem req.deviceId)⟩

theorem get?_delete_pending {m : JsMap String PendingRequest} {key id : String} {pending : PendingRequest}
    (h : (m.delete key).get? id = some pending) : m.get? id = some pending := by
  rw [get?_delete] at h
  split at h
  · cases h
  · exact h

theorem next_inv {a : Action} (h : Inv s) (hsound : MetadataSound s a) : Inv (next s a) := by
  cases a with
  | request now randomUUID req =>
    rw [next]
    split
    · rename_i hreq
      obtain ⟨hpaired, hpending⟩ := requestDevicePairing_pending h hreq
      exact h.withPending hpaired hpending
    · exact h
  | approve now newToken requestId =>
    rw [next]
    split
    · rename_i _ pending _ hreq
      unfold approveDevicePairing at hreq
      dsimp only at hreq
      split at hreq
      · cases hreq
      · rename_i _ hpending
        cases hreq
        have htrim := h.pending_loadState now requestId pending hpending
        have hexisting : ∀ device, (loadState now s.file).pairedByDeviceId.get? pending.deviceId =
            some device → DeviceOk (s.history pending.deviceId) pending.deviceId device :=
          fun device hdevice => h.paired _ device htrim hdevice
        refine h.put (approvedDevice_ok hexisting now newToken) (fun key => get?_putDevice _ _ key)
          fun id other hget => h.pending_loadState now id other (get?_delete_pending hget)
    · exact h
  | reject now requestId =>
    rw [next]
    split
    · rename_i hreq
      unfold rejectDevicePairing at hreq
      dsimp only at hreq
      split at hreq
      · cases hreq
      · cases hreq
        exact h.withPending rfl fun id pending hget =>
          h.pending_loadState now id pending (get?_delete_pending hget)
    · exact h
  | remove now deviceId =>
    rw [next]
    split
    · rename_i hreq
      unfold removePairedDevice at hreq
      dsimp only at hreq
      split at hreq
      · cases hreq
      · cases hreq
        exact h.delete rfl (h.pending_loadState now)
    · exact h
  | updateMetadata now deviceId patch =>
    rw [next]
    split
    · rename_i hreq
      unfold updatePairedDeviceMetadata at hreq
      dsimp only at hreq
      split at hreq
      · cases hreq
      · rename_i existing hexisting
        cases hreq
        have hdevice : getPairedDeviceFromState s.file deviceId = some existing := hexisting
        refine ⟨fun key device hkey hget => ?_, h.pending_loadState now⟩
        dsimp only at hget ⊢
        rw [get?_set] at hget
        split at hget
        · rename_i heq
          subst heq
          obtain rfl := some.inj hget
          rw [MetadataSound, hdevice] at hsound
          obtain ⟨htokens, hscopes⟩ := hsound hkey
          have hok := h.device hdevice
          rw [hkey] at hok
          exact patchedDevice_ok hok htokens hscopes
        · exact h.paired key device hkey hget
    · exact h
  | verify now params =>
    rw [next]
    split
    · rename_i hreq
      obtain ⟨device, role, entry, hdevice, hrole, hacc, rfl⟩ := verifyDeviceToken_ok_iff.mp hreq
      have hok := h.device hdevice
      have hused : DeviceOk ([] ++ s.history (normalizeDeviceId params.deviceId))
          (normalizeDeviceId params.deviceId)
          { device with
            tokens := some
              ((device.tokens.getD .empty).set role { entry with lastUsedAtMs := some now }) } :=
        hok.setToken rfl (fun _ _ => rfl) fun hlive => hok.tokens role entry hacc.found hlive
      have hput := h.putBack now hused
      rwa [System.record, List.nil_append, update_eq_self] at hput
    · exact h
  | ensure now newToken deviceId role scopes =>
    rw [next]
    split
    · rename_i hreq
      obtain ⟨device, hdevice, ⟨rfl, hfound⟩ | rfl⟩ := ensureDeviceToken_eq_some hreq
      · refine h.put ((h.device hdevice).reissue hfound) (fun key => ?_) h.pending
        split
        · rename_i heq
          exact heq ▸ hdevice
        · rfl
      · exact h.putBack now ((h.device hdevice).issue _ _)
    · exact h
  | rotate now newToken deviceId role scopes =>
    rw [next]
    split
    · rename_i hreq
      obtain ⟨device, hdevice, rfl⟩ := rotateDeviceToken_eq_some hreq
      exact h.putBack now ((h.device hdevice).issue _ _)
    · exact h
  | revoke now deviceId role =>
    rw [next]
    split
    · rename_i hreq
      obtain ⟨device, entry, hdevice, rfl⟩ := revokeDeviceToken_eq_some hreq
      exact h.putBack now ((h.device hdevice).revoke _ (by simp))
    · exact h
  | clear now deviceId =>
    rw [next]
    split
    · rename_i hreq
      unfold clearDevicePairing at hreq
      dsimp only at hreq
      split at hreq
      · cases hreq
      · cases hreq
        exact h.delete rfl (h.pending_loadState now)
    · exact h

/-- Every accepted token is bounded by what was approved: the device is paired, the token is
the one issued last for the role and was not revoked, and the scopes are allowed by those of the
requests that were approved since the device was last unpaired. -/
def Bounded (s : System) : Prop :=
  ∀ params, Verifies s params →
    s.file.pairedByDeviceId.has (normalizeDeviceId params.deviceId) = true ∧
    liveToken (trimString params.role) (s.history (normalizeDeviceId params.deviceId)) =
      some params.token ∧
    roleScopesAllow params.role params.scopes
      (approvedSince (s.history (normalizeDeviceId params.deviceId))) = true

theorem roleScopesAllow_trim (role : String) (requested allowed : List String) :
    roleScopesAllow (trimString role) requested allowed = roleScopesAllow role requested allowed := by
  unfold roleScopesAllow
  rw [trimString_trimString]

theorem Inv.bounded (h : Inv s) : Bounded s := by
  intro params hverify
  obtain ⟨device, role, entry, hdevice, hrole, hacc⟩ := verifies_iff.mp hverify
  obtain ⟨_, hr, rfl⟩ := normalizeRole_eq_some hrole
  obtain rfl := some.inj hr
  have hok := h.device hdevice
  refine ⟨has_iff.mpr ⟨device, hdevice⟩, ?_, ?_⟩
  · rw [hok.tokens _ entry hacc.found hacc.live]
    have htoken := hacc.token
    unfold verifyPairingToken at htoken
    rw [Bool.and_eq_true, decide_eq_true_eq] at htoken
    exact congrArg some htoken.2.symm
  · -- the baseline is what was approved, and the token's scopes are within it
    have hwithin := hacc.within
    unfold resolveApprovedDeviceScopeBaseline scopesWithinApprovedDeviceBaseline at hwithin
    cases happroved : device.approvedScopes with
    | none =>
      rw [happroved, hok.scopes happroved] at hwithin
      cases hwithin
    | some scopes =>
      rw [happroved] at hwithin
      rw [← roleScopesAllow_trim]
      refine roleScopesAllow_mono (roleScopesAllow_trans (roleScopesAllow_congr (fun scope hscope => ?_)
        hacc.allowed) hwithin) fun scope hscope => hok.approved scope ?_
      · exact (mem_normalizeScopeList_of_mem_iff (fun _ => mem_normalizeDeviceAuthScopes) scope).mpr hscope
      · rw [happroved]
        exact (mem_normalizeScopeList_of_mem_iff (fun _ => mem_normalizeDeviceAuthScopes) scope).mp hscope

/-- A token that is accepted for the updated device was accepted before. -/
theorem Accepted.of_patchedDevice {existing : PairedDevice}
    (hok : DeviceOk events key existing) (htokens : patch.tokens.join.isNone)
    (hscopes : existing.approvedScopes.isNone → (mergeScopes [patch.scopes]).isNone)
    (h : Accepted (patchedDevice existing patch) role params entry) :
    Accepted existing role params entry where
  found := by
    have hfound := h.found
    unfold patchedDevice at hfound
    rcases htok : patch.tokens with _ | _ | tokens
    · rw [htok] at hfound
      exact hfound
    · rw [htok] at hfound
      cases hfound
    · rw [htok] at htokens
      cases htokens
  live := h.live
  token := h.token
  within := by
    have hbaseline : resolveApprovedDeviceScopeBaseline (patchedDevice existing patch) =
        resolveApprovedDeviceScopeBaseline existing := by
      have happroved : (patchedDevice existing patch).approvedScopes = existing.approvedScopes := rfl
      unfold resolveApprovedDeviceScopeBaseline
      rw [happroved]
      cases hnone : existing.approvedScopes with
      | some scopes => rfl
      | none => rw [hok.scopes hnone, (patchedDevice_ok hok htokens hscopes).scopes hnone]
    exact hbaseline ▸ h.within
  allowed := h.allowed

/-- A metadata update makes no token accepted that was not. -/
theorem verifies_of_updateMetadata (h : Inv s)
    (hsound : MetadataSound s (.updateMetadata now deviceId patch))
    (hverify : Verifies (next s (.updateMetadata now deviceId patch)) params) : Verifies s params := by
  rw [next] at hverify
  split at hverify
  · rename_i file hreq
    obtain ⟨device, role, entry, hdevice, hrole, hacc⟩ := verifies_iff.mp hverify
    unfold updatePairedDeviceMetadata at hreq
    dsimp only at hreq
    split at hreq
    · cases hreq
    · rename_i existing hexisting
      cases hreq
      unfold getPairedDeviceFromState at hdevice
      dsimp only at hdevice
      rw [get?_set] at hdevice
      split at hdevice
      · -- the device the token is shown for is the one that was updated
        rename_i heq
        subst heq
        obtain rfl := some.inj hdevice
        have hexisting' : getPairedDeviceFromState s.file (normalizeDeviceId params.deviceId) =
            some existing := hexisting
        rw [MetadataSound, hexisting'] at hsound
        obtain ⟨htokens, hscopes⟩ := hsound (normalizeDeviceId_idem params.deviceId)
        refine verifies_iff.mpr ⟨existing, role, entry, ?_, hrole,
          hacc.of_patchedDevice (h.device hexisting') htokens hscopes⟩
        rwa [getPairedDeviceFromState, normalizeDeviceId_idem] at hexisting'
      · exact verifies_iff.mpr ⟨device, role, entry, hdevice, hrole, hacc⟩
  · exact hverify

/-- In every run in which the metadata updates neither replace tokens nor give scopes to a device
that was approved without, every accepted token is bounded by what was approved, and a further
such update widens nothing. -/
theorem device_authority_bounded {as : List Action} {s : System} (h : exec step .init as = some s)
    (hsound : Meets step MetadataSound .init as) :
    Bounded s ∧ ∀ now deviceId patch, MetadataSound s (.updateMetadata now deviceId patch) →
      ∀ params, Verifies (next s (.updateMetadata now deviceId patch)) params → Verifies s params := by
  have hinv : Inv s :=
    exec_invariant_of_meets (fun _ _ _ hs hP hnext => some.inj hnext ▸ next_inv hs hP) hsound
      Inv.init h
  exact ⟨hinv.bounded, fun _ _ _ hupdate _ hverify => verifies_of_updateMetadata hinv hupdate hverify⟩

/-! ### Scopes that were never approved -/

/-- Nothing is displayed. -/
def noInfo : DeviceInfo (Option String) := ⟨none, none, none, none, none, none⟩

/-- An operator asks for these scopes. -/
def operatorRequest (scopes : Option (List String)) : PairingRequest :=
  ⟨"device", "key", noInfo, some "operator", scopes, none⟩

/-- A metadata update with these scopes. -/
def scopesPatch (scopes : List String) : MetadataPatch :=
  ⟨none, ⟨none, none, none, none, none, none⟩, none, some scopes, none⟩

/-- A device is approved for reading, updated, and its token rotated. -/
def approvedRun : List Action :=
  [.request (Nat.succPNat 0) "id" (operatorRequest (some ["operator.read"])), .approve 2 "first" "id",
    .updateMetadata 3 "device" (scopesPatch ["operator.admin"]),
    .rotate 4 "second" "device" "operator" none]

theorem device_authority_bounded_approvedRun : ∃ s, exec step .init approvedRun = some s ∧ Bounded s :=
  ⟨_, rfl, (device_authority_bounded rfl (by decide +kernel : Meets step MetadataSound .init approvedRun)).1⟩

/-- A device is approved without scopes; an update names the admin scope, and a token for it is
asked for. -/
def unapprovedRun : List Action :=
  [.request (Nat.succPNat 0) "id" (operatorRequest none), .approve 2 "first" "id",
    .updateMetadata 3 "device" (scopesPatch ["operator.admin"]),
    .ensure 4 "second" "device" "operator" ["operator.admin"]]

/-- A scope that was never approved is obtained. -/
theorem unapproved_scope_obtained : ∃ s, exec step .init unapprovedRun = some s ∧ ¬ Bounded s := by
  refine ⟨_, rfl, fun h => ?_⟩
  have hverify := h ⟨"device", "second", "operator", ["operator.admin"]⟩ ⟨5, _, rfl⟩
  exact absurd hverify.2.2 (by decide +kernel)

end Foxclaw.Infra.DevicePairing
