import Foxclaw.Gateway.NodeRegistry

/-!
# Nodes that reconnect

A node may open a new connection before its old one is closed. `unregister` of a connection drops the
node's session and rejects all its pending requests, whichever connection they belong to. So the table
and the requests stay right exactly as long as no connection is unregistered while its node has a newer
live connection, or has a request pending over another one.

## What is proved

* `Accounted.next` — the bookkeeping of every run: each request that was sent is pending, with its timer
  set, until it is settled.
* `lawful_next_iff` — one step keeps the table and the requests right exactly when it is orderly.
* `lawful_iff_orderly` — they are right all along a run exactly when its steps are orderly.
* `late_close` — a replaced connection is closed late.
-/

namespace Foxclaw.Gateway.Nodes

open JsMap List Option

/-! ### What is promised -/

/-- The ids of the requests that were sent. -/
def System.sentIds (s : System) : List String := s.sent.map (·.request.id)

/-- The ids of the requests that were settled. -/
def System.settledIds (s : System) : List String := s.settled.map Prod.fst

/-- The table and the requests are right. -/
structure Lawful (s : System) : Prop where
  /-- `get` gives the session of the latest connection, until that is unregistered. -/
  get : ∀ nodeId, s.registry.get nodeId = (s.latest nodeId).filter (·.connId ∉ s.unregistered)
  /-- A request is rejected only as the connection it was sent over is unregistered. -/
  rejected : ∀ id connId message, (id, .disconnected connId message) ∈ s.settled →
    ∃ e ∈ s.sent, e.request.id = id ∧ e.connId = connId
  /-- A result comes from the node the request was sent to. -/
  result : ∀ id nodeId value, (id, .result nodeId value) ∈ s.settled →
    ∃ e ∈ s.sent, e.request.id = id ∧ e.request.params.nodeId = nodeId
  /-- No request is settled twice. -/
  once : s.settledIds.Nodup
  sent_of_settled : ∀ id ∈ s.settledIds, id ∈ s.sentIds
  /-- A request that is not settled: its connection is not unregistered, and its timer will settle it. -/
  open_ : ∀ e ∈ s.sent, e.request.id ∉ s.settledIds →
    e.connId ∉ s.unregistered ∧
      ∃ t, next s (.timeout e.request.id) = some t ∧ e.request.id ∈ t.settledIds

/-- A step that is no late close: a connection is unregistered only when its node has no newer live
connection, and no request pending that was sent over another one. -/
def Orderly (s : System) : Action → Prop
  | .unregister connId => ∀ nodeId, s.registry.nodesByConn.get? connId = some nodeId →
      (∀ session, s.latest nodeId = some session →
        session.connId = connId ∨ session.connId ∈ s.unregistered) ∧
      ∀ e ∈ s.sent, e.request.params.nodeId = nodeId →
        s.registry.pendingInvokes.has e.request.id = true → e.connId = connId
  | _ => True

/-! ### What a step does -/

/-- A pending request is settled. -/
def System.settle (s : System) (id : String) (outcome : Outcome) : System :=
  { s with
    registry := { s.registry with
      timers := s.registry.timers.delete id
      pendingInvokes := s.registry.pendingInvokes.delete id }
    settled := (id, outcome) :: s.settled }

/-- A registered connection is unregistered. -/
def System.drop (s : System) (connId nodeId : String) : System :=
  { s with
    registry := s.registry.drop connId nodeId
    unregistered := connId :: s.unregistered
    settled := (s.registry.pendingOf nodeId).map
      (fun e => (e.1, .disconnected connId s!"node disconnected ({e.2.command})")) ++ s.settled }

/-- A request is sent. -/
def System.send (s : System) (request : InvokeRequest) (connId : String) : System :=
  { s with
    registry := { s.registry with
      timers := s.registry.timers.set request.id (request.params.timeoutMs.getD 30000)
      pendingInvokes :=
        s.registry.pendingInvokes.set request.id ⟨request.params.nodeId, request.params.command⟩ }
    sent := ⟨request, connId⟩ :: s.sent }

/-- What a step does. -/
inductive Step (s : System) : Action → System → Prop where
  | register {client : GatewayWsClient} {remoteIp : Option String} {now : ℚ} :
    client.connId ∉ s.registered.map (·.connId) → client.connId ∉ s.unregistered →
    Step s (.register client remoteIp now)
      { s with
        registry := s.registry.register (newSession client remoteIp now)
        registered := newSession client remoteIp now :: s.registered }
  /-- A connection is unregistered that is not there. -/
  | absent {connId : String} :
    (∀ nodeId, s.registry.nodesByConn.get? connId = some nodeId → nodeId = "") →
    Step s (.unregister connId) { s with unregistered := connId :: s.unregistered }
  /-- A connection is unregistered that is there. -/
  | drop {connId nodeId : String} : s.registry.nodesByConn.get? connId = some nodeId →
    Step s (.unregister connId) (s.drop connId nodeId)
  | send {params : InvokeParams} {requestId : String} {node : NodeSession} : requestId ∉ s.sentIds →
    s.registry.nodesById.get? params.nodeId = some node →
    Step s (.invoke params requestId true) (s.send ⟨requestId, params⟩ node.connId)
  | unsent {params : InvokeParams} {requestId : String} {sendOk : Bool} :
    Step s (.invoke params requestId sendOk) s
  /-- A result is for no pending request of its node. -/
  | ignored {params : InvokeResultParams} : Step s (.invokeResult params) s
  | result {params : InvokeResultParams} {pending : PendingInvoke} {value : NodeInvokeResult} :
    s.registry.pendingInvokes.get? params.id = some pending → pending.nodeId = params.nodeId →
    Step s (.invokeResult params) (s.settle params.id (.result params.nodeId value))
  | timeout {requestId : String} {value : NodeInvokeResult} : s.registry.timers.has requestId = true →
    Step s (.timeout requestId) (s.settle requestId (.timeout value))

variable {s s' : System} {a : Action}

theorem step_of_next (h : next s a = some s') : Step s a s' := by
  cases a with
  | register client remoteIp now =>
    rw [next] at h
    split at h
    · cases h
    · rename_i hfresh
      cases h
      rw [not_or] at hfresh
      exact .register hfresh.1 hfresh.2
  | unregister connId =>
    rw [next, NodeRegistry.unregister] at h
    cases hget : s.registry.nodesByConn.get? connId with
    | none =>
      simp only [hget, map_nil, nil_append, some.injEq] at h
      subst h
      exact .absent fun nodeId hnode => by rw [hget] at hnode; cases hnode
    | some nodeId =>
      by_cases hempty : nodeId = ""
      · simp only [hget, hempty, if_true, map_nil, nil_append, some.injEq] at h
        subst h
        refine .absent fun n hn => ?_
        rw [hget, some.injEq] at hn
        exact hn ▸ hempty
      · simp only [hget, hempty, if_false, List.map_map, some.injEq] at h
        subst h
        exact .drop hget
  | invoke params requestId sendOk =>
    rw [next] at h
    split at h
    · cases h
    · rename_i hfresh
      rw [NodeRegistry.invoke] at h
      cases hget : s.registry.nodesById.get? params.nodeId with
      | none =>
        simp only [hget, some.injEq] at h
        exact h ▸ .unsent
      | some node =>
        cases sendOk with
        | false =>
          simp only [hget, Bool.not_false, if_true, some.injEq] at h
          exact h ▸ .unsent
        | true =>
          simp only [hget, Bool.not_true, Bool.false_eq_true, if_false, some.injEq] at h
          subst h
          exact .send hfresh hget
  | invokeResult params =>
    rw [next, NodeRegistry.handleInvokeResult] at h
    cases hget : s.registry.pendingInvokes.get? params.id with
    | none =>
      simp only [hget, some.injEq] at h
      exact h ▸ .ignored
    | some pending =>
      by_cases hnode : pending.nodeId = params.nodeId
      · simp only [hget, hnode, ne_eq, not_true_eq_false, if_false, some.injEq] at h
        subst h
        exact .result hget hnode
      · simp only [hget, ne_eq, hnode, not_false_eq_true, if_true, some.injEq] at h
        exact h ▸ .ignored
  | timeout requestId =>
    rw [next] at h
    split at h
    · rename_i htimer
      cases h
      exact .timeout htimer
    · cases h

/-! ### The bookkeeping -/

/-- What holds in every run. -/
structure Accounted (s : System) : Prop where
  /-- A connection is known to the table from its registration until it is unregistered. -/
  conns : ∀ connId nodeId, s.registry.nodesByConn.get? connId = some nodeId ↔
    connId ∉ s.unregistered ∧ ∃ session ∈ s.registered, session.connId = connId ∧ session.nodeId = nodeId
  /-- Connections have different ids. -/
  distinct : (s.registered.map (·.connId)).Nodup
  named : ∀ session ∈ s.registered, session.nodeId ≠ ""
  /-- A node of the table was registered. -/
  known : ∀ nodeId session, s.registry.nodesById.get? nodeId = some session →
    session ∈ s.registered ∧ session.nodeId = nodeId
  /-- A request was sent over a connection of its node. -/
  conn : ∀ e ∈ s.sent, ∃ session ∈ s.registered,
    session.connId = e.connId ∧ session.nodeId = e.request.params.nodeId
  /-- A pending request was sent to the node it is kept for. -/
  pending : ∀ id pending, s.registry.pendingInvokes.get? id = some pending →
    ∃ e ∈ s.sent, e.request.id = id ∧ e.request.params.nodeId = pending.nodeId
  /-- The pending requests have their timers set, and no others. -/
  timers : ∀ id, s.registry.timers.has id = s.registry.pendingInvokes.has id
  /-- Requests have different ids. -/
  ids : s.sentIds.Nodup
  /-- No request is settled twice. -/
  once : s.settledIds.Nodup
  settled : ∀ id ∈ s.settledIds, id ∈ s.sentIds
  /-- A request is pending until it is settled. -/
  unsettled : ∀ id ∈ s.sentIds, s.registry.pendingInvokes.has id = true ↔ id ∉ s.settledIds
  /-- A result comes from the node the request was sent to. -/
  result : ∀ id nodeId value, (id, .result nodeId value) ∈ s.settled →
    ∃ e ∈ s.sent, e.request.id = id ∧ e.request.params.nodeId = nodeId

theorem Accounted.start : Accounted {} where
  conns := by simp
  distinct := nodup_nil
  named := by simp
  known := by simp
  conn := by simp
  pending := by simp
  timers _ := rfl
  ids := nodup_nil
  once := nodup_nil
  settled := by simp [System.settledIds]
  unsettled := by simp [System.sentIds]
  result := by simp

variable (h : Accounted s)
include h

theorem Accounted.sent_of_pending {id : String}
    (hid : s.registry.pendingInvokes.has id = true) : id ∈ s.sentIds := by
  obtain ⟨pending, hpending⟩ := has_iff.mp hid
  obtain ⟨e, he, rfl, -⟩ := h.pending id pending hpending
  exact List.mem_map_of_mem he

theorem Accounted.unsettled_of_pending {id : String}
    (hid : s.registry.pendingInvokes.has id = true) : id ∉ s.settledIds :=
  (h.unsettled id (h.sent_of_pending hid)).mp hid

theorem Accounted.sent_inj {e e' : Sent} (he : e ∈ s.sent) (he' : e' ∈ s.sent)
    (hid : e.request.id = e'.request.id) : e = e' :=
  inj_on_of_nodup_map h.ids he he' hid

omit h in
theorem newSession_nodeId_ne (client : GatewayWsClient) (remoteIp : Option String) (now : ℚ) :
    (newSession client remoteIp now).nodeId ≠ "" :=
  (client.connect.deviceId.getD client.connect.clientId).property

variable {session : NodeSession}

theorem Accounted.register (hnode : session.nodeId ≠ "")
    (hfresh : session.connId ∉ s.registered.map (·.connId)) (hlive : session.connId ∉ s.unregistered) :
    Accounted { s with registry := s.registry.register session, registered := session :: s.registered } where
  conns connId nodeId := by
    simp only [NodeRegistry.register, get?_set, mem_cons, exists_eq_or_imp]
    split
    · rename_i hconn
      subst hconn
      constructor
      · intro hn
        exact ⟨hlive, .inl ⟨rfl, some.inj hn⟩⟩
      · rintro ⟨-, ⟨-, rfl⟩ | ⟨old, hold, hconn, -⟩⟩
        · rfl
        · exact absurd (hconn ▸ List.mem_map_of_mem hold) hfresh
    · rename_i hconn
      rw [h.conns connId nodeId]
      simp [hconn]
  distinct := nodup_cons.mpr ⟨hfresh, h.distinct⟩
  named := by simpa using ⟨hnode, h.named⟩
  known nodeId node hget := by
    simp only [NodeRegistry.register, get?_set] at hget
    split at hget
    · rename_i hid
      cases hget
      exact ⟨mem_cons_self, hid⟩
    · exact (h.known nodeId node hget).imp_left (mem_cons_of_mem _)
  conn e he := by
    obtain ⟨node, hmem, hnode⟩ := h.conn e he
    exact ⟨node, mem_cons_of_mem _ hmem, hnode⟩
  pending := h.pending
  timers := h.timers
  ids := h.ids
  once := h.once
  settled := h.settled
  unsettled := h.unsettled
  result := h.result

theorem Accounted.absent {connId : String}
    (habsent : ∀ nodeId, s.registry.nodesByConn.get? connId = some nodeId → nodeId = "") :
    Accounted { s with unregistered := connId :: s.unregistered } where
  conns conn nodeId := by
    rw [h.conns conn nodeId, mem_cons, not_or]
    constructor
    · rintro ⟨hlive, session, hmem, rfl, rfl⟩
      refine ⟨⟨fun hconn => ?_, hlive⟩, session, hmem, rfl, rfl⟩
      have hget := (h.conns session.connId session.nodeId).mpr ⟨hlive, session, hmem, rfl, rfl⟩
      exact h.named session hmem (habsent _ (hconn ▸ hget))
    · rintro ⟨⟨-, hlive⟩, hmem⟩
      exact ⟨hlive, hmem⟩
  distinct := h.distinct
  named := h.named
  known := h.known
  conn := h.conn
  pending := h.pending
  timers := h.timers
  ids := h.ids
  once := h.once
  settled := h.settled
  unsettled := h.unsettled
  result := h.result

variable {node : NodeSession}

variable {request : InvokeRequest}

theorem Accounted.send
    (hfresh : request.id ∉ s.sentIds) (hnode : s.registry.nodesById.get? request.params.nodeId = some node) :
    Accounted (s.send request node.connId) where
  conns := h.conns
  distinct := h.distinct
  named := h.named
  known := h.known
  conn e he := by
    rcases mem_cons.mp he with rfl | he
    · exact ⟨node, (h.known _ node hnode).1, rfl, (h.known _ node hnode).2⟩
    · exact h.conn e he
  pending id pending hget := by
    simp only [System.send, get?_set] at hget
    split at hget
    · rename_i hid
      cases hget
      exact ⟨⟨request, node.connId⟩, mem_cons_self, hid, rfl⟩
    · obtain ⟨e, he, hid⟩ := h.pending id pending hget
      exact ⟨e, mem_cons_of_mem _ he, hid⟩
  timers id := by
    have := h.timers id
    simp only [System.send, JsMap.has, get?_set] at this ⊢
    split <;> simp_all
  ids := nodup_cons.mpr ⟨hfresh, h.ids⟩
  once := h.once
  settled id hid := mem_cons_of_mem _ (h.settled id hid)
  unsettled id hid := by
    by_cases hself : request.id = id
    · subst hself
      exact iff_of_true (has_set_self _ _ _) fun hset => hfresh (h.settled _ hset)
    · have hmem : id ∈ s.sentIds := (mem_cons.mp hid).resolve_left (Ne.symm hself)
      rw [← show s.settledIds = (s.send request node.connId).settledIds from rfl, ← h.unsettled id hmem]
      simp [System.send, JsMap.has, get?_set, hself]
  result id nodeId value hmem := by
    obtain ⟨e, he, hid⟩ := h.result id nodeId value hmem
    exact ⟨e, mem_cons_of_mem _ he, hid⟩

variable {outcome : Outcome}

theorem Accounted.settle {id : String}
    (hid : s.registry.pendingInvokes.has id = true)
    (hresult : ∀ nodeId value, outcome = .result nodeId value →
      ∃ e ∈ s.sent, e.request.id = id ∧ e.request.params.nodeId = nodeId) :
    Accounted (s.settle id outcome) where
  conns := h.conns
  distinct := h.distinct
  named := h.named
  known := h.known
  conn := h.conn
  pending other pending hget := by
    simp only [System.settle, get?_delete] at hget
    split at hget
    · cases hget
    · exact h.pending other pending hget
  timers other := by
    have := h.timers other
    simp only [System.settle, JsMap.has, get?_delete] at this ⊢
    split <;> simp_all
  ids := h.ids
  once := nodup_cons.mpr ⟨h.unsettled_of_pending hid, h.once⟩
  settled other hother := by
    rcases mem_cons.mp hother with rfl | hother
    · exact h.sent_of_pending hid
    · exact h.settled other hother
  unsettled other hother := by
    have := h.unsettled other hother
    simp only [System.settle, System.settledIds, JsMap.has, get?_delete, map_cons, mem_cons, not_or] at this ⊢
    by_cases hself : id = other
    · simp [hself]
    · simp only [hself, if_false, this, Ne.symm hself, not_false_eq_true, true_and]
  result other nodeId value hmem := by
    rcases mem_cons.mp hmem with heq | hmem
    · obtain ⟨rfl, rfl⟩ := Prod.mk.inj heq
      exact hresult nodeId value rfl
    · exact h.result other nodeId value hmem

/-! ### A connection is unregistered -/

omit h in
theorem mem_pendingOf {r : NodeRegistry} {nodeId id : String} :
    id ∈ (r.pendingOf nodeId).map Prod.fst ↔
      ∃ pending, r.pendingInvokes.get? id = some pending ∧ pending.nodeId = nodeId := by
  simp only [NodeRegistry.pendingOf, List.mem_map, mem_filter, decide_eq_true_eq, Prod.exists,
    mem_entries_iff, exists_and_right, exists_eq_right]

omit h in
theorem settledIds_drop (s : System) (connId nodeId : String) :
    (s.drop connId nodeId).settledIds = (s.registry.pendingOf nodeId).map Prod.fst ++ s.settledIds := by
  simp only [System.drop, System.settledIds, map_append, List.map_map]
  rfl

omit h in
theorem has_pending_drop (s : System) (connId nodeId id : String) :
    (s.drop connId nodeId).registry.pendingInvokes.has id = true ↔
      s.registry.pendingInvokes.has id = true ∧ id ∉ (s.registry.pendingOf nodeId).map Prod.fst := by
  simp only [System.drop, NodeRegistry.drop, JsMap.has, get?_deleteAll]
  split <;> simp_all

variable {e : Sent}

/-- The pending requests of a node, by what was sent. -/
theorem Accounted.mem_pendingOf (he : e ∈ s.sent) {nodeId : String} :
    e.request.id ∈ (s.registry.pendingOf nodeId).map Prod.fst ↔
      s.registry.pendingInvokes.has e.request.id = true ∧ e.request.params.nodeId = nodeId := by
  rw [Nodes.mem_pendingOf, has_iff]
  constructor
  · rintro ⟨pending, hget, rfl⟩
    obtain ⟨e', he', hid, hnode⟩ := h.pending _ pending hget
    exact ⟨⟨pending, hget⟩, h.sent_inj he' he hid ▸ hnode⟩
  · rintro ⟨⟨pending, hget⟩, rfl⟩
    obtain ⟨e', he', hid, hnode⟩ := h.pending _ pending hget
    exact ⟨pending, hget, (h.sent_inj he' he hid ▸ hnode).symm⟩

theorem Accounted.drop (connId nodeId : String) : Accounted (s.drop connId nodeId) where
  conns conn node := by
    simp only [System.drop, NodeRegistry.drop, get?_delete, mem_cons, not_or]
    by_cases hself : connId = conn
    · simp [hself]
    · simp only [hself, if_false, h.conns conn node, Ne.symm hself, not_false_eq_true, true_and]
  distinct := h.distinct
  named := h.named
  known node session hget := by
    simp only [System.drop, NodeRegistry.drop, get?_delete] at hget
    split at hget
    · cases hget
    · exact h.known node session hget
  conn := h.conn
  pending id pending hget := by
    simp only [System.drop, NodeRegistry.drop, get?_deleteAll] at hget
    split at hget
    · cases hget
    · exact h.pending id pending hget
  timers id := by
    have := h.timers id
    simp only [System.drop, NodeRegistry.drop, JsMap.has, get?_deleteAll] at this ⊢
    split <;> simp_all
  ids := h.ids
  once := by
    rw [settledIds_drop, nodup_append']
    refine ⟨s.registry.pendingInvokes.nodup_keys.sublist (filter_sublist.map _), h.once, ?_⟩
    intro id hid
    obtain ⟨pending, hget, -⟩ := Nodes.mem_pendingOf.mp hid
    exact h.unsettled_of_pending (has_iff.mpr ⟨pending, hget⟩)
  settled id hid := by
    rw [settledIds_drop, mem_append] at hid
    rcases hid with hid | hid
    · obtain ⟨pending, hget, -⟩ := Nodes.mem_pendingOf.mp hid
      exact h.sent_of_pending (has_iff.mpr ⟨pending, hget⟩)
    · exact h.settled id hid
  unsettled id hid := by
    rw [has_pending_drop, settledIds_drop, mem_append, not_or, h.unsettled id hid, and_comm]
  result id node value hmem := by
    rcases mem_append.mp hmem with hmem | hmem
    · obtain ⟨_, -, heq⟩ := List.mem_map.mp hmem
      cases heq
    · exact h.result id node value hmem

theorem Accounted.next (hnext : Nodes.next s a = some s') : Accounted s' := by
  cases step_of_next hnext with
  | register hfresh hlive => exact h.register (newSession_nodeId_ne _ _ _) hfresh hlive
  | absent habsent => exact h.absent habsent
  | drop => exact h.drop _ _
  | send hfresh hnode => exact h.send hfresh hnode
  | unsent => exact h
  | ignored => exact h
  | result hget hnode =>
    refine h.settle (has_iff.mpr ⟨_, hget⟩) fun nodeId value heq => ?_
    obtain ⟨e, he, hid, hsent⟩ := h.pending _ _ hget
    cases heq
    exact ⟨e, he, hid, hsent.trans hnode⟩
  | timeout htimer =>
    rw [h.timers] at htimer
    exact h.settle htimer fun nodeId value heq => by cases heq

/-! ### The table and the requests -/

theorem Accounted.timeout {id : String} (hid : s.registry.pendingInvokes.has id = true) :
    ∃ t, Nodes.next s (.timeout id) = some t ∧ id ∈ t.settledIds := by
  refine ⟨s.settle id (.timeout (.failed "TIMEOUT" "node invoke timed out")), ?_, mem_cons_self⟩
  rw [Nodes.next, h.timers, hid]
  rfl

/-- What is left to show of the table and the requests, when the books are kept. -/
theorem Lawful.of_accounted
    (hget : ∀ nodeId, s.registry.get nodeId = (s.latest nodeId).filter (·.connId ∉ s.unregistered))
    (hrejected : ∀ id connId message, (id, .disconnected connId message) ∈ s.settled →
      ∃ e ∈ s.sent, e.request.id = id ∧ e.connId = connId)
    (hopen : ∀ e ∈ s.sent, s.registry.pendingInvokes.has e.request.id = true → e.connId ∉ s.unregistered) :
    Lawful s where
  get := hget
  rejected := hrejected
  result := h.result
  once := h.once
  sent_of_settled := h.settled
  open_ e he hid := by
    have hpending := (h.unsettled _ (List.mem_map_of_mem he)).mpr hid
    exact ⟨hopen e he hpending, h.timeout hpending⟩

omit h

theorem Lawful.live (hl : Lawful s) (h : Accounted s) (he : e ∈ s.sent)
    (hid : s.registry.pendingInvokes.has e.request.id = true) : e.connId ∉ s.unregistered :=
  (hl.open_ e he (h.unsettled_of_pending hid)).1

theorem mem_registered_of_latest {nodeId : String}
    (h : s.latest nodeId = some session) : session ∈ s.registered ∧ session.nodeId = nodeId :=
  ⟨mem_of_find?_eq_some h, by simpa using find?_some h⟩

theorem Lawful.start : Lawful {} :=
  .of_accounted .start (fun _ => rfl) (by simp) (by simp)

theorem Lawful.register (hl : Lawful s) (h : Accounted s)
    (hnode : session.nodeId ≠ "") (hfresh : session.connId ∉ s.registered.map (·.connId))
    (hlive : session.connId ∉ s.unregistered) :
    Lawful { s with registry := s.registry.register session, registered := session :: s.registered } := by
  refine .of_accounted (h.register hnode hfresh hlive) (fun nodeId => ?_) hl.rejected
    fun e he hid => hl.live h he hid
  have hold := hl.get nodeId
  simp only [NodeRegistry.get, NodeRegistry.register, get?_set, System.latest] at hold ⊢
  by_cases hself : session.nodeId = nodeId
  · simp [hself, filter_some, hlive]
  · simp [hself, hold]

theorem Accounted.unregistered_of_absent (h : Accounted s)
    (hmem : session ∈ s.registered)
    (habsent : ∀ nodeId, s.registry.nodesByConn.get? session.connId = some nodeId → nodeId = "") :
    session.connId ∈ s.unregistered := by
  by_contra hlive
  exact h.named session hmem (habsent _ ((h.conns _ _).mpr ⟨hlive, session, hmem, rfl, rfl⟩))

theorem Lawful.absent (hl : Lawful s) (h : Accounted s) {connId : String}
    (habsent : ∀ nodeId, s.registry.nodesByConn.get? connId = some nodeId → nodeId = "") :
    Lawful { s with unregistered := connId :: s.unregistered } := by
  have hended : ∀ session ∈ s.registered, session.connId = connId → session.connId ∈ s.unregistered :=
    fun session hmem hconn => h.unregistered_of_absent hmem (hconn ▸ habsent)
  refine .of_accounted (h.absent habsent) (fun nodeId => ?_) hl.rejected fun e he hid => ?_
  · refine (hl.get nodeId).trans ?_
    change (s.latest nodeId).filter _ = (s.latest nodeId).filter _
    cases hlatest : s.latest nodeId with
    | none => rfl
    | some session =>
      have hsession := hended session (mem_registered_of_latest hlatest).1
      by_cases hconn : session.connId = connId
      · simp [filter_some, hsession hconn]
      · simp [filter_some, hconn]
  · obtain ⟨session, hmem, hconn, -⟩ := h.conn e he
    have hlive := hl.live h he hid
    rw [mem_cons, not_or]
    exact ⟨fun heq => hlive (hconn ▸ hended session hmem (hconn.trans heq)), hlive⟩

theorem Lawful.send (hl : Lawful s) (h : Accounted s) (hfresh : request.id ∉ s.sentIds)
    (hnode : s.registry.nodesById.get? request.params.nodeId = some node) :
    Lawful (s.send request node.connId) := by
  refine .of_accounted (h.send hfresh hnode) hl.get (fun id connId message hmem => ?_) fun e he hid => ?_
  · obtain ⟨e, he, hid⟩ := hl.rejected id connId message hmem
    exact ⟨e, mem_cons_of_mem _ he, hid⟩
  · rcases mem_cons.mp he with rfl | he
    · have hget := hl.get request.params.nodeId
      rw [NodeRegistry.get, hnode] at hget
      exact of_decide_eq_true (filter_eq_some_iff.mp hget.symm).2
    · refine hl.live h he ?_
      have hne : request.id ≠ e.request.id := fun heq => hfresh (heq ▸ List.mem_map_of_mem he)
      simpa [System.send, JsMap.has, get?_set, hne] using hid

theorem Lawful.settle (hl : Lawful s) (h : Accounted s) {id : String} (h' : Accounted (s.settle id outcome))
    (houtcome : ∀ connId message, outcome ≠ .disconnected connId message) : Lawful (s.settle id outcome) := by
  refine .of_accounted h' hl.get (fun other connId message hmem => ?_) fun e he hid => hl.live h he ?_
  · rcases mem_cons.mp hmem with heq | hmem
    · exact absurd (Prod.mk.inj heq).2.symm (houtcome connId message)
    · exact hl.rejected other connId message hmem
  · simp only [System.settle, JsMap.has, get?_delete] at hid ⊢
    split at hid
    · cases hid
    · exact hid

variable {connId nodeId : String}

/-- A registered connection is unregistered when it is its node's only concern. -/
theorem Lawful.drop (hl : Lawful s) (h : Accounted s)
    (hconn : s.registry.nodesByConn.get? connId = some nodeId)
    (hnewer : ∀ session, s.latest nodeId = some session →
      session.connId = connId ∨ session.connId ∈ s.unregistered)
    (hover : ∀ e ∈ s.sent, e.request.params.nodeId = nodeId →
      s.registry.pendingInvokes.has e.request.id = true → e.connId = connId) :
    Lawful (s.drop connId nodeId) := by
  refine .of_accounted (h.drop connId nodeId) (fun node => ?_) (fun id conn message hmem => ?_)
    fun e he hid => ?_
  · change (s.registry.nodesById.delete nodeId).get? node = (s.latest node).filter _
    rw [get?_delete]
    by_cases hself : nodeId = node
    · subst hself
      rw [if_pos rfl, eq_comm, filter_eq_none_iff]
      intro session hsession
      simpa [System.drop, imp_iff_not_or] using hnewer session hsession
    · rw [if_neg hself]
      refine (hl.get node).trans ?_
      cases hlatest : s.latest node with
      | none => rfl
      | some session =>
        -- the connection belongs to the other node
        have hother : session.connId ≠ connId := fun heq => by
          obtain ⟨hmem, hnode⟩ := mem_registered_of_latest hlatest
          obtain ⟨-, session', hmem', hconn', hnode'⟩ := (h.conns _ _).mp hconn
          have hsame := inj_on_of_nodup_map h.distinct hmem hmem' (heq.trans hconn'.symm)
          exact hself (by rw [← hnode', ← hsame, hnode])
        simp [System.drop, filter_some, hother]
  · rcases mem_append.mp hmem with hmem | hmem
    · obtain ⟨⟨id', pending⟩, hp, heq⟩ := List.mem_map.mp hmem
      obtain ⟨rfl, hout⟩ := Prod.mk.inj heq
      obtain ⟨rfl, -⟩ := Outcome.disconnected.inj hout
      have hid : id' ∈ (s.registry.pendingOf nodeId).map Prod.fst := List.mem_map_of_mem hp
      obtain ⟨p, hget, -⟩ := mem_pendingOf.mp hid
      obtain ⟨e, he, rfl, -⟩ := h.pending _ p hget
      obtain ⟨hpending, hnode⟩ := (h.mem_pendingOf he).mp hid
      exact ⟨e, he, rfl, hover e he hnode hpending⟩
    · exact hl.rejected id conn message hmem
  · obtain ⟨hpending, hother⟩ := (has_pending_drop s connId nodeId _).mp hid
    change e.connId ∉ connId :: s.unregistered
    rw [mem_cons, not_or]
    refine ⟨fun heq => hother ((h.mem_pendingOf he).mpr ⟨hpending, ?_⟩), hl.live h he hpending⟩
    -- what was sent over the connection was sent to its node
    obtain ⟨session, hmem, hsession, hnode⟩ := h.conn e he
    obtain ⟨-, session', hmem', hsession', hnode'⟩ := (h.conns _ _).mp hconn
    have hsame := inj_on_of_nodup_map h.distinct hmem hmem' (hsession.trans (heq.trans hsession'.symm))
    rw [← hnode, hsame, hnode']

/-- A registered connection is unregistered, and the table and the requests stay right. -/
theorem Lawful.orderly_of_drop (h : Accounted s) (hconn : s.registry.nodesByConn.get? connId = some nodeId)
    (hl' : Lawful (s.drop connId nodeId)) : Orderly s (.unregister connId) := by
  intro node hnode
  rw [hconn, some.injEq] at hnode
  subst hnode
  constructor
  · intro session hsession
    have hget := hl'.get nodeId
    change (s.registry.nodesById.delete nodeId).get? nodeId = (s.latest nodeId).filter _ at hget
    rw [get?_delete_self, eq_comm, filter_eq_none_iff] at hget
    simpa [System.drop, imp_iff_not_or] using hget session hsession
  · intro e he hnode hid
    have hmem := (h.mem_pendingOf he).mpr ⟨hid, hnode⟩
    obtain ⟨⟨id, pending⟩, hp, hid'⟩ := List.mem_map.mp hmem
    dsimp only at hid'
    subst hid'
    obtain ⟨e', he', hsame, hover⟩ := hl'.rejected e.request.id connId _
      (mem_append_left _ (List.mem_map.mpr ⟨⟨e.request.id, pending⟩, hp, rfl⟩))
    rw [h.sent_inj he he' hsame.symm]
    exact hover

/-- One step keeps the table and the requests right exactly when it is orderly. -/
theorem lawful_next_iff (h : Accounted s) (hl : Lawful s) (hnext : next s a = some s') :
    Lawful s' ↔ Orderly s a := by
  have h' := h.next hnext
  cases step_of_next hnext with
  | register hfresh hlive =>
    exact iff_of_true (hl.register h (newSession_nodeId_ne _ _ _) hfresh hlive) trivial
  | absent habsent =>
    refine iff_of_true (hl.absent h habsent) fun nodeId hconn => ?_
    obtain ⟨-, session, hmem, -, hnode⟩ := (h.conns _ _).mp hconn
    exact absurd (hnode.trans (habsent nodeId hconn)) (h.named session hmem)
  | drop hconn =>
    constructor
    · exact Lawful.orderly_of_drop h hconn
    · intro horderly
      obtain ⟨hnewer, hover⟩ := horderly _ hconn
      exact hl.drop h hconn hnewer hover
  | send hfresh hnode => exact iff_of_true (hl.send h hfresh hnode) trivial
  | unsent => exact iff_of_true hl trivial
  | ignored => exact iff_of_true hl trivial
  | result hget hnode => exact iff_of_true (hl.settle h h' fun _ _ => nofun) trivial
  | timeout htimer => exact iff_of_true (hl.settle h h' fun _ _ => nofun) trivial

/-- In every run, the table and the requests are right all along exactly when every connection that is
unregistered is its node's only concern. -/
theorem lawful_iff_orderly {as : List Action} {t : System} (h : Runs.exec next {} as = some t) :
    Runs.Always next Lawful {} as ↔ Runs.Meets next Orderly {} as :=
  Runs.always_iff_meets (S := Accounted) (I := Lawful) (fun _ _ _ hs hstep => hs.next hstep)
    (fun _ _ _ hs hl hstep => lawful_next_iff hs hl hstep) .start .start h

/-! ### A late close -/

/-- A client of the node `phone`. -/
def phone (connId : String) : GatewayWsClient where
  connId
  connect :=
    { clientId := ⟨"node-host", by decide⟩, displayName := none, platform := some "ios"
      version := some "1", deviceFamily := none, modelIdentifier := none, coreVersion := none
      uiVersion := none, caps := none, commands := none, permissions := none, pathEnv := none
      deviceId := some ⟨"phone", by decide⟩ }

/-- A request to the node `phone`. -/
def statusParams : InvokeParams where
  nodeId := "phone"
  command := "device.status"
  paramsJSON := none
  timeoutMs := none
  idempotencyKey := none

/-- The node reconnects, a request is sent over the new connection, and the old one is closed. -/
def lateClose : List Action :=
  [.register (phone "conn1") none 0, .register (phone "conn2") none 1, .invoke statusParams "r1" true,
    .unregister "conn1"]

/-- After the late close the node is gone, and the request over the live connection is rejected. -/
theorem late_close : ∃ t, Runs.exec next {} lateClose = some t ∧ ¬ Lawful t ∧
    t.registry.get "phone" = none ∧ (t.latest "phone").map (·.connId) = some "conn2" ∧
    "conn2" ∉ t.unregistered ∧ t.sent.map (·.connId) = ["conn2"] ∧
    ∃ message, t.settled.head? = some ("r1", .disconnected "conn1" message) := by
  refine ⟨_, rfl, fun hl => ?_, rfl, rfl, by decide, rfl, _, rfl⟩
  have hget := hl.get "phone"
  revert hget
  decide

/-- The latest connection is closed first, and then the one it replaced. -/
def latestFirst : List Action :=
  [.register (phone "conn1") none 0, .register (phone "conn2") none 1, .invoke statusParams "r1" true,
    .timeout "r1", .unregister "conn2", .unregister "conn1"]

theorem latestFirst_lawful : Runs.Always next Lawful {} latestFirst := by
  refine (@lawful_iff_orderly latestFirst _ rfl).mpr ?_
  refine .cons trivial rfl (.cons trivial rfl (.cons trivial rfl (.cons trivial rfl ?_)))
  refine .cons (fun nodeId hconn => ?_) rfl (.cons (fun nodeId hconn => ?_) rfl trivial)
  all_goals
    obtain rfl : "phone" = nodeId := some.inj hconn
    refine ⟨fun session hsession => ?_, fun e he _ hpending => ?_⟩
  · obtain rfl := some.inj hsession
    exact .inl rfl
  · obtain rfl := mem_singleton.mp he
    exact absurd hpending (by decide)
  · obtain rfl := some.inj hsession
    exact .inr (by decide)
  · obtain rfl := mem_singleton.mp he
    exact absurd hpending (by decide)

end Foxclaw.Gateway.Nodes
