import Libhelp.Message.Message

/-!
# The choice of a transport

The model of `pm_init` and of the operations that pass a call on to the transport that
`comm_type` names.  `pm_init` accepts no name: a name differs from one of the three
that it is compared with.  It stores the name even so, and the operations work.
-/

namespace Libhelp

open CString

/-- `PM_QUEUE` -/
def pmQueue : Bytes := ascii "queue"

/-- `PM_ZMQ` -/
def pmZmq : Bytes := ascii "zmq"

/-- `PM_UDP` -/
def pmUdp : Bytes := ascii "udp"

/-- The transports with a back end. -/
inductive Transport where
  | queue
  | udp

/-- A call of a back end. -/
inductive BackEndCall where
  | connect (transport : Transport) (name : Bytes) (projId : Int32)
  | create (transport : Transport) (name : Bytes) (projId : Int32)
  | send (transport : Transport) (type : Int64) (msg : Bytes) (msgSize : Int32)
  | recv (transport : Transport)

/-- An operation returns what a back end returns, or a result of its own. -/
inductive Dispatch (α : Type) where
  | calls (call : BackEndCall)
  | returns (result : α)

/-- `pm_init` -/
def pmInit (pm : Pm) (commType : Bytes) : Bool × Pm :=
  let pm := { pm with commType := commType }
  if pm.commType ≠ pmQueue ∨ pm.commType ≠ pmZmq ∨ pm.commType ≠ pmUdp then
    (false, pm)
  else
    (true, pm)

/-- `pm_connect` -/
def pmConnect (pm : Pm) (name : Bytes) (projId : Int32) : Dispatch Bool :=
  if pm.commType = pmQueue then
    .calls (.connect .queue name projId)
  else if pm.commType = pmUdp then
    .calls (.connect .udp name projId)
  else
    .returns false

/-- `pm_create` -/
def pmCreate (pm : Pm) (name : Bytes) (projId : Int32) : Dispatch Bool :=
  if pm.commType = pmQueue then
    .calls (.create .queue name projId)
  else if pm.commType = pmUdp then
    .calls (.create .udp name projId)
  else
    .returns false

/-- `pm_send`.  The call for `PM_ZMQ` is commented out. -/
def pmSend (pm : Pm) (type : Int64) (msg : Bytes) (msgSize : Int32) : Dispatch Int32 :=
  if pm.commType = pmQueue then
    .calls (.send .queue type msg msgSize)
  else if pm.commType = pmZmq then
    .returns (-2)
  else if pm.commType = pmUdp then
    .calls (.send .udp type msg msgSize)
  else
    .returns (-2)

/-- `pm_recv`.  Its own result is `NULL`. -/
def pmRecv (pm : Pm) : Dispatch (Option PmMessage) :=
  if pm.commType = pmQueue then
    .calls (.recv .queue)
  else if pm.commType = pmZmq then
    .returns none
  else if pm.commType = pmUdp then
    .calls (.recv .udp)
  else
    .returns none

/-- The call goes to a back end. -/
def Dispatch.Served {α : Type} : Dispatch α → Prop
  | .calls _ => True
  | .returns _ => False

namespace Pm

variable {pm : Pm} {name : Bytes}

/-- Every call of the operations goes to a back end. -/
structure Serves (pm : Pm) : Prop where
  connect : ∀ name projId, (pmConnect pm name projId).Served
  create : ∀ name projId, (pmCreate pm name projId).Served
  send : ∀ type msg msgSize, (pmSend pm type msg msgSize).Served
  recv : (pmRecv pm).Served

/-- Every call of the operations returns its error. -/
structure Refuses (pm : Pm) : Prop where
  connect : ∀ name projId, pmConnect pm name projId = .returns false
  create : ∀ name projId, pmCreate pm name projId = .returns false
  send : ∀ type msg msgSize, pmSend pm type msg msgSize = .returns (-2)
  recv : pmRecv pm = .returns none

/-- `pm_init` accepts the names with which the operations work, and only these; with the others
the operations fail. -/
def InitAgrees (pm : Pm) (name : Bytes) : Prop :=
  ((pmInit pm name).1 = true ↔ (pmInit pm name).2.Serves) ∧
    (¬(pmInit pm name).2.Serves → (pmInit pm name).1 = false ∧ (pmInit pm name).2.Refuses)

theorem pmInit_eq (pm : Pm) (name : Bytes) :
    pmInit pm name = (false, { pm with commType := name }) := by
  unfold pmInit
  apply if_pos
  -- no name is equal to two names
  by_cases isQueue : name = pmQueue
  · have notZmq : pmQueue ≠ pmZmq := by decide
    exact Or.inr (Or.inl (isQueue ▸ notZmq))
  · exact Or.inl isQueue

theorem serves_of_name (known : pm.commType = pmQueue ∨ pm.commType = pmUdp) : pm.Serves := by
  rcases known with isQueue | isUdp
  · constructor <;> simp [pmConnect, pmCreate, pmSend, pmRecv, Dispatch.Served, isQueue]
  · have notQueue : pmUdp ≠ pmQueue := by decide
    have notZmq : pmUdp ≠ pmZmq := by decide
    constructor <;>
      simp [pmConnect, pmCreate, pmSend, pmRecv, Dispatch.Served, isUdp, notQueue, notZmq]

theorem refuses_of_name (notQueue : pm.commType ≠ pmQueue) (notUdp : pm.commType ≠ pmUdp) :
    pm.Refuses := by
  constructor <;> simp [pmConnect, pmCreate, pmSend, pmRecv, notQueue, notUdp]

theorem Refuses.not_serves (refuses : pm.Refuses) : ¬pm.Serves := by
  intro serves
  have served := serves.recv
  rw [refuses.recv] at served
  exact served

/-- `pm_init` agrees with the operations on the names with which these do not work. -/
theorem initAgrees_iff (pm : Pm) (name : Bytes) :
    pm.InitAgrees name ↔ name ≠ pmQueue ∧ name ≠ pmUdp := by
  unfold InitAgrees
  rw [pmInit_eq]
  constructor
  · intro agrees
    have refused : ¬Serves { pm with commType := name } := by
      intro serves
      cases agrees.1.mpr serves
    constructor
    · intro isQueue
      exact refused (serves_of_name (Or.inl isQueue))
    · intro isUdp
      exact refused (serves_of_name (Or.inr isUdp))
  · intro unknown
    have refuses : Refuses { pm with commType := name } := refuses_of_name unknown.1 unknown.2
    refine ⟨?_, fun _ => ⟨rfl, refuses⟩⟩
    constructor
    · intro accepted
      cases accepted
    · intro serves
      exact absurd serves refuses.not_serves

/-- `pm_init` rejects `udp`, with which the operations work. -/
theorem udp_rejected : ¬(asking 0 0).InitAgrees pmUdp := by
  intro agrees
  have serves : (pmInit (asking 0 0) pmUdp).2.Serves := by
    rw [pmInit_eq]
    exact serves_of_name (Or.inr rfl)
  have accepted := agrees.1.mpr serves
  rw [pmInit_eq] at accepted
  cases accepted

end Pm

end Libhelp
