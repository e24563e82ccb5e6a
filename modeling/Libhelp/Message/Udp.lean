import Libhelp.Lib.Transition
import Libhelp.Message.Message

/-!
# Messages in datagrams

The model of `pm_connect_udp`, `pm_create_udp`, `pm_send_udp` and `pm_recv_udp`.  A
message is a datagram of a whole `proc_msg_s`, whatever the size of its text.

The text is copied like a string.  The size that arrives is that of the datagram.  A
client stores the address a datagram comes from where it has the address it sends
to.
-/

namespace Libhelp

open Transition CString Record

/-- `AF_INET` -/
def afInet : UInt16 := 2

/-- `htons`, on a machine that has the lowest byte first. -/
def htons (port : UInt16) : UInt16 :=
  port <<< 8 ||| port >>> 8

/-- The address that `pm_connect_udp` and `pm_create_udp` set `server_isa` to. -/
def sockAddr (port : Int32) (addr : UInt32) : SockAddr where
  family := afInet
  port := htons port.toUInt32.toUInt16
  addr := addr

/-- `inet_aton` -/
abbrev InetAton := Bytes → Option UInt32

/-- What `pm_connect_udp` and `pm_create_udp` both do.  `socket` may fail. -/
def pmSocketUdp (inetAton : InetAton) (role : Int32) (pm : Pm) (socket : Bool) (ip : Bytes)
    (port : Int32) : Bool × Pm :=
  let pm := { pm with type := role }
  if socket then
    match inetAton ip with
    | none => (false, { pm with serverIsa := sockAddr port 0 })
    | some addr => (true, { pm with serverIsa := sockAddr port addr })
  else
    (false, pm)

/-- `pm_connect_udp` -/
def pmConnectUdp (inetAton : InetAton) (pm : Pm) (socket : Bool) (ip : Bytes) (port : Int32) :
    Bool × Pm :=
  pmSocketUdp inetAton pmTypeClient pm socket ip port

/-- `pm_create_udp`.  `bind` may fail. -/
def pmCreateUdp (inetAton : InetAton) (pm : Pm) (socket bind : Bool) (ip : Bytes)
    (port : Int32) : Bool × Pm :=
  match pmSocketUdp inetAton pmTypeServer pm socket ip port with
  | (true, pm) => (bind, pm)
  | (false, pm) => (false, pm)

/-- A datagram and its address: where it comes from or where it is sent. -/
structure Datagram where
  address : SockAddr
  bytes : Bytes

/-- What `pm_send_udp` gives to `sendto`. -/
def pmSendUdp (pm : Pm) (type : Int64) (msg : Bytes) (msgSize : Int32) (time : Int64) :
    Datagram where
  address := if pm.type = pmTypeServer then pm.clientIsa else pm.serverIsa
  bytes := (pmFill type msg msgSize time).bytes

/-- `recvfrom` stores what fits the record, and the address the datagram comes from. -/
def recvfrom (pm : Pm) (datagram : Datagram) : Pm :=
  let pm := { pm with pmsg := pm.pmsg.receive (datagram.bytes.take sizeofProcMsg) }
  if pm.type = pmTypeServer then
    { pm with clientIsa := datagram.address }
  else
    { pm with serverIsa := datagram.address }

/-- `pm_recv_udp`.  There is no datagram when `recvfrom` fails. -/
def pmRecvUdp (pm : Pm) : Option Datagram → Option PmMessage × Pm
  | none => (none, pm)
  | some datagram =>
      let pm := recvfrom pm datagram
      let ret := (datagram.bytes.take sizeofProcMsg).length
      if ret = 0 then (none, pm) else (some (pm.message ret), pm)

section Text

variable {type : Int32} {time : Int64} {msg payload rest : Bytes} {size : Int32}
  {sender receiver : Pm} {address : SockAddr}

theorem recvfrom_pmsg (pm : Pm) (datagram : Datagram) : (recvfrom pm datagram).pmsg =
    pm.pmsg.receive (datagram.bytes.take sizeofProcMsg) := by
  unfold recvfrom
  dsimp only
  split <;> rfl

theorem pmRecvUdp_eq {type : Int64} : ∃ received, pmRecvUdp receiver (some ⟨address,
      (pmSendUdp sender type msg size time).bytes⟩) =
    (some { type := type.toInt32, size := 10016, text := pmText msg size }, received) := by
  have sized := (pmFill type msg size time).sized
  have whole : (pmFill type msg size time).bytes.take sizeofProcMsg =
      (pmFill type msg size time).bytes := List.take_of_length_le sized.le
  have stored : (receiver.pmsg.receive (pmFill type msg size time).bytes).bytes =
      encodeInt64 type ++ (encodeInt64 time ++ pmText msg size) := by
    rw [ProcMsg.bytes_receive sized.le, sized, ← receiver.pmsg.sized, List.drop_length,
      List.append_nil]
    rfl
  rcases ProcMsg.fields stored with ⟨typed, -, text⟩
  refine ⟨recvfrom receiver ⟨address, (pmFill type msg size time).bytes⟩, ?_⟩
  rw [pmRecvUdp, pmSendUdp]
  dsimp only
  rw [whole, sized, if_neg (by decide), Pm.message, recvfrom_pmsg, whole, typed, text]
  rfl

/-- The text is the payload when and only when no byte other than zero comes after a zero. -/
theorem pmText_iff (fits : payload.length ≤ pmMessageSize)
    (sized : size.toInt = payload.length) :
    (pmText (payload ++ rest) size).take payload.length = payload ↔
      ∀ byte ∈ payload.drop (strlen payload), byte = nul := by
  have length : (payload.drop (strlen payload)).length = payload.length - strlen payload :=
    List.length_drop
  have shorter : strlen payload ≤ payload.length := (List.takeWhile_prefix _).length_le
  have text : (pmText (payload ++ rest) size).take payload.length =
      cstr payload ++ List.replicate (payload.length - strlen payload) nul := by
    rw [pmText_eq sized fits, take_cstr_append, List.take_append, List.take_replicate]
    congr 1
    · exact List.take_of_length_le shorter
    · congr 1
      show min (payload.length - strlen payload) (pmMessageSize - strlen payload) = _
      omega
  rw [text]
  conv_lhs => rhs; rw [← cstr_append_drop payload]
  rw [List.append_cancel_left_eq, ← length]
  constructor
  · intro same byte isByte
    rw [← same] at isByte
    exact List.eq_of_mem_replicate isByte
  · intro zeros
    exact (List.eq_replicate_of_mem zeros).symm

/-- No message comes with its own size. -/
theorem udp_never_sized (fits : payload.length ≤ pmMessageSize) :
    ¬∃ message received, pmRecvUdp receiver (some ⟨address,
        (pmSendUdp sender type.toInt64 (payload ++ rest) size time).bytes⟩) =
        (some message, received) ∧ message.type = type ∧
      message.size.toInt = payload.length ∧ message.text.take payload.length = payload := by
  intro carried
  rcases carried with ⟨message, received, recv, -, sized, -⟩
  rcases @pmRecvUdp_eq time (payload ++ rest) size sender receiver address type.toInt64
    with ⟨_, brings⟩
  rw [brings] at recv
  cases recv
  have whole : (10016 : Int32).toInt = 10016 := by decide
  dsimp only at sized
  rw [whole] at sized
  have bound : payload.length ≤ 10000 := fits
  omega

theorem udp_never_sized_two : ¬∃ message received,
    pmRecvUdp (.asking 0 pmTypeServer) (some ⟨⟨0, 0, 0⟩,
        (pmSendUdp (.asking 0 pmTypeClient) (1 : Int32).toInt64 ([104, 105] ++ [0]) 2 0).bytes⟩) =
        (some message, received) ∧ message.type = 1 ∧ message.size.toInt = (2 : ℕ) ∧
      message.text.take 2 = [104, 105] := by
  have fits : ([104, 105] : Bytes).length ≤ pmMessageSize := by decide
  exact udp_never_sized fits

/-- Of three bytes around a zero the last one is lost, and the size is that of the record. -/
theorem udp_cuts_bytes : ∃ message received,
    pmRecvUdp (.asking 0 pmTypeServer) (some ⟨⟨0, 0, 0⟩,
        (pmSendUdp (.asking 0 pmTypeClient) (1 : Int32).toInt64 ([1, 0, 2] ++ [0]) 3 0).bytes⟩) =
        (some message, received) ∧ message.size = 10016 ∧ message.text.take 3 ≠ [1, 0, 2] := by
  rcases @pmRecvUdp_eq 0 ([1, 0, 2] ++ [0]) 3 (.asking 0 pmTypeClient) (.asking 0 pmTypeServer)
    ⟨0, 0, 0⟩ (1 : Int32).toInt64 with ⟨received, recv⟩
  refine ⟨⟨1, 10016, pmText ([1, 0, 2] ++ [0]) 3⟩, received, recv, rfl, ?_⟩
  have text := @pmText_iff [1, 0, 2] [0] 3 (by decide) (by decide)
  have length : ([1, 0, 2] : Bytes).length = 3 := rfl
  rw [length] at text
  intro same
  dsimp only at same
  rw [text] at same
  exact absurd same (by decide)

end Text

section Client

/-- What a client does after it has connected. -/
inductive PmUdpEvent where
  | send (type : Int64) (msg : Bytes) (msgSize : Int32) (time : Int64)
  | recv (datagram : Option Datagram)

namespace Pm

/-- The runs of a client after a successful `pm_connect_udp`. -/
def udpSystem (inetAton : InetAton) (ip : Bytes) (port : Int32) : System Pm PmUdpEvent where
  init pm := ∃ start socket, pmConnectUdp inetAton start socket ip port = (true, pm)
  step pm event after :=
    match event with
    | .send _ _ _ _ => after = pm
    | .recv datagram => after = (pmRecvUdp pm datagram).2

/-- A datagram that is received comes from an address. -/
def ReceivesFrom (address : SockAddr) : PmUdpEvent → Prop
  | .recv (some datagram) => datagram.address = address
  | _ => True

/-- A client whose messages go to an address. -/
structure SendsTo (pm : Pm) (address : SockAddr) : Prop where
  client : pm.type = pmTypeClient
  server : pm.serverIsa = address

variable {inetAton : InetAton} {pm after : Pm} {ip : Bytes} {port : Int32} {addr : UInt32}
  {address : SockAddr} {event : PmUdpEvent} {datagram : Datagram}

theorem SendsTo.address_eq (sends : pm.SendsTo address) (type : Int64) (msg : Bytes)
    (msgSize : Int32) (time : Int64) : (pmSendUdp pm type msg msgSize time).address = address := by
  have other : pm.type ≠ pmTypeServer := by
    rw [sends.client]
    decide
  rw [pmSendUdp, if_neg other]
  exact sends.server

theorem sendsTo_connect {start : Pm} {socket : Bool} (resolves : inetAton ip = some addr)
    (connected : pmConnectUdp inetAton start socket ip port = (true, pm)) :
    pm.SendsTo (sockAddr port addr) := by
  unfold pmConnectUdp pmSocketUdp at connected
  rw [resolves] at connected
  cases socket with
  | false => cases connected
  | true =>
      cases connected
      exact ⟨rfl, rfl⟩

theorem sendsTo_recv (client : pm.type = pmTypeClient) :
    (pmRecvUdp pm (some datagram)).2.SendsTo datagram.address := by
  have other : pm.type ≠ pmTypeServer := by
    rw [client]
    decide
  have stored : (recvfrom pm datagram).SendsTo datagram.address := by
    unfold recvfrom
    dsimp only
    rw [if_neg other]
    exact ⟨client, rfl⟩
  unfold pmRecvUdp
  dsimp only
  split
  · exact stored
  · exact stored

theorem SendsTo.step (sends : pm.SendsTo address) (fromServer : ReceivesFrom address event)
    (stepped : (udpSystem inetAton ip port).step pm event after) : after.SendsTo address := by
  cases event with
  | send type msg msgSize time =>
      have same : after = pm := stepped
      rw [same]
      exact sends
  | recv received =>
      have same : after = (pmRecvUdp pm received).2 := stepped
      rw [same]
      cases received with
      | none => exact sends
      | some datagram =>
          have comes : datagram.address = address := fromServer
          rw [← comes]
          exact sendsTo_recv sends.client

theorem reachable_sendsTo (resolves : inetAton ip = some addr)
    (reachable : ((udpSystem inetAton ip port).restrict fun _ =>
      ReceivesFrom (sockAddr port addr)).Reachable pm) : pm.SendsTo (sockAddr port addr) := by
  apply reachable.invariant
  · intro pm starts
    rcases starts with ⟨start, socket, connected⟩
    exact sendsTo_connect resolves connected
  · intro pm event after sends stepped
    exact sends.step stepped.1 stepped.2

/-- A client that receives only what comes from its server sends to its server. -/
theorem sends_to_server (resolves : inetAton ip = some addr)
    (reachable : ((udpSystem inetAton ip port).restrict fun _ =>
      ReceivesFrom (sockAddr port addr)).Reachable pm) :
    pm.serverIsa = sockAddr port addr ∧ ∀ type msg msgSize time,
      (pmSendUdp pm type msg msgSize time).address = sockAddr port addr := by
  have sends := reachable_sendsTo resolves reachable
  exact ⟨sends.server, sends.address_eq⟩

/-- A datagram from elsewhere turns the client away from its server. -/
theorem sends_elsewhere (resolves : inetAton ip = some addr)
    (reachable : ((udpSystem inetAton ip port).restrict fun _ =>
      ReceivesFrom (sockAddr port addr)).Reachable pm)
    (elsewhere : ¬ReceivesFrom (sockAddr port addr) (.recv (some datagram))) :
    (pmRecvUdp pm (some datagram)).2.serverIsa ≠ sockAddr port addr := by
  have client := (reachable_sendsTo resolves reachable).client
  rw [(sendsTo_recv client).server]
  exact elsewhere

/-- An `inet_aton` for one address. -/
def localhost : InetAton :=
  fun ip => if ip = ascii "127.0.0.1" then some 0x0100007f else none

theorem sends_to_server_answered : ∃ pm : Pm, pm.type = pmTypeClient ∧
    pm.serverIsa = sockAddr 9090 0x0100007f ∧ ∀ type msg msgSize time,
      (pmSendUdp pm type msg msgSize time).address = sockAddr 9090 0x0100007f := by
  have connected : ((udpSystem localhost (ascii "127.0.0.1") 9090).restrict fun _ =>
      ReceivesFrom (sockAddr 9090 0x0100007f)).Reachable _ :=
    .init ⟨.asking 0 pmTypeClient, true, rfl⟩
  have answered : ((udpSystem localhost (ascii "127.0.0.1") 9090).restrict fun _ =>
      ReceivesFrom (sockAddr 9090 0x0100007f)).Reachable _ :=
    .step (.recv (some ⟨sockAddr 9090 0x0100007f, [7]⟩)) connected ⟨rfl, rfl⟩
  exact ⟨_, rfl, sends_to_server rfl answered⟩

/-- An empty datagram from another address is enough. -/
theorem client_sends_elsewhere : ∃ pm,
    (udpSystem localhost (ascii "127.0.0.1") 9090).Reachable pm ∧
      (pmSendUdp pm 1 [] 0 0).address ≠ sockAddr 9090 0x0100007f := by
  have connected : (udpSystem localhost (ascii "127.0.0.1") 9090).Reachable _ :=
    .init ⟨.asking 0 pmTypeClient, true, rfl⟩
  have received : (udpSystem localhost (ascii "127.0.0.1") 9090).Reachable _ :=
    .step (.recv (some ⟨⟨2, 1, 1⟩, []⟩)) connected rfl
  exact ⟨_, received, by decide⟩

end Pm

end Client

end Libhelp
