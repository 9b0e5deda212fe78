import Tracewulf.Base.BoundedMap
import Tracewulf.Bpf.Event

/-! The kernel programs. Each probe runs on one thread, reads kernel memory as it finds it, and
leaves at most one event in the ring buffer. The connect and recvmsg probes come in pairs: the
entry parks the socket under the thread's id, the exit takes it out again. -/
namespace Tracewulf.Bpf
open Tracewulf.Base

/-- A kernel pointer to `struct sock`. -/
abbrev Sock := UInt64

/-- The fields of `__sk_common` the programs read, in the kernel's own byte order. -/
structure SockCommon where
  skcRcvSaddr : UInt32
  skcDaddr : UInt32
  skcNum : UInt16
  skcDport : UInt16
  deriving DecidableEq

/-- What a probe finds when it runs: the thread, its command name, kernel memory behind the
socket pointers, and whether the ring buffer has room for one more record. -/
structure Ctx where
  pidTgid : UInt64
  comm : Fin 16 → UInt8
  sockCommon : Sock → SockCommon
  reserved : Bool

/-- Keyed by the full `pid_tgid`, with room for 10240 threads. -/
abbrev SockMap := BoundedMap 10240 UInt64 Sock

/-- The two functions that are watched from entry to exit, each with a map of its own. -/
inductive Watched
  | connect
  | recvmsg
  deriving DecidableEq, Repr

/-- The maps, and every record submitted to the ring buffer so far. -/
structure Kernel where
  sockMap : SockMap
  recvSockMap : SockMap
  events : List Event

namespace Kernel

def map (k : Kernel) : Watched → SockMap
  | .connect => k.sockMap
  | .recvmsg => k.recvSockMap

def setMap (k : Kernel) (m : SockMap) : Watched → Kernel
  | .connect => { k with sockMap := m }
  | .recvmsg => { k with recvSockMap := m }

@[simp] lemma map_setMap_self (k : Kernel) (m : SockMap) (fn : Watched) :
    (k.setMap m fn).map fn = m := by cases fn <;> rfl

lemma map_setMap_of_ne (k : Kernel) (m : SockMap) {fn gn : Watched} (h : gn ≠ fn) :
    (k.setMap m fn).map gn = k.map gn := by
  cases fn <;> cases gn <;> first | rfl | exact absurd rfl h

@[simp] lemma events_setMap (k : Kernel) (m : SockMap) (fn : Watched) :
    (k.setMap m fn).events = k.events := by cases fn <;> rfl

/-- Reserve, fill and submit one record; without room nothing is submitted. -/
def submit (k : Kernel) (ctx : Ctx) (e : Event) : Kernel :=
  if ctx.reserved then { k with events := k.events ++ [e] } else k

@[simp] lemma map_submit (k : Kernel) (ctx : Ctx) (e : Event) (fn : Watched) :
    (k.submit ctx e).map fn = k.map fn := by
  unfold submit
  split_ifs <;> cases fn <;> rfl

lemma events_submit (k : Kernel) (ctx : Ctx) (e : Event) :
    (k.submit ctx e).events = k.events ++ if ctx.reserved then [e] else [] := by
  unfold submit
  split_ifs <;> simp

end Kernel

/-- The record of a socket event: process id from the upper half of the thread's id, addresses
and ports as the socket holds them now. -/
def sockEvent (ctx : Ctx) (sk : Sock) (bytes : UInt64) (type : UInt8) : Event where
  pid := (ctx.pidTgid >>> 32).toUInt32
  comm := ctx.comm
  srcIp := (ctx.sockCommon sk).skcRcvSaddr
  dstIp := (ctx.sockCommon sk).skcDaddr
  srcPort := (ctx.sockCommon sk).skcNum
  dstPort := (ctx.sockCommon sk).skcDport
  bytes := bytes
  type := type

def handleExec (ctx : Ctx) (k : Kernel) : Kernel :=
  k.submit ctx
    { pid := (ctx.pidTgid >>> 32).toUInt32
      comm := ctx.comm
      srcIp := 0
      dstIp := 0
      srcPort := 0
      dstPort := 0
      bytes := 0
      type := EventType.exec }

/-- The shared body of the two entry probes: park the socket under the thread's id. -/
def handleEntry (fn : Watched) (ctx : Ctx) (sk : Sock) (k : Kernel) : Kernel :=
  k.setMap ((k.map fn).update ctx.pidTgid sk) fn

/-- The shared body of the two exit probes: take the socket out, and report it unless the call
failed. -/
def handleExit (fn : Watched) (failed : Int32 → Bool) (bytes : Int32 → UInt64) (type : UInt8)
    (ctx : Ctx) (ret : Int32) (k : Kernel) : Kernel :=
  match (k.map fn).lookup ctx.pidTgid with
  | none => k
  | some sk =>
    let k' := k.setMap ((k.map fn).delete ctx.pidTgid) fn
    if failed ret then k' else k'.submit ctx (sockEvent ctx sk (bytes ret) type)

def handleTcpConnectEntry : Ctx → Sock → Kernel → Kernel := handleEntry .connect

def handleTcpConnectExit : Ctx → Int32 → Kernel → Kernel :=
  handleExit .connect (fun ret => ret != 0) (fun _ => 0) EventType.connect

/-- Egress is seen at entry only, with the requested size. -/
def handleTcpSendmsg (ctx : Ctx) (sk : Sock) (size : UInt64) (k : Kernel) : Kernel :=
  k.submit ctx (sockEvent ctx sk size EventType.send)

def handleTcpRecvmsgEntry : Ctx → Sock → Kernel → Kernel := handleEntry .recvmsg

def handleTcpRecvmsgExit : Ctx → Int32 → Kernel → Kernel :=
  handleExit .recvmsg (fun ret => ret ≤ 0) (fun ret => ret.toInt64.toUInt64) EventType.recv

/-- The attached programs, with the arguments the kernel passes them. -/
inductive Probe
  | execve
  | tcpConnectEntry (sk : Sock)
  | tcpConnectExit (ret : Int32)
  | tcpSendmsg (sk : Sock) (size : UInt64)
  | tcpRecvmsgEntry (sk : Sock)
  | tcpRecvmsgExit (ret : Int32)
  deriving DecidableEq

/-- One probe hitting on one thread. -/
structure Hit where
  ctx : Ctx
  probe : Probe

def fire (k : Kernel) (h : Hit) : Kernel :=
  match h.probe with
  | .execve => handleExec h.ctx k
  | .tcpConnectEntry sk => handleTcpConnectEntry h.ctx sk k
  | .tcpConnectExit ret => handleTcpConnectExit h.ctx ret k
  | .tcpSendmsg sk size => handleTcpSendmsg h.ctx sk size k
  | .tcpRecvmsgEntry sk => handleTcpRecvmsgEntry h.ctx sk k
  | .tcpRecvmsgExit ret => handleTcpRecvmsgExit h.ctx ret k

/-- Probes of all threads, in the order they hit. -/
def trace (k : Kernel) (hits : List Hit) : Kernel := hits.foldl fire k

end Tracewulf.Bpf
