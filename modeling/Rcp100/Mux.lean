import Rcp100.CutStream

/-!
# The services multiplexer

The sessions of the multiplexer, the packets with the fields that its loop reads, and what it
does with a packet. The socket of a session stands for its connection; a session without one
has the socket 0. The bytes of a header are laid out as on a 64-bit machine with the low byte
of a word first.
-/

namespace Mux

section Packets

abbrev Byte := BitVec 8

abbrev Proc := BitVec 32

def rcpProcCli : Proc := 1
def rcpProcServices : Proc := 2
def rcpProcRouter : Proc := 4
def rcpProcDhcp : Proc := 8
def rcpProcRip : Proc := 16
def rcpProcOspf : Proc := 2048
def rcpProcMax : Nat := 10
def cliMaxSession : Nat := 32
def maxSessions : Nat := rcpProcMax + cliMaxSession

def cliMaxTtyName : Nat := 20
def cliMaxAdminName : Nat := 31
def cliMaxIpName : Nat := 16

def typeCli : BitVec 32 := 1
def typeRegistration : BitVec 32 := 2
def typeLog : BitVec 32 := 3
def typeUpdatesys : BitVec 32 := 8
def typeUpdatedns : BitVec 32 := 9
def typeHttpAuth : BitVec 32 := 13

structure RcpPkt where
  type : BitVec 32
  destination : Proc
  sender : Proc
  returnPath : BitVec 32
  offsetTty : BitVec 16
  offsetAdmin : BitVec 16
  offsetIp : BitVec 16
  dataLen : BitVec 32
deriving DecidableEq

def sizeofRcpPkt : Nat := 64

/-- The bytes behind the header that the buffer has room for. -/
def rcpPktDataLen : Nat := 1024 + 1

def get16 (bytes : List Byte) (o : Nat) : BitVec 16 := bytes.getD (o+1) 0 ++ bytes.getD o 0

def get32 (bytes : List Byte) (o : Nat) : BitVec 32 := get16 bytes (o+2) ++ get16 bytes o

/-- The fields of a header. The return path and the offsets are in a union. -/
def RcpPkt.decode (bytes : List Byte) : RcpPkt where
  type := get32 bytes 0
  destination := get32 bytes 4
  sender := get32 bytes 8
  returnPath := get32 bytes 40
  offsetTty := get16 bytes 16
  offsetAdmin := get16 bytes 18
  offsetIp := get16 bytes 20
  dataLen := get32 bytes 56

end Packets

section Sessions

structure MuxSession where
  socket : Option Nat
  connectedProcess : Proc
  ttyname : List Byte
  admin : List Byte
  ip : List Byte
deriving DecidableEq

def cleanMux : MuxSession := ⟨none, 0, [], [], []⟩

/-- The first session without a socket. -/
def freeSession (mux : List MuxSession) : Option Nat := mux.findIdx? (·.socket.isNone)

/-- A new connection, which is dropped if no session is free. -/
def accept (mux : List MuxSession) (n : Nat) : List MuxSession :=
  match freeSession mux with
  | none => mux
  | some i => mux.set i { cleanMux with socket := some n }

def closeSession (mux : List MuxSession) (i : Nat) : List MuxSession := mux.set i cleanMux

def getMuxProcess (mux : List MuxSession) (process : Proc) : Option Nat :=
  mux.findIdx? (·.connectedProcess = process)

end Sessions

section Dispatch

inductive Fault where
  /-- bytes were written behind the packet buffer -/
  | overflow
  /-- the index is outside of the table of the sessions -/
  | badIndex
  /-- a string was read outside of the data that was received -/
  | badRead
deriving DecidableEq

/-- The string at an offset of the data, of at most so many bytes. -/
def strncpy (data : List Byte) : Nat → Nat → Except Fault (List Byte)
  | _, 0 => .ok []
  | o, most+1 =>
    match data[o]? with
    | none => .error .badRead
    | some b => if b = 0 then .ok [] else (strncpy data (o+1) most).map (b :: ·)

/-- A string of a registration, which is kept if the offset is zero. -/
def copyName (data : List Byte) (offset : BitVec 16) (most : Nat) (old : List Byte) :
    Except Fault (List Byte) :=
  if offset ≠ 0 then strncpy data offset.toNat most else .ok old

def register (session : MuxSession) (pkt : RcpPkt) (data : List Byte) :
    Except Fault MuxSession := do
  if pkt.sender = rcpProcCli then
    let ttyname ← copyName data pkt.offsetTty cliMaxTtyName session.ttyname
    let admin ← copyName data pkt.offsetAdmin cliMaxAdminName session.admin
    let ip ← copyName data pkt.offsetIp cliMaxIpName session.ip
    return { session with
      ttyname := ttyname, admin := admin, ip := ip, connectedProcess := pkt.sender }
  else return { session with connectedProcess := pkt.sender }

/-- What the loop does with a packet, and the sessions that it sends the packet to. -/
inductive Action where
  | updateSys
  | updateDns
  | httpAuth
  /-- the multiplexer's own answer, to the same session -/
  | localCli
  | registered
  | command (pkt : RcpPkt) (target : Option Nat)
  | response (target : Nat)
  | log
  | distribute (targets : List Nat)
deriving DecidableEq

/-- The sessions of the processes that are named in the destination. -/
def processesIn (mux : List MuxSession) (destination : Proc) : List Nat :=
  (List.range rcpProcMax).filterMap fun p =>
    if rcpProcRouter <<< p &&& destination ≠ 0 then getMuxProcess mux (rcpProcRouter <<< p)
    else none

/-- A packet that came in with its data on the connection of a session. -/
def dispatch (mux : List MuxSession) (i : Nat) (pkt : RcpPkt) (data : List Byte) :
    Except Fault (List MuxSession × Action) :=
  if pkt.type = typeUpdatesys then .ok (mux, .updateSys)
  else if pkt.type = typeUpdatedns then .ok (mux, .updateDns)
  else if pkt.type = typeHttpAuth ∧ pkt.destination = rcpProcServices then .ok (mux, .httpAuth)
  else if pkt.type = typeCli ∧ pkt.destination = rcpProcServices then .ok (mux, .localCli)
  else if pkt.type = typeRegistration ∧ pkt.destination = rcpProcServices then
    match register (mux.getD i cleanMux) pkt data with
    | .error e => .error e
    | .ok session => .ok (mux.set i session, .registered)
  else if pkt.type = typeCli ∧ pkt.sender = rcpProcCli then
    .ok (mux, .command { pkt with returnPath := BitVec.ofNat 32 i }
      (getMuxProcess mux pkt.destination))
  else if pkt.type = typeCli ∧ pkt.destination = rcpProcCli then
    if pkt.returnPath.toNat < maxSessions then .ok (mux, .response pkt.returnPath.toNat)
    else .error .badIndex
  else if pkt.type = typeLog ∧ pkt.destination = rcpProcServices then .ok (mux, .log)
  else .ok (mux, .distribute (processesIn mux pkt.destination))

end Dispatch

end Mux
