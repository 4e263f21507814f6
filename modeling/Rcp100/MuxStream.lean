import Rcp100.Mux

/-!
# Packets on a stream

The loop reads a header and then its data with one call each, and takes what it gets for the
whole. It keeps the boundaries of the packets exactly when nothing arrives in pieces; a packet
with a length out of range is refused only if its header does.
-/

namespace MuxStream

open CutStream Mux

section Reception

/-- A packet as a peer writes it: any header, and as many bytes of data as it says. -/
structure Packet where
  header : List Byte
  data : List Byte
  sized : header.length = sizeofRcpPkt
  counted : 0 ≤ (RcpPkt.decode header).dataLen.toInt →
    data.length = (RcpPkt.decode header).dataLen.toNat

def Packet.pkt (p : Packet) : RcpPkt := RcpPkt.decode p.header

def Packet.bytes (p : Packet) : List Byte := p.header ++ p.data

/-- A packet that was read, and what is left afterwards. -/
structure Reception where
  pkt : RcpPkt
  data : List Byte
  mux : List MuxSession
  rest : Stream Byte

/-- The data is asked for with its length as a `size_t`. -/
def recvData (pkt : RcpPkt) (s : Stream Byte) : List Byte × Stream Byte :=
  if pkt.dataLen ≠ 0 then recv (pkt.dataLen.signExtend 64).toNat s else ([], s)

/-- One pass of the loop for a session; without a whole header the session is closed. -/
def receive (mux : List MuxSession) (i : Nat) (s : Stream Byte) :
    Except Fault (Option Reception) :=
  let header := recv sizeofRcpPkt s
  if header.1.length < sizeofRcpPkt then .ok none
  else
    let pkt := RcpPkt.decode header.1
    let data := recvData pkt header.2
    if rcpPktDataLen < data.1.length then .error .overflow
    else (dispatch mux i pkt data.1).map fun r => some ⟨pkt, data.1, r.1, data.2⟩

theorem recvData_rest (pkt : RcpPkt) (s : Stream Byte) :
    (recvData pkt s).2.bytes.length ≤ s.bytes.length := by
  rw [recvData]
  split_ifs
  · have := recv_rest_length (pkt.dataLen.signExtend 64).toNat s
    omega
  · exact Nat.le_refl _

theorem receive_some {mux : List MuxSession} {i : Nat} {s : Stream Byte} {r : Reception}
    (received : receive mux i s = .ok (some r)) :
    r.rest.bytes.length < s.bytes.length := by
  rw [receive] at received
  simp only at received
  split_ifs at received with short large
  · cases received
  · have length := recv_rest_length sizeofRcpPkt s
    have header : 0 < (recv sizeofRcpPkt s).1.length :=
      Nat.lt_of_lt_of_le (by decide) (Nat.le_of_not_lt short)
    have rest := recvData_rest (RcpPkt.decode (recv sizeofRcpPkt s).1) (recv sizeofRcpPkt s).2
    cases dispatched : dispatch mux i (RcpPkt.decode (recv sizeofRcpPkt s).1)
        (recvData (RcpPkt.decode (recv sizeofRcpPkt s).1) (recv sizeofRcpPkt s).2).1 with
    | error e =>
      rw [dispatched] at received
      cases received
    | ok result =>
      rw [dispatched] at received
      cases received
      change (recvData _ _).2.bytes.length < _
      omega

/-- All passes of the loop for a session: the packets that were processed, and the table. -/
def serve (mux : List MuxSession) (i : Nat) (s : Stream Byte) :
    Except Fault (List (RcpPkt × List Byte) × List MuxSession) :=
  match _received : receive mux i s with
  | .error e => .error e
  | .ok none => .ok ([], closeSession mux i)
  | .ok (some r) =>
    (serve r.mux i r.rest).map fun served => ((r.pkt, r.data) :: served.1, served.2)
termination_by s.bytes.length
decreasing_by exact receive_some _received

end Reception

section Expected

/-- A length of data that the buffer has room for. -/
def InRange (p : Packet) : Prop :=
  0 ≤ p.pkt.dataLen.toInt ∧ p.pkt.dataLen.toInt ≤ rcpPktDataLen

instance : DecidablePred InRange := fun _ => inferInstanceAs (Decidable (_ ∧ _))

/-- The packets in order, up to the first one whose length is out of range. -/
def expected (ps : List Packet) : List (RcpPkt × List Byte) :=
  (ps.takeWhile fun p => InRange p).map fun p => (p.pkt, p.data)

/-- A string that ends within the data, or goes on in it for so many bytes. -/
def Inside (data : List Byte) (offset most : Nat) : Prop :=
  offset + most ≤ data.length ∨ ∃ j, offset ≤ j ∧ j < offset + most ∧ data[j]? = some 0

/-- The fields of a packet that are used as an index or as an offset. -/
structure FieldsInside (pkt : RcpPkt) (data : List Byte) : Prop where
  registration : pkt.type = typeRegistration → pkt.destination = rcpProcServices →
    pkt.sender = rcpProcCli →
    (pkt.offsetTty ≠ 0 → Inside data pkt.offsetTty.toNat cliMaxTtyName) ∧
    (pkt.offsetAdmin ≠ 0 → Inside data pkt.offsetAdmin.toNat cliMaxAdminName) ∧
    (pkt.offsetIp ≠ 0 → Inside data pkt.offsetIp.toNat cliMaxIpName)
  response : pkt.type = typeCli → pkt.destination = rcpProcCli → pkt.sender ≠ rcpProcCli →
    pkt.returnPath.toNat < maxSessions

/-- Every header and all data arrive in one piece, and the fields stay inside, up to a packet
with a length out of range, whose header does not arrive in one piece. -/
def Intact : (Nat → Nat) → List Packet → Prop
  | _, [] => True
  | cuts, p :: ps =>
    if InRange p then
      sizeofRcpPkt ≤ cuts 0 + 1 ∧ FieldsInside p.pkt p.data ∧
        if p.pkt.dataLen = 0 then Intact (fun i => cuts (i+1)) ps
        else p.pkt.dataLen.toNat ≤ cuts 1 + 1 ∧ Intact (fun i => cuts (i+2)) ps
    else cuts 0 + 1 < sizeofRcpPkt

end Expected

section Fields

variable {pkt : RcpPkt} {data : List Byte} {mux : List MuxSession} {i : Nat}

theorem map_ok {α β : Type} {f : α → β} {e : Except Fault α} :
    (∃ b, e.map f = .ok b) ↔ ∃ a, e = .ok a := by
  constructor
  · rintro ⟨b, mapped⟩
    cases e with
    | error fault => cases mapped
    | ok a => exact ⟨a, rfl⟩
  · rintro ⟨a, rfl⟩
    exact ⟨f a, rfl⟩

theorem strncpy_ok (data : List Byte) (o most : Nat) (inside : o ≤ data.length) :
    (∃ text, strncpy data o most = .ok text) ↔ Inside data o most := by
  induction most generalizing o with
  | zero =>
    exact ⟨fun _ => .inl inside, fun _ => ⟨[], rfl⟩⟩
  | succ most ih =>
    rw [strncpy]
    cases read : data[o]? with
    | none =>
      have behind := List.getElem?_eq_none_iff.mp read
      constructor
      · rintro ⟨text, impossible⟩
        cases impossible
      · rintro (long | ⟨j, low, -, zero⟩)
        · omega
        · have bound := (List.getElem?_eq_some_iff.mp zero).1
          omega
    | some b =>
      have bound := (List.getElem?_eq_some_iff.mp read).1
      by_cases zero : b = 0
      · subst zero
        exact ⟨fun _ => .inr ⟨o, Nat.le_refl o, by omega, read⟩, fun _ => ⟨[], if_pos rfl⟩⟩
      · simp only [zero, if_false]
        rw [map_ok, ih (o+1) bound, Inside, Inside]
        refine or_congr (by omega) ⟨?_, ?_⟩
        · rintro ⟨j, low, high, isZero⟩
          exact ⟨j, by omega, by omega, isZero⟩
        · rintro ⟨j, low, high, isZero⟩
          refine ⟨j, ?_, by omega, isZero⟩
          rcases Nat.lt_or_ge o j with above | same
          · exact above
          · have here : j = o := by omega
            subst here
            rw [read] at isZero
            exact absurd (Option.some.inj isZero) zero

theorem copyName_ok (data : List Byte) (offset : BitVec 16) (most : Nat) (positive : 0 < most)
    (old : List Byte) :
    (∃ text, copyName data offset most old = .ok text) ↔
      (offset ≠ 0 → Inside data offset.toNat most) := by
  rw [copyName]
  by_cases given : offset ≠ 0
  · rw [if_pos given]
    refine Iff.trans ?_ (forall_prop_of_true given).symm
    rcases Nat.lt_or_ge data.length offset.toNat with behind | within
    · obtain ⟨n, rfl⟩ := Nat.exists_eq_succ_of_ne_zero (Nat.ne_of_gt positive)
      rw [strncpy, List.getElem?_eq_none (Nat.le_of_lt behind)]
      constructor
      · rintro ⟨text, impossible⟩
        cases impossible
      · rintro (long | ⟨j, low, -, zero⟩)
        · omega
        · have bound := (List.getElem?_eq_some_iff.mp zero).1
          omega
    · exact strncpy_ok data offset.toNat most within
  · rw [if_neg given]
    exact ⟨fun _ nonzero => absurd nonzero given, fun _ => ⟨old, rfl⟩⟩

theorem bind_ok {α β : Type} {f : α → Except Fault β} {e : Except Fault α} :
    (∃ b, (e >>= f) = .ok b) ↔ ∃ a, e = .ok a ∧ ∃ b, f a = .ok b := by
  constructor
  · rintro ⟨b, bound⟩
    cases e with
    | error fault => cases bound
    | ok a => exact ⟨a, rfl, b, bound⟩
  · rintro ⟨a, rfl, b, eq⟩
    exact ⟨b, eq⟩

theorem register_ok (session : MuxSession) :
    (∃ session', register session pkt data = .ok session') ↔
      (pkt.sender = rcpProcCli →
        (pkt.offsetTty ≠ 0 → Inside data pkt.offsetTty.toNat cliMaxTtyName) ∧
        (pkt.offsetAdmin ≠ 0 → Inside data pkt.offsetAdmin.toNat cliMaxAdminName) ∧
        (pkt.offsetIp ≠ 0 → Inside data pkt.offsetIp.toNat cliMaxIpName)) := by
  rw [register]
  by_cases cli : pkt.sender = rcpProcCli
  · rw [if_pos cli]
    refine Iff.trans ?_ (forall_prop_of_true cli).symm
    rw [← copyName_ok data pkt.offsetTty cliMaxTtyName (by decide) session.ttyname,
      ← copyName_ok data pkt.offsetAdmin cliMaxAdminName (by decide) session.admin,
      ← copyName_ok data pkt.offsetIp cliMaxIpName (by decide) session.ip, bind_ok]
    constructor
    · rintro ⟨ttyname, first, rest⟩
      obtain ⟨admin, second, rest⟩ := bind_ok.mp rest
      obtain ⟨ip, third, -⟩ := bind_ok.mp rest
      exact ⟨⟨ttyname, first⟩, ⟨admin, second⟩, ⟨ip, third⟩⟩
    · rintro ⟨⟨ttyname, first⟩, ⟨admin, second⟩, ⟨ip, third⟩⟩
      refine ⟨ttyname, first, bind_ok.mpr ⟨admin, second, bind_ok.mpr ⟨ip, third, ?_⟩⟩⟩
      exact ⟨_, rfl⟩
  · rw [if_neg cli]
    exact ⟨fun _ same => absurd same cli, fun _ => ⟨_, rfl⟩⟩

theorem fieldsInside_of_type (notRegistration : pkt.type ≠ typeRegistration)
    (notCli : pkt.type ≠ typeCli) : FieldsInside pkt data :=
  ⟨fun type => absurd type notRegistration, fun type => absurd type notCli⟩

theorem dispatch_ok (mux : List MuxSession) (i : Nat) (pkt : RcpPkt) (data : List Byte) :
    (∃ r, dispatch mux i pkt data = .ok r) ↔ FieldsInside pkt data := by
  rw [dispatch]
  by_cases updateSys : pkt.type = typeUpdatesys
  · rw [if_pos updateSys]
    exact iff_of_true ⟨_, rfl⟩
      (fieldsInside_of_type (by rw [updateSys]; decide) (by rw [updateSys]; decide))
  rw [if_neg updateSys]
  by_cases updateDns : pkt.type = typeUpdatedns
  · rw [if_pos updateDns]
    exact iff_of_true ⟨_, rfl⟩
      (fieldsInside_of_type (by rw [updateDns]; decide) (by rw [updateDns]; decide))
  rw [if_neg updateDns]
  by_cases httpAuth : pkt.type = typeHttpAuth ∧ pkt.destination = rcpProcServices
  · rw [if_pos httpAuth]
    exact iff_of_true ⟨_, rfl⟩
      (fieldsInside_of_type (by rw [httpAuth.1]; decide) (by rw [httpAuth.1]; decide))
  rw [if_neg httpAuth]
  by_cases localCli : pkt.type = typeCli ∧ pkt.destination = rcpProcServices
  · rw [if_pos localCli]
    refine iff_of_true ⟨_, rfl⟩ ⟨fun type => ?_, fun _ destination => ?_⟩
    · rw [localCli.1] at type
      cases type
    · rw [localCli.2] at destination
      cases destination
  rw [if_neg localCli]
  by_cases registration : pkt.type = typeRegistration ∧ pkt.destination = rcpProcServices
  · rw [if_pos registration]
    have registered := @register_ok pkt data (mux.getD i cleanMux)
    constructor
    · rintro ⟨r, ran⟩
      refine ⟨fun _ _ => registered.mp ?_, fun type => ?_⟩
      · cases stored : register (mux.getD i cleanMux) pkt data with
        | error e =>
          rw [stored] at ran
          cases ran
        | ok session => exact ⟨session, rfl⟩
      · rw [registration.1] at type
        cases type
    · intro inside
      obtain ⟨session, stored⟩ :=
        registered.mpr (inside.registration registration.1 registration.2)
      rw [stored]
      exact ⟨_, rfl⟩
  rw [if_neg registration]
  by_cases command : pkt.type = typeCli ∧ pkt.sender = rcpProcCli
  · rw [if_pos command]
    refine iff_of_true ⟨_, rfl⟩ ⟨fun type destination => ?_, fun _ _ sender => ?_⟩
    · exact absurd ⟨type, destination⟩ registration
    · exact absurd command.2 sender
  rw [if_neg command]
  by_cases response : pkt.type = typeCli ∧ pkt.destination = rcpProcCli
  · rw [if_pos response]
    constructor
    · rintro ⟨r, ran⟩
      refine ⟨fun type destination => absurd ⟨type, destination⟩ registration, fun _ _ _ => ?_⟩
      by_contra outside
      rw [if_neg outside] at ran
      cases ran
    · intro inside
      rw [if_pos (inside.response response.1 response.2 fun sender =>
        command ⟨response.1, sender⟩)]
      exact ⟨_, rfl⟩
  rw [if_neg response]
  have inside : FieldsInside pkt data :=
    ⟨fun type destination => absurd ⟨type, destination⟩ registration,
      fun type destination => absurd ⟨type, destination⟩ response⟩
  by_cases log : pkt.type = typeLog ∧ pkt.destination = rcpProcServices
  · rw [if_pos log]
    exact iff_of_true ⟨_, rfl⟩ inside
  · rw [if_neg log]
    exact iff_of_true ⟨_, rfl⟩ inside

end Fields

section Boundaries

variable {mux : List MuxSession} {i : Nat} {s : Stream Byte} {cuts : Nat → Nat} {p : Packet}
  {rest : List Byte}

theorem serve_error {e : Fault} (received : receive mux i s = .error e) :
    serve mux i s = .error e := by
  rw [serve]
  split
  · next e' received' =>
    rw [received] at received'
    cases received'
    rfl
  · next received' =>
    rw [received] at received'
    cases received'
  · next r received' =>
    rw [received] at received'
    cases received'

theorem serve_closed (received : receive mux i s = .ok none) :
    serve mux i s = .ok ([], closeSession mux i) := by
  rw [serve]
  split
  · next e received' =>
    rw [received] at received'
    cases received'
  · rfl
  · next r received' =>
    rw [received] at received'
    cases received'

theorem serve_next {r : Reception} (received : receive mux i s = .ok (some r)) :
    serve mux i s =
      (serve r.mux i r.rest).map fun served => ((r.pkt, r.data) :: served.1, served.2) := by
  rw [serve]
  split
  · next e received' =>
    rw [received] at received'
    cases received'
  · next received' =>
    rw [received] at received'
    cases received'
  · next r' received' =>
    rw [received] at received'
    cases received'
    rfl

theorem receive_nil (mux : List MuxSession) (i : Nat) (cuts : Nat → Nat) :
    receive mux i ⟨[], cuts⟩ = .ok none := by
  rw [receive, recv_nil]
  exact if_pos (by decide)

theorem receive_part (mux : List MuxSession) (i : Nat) (p : Packet) (rest : List Byte)
    (part : cuts 0 + 1 < sizeofRcpPkt) :
    receive mux i ⟨p.bytes ++ rest, cuts⟩ = .ok none := by
  have short : (recv sizeofRcpPkt ⟨p.bytes ++ rest, cuts⟩).1.length < sizeofRcpPkt := by
    rw [Packet.bytes, List.append_assoc]
    exact recv_part part
  exact if_pos short

theorem receive_whole (mux : List MuxSession) (i : Nat) (p : Packet) (rest : List Byte)
    (whole : sizeofRcpPkt ≤ cuts 0 + 1) :
    receive mux i ⟨p.bytes ++ rest, cuts⟩ =
      if rcpPktDataLen < (recvData p.pkt ⟨p.data ++ rest, fun j => cuts (j+1)⟩).1.length then
        .error .overflow
      else (dispatch mux i p.pkt (recvData p.pkt ⟨p.data ++ rest, fun j => cuts (j+1)⟩).1).map
        fun r => some ⟨p.pkt, (recvData p.pkt ⟨p.data ++ rest, fun j => cuts (j+1)⟩).1, r.1,
          (recvData p.pkt ⟨p.data ++ rest, fun j => cuts (j+1)⟩).2⟩ := by
  rw [Packet.bytes, List.append_assoc, receive, recv_whole p.sized whole]
  exact if_neg (Nat.not_lt.mpr (Nat.le_of_eq p.sized.symm))

theorem serve_some {r : Reception} (received : receive mux i s = .ok (some r))
    {events : List (RcpPkt × List Byte)} :
    (∃ mux', serve mux i s = .ok (events, mux')) ↔
      ∃ tail mux', serve r.mux i r.rest = .ok (tail, mux') ∧
        events = (r.pkt, r.data) :: tail := by
  rw [serve_next received]
  cases serve r.mux i r.rest with
  | error e =>
    constructor
    · rintro ⟨mux', impossible⟩
      cases impossible
    · rintro ⟨tail, mux', impossible, -⟩
      cases impossible
  | ok served =>
    constructor
    · rintro ⟨mux', same⟩
      cases same
      exact ⟨served.1, served.2, rfl, rfl⟩
    · rintro ⟨tail, mux', same, rfl⟩
      cases same
      exact ⟨mux', rfl⟩

theorem toNat_le_of_inRange (inRange : InRange p) :
    p.data.length = p.pkt.dataLen.toNat ∧ p.pkt.dataLen.toNat ≤ rcpPktDataLen ∧
      (p.pkt.dataLen.signExtend 64).toNat = p.pkt.dataLen.toNat := by
  obtain ⟨low, high⟩ := inRange
  have bound := p.pkt.dataLen.isLt
  have positive : p.pkt.dataLen.msb = false := by
    rw [BitVec.msb_eq_false_iff_two_mul_lt]
    rw [BitVec.toInt_eq_toNat_cond] at low
    split_ifs at low with small
    · exact small
    · omega
  have value := BitVec.toInt_eq_toNat_of_msb positive
  refine ⟨p.counted low, by omega, ?_⟩
  rw [BitVec.toNat_signExtend, positive, BitVec.toNat_setWidth]
  simp only [Bool.false_eq_true, if_false, Nat.add_zero]
  exact Nat.mod_eq_of_lt (by omega)

theorem serve_dispatched {pkt : RcpPkt} {data : List Byte} {further : Stream Byte}
    (received : receive mux i s =
      (dispatch mux i pkt data).map fun r => some ⟨pkt, data, r.1, further⟩)
    {tail : List (RcpPkt × List Byte)} {Q : Prop}
    (later : ∀ mux, (∃ mux', serve mux i further = .ok (tail, mux')) ↔ Q) :
    (∃ mux', serve mux i s = .ok ((pkt, data) :: tail, mux')) ↔ FieldsInside pkt data ∧ Q := by
  rw [← dispatch_ok mux i]
  cases dispatched : dispatch mux i pkt data with
  | error e =>
    rw [dispatched] at received
    rw [serve_error received]
    constructor
    · rintro ⟨mux', impossible⟩
      cases impossible
    · rintro ⟨⟨r, impossible⟩, -⟩
      cases impossible
  | ok r =>
    rw [dispatched] at received
    rw [serve_some received, ← later r.1]
    constructor
    · rintro ⟨tail', mux', served, same⟩
      cases same
      exact ⟨⟨r, rfl⟩, mux', served⟩
    · rintro ⟨-, mux', served⟩
      exact ⟨tail, mux', served, rfl⟩

theorem serve_head (whole : sizeofRcpPkt ≤ cuts 0 + 1) {events : List (RcpPkt × List Byte)}
    (served : ∃ mux', serve mux i ⟨p.bytes ++ rest, cuts⟩ = .ok (events, mux')) :
    ∃ tail, events =
      (p.pkt, (recvData p.pkt ⟨p.data ++ rest, fun j => cuts (j+1)⟩).1) :: tail := by
  have received := receive_whole mux i p rest whole
  split_ifs at received with large
  · rw [serve_error received] at served
    obtain ⟨mux', impossible⟩ := served
    cases impossible
  · cases dispatched : dispatch mux i p.pkt
        (recvData p.pkt ⟨p.data ++ rest, fun j => cuts (j+1)⟩).1 with
    | error e =>
      rw [dispatched] at received
      rw [serve_error received] at served
      obtain ⟨mux', impossible⟩ := served
      cases impossible
    | ok r =>
      rw [dispatched] at received
      obtain ⟨tail, mux', -, same⟩ := (serve_some received).mp served
      exact ⟨tail, same⟩

theorem recvData_whole (inRange : InRange p) (whole : p.pkt.dataLen.toNat ≤ cuts 0 + 1)
    (nonzero : p.pkt.dataLen ≠ 0) :
    recvData p.pkt ⟨p.data ++ rest, cuts⟩ = (p.data, ⟨rest, fun j => cuts (j+1)⟩) := by
  obtain ⟨counted, -, size⟩ := toNat_le_of_inRange inRange
  rw [recvData, if_pos nonzero, size]
  exact recv_whole counted whole

theorem recvData_part (inRange : InRange p) (part : cuts 0 + 1 < p.pkt.dataLen.toNat)
    (nonzero : p.pkt.dataLen ≠ 0) :
    (recvData p.pkt ⟨p.data ++ rest, cuts⟩).1 ≠ p.data := by
  obtain ⟨counted, -, size⟩ := toNat_le_of_inRange inRange
  rw [recvData, if_pos nonzero, size]
  intro same
  have short := @recv_part Byte cuts _ p.data rest part
  rw [same, counted] at short
  exact Nat.lt_irrefl _ short

/-- The session processes the packets in order, up to the first one with a length out of range,
and stays inside of its buffers, exactly when everything arrives in one piece. -/
theorem kept_iff (mux : List MuxSession) (i : Nat) (cuts : Nat → Nat) (ps : List Packet) :
    (∃ mux', serve mux i ⟨ps.flatMap Packet.bytes, cuts⟩ = .ok (expected ps, mux')) ↔
      Intact cuts ps := by
  induction ps generalizing mux cuts with
  | nil =>
    rw [Intact, List.flatMap_nil, serve_closed (receive_nil mux i cuts)]
    exact iff_of_true ⟨_, rfl⟩ trivial
  | cons p ps ih =>
    rw [List.flatMap_cons, Intact]
    rcases Nat.lt_or_ge (cuts 0 + 1) sizeofRcpPkt with part | whole
    · rw [serve_closed (receive_part mux i p _ part)]
      by_cases inRange : InRange p
      · rw [if_pos inRange, expected, List.takeWhile_cons_of_pos (by simpa using inRange)]
        constructor
        · rintro ⟨mux', impossible⟩
          cases impossible
        · rintro ⟨whole, -⟩
          omega
      · rw [if_neg inRange, expected, List.takeWhile_cons_of_neg (by simpa using inRange)]
        exact iff_of_true ⟨_, rfl⟩ part
    · by_cases inRange : InRange p
      · obtain ⟨counted, small, -⟩ := toNat_le_of_inRange inRange
        have received := @receive_whole cuts mux i p (ps.flatMap Packet.bytes) whole
        rw [if_pos inRange, expected, List.takeWhile_cons_of_pos (by simpa using inRange),
          List.map_cons]
        refine Iff.trans ?_ (and_iff_right whole).symm
        by_cases zero : p.pkt.dataLen = 0
        · have noData : p.data = [] := by
            rw [← List.length_eq_zero_iff, counted, zero]
            rfl
          have nothing : recvData p.pkt ⟨p.data ++ ps.flatMap Packet.bytes, fun j => cuts (j+1)⟩ =
              (p.data, ⟨ps.flatMap Packet.bytes, fun j => cuts (j+1)⟩) := by
            rw [recvData, if_neg (not_not.mpr zero), noData, List.nil_append]
          rw [nothing, if_neg (Nat.not_lt.mpr (counted ▸ small))] at received
          rw [if_pos zero]
          exact serve_dispatched received fun mux => ih mux _
        · rw [if_neg zero]
          rcases Nat.lt_or_ge (cuts 1 + 1) p.pkt.dataLen.toNat with part | wholeData
          · constructor
            · intro served
              obtain ⟨tail, same⟩ := serve_head whole served
              injection same with first
              injection first with _ data
              exact absurd data.symm
                (@recvData_part (fun j => cuts (j+1)) p _ inRange part zero)
            · rintro ⟨-, wholeData, -⟩
              omega
          · rw [@recvData_whole (fun j => cuts (j+1)) p _ inRange wholeData zero,
              if_neg (Nat.not_lt.mpr (counted ▸ small))] at received
            refine Iff.trans (serve_dispatched received fun mux => ih mux _) ?_
            exact and_congr_right fun _ => (and_iff_right wholeData).symm
      · rw [if_neg inRange, expected, List.takeWhile_cons_of_neg (by simpa using inRange)]
        constructor
        · intro served
          obtain ⟨tail, impossible⟩ := serve_head whole served
          cases impossible
        · intro part
          omega

end Boundaries

section Pieces

/-- The header of an update packet with the bytes of its length. -/
def updateHeader (dataLen : List Byte) : List Byte :=
  [9, 0, 0, 0] ++ List.replicate 52 0 ++ dataLen ++ List.replicate 4 0

/-- An update packet without data. -/
def update : Packet where
  header := updateHeader [0, 0, 0, 0]
  data := []
  sized := by decide
  counted := by decide

/-- An update packet with the length -1 and many bytes behind it. -/
def oversized : Packet where
  header := updateHeader [0xff, 0xff, 0xff, 0xff]
  data := List.replicate 2000 0
  sized := by decide
  counted := fun nonneg => absurd nonneg (by decide)

/-- A header in two pieces, and a negative length. -/
theorem pieces_lost :
    ¬ (∃ mux', serve [] 0 ⟨[update].flatMap Packet.bytes, fun _ => 9⟩ =
        .ok (expected [update], mux')) ∧
    ¬ (∃ mux', serve [] 0 ⟨[oversized].flatMap Packet.bytes, fun _ => 4095⟩ =
        .ok (expected [oversized], mux')) := by
  constructor
  · rintro ⟨mux', served⟩
    rw [List.flatMap_cons, serve_closed (receive_part [] 0 update _ (by decide))] at served
    cases served
  · rintro ⟨mux', served⟩
    have received := @receive_whole (fun _ => 4095) [] 0 oversized [] (by decide)
    rw [if_pos] at received
    · rw [List.flatMap_cons, List.flatMap_nil, serve_error received] at served
      cases served
    · have isLong : (oversized.pkt.dataLen.signExtend 64).toNat = 2 ^ 64 - 1 := by decide
      rw [recvData, if_pos (by decide), isLong, recv, List.length_take, List.length_append]
      have length : oversized.data.length = 2000 := List.length_replicate
      rw [length, rcpPktDataLen]
      simp

end Pieces

end MuxStream
