import Rcp100.PacketBounds
import Rcp100.PointerList
import Rcp100.UpdatePackets

/-!
# Answers to Link State Requests

`lsrequestRx` links the requested advertisements into a list through the field
`util_next` of the database copies, and sends what fits one packet. The results say
exactly for which requests the answer has each advertisement once.
-/

namespace RequestAnswers

open LsaFormat LsUpdate Flooding PacketBounds PointerList

/-- A Link State Request packet: `header.length`, and the requests in the buffer. -/
structure RequestPacket where
  length : BitVec 16
  req : Nat → LsRequest

def RequestPacket.requests (pkt : RequestPacket) : List LsRequest :=
  (List.range (countOf pkt.length 12).toNat).map pkt.req

/-- The fields `util_next` of the database and a list through them. Found advertisements
that are equal are one: both are the first with their key. -/
abbrev UtilList := (OspfLsa → Option OspfLsa) × Option OspfLsa

/-- The loop over the requests; `none` is the event BadLSReq. -/
def accumulate (find : LsRequest → Option OspfLsa) (outlist : UtilList) :
    List LsRequest → Option UtilList
  | [] => some outlist
  | lsrq :: rest =>
    match find lsrq with
    | none => none
    | some lsa => accumulate find (push outlist lsa) rest

/-- `lsupdateBuildMultiplePkt` over the fields `util_next`: the advertisements of the
packet, and the next unprocessed one. -/
def lsupdateBuildMultiplePkt (utilNext : OspfLsa → Option OspfLsa) :
    Nat → Nat → Option OspfLsa → Option (List OspfLsa × Option OspfLsa)
  | _, _, none => some ([], none)
  | 0, _, some _ => none
  | fuel+1, size, some lsa =>
    if size + szlsa lsa > maxPayload then some ([], some lsa)
    else (lsupdateBuildMultiplePkt utilNext fuel (size + szlsa lsa) (utilNext lsa)).map
      (fun built => (lsa :: built.1, built.2))

/-- What a request leads to. -/
structure Answer where
  rv : Nat
  badLsReq : Bool
  pkts : List TxPacket

/-- The continuation that the builder returns is not used. -/
def lsrequestRx (fuel : Nat) (utilNext : OspfLsa → Option OspfLsa) (r : Router)
    (pkt : RequestPacket) (desc : PacketDesc) : Option Answer :=
  if requestLength pkt.length then
    match sender r desc with
    | none => some ⟨1, false, []⟩
    | some (_, _, nb) =>
      if nb.state.code < NState.exchange.code then some ⟨0, false, []⟩
      else
        match accumulate (lsadbFindRequest r desc.areaId) (utilNext, none) pkt.requests with
        | none => some ⟨0, true, []⟩
        | some outlist =>
          if outlist.2.isNone then some ⟨0, false, []⟩
          else (lsupdateBuildMultiplePkt outlist.1 fuel 0 outlist.2).map
            (fun built => ⟨0, false, [⟨.unicast nb.ip, built.1⟩]⟩)
  else some ⟨1, false, []⟩

/-- The size of the advertisements in a packet. -/
def payloadOf (lsas : List OspfLsa) : Nat := (lsas.map szlsa).sum

/-- From the last request back to the first repetition every requested advertisement is
named, these fit one packet, and the repeated one does not fit a second time. -/
def OnePacket (lsas : List OspfLsa) : Prop :=
  ∃ front back, lsas.reverse = front ++ back ∧ front.Nodup ∧ (∀ lsa ∈ back, lsa ∈ front) ∧
    payloadOf front ≤ maxPayload ∧ ∀ lsa ∈ back.head?, maxPayload < payloadOf front + szlsa lsa

/-- The request ends with packets to the neighbor that have each of these advertisements
exactly once. -/
def Answers (utilNext : OspfLsa → Option OspfLsa) (r : Router) (pkt : RequestPacket)
    (desc : PacketDesc) (nb : Neighbor) (lsas : List OspfLsa) : Prop :=
  ∃ fuel answer, lsrequestRx fuel utilNext r pkt desc = some answer ∧
    (∀ out ∈ answer.pkts, out.dest = .unicast nb.ip) ∧
    ∀ lsa ∈ lsas, (answer.pkts.flatMap (·.lsas)).count lsa = 1

section Building

variable {utilNext : OspfLsa → Option OspfLsa} {start stop : Option OspfLsa}

/-- The packet is a stretch of the list, which ends where the list does or where the next
advertisement does not fit. -/
theorem lsupdateBuildMultiplePkt_spec {fuel size : Nat} {built : List OspfLsa × Option OspfLsa}
    (room : size ≤ maxPayload)
    (ended : lsupdateBuildMultiplePkt utilNext fuel size start = some built) :
    Path utilNext start built.1 built.2 ∧ size + payloadOf built.1 ≤ maxPayload ∧
      ∀ lsa ∈ built.2, maxPayload < size + payloadOf built.1 + szlsa lsa := by
  induction fuel generalizing size start built with
  | zero =>
    cases start with
    | none =>
      cases ended
      exact ⟨rfl, room, fun lsa member => by cases member⟩
    | some lsa => cases ended
  | succ fuel ih =>
    cases start with
    | none =>
      cases ended
      exact ⟨rfl, room, fun lsa member => by cases member⟩
    | some lsa =>
      rw [lsupdateBuildMultiplePkt] at ended
      by_cases full : size + szlsa lsa > maxPayload
      · rw [if_pos full] at ended
        cases ended
        refine ⟨rfl, room, fun next member => ?_⟩
        cases Option.some.inj member
        exact full
      · rw [if_neg full, Option.map_eq_some_iff] at ended
        obtain ⟨rest, ended, rfl⟩ := ended
        obtain ⟨path, fits, ends⟩ := ih (not_lt.mp full) ended
        have sum : payloadOf (lsa :: rest.1) = szlsa lsa + payloadOf rest.1 := by
          rw [payloadOf, List.map_cons, List.sum_cons]
          rfl
        refine ⟨⟨rfl, path⟩, ?_, fun next member => ?_⟩
        · dsimp only
          omega
        · have later := ends next member
          dsimp only
          omega

theorem lsupdateBuildMultiplePkt_path {lsas : List OspfLsa} {size : Nat}
    (path : Path utilNext start lsas stop) (fits : size + payloadOf lsas ≤ maxPayload)
    (ends : ∀ lsa ∈ stop, maxPayload < size + payloadOf lsas + szlsa lsa) :
    lsupdateBuildMultiplePkt utilNext (lsas.length + 1) size start = some (lsas, stop) := by
  induction lsas generalizing size start with
  | nil =>
    cases path
    cases stop with
    | none => rfl
    | some lsa => exact if_pos (ends lsa rfl)
  | cons lsa rest ih =>
    obtain ⟨rfl, path⟩ := path
    have sum : payloadOf (lsa :: rest) = szlsa lsa + payloadOf rest := by
      rw [payloadOf, List.map_cons, List.sum_cons]
      rfl
    have fits' : size + szlsa lsa + payloadOf rest ≤ maxPayload := by omega
    have later := ih path fits' fun next member => by
      have := ends next member
      omega
    rw [List.length_cons, lsupdateBuildMultiplePkt, if_neg (by omega), later]
    rfl

end Building

section Answering

variable {utilNext : OspfLsa → Option OspfLsa} {lsas : List OspfLsa}

theorem accumulate_known {find : LsRequest → Option OspfLsa} {requests : List LsRequest}
    (known : requests.map find = lsas.map some) (outlist : UtilList) :
    accumulate find outlist requests = some (lsas.foldl push outlist) := by
  induction requests generalizing lsas outlist with
  | nil =>
    cases lsas with
    | nil => rfl
    | cons lsa rest => cases known
  | cons lsrq requests ih =>
    cases lsas with
    | nil => cases known
    | cons lsa rest =>
      obtain ⟨found, later⟩ := List.cons.inj known
      rw [accumulate, found, List.foldl_cons]
      exact ih later (push outlist lsa)

theorem pushed_accumulated (utilNext : OspfLsa → Option OspfLsa) (lsas : List OspfLsa) :
    Pushed (lsas.foldl push (utilNext, none)) lsas.reverse := by
  have pushed := (Pushed.nil utilNext).foldl lsas
  rwa [List.append_nil] at pushed

theorem builds_once_iff (utilNext : OspfLsa → Option OspfLsa) (lsas : List OspfLsa) :
    (∃ fuel built, lsupdateBuildMultiplePkt (lsas.foldl push (utilNext, none)).1 fuel 0
        (lsas.foldl push (utilNext, none)).2 = some built ∧
        ∀ lsa ∈ lsas, built.1.count lsa = 1) ↔ OnePacket lsas := by
  have pushed := pushed_accumulated utilNext lsas
  generalize lsas.foldl push (utilNext, none) = outlist at pushed ⊢
  constructor
  · rintro ⟨fuel, built, ended, once⟩
    obtain ⟨walk, fits, ends⟩ := lsupdateBuildMultiplePkt_spec (Nat.zero_le _) ended
    rw [Nat.zero_add] at fits
    have inside : ∀ lsa ∈ built.1, lsa ∈ lsas.reverse :=
      walk.within pushed.closed fun lsa start => by
        rw [pushed.head] at start
        exact List.mem_of_mem_head? start
    have nodup : built.1.Nodup := List.nodup_iff_count_le_one.mpr fun lsa => by
      by_cases listed : lsa ∈ built.1
      · exact (once lsa (List.mem_reverse.mp (inside lsa listed))).le
      · rw [List.count_eq_zero_of_not_mem listed]
        exact Nat.zero_le 1
    have all : ∀ lsa ∈ lsas.reverse, lsa ∈ built.1 := fun lsa listed =>
      List.count_pos_iff.mp (by rw [once lsa (List.mem_reverse.mp listed)]; exact Nat.one_pos)
    obtain ⟨front, back, split, single, repeated⟩ := exists_front lsas.reverse
    have path := pushed.path front back split single
    have frontIn : ∀ lsa ∈ front, lsa ∈ built.1 := fun lsa member =>
      all lsa (split ▸ List.mem_append_left back member)
    have same : built.1 = front ∧ built.2 = back.head? := by
      rcases path.compare walk with ⟨more, longer, rest⟩ | ⟨more, shorter, rest⟩
      · cases more with
        | nil => exact ⟨by rw [longer, List.append_nil], rest.symm⟩
        | cons lsa more =>
          -- the walk goes on to the repeated advertisement
          rw [longer, List.nodup_append] at nodup
          exact absurd rfl (nodup.2.2 lsa (repeated lsa rest.1) lsa List.mem_cons_self)
      · cases more with
        | nil => exact ⟨by rw [shorter, List.append_nil], rest⟩
        | cons lsa more =>
          have member : lsa ∈ front := shorter ▸ List.mem_append_right _ List.mem_cons_self
          rw [shorter, List.nodup_append] at single
          exact absurd rfl (single.2.2 lsa (frontIn lsa member) lsa List.mem_cons_self)
    rw [same.1] at fits ends all
    rw [same.2] at ends
    refine ⟨front, back, split, single, fun lsa member => ?_, fits, fun lsa member => ?_⟩
    · exact all lsa (split ▸ List.mem_append_right front member)
    · have := ends lsa member
      rwa [Nat.zero_add] at this
  · rintro ⟨front, back, split, single, covers, fits, ends⟩
    have path := pushed.path front back split single
    have built := lsupdateBuildMultiplePkt_path path (by rwa [Nat.zero_add]) fun lsa member => by
      rw [Nat.zero_add]
      exact ends lsa member
    refine ⟨_, _, built, fun lsa listed => ?_⟩
    have member : lsa ∈ front ++ back := split ▸ List.mem_reverse.mpr listed
    refine List.count_eq_one_of_mem single ?_
    rcases List.mem_append.mp member with here | later
    · exact here
    · exact covers lsa later

variable {r : Router} {pkt : RequestPacket} {desc : PacketDesc} {area : Area} {net : Network}
  {nb : Neighbor}

theorem lsrequestRx_known (aligned : requestLength pkt.length = true)
    (found : sender r desc = some (area, net, nb))
    (exchanges : NState.exchange.code ≤ nb.state.code)
    (known : pkt.requests.map (lsadbFindRequest r desc.areaId) = lsas.map some)
    (requested : lsas ≠ []) (fuel : Nat) :
    lsrequestRx fuel utilNext r pkt desc =
      (lsupdateBuildMultiplePkt (lsas.foldl push (utilNext, none)).1 fuel 0
        (lsas.foldl push (utilNext, none)).2).map
        (fun built => ⟨0, false, [⟨.unicast nb.ip, built.1⟩]⟩) := by
  have head := (pushed_accumulated utilNext lsas).head
  have linked : ¬ (lsas.foldl push (utilNext, none)).2.isNone = true := by
    rw [head, Option.isNone_iff_eq_none, List.head?_eq_none_iff, List.reverse_eq_nil_iff]
    exact requested
  unfold lsrequestRx
  rw [if_pos aligned, found]
  dsimp only
  rw [if_neg (not_lt_of_ge exchanges), accumulate_known known]
  exact if_neg linked

theorem onePacket_of_answers (aligned : requestLength pkt.length = true)
    (found : sender r desc = some (area, net, nb))
    (exchanges : NState.exchange.code ≤ nb.state.code)
    (known : pkt.requests.map (lsadbFindRequest r desc.areaId) = lsas.map some)
    (requested : lsas ≠ []) (answers : Answers utilNext r pkt desc nb lsas) :
    OnePacket lsas := by
  obtain ⟨fuel, answer, run, -, once⟩ := answers
  rw [lsrequestRx_known aligned found exchanges known requested, Option.map_eq_some_iff] at run
  obtain ⟨built, ended, rfl⟩ := run
  refine (builds_once_iff utilNext lsas).mp ⟨fuel, built, ended, fun lsa listed => ?_⟩
  have count := once lsa listed
  rwa [List.flatMap_singleton] at count

/-- For requests that the database can all answer: the neighbor gets each requested
advertisement exactly once, if and only if one packet can hold the answer. -/
theorem answers_iff (utilNext : OspfLsa → Option OspfLsa)
    (aligned : requestLength pkt.length = true) (found : sender r desc = some (area, net, nb))
    (exchanges : NState.exchange.code ≤ nb.state.code)
    (known : pkt.requests.map (lsadbFindRequest r desc.areaId) = lsas.map some) :
    Answers utilNext r pkt desc nb lsas ↔ OnePacket lsas := by
  by_cases requested : lsas = []
  · subst requested
    refine iff_of_true ?_ ⟨[], [], rfl, List.nodup_nil, ?_, Nat.zero_le _, ?_⟩
    · have run : lsrequestRx 0 utilNext r pkt desc = some ⟨0, false, []⟩ := by
        unfold lsrequestRx
        rw [if_pos aligned, found]
        dsimp only
        rw [if_neg (not_lt_of_ge exchanges), accumulate_known known]
        rfl
      refine ⟨0, _, run, fun out member => ?_, fun lsa member => ?_⟩
      · exact (List.not_mem_nil member).elim
      · exact (List.not_mem_nil member).elim
    · exact fun lsa member => by cases member
    · exact fun lsa member => by cases member
  constructor
  · exact onePacket_of_answers aligned found exchanges known requested
  · intro one
    obtain ⟨fuel, built, ended, once⟩ := (builds_once_iff utilNext lsas).mpr one
    refine ⟨fuel, ⟨0, false, [⟨.unicast nb.ip, built.1⟩]⟩, ?_, ?_, fun lsa listed => ?_⟩
    · rw [lsrequestRx_known aligned found exchanges known requested, ended]
      rfl
    · intro out member
      cases List.mem_singleton.mp member
      rfl
    · rw [List.flatMap_singleton]
      exact once lsa listed

end Answering

section Demonstration

/-- A second summary advertisement, for 10.2.0.0. -/
def other : OspfLsa :=
  ⟨[0, 1, 0, 3, 10, 2, 0, 0, 1, 1, 1, 1, 0x80, 0, 0, 1, 0x0f, 0x3c, 0, 28,
    255, 255, 0, 0, 0, 0, 0, 5], true, 1, 0, 0, 0⟩

def requestOf (lsa : OspfLsa) : LsRequest :=
  ⟨lsa.header.type.setWidth 32, lsa.header.linkStateId, lsa.header.advRouter⟩

/-- A packet that requests these advertisements. -/
def requesting (lsas : List OspfLsa) : RequestPacket :=
  ⟨BitVec.ofNat 16 (24 + 12 * lsas.length), fun i => (lsas.map requestOf).getD i ⟨0, 0, 0⟩⟩

/-- The full neighbor of the network `designated`. -/
def fullNeighbor : Neighbor := { ip := 0x0a000002, state := .full, lsreq := [], rxmtList := [] }

theorem answers_both : Answers (fun _ => none) (receiver [summary, other])
    (requesting [summary, other]) fromNeighbor fullNeighbor [summary, other] :=
  (answers_iff (fun _ => none) (by decide) rfl (by decide) (by decide)).mpr
    ⟨[other, summary], [], rfl, by decide, fun lsa member => (List.not_mem_nil member).elim,
      by decide, fun lsa member => by cases member⟩

/-- A request that names an advertisement twice links it to itself, and it fills the
packet. -/
theorem repeated_request : ¬ Answers (fun _ => none) (receiver [summary, other])
    (requesting [summary, other, other]) fromNeighbor fullNeighbor [summary, other, other] := by
  intro answers
  have known : (requesting [summary, other, other]).requests.map
      (lsadbFindRequest (receiver [summary, other]) 0) =
      [summary, other, other].map some := by decide
  obtain ⟨front, back, split, single, covers, -⟩ :=
    onePacket_of_answers (by decide) rfl (by decide) known (List.cons_ne_nil _ _) answers
  have apart : summary ≠ other := by decide
  have whole : [other, other, summary] = front ++ back := split
  cases front with
  | nil =>
    cases whole
    exact List.not_mem_nil (covers other List.mem_cons_self)
  | cons first front =>
    obtain ⟨rfl, tail⟩ := List.cons.inj whole
    cases front with
    | nil =>
      cases tail
      exact apart (List.mem_singleton.mp (covers summary (by decide)))
    | cons second front =>
      obtain ⟨rfl, -⟩ := List.cons.inj tail
      exact (List.nodup_cons.mp single).1 List.mem_cons_self

end Demonstration

end RequestAnswers
