import Rcp100.IpAddress
import Rcp100.KeyedMirror
import Rcp100.SpecialTokens

/-!
# Static routes

The table of the static and blackhole routes, the commands that change it, and the requests
that they send to the kernel. The kernel's routes have a prefix with a distance as their place.
A route with the gateway 0.0.0.0 is requested as a blackhole, and without its distance.
-/

namespace StaticRoutes

open SpecialTokens IpAddress KeyedMirror

section Kernel

abbrev Prefix := BitVec 32 × Nat

inductive KernelType where
  | unicast
  | blackhole
deriving DecidableEq

structure KernelRoute where
  type : KernelType
  gw : BitVec 32
  protocol : Nat
deriving DecidableEq

abbrev Kernel := Table Prefix (BitVec 8) KernelRoute

abbrev Removal := Choice Prefix (BitVec 8) KernelRoute

/-- The routes of a prefix are searched in the order of their distances. -/
def byDistance : Removal :=
  firstOf ((List.finRange 256).map BitVec.ofFin) fun d =>
    List.mem_map.mpr ⟨d.toFin, List.mem_finRange _, rfl⟩

def rtprotBoot : Nat := 3
def rtprotStatic : Nat := 4

/-- `rcpAddRoute` for a static route. -/
def rcpAddRoute (kernel : Kernel) (ip mask gw metric : BitVec 32) : Kernel :=
  if gw = 0 then add kernel ((ip, mask2bits mask), 0) ⟨.blackhole, 0, rtprotStatic⟩
  else add kernel ((ip, mask2bits mask), metric.setWidth 8) ⟨.unicast, gw, rtprotStatic⟩

/-- `add_del_route` names no gateway where it is 0.0.0.0; every route of the prefix fits then. -/
def fits (gw : BitVec 32) (r : KernelRoute) : Bool := gw = 0 || r.gw = gw

def rcpDelRoute (removal : Removal) (kernel : Kernel) (ip mask gw : BitVec 32) : Kernel :=
  removal.remove kernel (ip, mask2bits mask) (fits gw)

def addBlackhole (kernel : Kernel) (ip mask : BitVec 32) : Kernel :=
  add kernel ((ip, mask2bits mask), 0) ⟨.blackhole, 0, rtprotBoot⟩

def delBlackhole (removal : Removal) (kernel : Kernel) (ip mask : BitVec 32) : Kernel :=
  removal.remove kernel (ip, mask2bits mask) fun r => r.type = .blackhole

end Kernel

section Routes

inductive RouteType where
  | static
  | blackhole
deriving DecidableEq

/-- `RcpStaticRoute` of a valid slot. -/
structure StaticRoute where
  type : RouteType
  ip : BitVec 32
  mask : BitVec 32
  gw : BitVec 32
  metric : BitVec 32
deriving DecidableEq

/-- The slots of the table; those that are not valid are `none`. -/
abbrev Sroute := List (Option StaticRoute)

def rcpRouteLimit : Nat := 4000

structure State where
  sroute : Sroute
  kernel : Kernel

/-- The first valid slot whose route is wanted, with its index. -/
def findSlot (wanted : StaticRoute → Bool) : Sroute → Option (Nat × StaticRoute)
  | [] => none
  | none :: rest => (findSlot wanted rest).map fun found => (found.1+1, found.2)
  | some rt :: rest =>
    if wanted rt then some (0, rt)
    else (findSlot wanted rest).map fun found => (found.1+1, found.2)

def shmFindRouteStatic (t : Sroute) (ip mask gw : BitVec 32) : Option (Nat × StaticRoute) :=
  if gw ≠ 0 then
    findSlot (fun rt => rt.type = .static && (rt.ip = ip && rt.mask = mask && rt.gw = gw)) t
  else findSlot (fun rt => rt.type = .static && (rt.ip = ip && rt.mask = mask)) t

def shmFindRouteBlackhole (t : Sroute) (ip mask : BitVec 32) : Option (Nat × StaticRoute) :=
  findSlot (fun rt => rt.type = .blackhole && (rt.ip = ip && rt.mask = mask)) t

def shmFindRouteEmpty (t : Sroute) : Option Nat := t.findIdx? Option.isNone

end Routes

section Places

def slotAt (t : Sroute) (i : Nat) : Option StaticRoute := t[i]?.join

def StaticRoute.net (rt : StaticRoute) : Prefix := (rt.ip, mask2bits rt.mask)

def StaticRoute.distance (rt : StaticRoute) : BitVec 8 :=
  match rt.type with
  | .static => rt.metric.setWidth 8
  | .blackhole => 0

/-- Where the kernel has the route of an entry. -/
def StaticRoute.place (rt : StaticRoute) : Prefix × BitVec 8 := (rt.net, rt.distance)

def StaticRoute.record (rt : StaticRoute) : KernelRoute :=
  match rt.type with
  | .static => ⟨.unicast, rt.gw, rtprotStatic⟩
  | .blackhole => ⟨.blackhole, 0, rtprotBoot⟩

/-- The test of the removal that is requested for an entry. -/
def StaticRoute.test (rt : StaticRoute) (r : KernelRoute) : Bool :=
  match rt.type with
  | .static => fits rt.gw r
  | .blackhole => r.type = .blackhole

end Places

section Commands

def rcpRouteDistanceRip : BitVec 32 := 120
def rcpRouteDistanceOspf : BitVec 32 := 110

def invalidIp : String := "Error: invalid IP address\n"

/-- The checks of a network that all the commands start with. -/
def readNetwork (cidr : Word) : Except String (BitVec 32 × BitVec 32) :=
  match atocidr cidr with
  | none => .error invalidIp
  | some (ip, mask) => if ip &&& ~~~mask ≠ 0 then .error invalidIp else .ok (ip, mask)

/-- The network and the next hop. -/
def readRoute (cidr nexthop : Word) : Except String (BitVec 32 × BitVec 32 × BitVec 32) := do
  let (ip, mask) ← readNetwork cidr
  match atoip nexthop with
  | none => .error "Error: invalid next hop address\n"
  | some gw => .ok (ip, mask, gw)

def limitReached : String := "Error: cannot add route, limit reached\n"

/-- The part of `cliIpRouteCidrCmd` behind the checks: the state and the text of the reply. -/
def addRoute (removal : Removal) (s : State) (ip mask gw metric : BitVec 32) :
    Except String (State × String) :=
  match shmFindRouteStatic s.sroute ip mask gw with
  | some (i, rt) =>
    let kernel := rcpDelRoute removal s.kernel ip mask gw
    .ok ({ sroute := s.sroute.set i (some { rt with metric := metric })
           kernel := rcpAddRoute kernel ip mask gw metric }, "Warning: route replaced\n")
  | none =>
    match (shmFindRouteStatic s.sroute ip mask 0).filter fun found => found.2.metric = metric with
    | some (i, rt) =>
      let kernel := rcpDelRoute removal s.kernel rt.ip rt.mask rt.gw
      .ok ({ sroute := s.sroute.set i (some { rt with gw := gw })
             kernel := rcpAddRoute kernel ip mask gw metric },
        "Warning: existing route with a different destination deleted\n")
    | none =>
      match shmFindRouteEmpty s.sroute with
      | none => .error limitReached
      | some i =>
        .ok ({ sroute := s.sroute.set i (some ⟨.static, ip, mask, gw, metric⟩)
               kernel := rcpAddRoute s.kernel ip mask gw metric }, "")

def cliIpRouteCidrCmd (removal : Removal) (s : State) (cidr nexthop : Word)
    (distance : Option Word) : Except String (State × String) := do
  let (ip, mask, gw) ← readRoute cidr nexthop
  let metric := (distance.map atoi).getD 1
  if metric = rcpRouteDistanceRip then
    .error "Error: Administrative distance 120 is reserved for RIP\n"
  else if metric = rcpRouteDistanceOspf then
    .error "Error: Administrative distance 110 is reserved for OSPF\n"
  else addRoute removal s ip mask gw metric

/-- The entry that the table search finds is not valid any more. -/
def deleteRoute (removal : Removal) (s : State) (ip mask gw : BitVec 32) : State :=
  { sroute :=
      match shmFindRouteStatic s.sroute ip mask gw with
      | none => s.sroute
      | some (i, _) => s.sroute.set i none
    kernel := rcpDelRoute removal s.kernel ip mask gw }

def cliNoIpRouteCidrCmd (removal : Removal) (s : State) (cidr nexthop : Word) :
    Except String (State × String) := do
  let (ip, mask, gw) ← readRoute cidr nexthop
  .ok (deleteRoute removal s ip mask gw, "")

/-- What the loop of `cliNoIpRouteAll` requests for the route of a slot. -/
def delRouteOf (removal : Removal) (kernel : Kernel) : Option StaticRoute → Kernel
  | none => kernel
  | some rt =>
    match rt.type with
    | .static => rcpDelRoute removal kernel rt.ip rt.mask rt.gw
    | .blackhole => delBlackhole removal kernel rt.ip rt.mask

def cliNoIpRouteAll (removal : Removal) (s : State) : Except String (State × String) :=
  .ok ({ sroute := s.sroute.map fun _ => none
         kernel := s.sroute.foldl (delRouteOf removal) s.kernel }, "")

def defaultRoute : Word := "0.0.0.0/0".toList

def cliIpDefaultGwCmd (removal : Removal) (s : State) (gw : Word) :
    Except String (State × String) :=
  cliIpRouteCidrCmd removal s defaultRoute gw none

def cliNoIpDefaultGwCmd (removal : Removal) (s : State) (gw : Word) :
    Except String (State × String) :=
  cliNoIpRouteCidrCmd removal s defaultRoute gw

def cliIpRouteBlackhole (s : State) (cidr : Word) : Except String (State × String) := do
  let (ip, mask) ← readNetwork cidr
  match shmFindRouteBlackhole s.sroute ip mask with
  | some _ => .ok (s, "")
  | none =>
    match shmFindRouteEmpty s.sroute with
    | none => .error limitReached
    | some i =>
      .ok ({ sroute := s.sroute.set i (some ⟨.blackhole, ip, mask, 0, 0⟩)
             kernel := addBlackhole s.kernel ip mask }, "")

def cliNoIpRouteBlackhole (removal : Removal) (s : State) (cidr : Word) :
    Except String (State × String) := do
  let (ip, mask) ← readNetwork cidr
  match shmFindRouteBlackhole s.sroute ip mask with
  | none => .ok (s, "")
  | some (i, _) =>
    .ok ({ sroute := s.sroute.set i none, kernel := delBlackhole removal s.kernel ip mask }, "")

/-- The commands, with the words at their special tokens. -/
inductive Command where
  | ipRoute (cidr nexthop : Word) (distance : Option Word)
  | noIpRoute (cidr nexthop : Word)
  | noIpRouteAll
  | defaultGateway (gw : Word)
  | noDefaultGateway (gw : Word)
  | blackhole (cidr : Word)
  | noBlackhole (cidr : Word)

def distanceToken : Word := "<i,1,255>".toList

/-- The parser passes on a command whose words pass the checks of the tokens. -/
def Command.accepted : Command → Bool
  | .ipRoute cidr nexthop distance =>
    chkCidrnet "<cidrnet>".toList cidr && chkIp "<ipnexthop>".toList nexthop &&
      distance.all (chkInt2 distanceToken)
  | .noIpRoute cidr nexthop =>
    chkCidrnet "<cidrnet>".toList cidr && chkIp "<ipnexthop>".toList nexthop
  | .noIpRouteAll => true
  | .defaultGateway gw | .noDefaultGateway gw => chkIp "<ip>".toList gw
  | .blackhole cidr | .noBlackhole cidr => chkCidrnet "<cidrnet>".toList cidr

def Command.handle (removal : Removal) (s : State) : Command → Except String (State × String)
  | .ipRoute cidr nexthop distance => cliIpRouteCidrCmd removal s cidr nexthop distance
  | .noIpRoute cidr nexthop => cliNoIpRouteCidrCmd removal s cidr nexthop
  | .noIpRouteAll => cliNoIpRouteAll removal s
  | .defaultGateway gw => cliIpDefaultGwCmd removal s gw
  | .noDefaultGateway gw => cliNoIpDefaultGwCmd removal s gw
  | .blackhole cidr => cliIpRouteBlackhole s cidr
  | .noBlackhole cidr => cliNoIpRouteBlackhole removal s cidr

/-- A command that is refused leaves the state as it is. -/
def step (removal : Removal) (s : State) (c : Command) : State :=
  if c.accepted then
    match c.handle removal s with
    | .error _ => s
    | .ok (s', _) => s'
  else s

def run (removal : Removal) (s : State) (commands : List Command) : State :=
  commands.foldl (step removal) s

/-- No route is configured, and the kernel has the routes of the other protocols. -/
def start (others : Kernel) : State :=
  { sroute := List.replicate rcpRouteLimit none, kernel := others }

end Commands

end StaticRoutes
