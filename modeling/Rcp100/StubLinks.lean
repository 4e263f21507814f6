import Mathlib.Data.List.Basic
import Rcp100.Predecessors

/-!
# Links to stub networks

`lsa_add_cost` makes an element of every link of a router advertisement, the links to stub
networks among them, and the search follows an element to any network advertisement with its id.
Where no stub network has the id of a network advertisement the searches on two databases that
differ in such links run in step.
-/

namespace StubLinks

open LsaFormat WeightedPaths Spf
open ByteBuffer (append_be32)
open Function (comp_apply update update_of_ne update_self)

/-- A link to a stub network with one of these ids. -/
def isStub (ids : List (BitVec 32)) (link : RtrLsaLink) : Bool :=
  link.type = 3 && ids.contains link.linkId

/-- Links to stub networks with these ids are added to a router advertisement or removed. -/
structure StubsChanged (ids : List (BitVec 32)) (lsa lsa' : OspfLsa) : Prop where
  router : lsa.header.type = 1
  key : lsa'.key = lsa.key
  links : ∃ links links', rtrLinks lsa.bytes = some links ∧ rtrLinks lsa'.bytes = some links' ∧
    links'.filter (!isStub ids ·) = links.filter (!isStub ids ·)

/-- The network advertisements of the area have these ids. -/
def HasNetworks (ids : List (BitVec 32)) (db : List OspfLsa) : Prop :=
  ∀ lsa ∈ db, lsa.header.type = 2 → lsa.header.linkStateId ∈ ids

variable {db db' : List OspfLsa}

/-- Every advertisement has the same flag, cost and predecessors. -/
def SameTree (length : db.length = db'.length) (st : SpfState db) (st' : SpfState db') : Prop :=
  ∀ v, (st'.h (v.cast length)).visited = (st.h v).visited ∧
    (st'.h (v.cast length)).cost = (st.h v).cost ∧
    ∀ u, Predecessors.Pred st' (u.cast length) (v.cast length) ↔ Predecessors.Pred st u v

/-- In every area with these networks, adding or removing stub networks with these ids leaves
what the search computes from any root as it is. -/
def Unaffected (ids networks : List (BitVec 32)) : Prop :=
  ∀ (db : List OspfLsa) (r : Fin db.length) (lsa' : OspfLsa), HasNetworks networks db →
    StubsChanged ids (db.get r) lsa' →
      ∀ (mylsa : Option (Fin db.length)) (fuel : Nat), db.length ≤ fuel →
        ∃ st st', spf mylsa fuel = some st ∧
          spf (mylsa.map (Fin.cast List.length_set.symm)) fuel = some st' ∧
          @SameTree db (db.set r lsa') List.length_set.symm st st'

section Simulation

variable {length : db.length = db'.length} {st : SpfState db} {st' : SpfState db'}

/-- The search finds an advertisement for the element. -/
def found (db : List OspfLsa) (c : LsaCost) : Bool := (lsadbFind2 db c.type c.id).isSome

/-- The same advertisements are found, and by the same elements. -/
structure Alike (length : db.length = db'.length) : Prop where
  find : ∀ type id, lsadbFind2 db' type id = (lsadbFind2 db type id).map (Fin.cast length)
  costs : ∀ u, (ncost db' (u.cast length)).filter (found db) = (ncost db u).filter (found db)

def moveNode (length : db.length = db'.length) (n : SpfNode db) : SpfNode db' where
  cost := n.cost
  visited := n.visited
  fromLsa := n.fromLsa.map (Option.map (Fin.cast length))

/-- The state of one search is that of the other one. -/
structure Moved (length : db.length = db'.length) (st : SpfState db) (st' : SpfState db') :
    Prop where
  h : ∀ v, st'.h (v.cast length) = moveNode length (st.h v)
  queue : st'.queue = st.queue.map (Fin.cast length)

theorem fillFirst_map {α β : Type} (f : α → β) (x : α) (slots : List (Option α)) :
    fillFirst (f x) (slots.map (Option.map f)) = (fillFirst x slots).map (Option.map f) := by
  induction slots with
  | nil => rfl
  | cons slot slots ih =>
    cases slot with
    | none => rfl
    | some y => exact congrArg (some (f y) :: ·) ih

theorem addFrom_map {α β : Type} (f : α → β) (x : α) (slots : List (Option α)) :
    addFrom (f x) (slots.map (Option.map f)) = (addFrom x slots).map (Option.map f) := by
  cases slots with
  | nil => rfl
  | cons slot slots => exact congrArg (slot.map f :: ·) (fillFirst_map f x slots)

theorem moveNode_relabel (u : Fin db.length) (new : Nat) (n : SpfNode db) :
    relabel (u.cast length) new (moveNode length n) = moveNode length (relabel u new n) := by
  by_cases above : n.cost > new
  · rw [relabel, relabel, if_pos above, if_pos (show (moveNode length n).cost > new from above)]
    rfl
  · rw [relabel, relabel, if_neg above, if_neg (show ¬ (moveNode length n).cost > new from above)]
    by_cases equal : n.cost = new
    · rw [if_pos equal, if_pos (show (moveNode length n).cost = new from equal)]
      simp only [moveNode, addFrom_map]
    · rw [if_neg equal, if_neg (show ¬ (moveNode length n).cost = new from equal)]

theorem moved_update (moved : Moved length st st') (u : Fin db.length) (n : SpfNode db)
    (v : Fin db.length) :
    update st'.h (u.cast length) (moveNode length n) (v.cast length) =
      moveNode length (update st.h u n v) := by
  by_cases here : v = u
  · rw [here, update_self, update_self]
  · rw [update_of_ne here, update_of_ne fun same => here (Fin.cast_injective _ same),
      moved.h]

theorem lsapqPush_map (queue : List (Fin db.length)) (u : Fin db.length) :
    lsapqPush (queue.map (Fin.cast length)) (u.cast length) =
      (lsapqPush queue u).map (Fin.cast length) := by
  simp only [lsapqPush, List.mem_map_of_injective (Fin.cast_injective length)]
  split <;> rfl

theorem Moved.relax (moved : Moved length st st') (alike : Alike length) (u : Fin db.length)
    (c : LsaCost) : Moved length (relax u st c) (relax (u.cast length) st' c) := by
  have find := alike.find c.type c.id
  cases hit : lsadbFind2 db c.type c.id with
  | none =>
    rw [hit] at find
    rw [relax_of_none _ hit, relax_of_none _ find]
    exact moved
  | some v =>
    rw [hit] at find
    constructor
    · intro x
      simp only [Spf.relax, hit, find, Option.map_some, moved.h]
      exact (congrArg (update st'.h (v.cast length) · (x.cast length))
        (moveNode_relabel u _ _)).trans (moved_update moved v _ x)
    · simp only [Spf.relax, hit, find, Option.map_some, moved.h, moved.queue, lsapqPush_map]
      exact (apply_ite _ _ _ _).symm

theorem foldl_found (u : Fin db.length) (cs : List LsaCost) :
    cs.foldl (relax u) st = (cs.filter (found db)).foldl (relax u) st := by
  induction cs generalizing st with
  | nil => rfl
  | cons c cs ih =>
    rw [List.foldl_cons, ih, List.filter_cons]
    cases hit : lsadbFind2 db c.type c.id with
    | none => rw [relax_of_none u hit, if_neg (by rw [found, hit]; exact Bool.false_ne_true)]
    | some v => rw [if_pos (by rw [found, hit]; rfl), List.foldl_cons]

theorem Moved.foldl (moved : Moved length st st') (alike : Alike length) (u : Fin db.length)
    (cs : List LsaCost) :
    Moved length (cs.foldl (Spf.relax u) st) (cs.foldl (Spf.relax (u.cast length)) st') := by
  induction cs generalizing st st' with
  | nil => exact moved
  | cons c cs ih => exact ih (moved.relax alike u c)

theorem Alike.found (alike : Alike length) : StubLinks.found db' = StubLinks.found db := by
  funext c
  rw [StubLinks.found, alike.find, Option.isSome_map]
  rfl

theorem Moved.visit (moved : Moved length st st') (alike : Alike length) (u : Fin db.length) :
    Moved length (visit u st) (visit (u.cast length) st') := by
  have marked : Moved length (markVisited u st) (markVisited (u.cast length) st') := by
    refine ⟨fun v => ?_, moved.queue⟩
    rw [markVisited, moved.h]
    exact moved_update moved u { st.h u with visited := true } v
  have stripped : Spf.visit (u.cast length) st' =
      ((ncost db u).filter (found db)).foldl (Spf.relax (u.cast length))
        (markVisited (u.cast length) st') := by
    rw [Spf.visit, foldl_found, alike.found, alike.costs]
  rw [stripped, Spf.visit, foldl_found]
  exact marked.foldl alike u _

theorem smallest_map {cost : Fin db.length → Nat} {cost' : Fin db'.length → Nat}
    (same : ∀ v, cost' (v.cast length) = cost v) (queue : List (Fin db.length))
    (s : Fin db.length) :
    smallest cost' (queue.map (Fin.cast length)) (s.cast length) =
      (smallest cost queue s).cast length := by
  induction queue generalizing s with
  | nil => rfl
  | cons p queue ih =>
    rw [List.map_cons, smallest, smallest, List.foldl_cons, List.foldl_cons, same, same]
    by_cases less : cost p < cost s
    · rw [if_pos less, if_pos less]
      exact ih p
    · rw [if_neg less, if_neg less]
      exact ih s

theorem lsapqGet_map {cost : Fin db.length → Nat} {cost' : Fin db'.length → Nat}
    (same : ∀ v, cost' (v.cast length) = cost v) (queue : List (Fin db.length)) :
    lsapqGet cost' (queue.map (Fin.cast length)) =
      (lsapqGet cost queue).map (Prod.map (Fin.cast length) (List.map (Fin.cast length))) := by
  cases queue with
  | nil => rfl
  | cons head rest =>
    have least := smallest_map same (head :: rest) head
    rw [List.map_cons] at least
    simp only [lsapqGet, List.map_cons, Option.map_some, Prod.map, least]
    rw [List.map_erase (Fin.cast_injective length), List.map_cons]

theorem Moved.dijkstra (moved : Moved length st st') (alike : Alike length) {fuel : Nat}
    {r : SpfState db} (ended : dijkstra fuel st = some r) :
    ∃ r', dijkstra fuel st' = some r' ∧ Moved length r r' := by
  have same : ∀ {st : SpfState db} {st' : SpfState db'}, Moved length st st' → ∀ v,
      (st'.h (v.cast length)).cost = (st.h v).cost := by
    intro st st' moved v
    rw [moved.h]
    rfl
  induction fuel generalizing st st' with
  | zero =>
    rw [Spf.dijkstra] at ended ⊢
    rw [moved.queue, lsapqGet_map (same moved)]
    cases got : lsapqGet (fun v => (st.h v).cost) st.queue with
    | none =>
      rw [got] at ended
      cases ended
      exact ⟨st', rfl, moved⟩
    | some p =>
      rw [got] at ended
      cases ended
  | succ fuel ih =>
    rw [Spf.dijkstra] at ended ⊢
    rw [moved.queue, lsapqGet_map (same moved)]
    cases got : lsapqGet (fun v => (st.h v).cost) st.queue with
    | none =>
      rw [got] at ended
      cases ended
      exact ⟨st', rfl, moved⟩
    | some p =>
      obtain ⟨u, queue⟩ := p
      rw [got] at ended
      have popped : Moved length { st with queue := queue }
          { st' with queue := queue.map (Fin.cast length) } := ⟨moved.h, rfl⟩
      have seen : (st'.h (u.cast length)).visited = (st.h u).visited := by
        rw [moved.h]
        rfl
      dsimp only [Option.map_some, Prod.map] at ended ⊢
      rw [seen]
      split at ended
      · rename_i visited
        rw [if_pos visited]
        exact ih popped ended
      · rename_i unvisited
        rw [if_neg unvisited]
        exact ih (popped.visit alike u) ended

theorem Moved.sameTree (moved : Moved length st st') : SameTree length st st' := by
  intro v
  rw [moved.h]
  refine ⟨rfl, rfl, fun u => ?_⟩
  rw [Predecessors.Pred, Predecessors.Pred, moved.h]
  have injective : Function.Injective (Option.map (Fin.cast length)) :=
    Option.map_injective (Fin.cast_injective length)
  exact @List.mem_map_of_injective _ _ _ injective (some u) (st.h v).fromLsa

end Simulation

section Start

variable {root : Fin db.length} {st : SpfState db} {order : List (Fin db.length)}

/-- Nothing in the queue has been visited. -/
structure Waiting (st : SpfState db) (order : List (Fin db.length)) : Prop where
  nodup : order.Nodup
  queueNodup : st.queue.Nodup
  visited : ∀ v, (st.h v).visited = decide (v ∈ order)
  queued : ∀ v ∈ st.queue, v ∉ order

theorem Waiting.relax (waiting : Waiting st order) (u : Fin db.length) (c : LsaCost) :
    Waiting (relax u st c) order where
  nodup := waiting.nodup
  queueNodup := relax_nodup u c waiting.queueNodup
  visited v := (relax_visited u v c).trans (waiting.visited v)
  queued := by
    intro v waits
    cases hit : lsadbFind2 db c.type c.id with
    | none =>
      rw [relax_of_none u hit] at waits
      exact waiting.queued v waits
    | some x =>
      rcases (relax_queue hit).mp waits with before | ⟨-, unseen⟩
      · exact waiting.queued v before
      · rw [waiting.visited] at unseen
        exact of_decide_eq_false unseen

theorem Waiting.foldl (waiting : Waiting st order) (u : Fin db.length) (cs : List LsaCost) :
    Waiting (cs.foldl (Spf.relax u) st) order := by
  induction cs generalizing st with
  | nil => exact waiting
  | cons c cs ih => exact ih (waiting.relax u c)

theorem Waiting.visit (waiting : Waiting st order) {u : Fin db.length}
    {queue : List (Fin db.length)}
    (got : lsapqGet (fun v => (st.h v).cost) st.queue = some (u, queue)) :
    Waiting (visit u { st with queue := queue }) (order ++ [u]) := by
  obtain ⟨member, rfl, -⟩ := lsapqGet_some got
  refine Waiting.foldl ⟨?_, waiting.queueNodup.erase u, fun v => ?_, fun v waits => ?_⟩ u _
  · exact List.nodup_append'.mpr ⟨waiting.nodup, List.nodup_singleton u, by
      simpa using waiting.queued u member⟩
  · by_cases here : v = u
    · simp [markVisited, here]
    · simp [markVisited, here, waiting.visited]
  · obtain ⟨other, before⟩ := waiting.queueNodup.mem_erase_iff.mp waits
    rw [List.mem_append, List.mem_singleton, not_or]
    exact ⟨waiting.queued v before, other⟩

theorem spf_returns (mylsa : Option (Fin db.length)) {fuel : Nat} (enough : db.length ≤ fuel) :
    ∃ st, spf mylsa fuel = some st := by
  cases mylsa with
  | none => exact ⟨initCosts, rfl⟩
  | some root =>
    have start : Waiting ⟨update initCosts.h root { initCosts.h root with cost := 0 },
        lsapqPush initCosts.queue root⟩ [] := by
      refine ⟨List.nodup_nil, nodup_lsapqPush root List.nodup_nil, fun v => ?_,
        fun _ _ => List.not_mem_nil⟩
      dsimp only
      by_cases here : v = root
      · rw [here, update_self]
        rfl
      · rw [update_of_ne here]
        rfl
    obtain ⟨st, -, ended, -⟩ := dijkstra_rule (fun st order (waiting : Waiting st order) =>
      ⟨waiting.nodup, fun v waits => ⟨waiting.queued v waits, by
        rw [waiting.visited, decide_eq_false (waiting.queued v waits)]⟩⟩)
      (fun _ _ _ _ waiting got => waiting.visit got) start (by simpa using enough)
    exact ⟨st, ended⟩

end Start

theorem sameTree_of_alike {length : db.length = db'.length} (alike : Alike length)
    (mylsa : Option (Fin db.length)) {fuel : Nat} (enough : db.length ≤ fuel) :
    ∃ st st', spf mylsa fuel = some st ∧ spf (mylsa.map (Fin.cast length)) fuel = some st' ∧
      SameTree length st st' := by
  obtain ⟨st, ended⟩ := spf_returns mylsa enough
  have fresh : Moved length initCosts initCosts := ⟨fun _ => rfl, rfl⟩
  cases mylsa with
  | none =>
    cases ended
    exact ⟨initCosts, initCosts, rfl, rfl, fresh.sameTree⟩
  | some root =>
    have start : Moved length
        ⟨update initCosts.h root { initCosts.h root with cost := 0 },
          lsapqPush initCosts.queue root⟩
        ⟨update initCosts.h (root.cast length)
            { initCosts.h (root.cast length) with cost := 0 },
          lsapqPush initCosts.queue (root.cast length)⟩ :=
      ⟨fun v => moved_update fresh root { initCosts.h root with cost := 0 } v, rfl⟩
    obtain ⟨st', ended', moved⟩ := start.dijkstra alike ended
    exact ⟨st, st', ended, ended', moved.sameTree⟩

section Change

variable {ids networks : List (BitVec 32)} {lsa : OspfLsa} {links : List RtrLsaLink}

/-- The element that `lsa_add_cost` makes of a link. -/
def linkCost (link : RtrLsaLink) : LsaCost :=
  { LsaCost.zero with id := link.linkId, cost := link.metric.setWidth 32, type := 2 }

theorem lsaAddCost_router (router : lsa.header.type = 1) (read : rtrLinks lsa.bytes = some links) :
    lsaAddCost lsa.bytes = some (links.map linkCost) := by
  have type : read8 lsa.bytes 3 = some 1 := by
    change lsa.bytes.getD 3 0 = 1 at router
    rw [List.getD_eq_getElem?_getD] at router
    rw [read8]
    cases byte : lsa.bytes[3]? with
    | none =>
      rw [byte] at router
      exact absurd router (by decide)
    | some b =>
      rw [byte] at router
      exact congrArg some router
  rw [lsaAddCost, type, read]
  rfl

theorem get_set (r v : Fin db.length) (lsa' : OspfLsa) :
    (db.set r lsa').get (v.cast List.length_set.symm) = if v = r then lsa' else db.get v := by
  rw [List.get_eq_getElem, List.getElem_set]
  simp only [Fin.val_cast, Fin.ext_iff, List.get_eq_getElem, eq_comm]

theorem val_lsadbFind2 (db : List OspfLsa) (type : BitVec 8) (id : BitVec 32) :
    (lsadbFind2 db type id).map Fin.val =
      (db.map OspfLsa.key).findIdx? fun key => key.type = type && key.linkStateId = id := by
  rw [lsadbFind2, ← List.findIdx?_eq_map_findFinIdx?_val, List.findIdx?_map]
  rfl

theorem lsadbFind2_congr {length : db.length = db'.length}
    (same : db'.map OspfLsa.key = db.map OspfLsa.key) (type : BitVec 8) (id : BitVec 32) :
    lsadbFind2 db' type id = (lsadbFind2 db type id).map (Fin.cast length) := by
  refine Option.map_injective Fin.val_injective ?_
  rw [Option.map_map, val_lsadbFind2, same, ← val_lsadbFind2]
  rfl

theorem map_key_set {r : Fin db.length} {lsa' : OspfLsa} (same : lsa'.key = (db.get r).key) :
    (db.set r lsa').map OspfLsa.key = db.map OspfLsa.key := by
  have inside : r.val < (db.map OspfLsa.key).length := by
    rw [List.length_map]
    exact r.isLt
  have there : lsa'.key = (db.map OspfLsa.key)[r.val] := by
    rw [same, List.getElem_map, List.get_eq_getElem]
  rw [List.map_set, there]
  exact List.set_getElem_self inside

theorem found_linkCost (has : HasNetworks networks db) (apart : ids.Disjoint networks)
    {link : RtrLsaLink} (hit : found db (linkCost link) = true) : isStub ids link = false := by
  obtain ⟨v, search⟩ := Option.isSome_iff_exists.mp hit
  have here := (List.findFinIdx?_eq_some_iff.mp search).1
  obtain ⟨type, id⟩ := Bool.and_eq_true_iff.mp here
  have inside := has _ (List.get_mem db v) (of_decide_eq_true type)
  rw [isStub, Bool.and_eq_false_iff]
  have same : (db.get v).header.linkStateId = link.linkId := of_decide_eq_true id
  refine .inr (Bool.eq_false_iff.mpr fun member => ?_)
  exact apart (List.contains_iff_mem.mp member) (same ▸ inside)

theorem alike_set {r : Fin db.length} {lsa' : OspfLsa} (has : HasNetworks networks db)
    (apart : ids.Disjoint networks) (changed : StubsChanged ids (db.get r) lsa') :
    @Alike db (db.set r lsa') List.length_set.symm where
  find := lsadbFind2_congr (map_key_set changed.key)
  costs := by
    intro u
    rw [ncost, ncost, get_set]
    split
    · rename_i here
      subst here
      obtain ⟨links, links', read, read', same⟩ := changed.links
      have router' : lsa'.header.type = 1 :=
        (congrArg LsaKey.type changed.key).trans changed.router
      have strip (links : List RtrLsaLink) : (links.map linkCost).filter (found db) =
          ((links.filter (!isStub ids ·)).filter (found db ∘ linkCost)).map linkCost := by
        rw [List.filter_map, List.filter_filter]
        refine congrArg (List.map linkCost) (List.filter_congr fun link _ => ?_)
        cases hit : found db (linkCost link) with
        | false => rw [comp_apply, hit, Bool.false_and]
        | true => rw [comp_apply, hit, found_linkCost has apart hit]; rfl
      rw [lsaAddCost_router router' read', lsaAddCost_router changed.router read, Option.getD_some,
        Option.getD_some, strip, strip, same]
    · rfl

end Change

section Necessity

variable {network : BitVec 32} {ids networks : List (BitVec 32)}

/-- A router without links beside a network. -/
def apartFrom (network : BitVec 32) : List OspfLsa :=
  [routerLsa 0x01010101 0 [], networkLsa network 0xffffff00 0x01010101 0 []]

/-- The router with a stub network that has the id of the network. -/
def withStub (network : BitVec 32) : OspfLsa :=
  routerLsa 0x01010101 0 [(network, 0xffffffff, 3, 1)]

theorem linkStateId_networkLsa (network : BitVec 32) :
    (networkLsa network 0xffffff00 0x01010101 0 []).header.linkStateId = network :=
  append_be32 network

theorem rtrLinks_withStub (network : BitVec 32) :
    rtrLinks (withStub network).bytes = some [⟨network, 0xffffffff, 3, 0, 1⟩] := by
  have one : (BitVec.ofNat 16 1).extractLsb' 8 8 ++ (BitVec.ofNat 16 1).extractLsb' 0 8 =
      (1 : BitVec 16) := by decide
  have count : read16 (withStub network).bytes 22 = some 1 := congrArg some one
  have id : read32 (withStub network).bytes 24 = some network :=
    congrArg some (append_be32 network)
  have data : read32 (withStub network).bytes 28 = some 0xffffffff :=
    congrArg some (append_be32 0xffffffff)
  have metric : read16 (withStub network).bytes 34 = some 1 := congrArg some one
  have link : rtrLink (withStub network).bytes 0 = some ⟨network, 0xffffffff, 3, 0, 1⟩ := by
    rw [rtrLink, Nat.mul_zero, Nat.add_zero, Nat.add_zero, Nat.add_zero, Nat.add_zero,
      Nat.add_zero, id, data, metric]
    rfl
  rw [rtrLinks, count]
  change [0].mapM (rtrLink (withStub network).bytes) = _
  rw [List.mapM_cons, link]
  rfl

theorem key_routerLsa (links : List (BitVec 32 × BitVec 32 × BitVec 8 × BitVec 16)) :
    (routerLsa 0x01010101 0 links).key = ⟨1, 0x01010101, 0x01010101⟩ :=
  congrArg₂ (LsaKey.mk 1) (append_be32 0x01010101) (append_be32 0x01010101)

theorem stubsChanged_withStub (member : network ∈ ids) :
    StubsChanged ids ((apartFrom network).get ⟨0, Nat.two_pos⟩) (withStub network) where
  router := rfl
  key := (key_routerLsa _).trans (key_routerLsa _).symm
  links := by
    have before : rtrLinks (routerLsa 0x01010101 0 []).bytes = some [] := by decide
    refine ⟨[], _, before, rtrLinks_withStub network, ?_⟩
    simp [isStub, member]

theorem hasNetworks_apartFrom (member : network ∈ networks) :
    HasNetworks networks (apartFrom network) := by
  intro lsa inside type
  rcases List.mem_cons.mp inside with rfl | later
  · exact absurd type (by decide)
  · cases List.mem_singleton.mp later
    exact (linkStateId_networkLsa network).symm ▸ member

theorem ncost_networkLsa (network : BitVec 32) :
    lsaAddCost (networkLsa network 0xffffff00 0x01010101 0 []).bytes = some [] := by
  have length : (BitVec.ofNat 16 24).extractLsb' 8 8 ++ (BitVec.ofNat 16 24).extractLsb' 0 8 =
      (24 : BitVec 16) := by decide
  have read : read16 (networkLsa network 0xffffff00 0x01010101 0 []).bytes 18 = some 24 :=
    congrArg some length
  have type : read8 (networkLsa network 0xffffff00 0x01010101 0 []).bytes 3 = some 2 := rfl
  rw [lsaAddCost, type, read]
  rfl

theorem ncost_apartFrom (v : Fin (apartFrom network).length) :
    ncost (apartFrom network) v = [] := by
  rcases v with ⟨_ | _ | n, bound⟩
  · rfl
  · exact congrArg (Option.getD · []) (ncost_networkLsa network)
  · exact absurd bound (Nat.not_lt.mpr (Nat.le_add_left 2 n))

theorem eq_root_of_reachable (none : ∀ v, ncost db v = []) {root v : Fin db.length}
    (reached : Reachable (edge db) root v) : v = root := by
  obtain ⟨c, left, walk⟩ := reached
  cases walk with
  | nil => rfl
  | snoc before last =>
    obtain ⟨c, member, -⟩ := last
    rw [none] at member
    cases member

/-- The router with the stub network beside the network. -/
def joined (network : BitVec 32) : List OspfLsa :=
  (apartFrom network).set 0 (withStub network)

theorem ncost_joined : ncost (joined network) ⟨0, Nat.two_pos⟩ =
    [linkCost ⟨network, 0xffffffff, 3, 0, 1⟩] :=
  congrArg (Option.getD · []) (lsaAddCost_router rfl (rtrLinks_withStub network))

theorem cost_joined (v : Fin (joined network).length) :
    ∀ c ∈ ncost (joined network) v, c.cost.toNat ≤ 65535 := by
  rcases v with ⟨_ | _ | n, bound⟩
  · intro c member
    have isLink : c ∈ ncost (joined network) ⟨0, Nat.two_pos⟩ := member
    rw [ncost_joined] at isLink
    cases List.mem_singleton.mp isLink
    exact show ((1 : BitVec 16).setWidth 32).toNat ≤ 65535 by decide
  · intro c member
    have none : ncost (joined network) ⟨1, Nat.one_lt_two⟩ = [] :=
      congrArg (Option.getD · []) (ncost_networkLsa network)
    rw [none] at member
    cases member
  · exact absurd bound (Nat.not_lt.mpr (Nat.le_add_left 2 n))

theorem reachable_joined : Reachable (edge (joined network)) ⟨0, Nat.two_pos⟩
    ⟨1, Nat.one_lt_two⟩ := by
  refine ⟨_, _, Walk.snoc .nil ⟨_, ncost_joined ▸ List.mem_singleton_self _, ?_, rfl⟩⟩
  refine List.findFinIdx?_eq_some_iff.mpr ⟨?_, fun j before => ?_⟩
  · exact Bool.and_eq_true_iff.mpr ⟨rfl, decide_eq_true (linkStateId_networkLsa network)⟩
  · obtain rfl : j = ⟨0, Nat.two_pos⟩ := Fin.ext (Nat.lt_one_iff.mp before)
    exact Bool.false_ne_true

end Necessity

/-- Stub networks with some ids do not change the search in the areas with some networks exactly
if no network has one of the ids. -/
theorem unaffected_iff (ids networks : List (BitVec 32)) :
    Unaffected ids networks ↔ ids.Disjoint networks := by
  constructor
  · intro unaffected network isStub isNetwork
    obtain ⟨st, st', ended, ended', same⟩ := unaffected (apartFrom network) ⟨0, Nat.two_pos⟩
      (withStub network) (hasNetworks_apartFrom isNetwork) (stubsChanged_withStub isStub)
      (some ⟨0, Nat.two_pos⟩) 2 (Nat.le_refl 2)
    have few : 2 ≤ 65536 := by decide
    obtain ⟨_, ended₁, -, before⟩ := @spf_shortestPaths (apartFrom network)
      (some ⟨0, Nat.two_pos⟩) (fun root _ => bounded_of_length_le
        (fun v c member => absurd member (ncost_apartFrom v ▸ List.not_mem_nil)) few) 2
      (Nat.le_refl 2)
    obtain ⟨_, ended₂, -, after⟩ := @spf_shortestPaths (joined network)
      (some ⟨0, Nat.two_pos⟩) (fun root _ => bounded_of_length_le cost_joined few) 2
      (Nat.le_refl 2)
    cases ended.symm.trans ended₁
    cases ended'.symm.trans ended₂
    have reached := (after.visited ⟨1, Nat.one_lt_two⟩).mpr ⟨_, rfl, reachable_joined⟩
    obtain ⟨root, isRoot, unreached⟩ := (before.visited ⟨1, Nat.one_lt_two⟩).mp
      ((same ⟨1, Nat.one_lt_two⟩).1.symm.trans reached)
    cases isRoot
    exact Nat.one_ne_zero (congrArg Fin.val (eq_root_of_reachable ncost_apartFrom unreached))
  · intro apart db r lsa' has changed mylsa fuel enough
    exact sameTree_of_alike (alike_set has apart changed) mylsa enough

/-- The first of the two routers, with a stub network for the address of the network. -/
def hostRoute : OspfLsa :=
  routerLsa 0x01010101 0x71a0 [(0x0a000001, 0x0a000001, 2, 10), (0x0a000001, 0xffffffff, 3, 1)]

/-- The network is reached at the cost of the stub network. -/
theorem stub_taken_for_network :
    StubsChanged [0x0a000001] (twoRouters.get ⟨0, by decide⟩) hostRoute ∧
      ((spf (some ⟨0, by decide⟩) 3 : Option (SpfState twoRouters)).map fun st =>
        (st.h ⟨1, by decide⟩).cost) = some 10 ∧
      ((spf (some ⟨0, by decide⟩) 3 : Option (SpfState (twoRouters.set 0 hostRoute))).map fun st =>
        (st.h ⟨1, by decide⟩).cost) = some 1 ∧
      ¬ Unaffected [0x0a000001] [0x0a000001] := by
  have changed : StubsChanged [0x0a000001] (twoRouters.get ⟨0, by decide⟩) hostRoute :=
    ⟨by decide, by decide, _, _, rfl, rfl, by decide⟩
  have before : ((spf (some ⟨0, by decide⟩) 3 : Option (SpfState twoRouters)).map fun st =>
      (st.h ⟨1, by decide⟩).cost) = some 10 := by decide +kernel
  have after : ((spf (some ⟨0, by decide⟩) 3 :
      Option (SpfState (twoRouters.set 0 hostRoute))).map fun st =>
        (st.h ⟨1, by decide⟩).cost) = some 1 := by decide +kernel
  refine ⟨changed, before, after, fun unaffected => ?_⟩
  obtain ⟨st, st', ended, ended', same⟩ := unaffected twoRouters ⟨0, by decide⟩ hostRoute
    (show ∀ lsa ∈ twoRouters, lsa.header.type = 2 →
      lsa.header.linkStateId ∈ [0x0a000001] by decide) changed (some ⟨0, by decide⟩) 3 (by decide)
  rw [ended, Option.map_some, Option.some.injEq] at before
  have run : (spf (some ⟨0, by decide⟩) 3 : Option (SpfState (twoRouters.set 0 hostRoute))) =
      some st' := ended'
  rw [run, Option.map_some, Option.some.injEq] at after
  have cost := (same ⟨1, by decide⟩).2.1
  rw [before] at cost
  exact absurd (after.symm.trans cost) (by decide)

end StubLinks
