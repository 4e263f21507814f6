import Rcp100.RouteEntry

/-!
# The Patricia tree of the routing table

Nodes carry a prefix and the routes of that prefix; glue nodes made by `split`
carry no routes. A pointer to a node is the list of link indices that lead to it
from the root. Every assignment of the source keeps `parent` consistent with the
links, so the parent of a node is the node one link above it.
-/

namespace PatriciaTree

open BitPrefix RouteEntry
open Function (update update_of_ne update_self)

structure PtnData where
  key : BitVec 32
  mask : BitVec 32
  len : Nat
  routes : NodeRoutes
  deriving DecidableEq

inductive Ptn where
  | null
  | node (data : PtnData) (link : Bool → Ptn)

abbrev Path := List Bool

namespace Ptn

/-- The node a pointer refers to. -/
def get : Ptn → Path → Ptn
  | t, [] => t
  | .null, _ :: _ => .null
  | .node _ link, b :: p => (link b).get p

/-- Write through a pointer. -/
def modify (f : Ptn → Ptn) : Path → Ptn → Ptn
  | [], t => f t
  | _ :: _, .null => .null
  | b :: p, .node d link => .node d (update link b ((link b).modify f p))

def leaf (d : PtnData) : Ptn := .node d (fun _ => .null)

/-- All nodes, parents first and link 0 before link 1. -/
def nodes : Ptn → List PtnData
  | .null => []
  | .node d link => d :: ((link false).nodes ++ (link true).nodes)

/-- The pointer is `NULL` or points to a prefix longer than `len`. -/
def exceeds (len : Nat) : Ptn → Bool
  | .null => true
  | .node d _ => len < d.len

end Ptn

/-- The shift count is `len - 1` and `len` is at least 1 at every call. For the
position after a host prefix C leaves the shift undefined; both links of a host
node are `NULL` (`wellFormed_host_leaf`), so the bit read there is never used. -/
def checkBit (key : BitVec 32) (len : Nat) : Bool :=
  (key &&& ((0x80000000 : BitVec 32) >>> (len - 1))) ≠ 0

def matchKey (k1 k2 mask : BitVec 32) : Bool := (k1 &&& mask) = (k2 &&& mask)

/-- The zeroed node of `root_init`. -/
def rootInit : Ptn := .leaf ⟨0, 0, 0, .empty⟩

def ptnFind (key : BitVec 32) (len : Nat) : Ptn → Option Path
  | .null => none
  | .node d link =>
    if d.key = key ∧ d.len = len then some []
    else
      let bit := checkBit key (d.len+1)
      if (link bit).exceeds len then none
      else (ptnFind key len (link bit)).map (bit :: ·)

/-- `none` stands for the parent of the node that is searched. -/
def ptnFindLpm (key : BitVec 32) (len : Nat) : Ptn → Option Path
  | .null => none
  | .node d link =>
    if d.key = key ∧ d.len = len then some []
    else if d.len > len then none
    else if !matchKey key d.key d.mask then none
    else
      let bit := checkBit key (d.len+1)
      match link bit with
      | .null => some []
      | .node _ _ =>
        match ptnFindLpm key len (link bit) with
        | none => some []
        | some p => some (bit :: p)

/-- The loop of `split` with `steps` iterations left. -/
def splitLoop (k1 k2 : BitVec 32) : Nat → Nat → BitVec 32 → Nat × BitVec 32
  | 0, len, mask => (len, mask)
  | steps+1, len, mask =>
    if (mask &&& k1) ≠ (mask &&& k2) then (len, mask)
    else splitLoop k1 k2 steps (len+1) ((mask >>> 1) ||| 0x80000000)

def split (k1 k2 : BitVec 32) : PtnData :=
  let r := splitLoop k1 k2 31 1 0x80000000
  let mask := r.2 <<< 1
  ⟨k1 &&& mask, mask, r.1 - 1, .empty⟩

/-- `ptn_set_child` for a new node. The insert branch links the existing subtree
under the index that the new node has in its own parent. -/
def ptnSetChild (child : PtnData) : Ptn → Ptn
  | .null => .null
  | .node d link =>
    let bit := checkBit child.key (d.len+1)
    match link bit with
    | .null => .node d (update link bit (.leaf child))
    | .node e below =>
      if matchKey child.key e.key child.mask then
        let inserted := .node child (update (fun _ => .null) bit (.node e below))
        .node d (update link bit inserted)
      else
        let n := split child.key e.key
        let side := checkBit e.key (n.len+1)
        let glued := .node n (update (fun _ => .leaf child) side (.node e below))
        .node d (update link bit glued)

/-- The end of `route_add` for a new prefix. -/
def attach (child : PtnData) (t : Ptn) : Ptn :=
  t.modify (ptnSetChild child) ((ptnFindLpm child.key child.len t).getD [])

def routesAt : Ptn → NodeRoutes
  | .null => .empty
  | .node d _ => d.routes

def mapRoutes (f : NodeRoutes → NodeRoutes) : Ptn → Ptn
  | .null => .null
  | .node d link => .node { d with routes := f d.routes } link

/-- The routes of the node that `ptn_find` leads to. -/
def lookup (key : BitVec 32) (len : Nat) (t : Ptn) : NodeRoutes :=
  match ptnFind key len t with
  | some p => routesAt (t.get p)
  | none => .empty

/-- The callback runs on nodes that have a route, parents first. -/
def ptnWalk (f : NodeRoutes → NodeRoutes × List Effect) : Ptn → Ptn × List Effect
  | .null => (.null, [])
  | .node d link =>
    let here := if d.routes.rt = [] then (d.routes, []) else f d.routes
    (.node { d with routes := here.1 } (fun b => (ptnWalk f (link b)).1),
      here.2 ++ (ptnWalk f (link false)).2 ++ (ptnWalk f (link true)).2)

def isNull : Ptn → Bool
  | .null => true
  | .node _ _ => false

/-- Empty leaves are unlinked and freed, children before parents. -/
def ptnPurge (isRoot : Bool) : Ptn → Ptn
  | .null => .null
  | .node d link =>
    let purged := fun b => ptnPurge false (link b)
    if !isRoot && isNull (purged false) && isNull (purged true) && d.routes.rt.isEmpty then .null
    else .node d purged

theorem topBit_eq_leading : (0x80000000 : BitVec 32) = leading 32 1 := by decide

theorem getMsbD_probe (n i : Nat) :
    ((0x80000000 : BitVec 32) >>> n).getMsbD i = (decide (i = n) && decide (i < 32)) := by
  rw [topBit_eq_leading, BitVec.getMsbD_ushiftRight, getMsbD_leading]
  by_cases hi : i < 32
  · by_cases hn : i < n
    · simp [hi, hn, show i ≠ n by omega]
    · by_cases heq : i = n
      · subst heq
        simp [hi]
      · simp [hi, hn, heq, show ¬ i - n < 1 by omega]
  · simp [hi]

theorem checkBit_succ (key : BitVec 32) (n : Nat) : checkBit key (n+1) = key.getMsbD n := by
  have probe : ∀ i, (key &&& ((0x80000000 : BitVec 32) >>> n)).getMsbD i =
      (key.getMsbD i && (decide (i = n) && decide (i < 32))) := by
    intro i
    rw [BitVec.getMsbD_and, getMsbD_probe]
  unfold checkBit
  rw [Nat.add_sub_cancel]
  by_cases bit : key.getMsbD n
  · have hn := BitVec.lt_of_getMsbD bit
    have nonzero : key &&& ((0x80000000 : BitVec 32) >>> n) ≠ 0 := by
      intro zero
      have read := probe n
      rw [zero] at read
      simp [bit, hn] at read
    rw [bit]
    exact decide_eq_true nonzero
  · have zero : key &&& ((0x80000000 : BitVec 32) >>> n) = 0 := by
      apply BitVec.eq_of_getMsbD_eq
      intro i _
      rw [probe i]
      by_cases heq : i = n
      · simp [heq, bit]
      · simp [heq]
    rw [Bool.not_eq_true] at bit
    rw [bit]
    exact decide_eq_false (fun nonzero => nonzero zero)

theorem matchKey_leading {n : Nat} (hn : n ≤ 32) (k1 k2 : BitVec 32) :
    matchKey k1 k2 (leading 32 n) = true ↔ SamePrefix n k1 k2 := by
  simp [matchKey, and_leading_eq_iff hn]

/-- `split` finds the length of the common prefix, up to 31 bits. -/
theorem splitLoop_spec (k1 k2 : BitVec 32) (steps len : Nat) (hlen : 1 ≤ len)
    (total : len + steps = 32) (same : SamePrefix (len-1) k1 k2) :
    ∃ n, splitLoop k1 k2 steps len (leading 32 len) = (n+1, leading 32 (n+1)) ∧ n < 32 ∧
      SamePrefix n k1 k2 ∧ (n < 31 → k1.getMsbD n ≠ k2.getMsbD n) := by
  induction steps generalizing len with
  | zero =>
    refine ⟨31, ?_, by omega, ?_, by omega⟩
    · rw [show len = 32 by omega]
      rfl
    · exact same.mono (by omega)
  | succ steps ih =>
    unfold splitLoop
    by_cases agree : leading 32 len &&& k1 = leading 32 len &&& k2
    · have longer : SamePrefix len k1 k2 := by
        rw [BitVec.and_comm _ k1, BitVec.and_comm _ k2] at agree
        exact (and_leading_eq_iff (by omega)).mp agree
      rw [if_neg (by simpa using agree), topBit_eq_leading, leading_grow]
      exact ih (len+1) (by omega) (by omega) (by simpa using longer)
    · rw [if_pos agree]
      refine ⟨len-1, ?_, by omega, same, ?_⟩
      · rw [Nat.sub_add_cancel hlen]
      · intro _ bit
        apply agree
        rw [BitVec.and_comm _ k1, BitVec.and_comm _ k2]
        apply (and_leading_eq_iff (by omega)).mpr
        rw [← Nat.sub_add_cancel hlen]
        exact samePrefix_succ.mpr ⟨same, bit⟩

theorem split_spec (k1 k2 : BitVec 32) : ∃ n, n < 32 ∧
    split k1 k2 = ⟨k1 &&& leading 32 n, leading 32 n, n, .empty⟩ ∧
    SamePrefix n k1 k2 ∧ (n < 31 → k1.getMsbD n ≠ k2.getMsbD n) := by
  obtain ⟨n, result, hn, same, differ⟩ :=
    splitLoop_spec k1 k2 31 1 (by omega) (by omega) (samePrefix_zero k1 k2)
  refine ⟨n, hn, ?_, same, differ⟩
  simp only [split, topBit_eq_leading, result, leading_shiftLeft_one (show n+1 ≤ 32 by omega),
    Nat.add_sub_cancel]

/-- The node's mask and key are those of a prefix of its length. -/
structure PtnData.Masked (d : PtnData) : Prop where
  len_le : d.len ≤ 32
  mask_eq : d.mask = leading 32 d.len
  trimmed : Trimmed d.len d.key

/-- A child extends the prefix of its parent, and its next bit is its index. -/
def Below (d : PtnData) (b : Bool) : Ptn → Prop
  | .null => True
  | .node c _ => d.len < c.len ∧ SamePrefix d.len d.key c.key ∧ c.key.getMsbD d.len = b

def WellFormed : Ptn → Prop
  | .null => True
  | .node d link => d.Masked ∧ ∀ b, Below d b (link b) ∧ WellFormed (link b)

variable {x d child : PtnData} {link : Bool → Ptn} {b : Bool} {t : Ptn} {key : BitVec 32}
  {len : Nat} {P : BitVec 32 → Nat → Prop}

theorem mem_nodes_node :
    x ∈ (Ptn.node d link).nodes ↔ x = d ∨ ∃ b, x ∈ (link b).nodes := by
  simp [Ptn.nodes, Bool.exists_bool]

theorem below_nodes (wf : WellFormed t)
    (below : Below d b t) (member : x ∈ t.nodes) :
    d.len < x.len ∧ SamePrefix d.len d.key x.key ∧ x.key.getMsbD d.len = b := by
  induction t with
  | null => cases member
  | node c link ih =>
    rcases mem_nodes_node.mp member with heq | ⟨side, hx⟩
    · subst heq
      exact below
    · obtain ⟨subBelow, sub⟩ := wf.2 side
      apply ih side sub ?_ hx
      cases h : link side with
      | null => trivial
      | node e l =>
        rw [h] at subBelow
        obtain ⟨hlen, same, _⟩ := subBelow
        refine ⟨Nat.lt_trans below.1 hlen, below.2.1.trans (same.mono ?_), ?_⟩
        · exact Nat.le_of_lt below.1
        · exact (same d.len below.1).symm.trans below.2.2

theorem ptnFind_sound {p : Path}
    (found : ptnFind key len t = some p) :
    ∃ x ∈ t.nodes, x.key = key ∧ x.len = len ∧ ∃ link, t.get p = .node x link := by
  induction t generalizing p with
  | null => cases found
  | node d link ih =>
    unfold ptnFind at found
    by_cases here : d.key = key ∧ d.len = len
    · rw [if_pos here] at found
      cases found
      exact ⟨d, mem_nodes_node.mpr (Or.inl rfl), here.1, here.2, link, rfl⟩
    · rw [if_neg here] at found
      simp only at found
      split at found
      · cases found
      · obtain ⟨q, hq, rfl⟩ := Option.map_eq_some_iff.mp found
        obtain ⟨x, hx, hkey, hlen, below, hget⟩ := ih _ hq
        exact ⟨x, mem_nodes_node.mpr (Or.inr ⟨_, hx⟩), hkey, hlen, below, hget⟩

theorem ptnFind_eq_none_of_exceeds (wf : WellFormed t)
    (long : t.exceeds len = true) : ptnFind key len t = none := by
  cases h : ptnFind key len t with
  | none => rfl
  | some p =>
    obtain ⟨x, hx, _, hlen, _⟩ := ptnFind_sound h
    cases t with
    | null => cases hx
    | node d link =>
      have hd : len < d.len := by simpa [Ptn.exceeds] using long
      rcases mem_nodes_node.mp hx with heq | ⟨b, hb⟩
      · subst heq
        omega
      · have deeper := (below_nodes (wf.2 b).2 (wf.2 b).1 hb).1
        omega

theorem ptnFind_node (wf : WellFormed (.node d link))
    (key : BitVec 32) (len : Nat) :
    ptnFind key len (.node d link) = if d.key = key ∧ d.len = len then some [] else
      (ptnFind key len (link (key.getMsbD d.len))).map (key.getMsbD d.len :: ·) := by
  conv_lhs => unfold ptnFind
  rw [checkBit_succ]
  by_cases long : (link (key.getMsbD d.len)).exceeds len
  · rw [ptnFind_eq_none_of_exceeds (wf.2 _).2 long]
    simp [long]
  · simp [long]

theorem lookup_null (key : BitVec 32) (len : Nat) : lookup key len .null = .empty := rfl

theorem lookup_node (wf : WellFormed (.node d link))
    (key : BitVec 32) (len : Nat) :
    lookup key len (.node d link) = if d.key = key ∧ d.len = len then d.routes else
      lookup key len (link (key.getMsbD d.len)) := by
  unfold lookup
  rw [ptnFind_node wf]
  by_cases here : d.key = key ∧ d.len = len
  · simp [here, Ptn.get, routesAt]
  · rw [if_neg here, if_neg here]
    cases ptnFind key len (link (key.getMsbD d.len)) with
    | none => rfl
    | some p => rfl

theorem ptnFind_complete (wf : WellFormed t) (member : x ∈ t.nodes) :
    ∃ p link, ptnFind x.key x.len t = some p ∧ t.get p = .node x link := by
  induction t with
  | null => cases member
  | node d link ih =>
    rw [ptnFind_node wf]
    rcases mem_nodes_node.mp member with heq | ⟨b, hb⟩
    · subst heq
      exact ⟨[], link, by simp, rfl⟩
    · obtain ⟨deeper, _, bit⟩ := below_nodes (wf.2 b).2 (wf.2 b).1 hb
      obtain ⟨p, l, hp, hget⟩ := ih b (wf.2 b).2 hb
      refine ⟨b :: p, l, ?_, hget⟩
      rw [if_neg (by omega), bit, hp]
      rfl

theorem nodes_prefix_nodup (wf : WellFormed t) :
    (t.nodes.map (fun d => (d.key, d.len))).Nodup := by
  induction t with
  | null => exact List.nodup_nil
  | node d link ih =>
    have below := fun b {x} (hx : x ∈ (link b).nodes) =>
      below_nodes (wf.2 b).2 (wf.2 b).1 hx
    simp only [Ptn.nodes, List.map_cons, List.map_append, List.nodup_cons, List.nodup_append,
      List.mem_append, List.mem_map, not_or, not_exists, not_and]
    refine ⟨⟨?_, ?_⟩, ih false (wf.2 false).2, ih true (wf.2 true).2, ?_⟩
    · intro x hx heq
      have deeper := (below false hx).1
      simp only [Prod.mk.injEq] at heq
      omega
    · intro x hx heq
      have deeper := (below true hx).1
      simp only [Prod.mk.injEq] at heq
      omega
    · rintro _ ⟨x, hx, rfl⟩ _ ⟨y, hy, rfl⟩ heq
      have hkey : x.key = y.key := congrArg Prod.fst heq
      have bits := (below false hx).2.2
      rw [hkey, (below true hy).2.2] at bits
      cases bits

theorem lookup_eq_empty_of_outside (wf : WellFormed t)
    (below : Below d b t)
    (outside : ¬ (d.len < len ∧ SamePrefix d.len d.key key ∧ key.getMsbD d.len = b)) :
    lookup key len t = .empty := by
  unfold lookup
  cases h : ptnFind key len t with
  | none => rfl
  | some p =>
    obtain ⟨x, hx, hkey, hlen, _⟩ := ptnFind_sound h
    have inside := below_nodes wf below hx
    rw [hkey, hlen] at inside
    exact False.elim (outside inside)

/-- `t'` holds the routes of `t` and, under the prefix of `child`, its routes. -/
def Inserts (child : PtnData) (t t' : Ptn) : Prop :=
  ∀ key len, lookup key len t' =
    if child.key = key ∧ child.len = len then child.routes else lookup key len t

theorem wellFormed_update (wf : WellFormed (.node d link))
    (below : Below d b t) (sub : WellFormed t) :
    WellFormed (.node d (update link b t)) := by
  refine ⟨wf.1, ?_⟩
  intro side
  by_cases heq : side = b
  · subst heq
    rw [update_self]
    exact ⟨below, sub⟩
  · rw [update_of_ne heq]
    exact wf.2 side

theorem inserts_update (wf : WellFormed (.node d link))
    (below : Below d b t) (sub : WellFormed t)
    (bit : child.key.getMsbD d.len = b) (other : ¬ (d.key = child.key ∧ d.len = child.len))
    (inserts : Inserts child (link b) t) :
    Inserts child (.node d link) (.node d (update link b t)) := by
  intro key len
  rw [lookup_node (wellFormed_update wf below sub), lookup_node wf]
  by_cases here : d.key = key ∧ d.len = len
  · rw [if_pos here, if_pos here, if_neg]
    rintro ⟨hkey, hlen⟩
    exact other ⟨here.1.trans hkey.symm, here.2.trans hlen.symm⟩
  · rw [if_neg here, if_neg here]
    by_cases side : key.getMsbD d.len = b
    · rw [side, update_self]
      exact inserts key len
    · rw [update_of_ne side, if_neg]
      rintro ⟨hkey, _⟩
      exact side (hkey ▸ bit)

theorem wellFormed_leaf (masked : d.Masked) : WellFormed (.leaf d) :=
  ⟨masked, fun _ => ⟨trivial, trivial⟩⟩

theorem lookup_leaf (masked : d.Masked) (key : BitVec 32) (len : Nat) :
    lookup key len (.leaf d) = if d.key = key ∧ d.len = len then d.routes else .empty :=
  lookup_node (wellFormed_leaf masked) key len

theorem inserts_leaf (masked : child.Masked) :
    Inserts child .null (.leaf child) :=
  fun key len => lookup_leaf masked key len

/-- The result of the insert branch when the existing node goes to side `b`. -/
def inserted (child : PtnData) (b : Bool) (e : Ptn) : Ptn :=
  .node child (update (fun _ => .null) b e)

theorem wellFormed_inserted (masked : child.Masked) {e : Ptn}
    (below : Below child b e) (sub : WellFormed e) : WellFormed (inserted child b e) :=
  wellFormed_update (wellFormed_leaf masked) below sub

theorem inserts_inserted (masked : child.Masked) {e : Ptn}
    (below : Below child b e) (sub : WellFormed e) : Inserts child e (inserted child b e) := by
  intro key len
  rw [inserted, lookup_node (wellFormed_inserted masked below sub)]
  by_cases here : child.key = key ∧ child.len = len
  · rw [if_pos here, if_pos here]
  · rw [if_neg here, if_neg here]
    by_cases side : key.getMsbD child.len = b
    · rw [side, update_self]
    · rw [update_of_ne side, lookup_null]
      exact (lookup_eq_empty_of_outside sub below (fun h => side h.2.2)).symm

/-- The result of the split branch: `e` and the new leaf on two sides of `n`. -/
def glued (n child : PtnData) (side : Bool) (e : Ptn) : Ptn :=
  .node n (update (fun _ => .leaf child) side e)

section Glue

variable {n child : PtnData} {side : Bool} {e : Ptn}
variable (glue : n.Masked) (masked : child.Masked)
variable (below : Below n side e) (sub : WellFormed e)
variable (longer : n.len < child.len) (same : SamePrefix n.len n.key child.key)
variable (bit : child.key.getMsbD n.len = !side)

include glue masked below sub longer same bit in
theorem wellFormed_glued : WellFormed (glued n child side e) := by
  refine ⟨glue, ?_⟩
  intro b
  by_cases heq : b = side
  · subst heq
    rw [update_self]
    exact ⟨below, sub⟩
  · rw [update_of_ne heq]
    refine ⟨⟨longer, same, ?_⟩, wellFormed_leaf masked⟩
    rw [bit]
    exact (Bool.eq_not_of_ne heq).symm

include glue masked below sub longer same bit in
theorem inserts_glued (bare : n.routes = .empty) : Inserts child e (glued n child side e) := by
  intro key len
  have wf := wellFormed_glued glue masked below sub longer same bit
  rw [glued, lookup_node wf]
  by_cases here : n.key = key ∧ n.len = len
  · rw [if_pos here, if_neg (by omega), bare]
    exact (lookup_eq_empty_of_outside sub below (fun h => by omega)).symm
  · rw [if_neg here]
    by_cases hs : key.getMsbD n.len = side
    · rw [hs, update_self, if_neg]
      rintro ⟨rfl, _⟩
      rw [bit] at hs
      simp at hs
    · rw [update_of_ne hs, lookup_leaf masked]
      rw [lookup_eq_empty_of_outside sub below (fun h => hs h.2.2)]

end Glue

/-- The prefix of the node contains the given prefix. -/
def Covers (d : PtnData) (key : BitVec 32) (len : Nat) : Prop :=
  d.len ≤ len ∧ SamePrefix d.len d.key key

/-- Where `ptn_set_child` inserts a node above an existing one, the existing key
continues the new prefix with the bit that the new prefix has in its parent. -/
def insertAligned (child : PtnData) : Ptn → Bool
  | .null => true
  | .node d link =>
    match link (checkBit child.key (d.len+1)) with
    | .null => true
    | .node e _ => !matchKey child.key e.key child.mask ||
        checkBit e.key (child.len+1) == checkBit child.key (d.len+1)

/-- `insertAligned` at the node that `ptn_find_lpm` returns. -/
def aligned (child : PtnData) (t : Ptn) : Bool :=
  insertAligned child (t.get ((ptnFindLpm child.key child.len t).getD []))

/-- `ptn_find_lpm` leaves a node that covers the prefix at most downwards. -/
theorem ptnFindLpm_isSome_iff (link : Bool → Ptn) (masked : d.Masked)
    (other : ¬ (d.key = key ∧ d.len = len)) :
    (ptnFindLpm key len (.node d link)).isSome ↔ Covers d key len := by
  unfold ptnFindLpm
  rw [if_neg other]
  by_cases long : d.len > len
  · simp only [long, if_true, Option.isSome_none, Bool.false_eq_true, false_iff]
    exact fun covers => absurd covers.1 (by omega)
  · rw [if_neg long]
    have keyed : matchKey key d.key d.mask = true ↔ SamePrefix d.len d.key key := by
      rw [masked.mask_eq, matchKey_leading masked.len_le]
      exact ⟨SamePrefix.symm, SamePrefix.symm⟩
    by_cases agree : matchKey key d.key d.mask
    · have covers : Covers d key len := ⟨by omega, keyed.mp agree⟩
      simp only [agree, Bool.not_true, Bool.false_eq_true, if_false, covers, iff_true]
      cases link (checkBit key (d.len+1)) with
      | null => rfl
      | node e below =>
        dsimp only
        cases ptnFindLpm key len (.node e below) with
        | none => rfl
        | some p => rfl
    · simp only [agree, Bool.not_false, if_true, Option.isSome_none, Bool.false_eq_true, false_iff]
      exact fun covers => agree (keyed.mpr covers.2)

theorem ptnFindLpm_node (link : Bool → Ptn) (masked : d.Masked)
    (other : ¬ (d.key = key ∧ d.len = len))
    (covers : Covers d key len) :
    ptnFindLpm key len (.node d link) =
      some (((ptnFindLpm key len (link (key.getMsbD d.len))).map
        (key.getMsbD d.len :: ·)).getD []) := by
  have agree : matchKey key d.key d.mask = true := by
    rw [masked.mask_eq, matchKey_leading masked.len_le]
    exact covers.2.symm
  conv_lhs => unfold ptnFindLpm
  rw [if_neg other, if_neg (show ¬ d.len > len by have := covers.1; omega), checkBit_succ]
  simp only [agree, Bool.not_true, Bool.false_eq_true, if_false]
  cases link (key.getMsbD d.len) with
  | null => rfl
  | node e below =>
    dsimp only
    cases ptnFindLpm key len (.node e below) with
    | none => rfl
    | some p => rfl

section Attach

variable {child : PtnData} (masked : child.Masked)
variable {d : PtnData} {link : Bool → Ptn} (wf : WellFormed (.node d link))
variable (covers : Covers d child.key child.len)
variable (other : ¬ (d.key = child.key ∧ d.len = child.len))

include masked wf covers other in
theorem covers_len_lt : d.len < child.len := by
  rcases Nat.lt_or_eq_of_le covers.1 with hlt | heq
  · exact hlt
  · refine False.elim (other ⟨covers.2.eq_of_trimmed wf.1.trimmed ?_, heq⟩)
    rw [heq]
    exact masked.trimmed

include wf covers other in
theorem attach_of_some {p : Path}
    (deeper : ptnFindLpm child.key child.len (link (child.key.getMsbD d.len)) = some p) :
    attach child (.node d link) =
      .node d (update link (child.key.getMsbD d.len)
        (attach child (link (child.key.getMsbD d.len)))) ∧
    aligned child (.node d link) = aligned child (link (child.key.getMsbD d.len)) := by
  have found := ptnFindLpm_node link wf.1 other covers
  rw [deeper] at found
  constructor
  · simp only [attach, found, deeper, Option.map_some, Option.getD_some, Ptn.modify]
  · simp only [aligned, found, deeper, Option.map_some, Option.getD_some, Ptn.get]

include wf covers other in
theorem attach_of_none
    (stop : ptnFindLpm child.key child.len (link (child.key.getMsbD d.len)) = none) :
    attach child (.node d link) = ptnSetChild child (.node d link) ∧
    aligned child (.node d link) = insertAligned child (.node d link) := by
  have found := ptnFindLpm_node link wf.1 other covers
  rw [stop] at found
  constructor
  · simp only [attach, found, Option.map_none, Option.getD_none, Option.getD_some, Ptn.modify]
  · simp only [aligned, found, Option.map_none, Option.getD_none, Option.getD_some, Ptn.get]

end Attach

/-- The glue node `n` below `d`, at which the prefixes of `child` and `e` part. -/
structure Parts (n d child e : PtnData) : Prop where
  masked : n.Masked
  bare : n.routes = .empty
  len_gt : d.len < n.len
  len_lt : n.len < child.len
  len_lt' : n.len < e.len
  same : SamePrefix n.len n.key child.key
  same' : SamePrefix n.len n.key e.key
  bit : child.key.getMsbD n.len = !e.key.getMsbD n.len

theorem split_parts {e : PtnData} (masked : child.Masked)
    (same : SamePrefix (d.len+1) child.key e.key)
    (apart : ¬ SamePrefix (min child.len e.len) child.key e.key) :
    Parts (split child.key e.key) d child e := by
  obtain ⟨n, hn, hsplit, agree, differ⟩ := split_spec child.key e.key
  have bound := masked.len_le
  have short : n < min child.len e.len := by
    by_contra hge
    exact apart (agree.mono (by omega))
  have bit : child.key.getMsbD n ≠ e.key.getMsbD n := by
    by_cases hlast : n < 31
    · exact differ hlast
    · intro heq
      exact apart ((samePrefix_succ.mpr ⟨agree, heq⟩).mono (by omega))
  have deep : d.len < n := by
    by_contra hge
    exact bit (same n (by omega))
  have own : SamePrefix n (child.key &&& leading 32 n) child.key :=
    samePrefix_and_leading (Nat.le_refl n) (by omega) _
  rw [hsplit]
  exact {
    masked := ⟨Nat.le_of_lt hn, rfl, trimmed_and_leading n _⟩
    bare := rfl
    len_gt := deep
    len_lt := by dsimp only; omega
    len_lt' := by dsimp only; omega
    same := own
    same' := own.trans agree
    bit := Bool.eq_not_of_ne bit }

theorem not_covers_of_stop {e : PtnData} {l : Bool → Ptn} (masked : e.Masked)
    (stop : ptnFindLpm key len (.node e l) = none) : ¬ Covers e key len := by
  intro covers
  by_cases heq : e.key = key ∧ e.len = len
  · simp [ptnFindLpm, heq] at stop
  · have found := (ptnFindLpm_isSome_iff l masked heq).mpr covers
    rw [stop] at found
    cases found

/-- The three shapes of `ptn_set_child`, under the alignment of the insert branch. -/
theorem ptnSetChild_spec (masked : child.Masked)
    (wf : WellFormed (.node d link)) (covers : Covers d child.key child.len)
    (other : ¬ (d.key = child.key ∧ d.len = child.len))
    (stop : ptnFindLpm child.key child.len (link (child.key.getMsbD d.len)) = none)
    (side : insertAligned child (.node d link) = true) :
    ∃ t, ptnSetChild child (.node d link) =
        .node d (update link (child.key.getMsbD d.len) t) ∧
      Below d (child.key.getMsbD d.len) t ∧ WellFormed t ∧
      Inserts child (link (child.key.getMsbD d.len)) t := by
  have longer := covers_len_lt masked wf covers other
  obtain ⟨below, sub⟩ := wf.2 (child.key.getMsbD d.len)
  cases hlink : link (child.key.getMsbD d.len) with
  | null =>
    refine ⟨.leaf child, ?_, ⟨longer, covers.2, rfl⟩, wellFormed_leaf masked,
      inserts_leaf masked⟩
    simp only [ptnSetChild, checkBit_succ, hlink]
  | node e l =>
    rw [hlink] at below sub stop
    obtain ⟨elen, esame, ebit⟩ := below
    have uncovered := not_covers_of_stop sub.1 stop
    have agree : SamePrefix (d.len+1) child.key e.key :=
      samePrefix_succ.mpr ⟨covers.2.symm.trans esame, ebit.symm⟩
    by_cases inside : matchKey child.key e.key child.mask
    · -- the existing node lies under the new prefix
      have hsame : SamePrefix child.len child.key e.key := by
        rwa [masked.mask_eq, matchKey_leading masked.len_le] at inside
      have hlt : child.len < e.len := by
        by_contra hge
        exact uncovered ⟨by omega, (hsame.mono (by omega)).symm⟩
      have hbit : e.key.getMsbD child.len = child.key.getMsbD d.len := by
        simpa [insertAligned, checkBit_succ, hlink, inside] using side
      have hbelow : Below child (child.key.getMsbD d.len) (.node e l) := ⟨hlt, hsame, hbit⟩
      refine ⟨inserted child (child.key.getMsbD d.len) (.node e l), ?_, ⟨longer, covers.2, rfl⟩,
        wellFormed_inserted masked hbelow sub, inserts_inserted masked hbelow sub⟩
      simp only [ptnSetChild, checkBit_succ, hlink, inside, if_true, inserted]
    · -- the two prefixes part at a glue node
      have apart : ¬ SamePrefix (min child.len e.len) child.key e.key := by
        intro hmin
        by_cases hle : e.len ≤ child.len
        · exact uncovered ⟨hle, (hmin.mono (by omega)).symm⟩
        · apply inside
          rw [masked.mask_eq, matchKey_leading masked.len_le]
          exact hmin.mono (by omega)
      have parts : Parts (split child.key e.key) d child e := split_parts masked agree apart
      have hbelow : Below (split child.key e.key) (e.key.getMsbD (split child.key e.key).len)
          (.node e l) := ⟨parts.len_lt', parts.same', rfl⟩
      refine ⟨glued (split child.key e.key) child (e.key.getMsbD (split child.key e.key).len)
          (.node e l), ?_, ⟨parts.len_gt, ?_, parts.same d.len parts.len_gt⟩,
        wellFormed_glued parts.masked masked hbelow sub parts.len_lt parts.same parts.bit,
        inserts_glued parts.masked masked hbelow sub parts.len_lt parts.same parts.bit
          parts.bare⟩
      · simp only [ptnSetChild, checkBit_succ, hlink, inside, glued]
        rfl
      · exact covers.2.trans (parts.same.mono (Nat.le_of_lt parts.len_gt)).symm

/-- Attaching a new prefix keeps the tree well formed and adds exactly its routes,
provided that the insert branch is aligned wherever it is taken. -/
theorem attach_spec (masked : child.Masked)
    (wf : WellFormed (.node d link)) (covers : Covers d child.key child.len)
    (absent : ptnFind child.key child.len (.node d link) = none)
    (side : aligned child (.node d link) = true) :
    ∃ link', attach child (.node d link) = .node d link' ∧ WellFormed (.node d link') ∧
      Inserts child (.node d link) (.node d link') := by
  generalize htree : Ptn.node d link = t at wf absent side
  induction t generalizing d link with
  | null => cases htree
  | node d link ih =>
    cases htree
    have other : ¬ (d.key = child.key ∧ d.len = child.len) := by
      intro heq
      rw [ptnFind_node wf, if_pos heq] at absent
      cases absent
    rw [ptnFind_node wf, if_neg other] at absent
    have absent' := Option.map_eq_none_iff.mp absent
    cases hlpm : ptnFindLpm child.key child.len (link (child.key.getMsbD d.len)) with
    | none =>
      obtain ⟨hattach, haligned⟩ := attach_of_none wf covers other hlpm
      obtain ⟨t, hset, below, sub, inserts⟩ :=
        ptnSetChild_spec masked wf covers other hlpm (haligned ▸ side)
      exact ⟨_, hattach.trans hset, wellFormed_update wf below sub,
        inserts_update wf below sub rfl other inserts⟩
    | some p =>
      obtain ⟨hattach, haligned⟩ := attach_of_some wf covers other hlpm
      obtain ⟨below, sub⟩ := wf.2 (child.key.getMsbD d.len)
      cases hlink : link (child.key.getMsbD d.len) with
      | null =>
        rw [hlink] at hlpm
        cases hlpm
      | node e l =>
        rw [hlink] at below sub hlpm hattach haligned absent'
        have distinct : ¬ (e.key = child.key ∧ e.len = child.len) := by
          intro heq
          rw [ptnFind_node sub, if_pos heq] at absent'
          cases absent'
        have hcov := (ptnFindLpm_isSome_iff l sub.1 distinct).mp (by rw [hlpm]; rfl)
        obtain ⟨l', hl', wf', inserts⟩ :=
          ih (child.key.getMsbD d.len) hcov hlink.symm (hlink ▸ sub) (hlink ▸ absent')
            (hlink ▸ haligned ▸ side)
        rw [hlink] at hl'
        rw [hl'] at hattach
        have below' : Below d (child.key.getMsbD d.len) (.node e l') := below
        exact ⟨_, hattach, wellFormed_update wf below' wf',
          inserts_update wf below' wf' rfl other inserts⟩

theorem lookup_of_mem (wf : WellFormed t) (member : x ∈ t.nodes) :
    lookup x.key x.len t = x.routes := by
  obtain ⟨p, link, found, hget⟩ := ptnFind_complete wf member
  simp only [lookup, found, hget, routesAt]

theorem modify_spec (f : NodeRoutes → NodeRoutes)
    (wf : WellFormed (.node d link)) {p : Path}
    (found : ptnFind key len (.node d link) = some p) :
    ∃ r link', (Ptn.node d link).modify (mapRoutes f) p = .node { d with routes := r } link' ∧
      WellFormed (.node { d with routes := r } link') ∧
      ∀ k l, lookup k l (.node { d with routes := r } link') =
        if key = k ∧ len = l then f (lookup k l (.node d link)) else lookup k l (.node d link) := by
  generalize htree : Ptn.node d link = t at wf found
  induction t generalizing d link p with
  | null => cases htree
  | node d link ih =>
    cases htree
    rw [ptnFind_node wf] at found
    by_cases here : d.key = key ∧ d.len = len
    · rw [if_pos here] at found
      cases found
      refine ⟨f d.routes, link, rfl, ⟨⟨wf.1.len_le, wf.1.mask_eq, wf.1.trimmed⟩, wf.2⟩, ?_⟩
      intro k l
      rw [lookup_node wf, lookup_node (d := { d with routes := f d.routes })
        ⟨⟨wf.1.len_le, wf.1.mask_eq, wf.1.trimmed⟩, wf.2⟩, here.1, here.2]
      by_cases hk : key = k ∧ len = l
      · simp [hk]
      · simp [hk]
    · rw [if_neg here] at found
      obtain ⟨q, hq, rfl⟩ := Option.map_eq_some_iff.mp found
      obtain ⟨below, sub⟩ := wf.2 (key.getMsbD d.len)
      cases hlink : link (key.getMsbD d.len) with
      | null =>
        rw [hlink] at hq
        cases hq
      | node e l =>
        obtain ⟨r, l', hmod, wf', hlook⟩ := ih _ hlink.symm sub hq
        rw [hlink] at below hlook
        have below' : Below d (key.getMsbD d.len) (.node { e with routes := r } l') := below
        refine ⟨d.routes,
          update link (key.getMsbD d.len) (.node { e with routes := r } l'), ?_,
          wellFormed_update wf below' wf', ?_⟩
        · rw [← hmod]
          rfl
        · intro k l
          rw [lookup_node (wellFormed_update wf below' wf'), lookup_node wf]
          by_cases hk : d.key = k ∧ d.len = l
          · rw [if_pos hk, if_pos hk, if_neg]
            rintro ⟨rfl, rfl⟩
            exact here hk
          · rw [if_neg hk, if_neg hk]
            by_cases side : k.getMsbD d.len = key.getMsbD d.len
            · rw [side, update_self, hlook, hlink]
            · rw [update_of_ne side, if_neg]
              rintro ⟨rfl, _⟩
              exact side rfl

/-- The effect of a walk on the routes of one node. -/
def visited (f : NodeRoutes → NodeRoutes × List Effect) (n : NodeRoutes) : NodeRoutes :=
  if n.rt = [] then n else (f n).1

section

variable (f : NodeRoutes → NodeRoutes × List Effect)

include f

theorem visited_empty :
    visited f .empty = .empty := rfl

theorem ptnWalk_node (d : PtnData) (link : Bool → Ptn) : (ptnWalk f (.node d link)).1 =
      .node { d with routes := visited f d.routes } (fun b => (ptnWalk f (link b)).1) := by
  simp only [ptnWalk, visited]
  by_cases h : d.routes.rt = []
  · simp [h]
  · simp [h]

theorem below_ptnWalk (below : Below d b t) (r : NodeRoutes) :
    Below { d with routes := r } b (ptnWalk f t).1 := by
  cases t with
  | null => trivial
  | node c link =>
    rw [ptnWalk_node]
    exact below

theorem wellFormed_ptnWalk (wf : WellFormed t) : WellFormed (ptnWalk f t).1 := by
  induction t with
  | null => trivial
  | node d link ih =>
    rw [ptnWalk_node]
    refine ⟨⟨wf.1.len_le, wf.1.mask_eq, wf.1.trimmed⟩, ?_⟩
    intro b
    exact ⟨below_ptnWalk f (wf.2 b).1 _, ih b (wf.2 b).2⟩

theorem lookup_ptnWalk (wf : WellFormed t) (key : BitVec 32) (len : Nat) :
    lookup key len (ptnWalk f t).1 = visited f (lookup key len t) := by
  induction t with
  | null => exact (visited_empty f).symm
  | node d link ih =>
    have wf' := wellFormed_ptnWalk f wf
    rw [ptnWalk_node] at wf' ⊢
    rw [lookup_node wf', lookup_node wf]
    by_cases here : d.key = key ∧ d.len = len
    · rw [if_pos here, if_pos here]
    · rw [if_neg here, if_neg here]
      exact ih _ (wf.2 _).2

end

theorem below_ptnPurge (below : Below d b t) :
    Below d b (ptnPurge false t) := by
  cases t with
  | null => trivial
  | node c link =>
    unfold ptnPurge
    dsimp only
    split
    · trivial
    · exact below

theorem wellFormed_ptnPurge (wf : WellFormed t) (isRoot : Bool) :
    WellFormed (ptnPurge isRoot t) := by
  induction t generalizing isRoot with
  | null => trivial
  | node d link ih =>
    unfold ptnPurge
    dsimp only
    split
    · trivial
    · exact ⟨wf.1, fun b => ⟨below_ptnPurge (wf.2 b).1, ih b (wf.2 b).2 false⟩⟩

theorem lookup_ptnPurge (wf : WellFormed t)
    (clean : ∀ x ∈ t.nodes, x.routes.rt = [] → x.routes = .empty) (isRoot : Bool)
    (key : BitVec 32) (len : Nat) :
    lookup key len (ptnPurge isRoot t) = lookup key len t := by
  induction t generalizing isRoot with
  | null => rfl
  | node d link ih =>
    have children : ∀ b, lookup key len (ptnPurge false (link b)) = lookup key len (link b) :=
      fun b => ih b (wf.2 b).2
        (fun x hx => clean x (mem_nodes_node.mpr (Or.inr ⟨b, hx⟩))) false
    have wf' := wellFormed_ptnPurge wf isRoot
    unfold ptnPurge at wf' ⊢
    dsimp only at wf' ⊢
    split
    · rename_i purged
      simp only [Bool.and_eq_true, List.isEmpty_iff] at purged
      have bare := clean d (mem_nodes_node.mpr (Or.inl rfl)) purged.2
      have gone : ∀ b, ptnPurge false (link b) = .null := by
        intro b
        have hnull : isNull (ptnPurge false (link b)) = true := by
          cases b
          · exact purged.1.1.2
          · exact purged.1.2
        cases h : ptnPurge false (link b) with
        | null => rfl
        | node c l =>
          rw [h] at hnull
          cases hnull
      rw [lookup_node wf, ← children, gone, bare, lookup_null, ite_self]
    · rename_i kept
      rw [if_neg kept] at wf'
      rw [lookup_node wf', lookup_node wf, children]

theorem ptnPurge_root (d : PtnData) (link : Bool → Ptn) :
    ptnPurge true (.node d link) = .node d (fun b => ptnPurge false (link b)) := by
  simp [ptnPurge]

/-- Every prefix of the tree satisfies `P`. -/
def Prefixes (P : BitVec 32 → Nat → Prop) (t : Ptn) : Prop := ∀ x ∈ t.nodes, P x.key x.len

theorem prefixes_node :
    Prefixes P (.node d link) ↔ P d.key d.len ∧ ∀ b, Prefixes P (link b) := by
  constructor
  · intro all
    exact ⟨all d (mem_nodes_node.mpr (Or.inl rfl)),
      fun b x hx => all x (mem_nodes_node.mpr (Or.inr ⟨b, hx⟩))⟩
  · rintro ⟨here, below⟩ x hx
    rcases mem_nodes_node.mp hx with rfl | ⟨b, hb⟩
    · exact here
    · exact below b x hb

theorem prefixes_update (all : Prefixes P (.node d link)) (sub : Prefixes P t) :
    Prefixes P (.node d (update link b t)) := by
  obtain ⟨here, below⟩ := prefixes_node.mp all
  refine prefixes_node.mpr ⟨here, ?_⟩
  intro c
  by_cases heq : c = b
  · rw [heq, update_self]
    exact sub
  · rw [update_of_ne heq]
    exact below c

theorem prefixes_modify (f : NodeRoutes → NodeRoutes)
    (all : Prefixes P t) (p : Path) : Prefixes P (t.modify (mapRoutes f) p) := by
  induction p generalizing t with
  | nil =>
    cases t with
    | null => exact all
    | node d link =>
      obtain ⟨here, below⟩ := prefixes_node.mp all
      exact prefixes_node.mpr ⟨here, below⟩
  | cons b p ih =>
    cases t with
    | null => exact all
    | node d link => exact prefixes_update all (ih ((prefixes_node.mp all).2 b))

theorem prefixes_ptnWalk (f : NodeRoutes → NodeRoutes × List Effect)
    (all : Prefixes P t) : Prefixes P (ptnWalk f t).1 := by
  induction t with
  | null => exact all
  | node d link ih =>
    obtain ⟨here, below⟩ := prefixes_node.mp all
    rw [ptnWalk_node]
    exact prefixes_node.mpr ⟨here, fun b => ih b (below b)⟩

theorem prefixes_ptnPurge (all : Prefixes P t)
    (isRoot : Bool) : Prefixes P (ptnPurge isRoot t) := by
  induction t generalizing isRoot with
  | null => exact all
  | node d link ih =>
    obtain ⟨here, below⟩ := prefixes_node.mp all
    unfold ptnPurge
    dsimp only
    split
    · intro x hx
      cases hx
    · exact prefixes_node.mpr ⟨here, fun b => ih b (below b) false⟩

theorem effects_subset_ptnWalk (f : NodeRoutes → NodeRoutes × List Effect)
    (member : x ∈ t.nodes) (some : x.routes.rt ≠ []) : (f x.routes).2 ⊆ (ptnWalk f t).2 := by
  induction t with
  | null => cases member
  | node d link ih =>
    intro e he
    simp only [ptnWalk, List.mem_append]
    rcases mem_nodes_node.mp member with rfl | ⟨b, hb⟩
    · rw [if_neg some]
      exact Or.inl (Or.inl he)
    · have later := ih b hb he
      cases b with
      | false => exact Or.inl (Or.inr later)
      | true => exact Or.inr later

end PatriciaTree
