import Rcp100.RouteTable

/-!
# Longest prefix match

`route_find_lpm` descends to the last node that covers the address and returns the
first route of that node. Nodes without a route also cover addresses: glue nodes of
`split`, nodes swept empty at the end of a cycle, and the root.
-/

namespace LongestMatch

open BitPrefix IpAddress RouteEntry PatriciaTree RouteTable

/-- The inner `none` is the `NULL` parent of the root, which the source asserts
away; `root_found` shows that the search stops at the root or below it. -/
def routeFindLpm (t : Table) (ip mask : BitVec 32) (len : Nat) : Option Rt :=
  match t.ptreeRoot with
  | .null => none
  | .node d link =>
    match ptnFindLpm ip (updateMasklen mask len).2 (.node d link) with
    | none => none
    | some p => (routesAt ((Ptn.node d link).get p)).rt.head?

/-- The answer of a longest prefix match among the stored prefixes that have a route. -/
def IsLongestMatch (t : Ptn) (a : BitVec 32) : Option Rt → Prop
  | some r => ∃ d ∈ t.nodes, Covers d a 32 ∧ d.routes.rt.head? = some r ∧
      ∀ e ∈ t.nodes, Covers e a 32 → e.routes.rt ≠ [] → e.len ≤ d.len
  | none => ∀ d ∈ t.nodes, Covers d a 32 → d.routes.rt = []

/-- No node covering the address is longer. -/
def Deepest (t : Ptn) (a : BitVec 32) (d : PtnData) : Prop :=
  d ∈ t.nodes ∧ Covers d a 32 ∧ ∀ e ∈ t.nodes, Covers e a 32 → e.len ≤ d.len

/-- The longest node that covers the address has a route, unless no node that
covers it has one. -/
def Unhidden (t : Ptn) (a : BitVec 32) : Prop :=
  ∀ d, Deepest t a d → d.routes.rt = [] → ∀ e ∈ t.nodes, Covers e a 32 → e.routes.rt = []

variable {d : PtnData} {a : BitVec 32} {t : Ptn}

theorem side_of_covers {e : PtnData} {link : Bool → Ptn} (wf : WellFormed (.node d link))
    {b : Bool} (member : e ∈ (link b).nodes) (covers : Covers e a 32) :
    b = a.getMsbD d.len := by
  obtain ⟨longer, _, bit⟩ := below_nodes (wf.2 b).2 (wf.2 b).1 member
  exact bit.symm.trans (covers.2 d.len longer)

theorem covers_of_below {c e : PtnData} {l : Bool → Ptn} (wf : WellFormed (.node c l))
    (member : e ∈ (Ptn.node c l).nodes) (covers : Covers e a 32)
    (below : c.len ≤ 32) : Covers c a 32 := by
  rcases mem_nodes_node.mp member with rfl | ⟨b, deeper⟩
  · exact covers
  · obtain ⟨longer, same, _⟩ := below_nodes (wf.2 b).2 (wf.2 b).1 deeper
    exact ⟨below, same.trans (covers.2.mono (Nat.le_of_lt longer))⟩

theorem ptnFindLpm_deepest (wf : WellFormed t) {r : PtnData} {top : Bool → Ptn}
    (shape : t = .node r top) (covers : Covers r a 32) :
    ∃ p x l, ptnFindLpm a 32 t = some p ∧ t.get p = .node x l ∧ Deepest t a x := by
  induction t generalizing r top with
  | null => cases shape
  | node d link ih =>
    cases shape
    by_cases here : d.key = a ∧ d.len = 32
    · refine ⟨[], d, link, by simp [ptnFindLpm, here], rfl, ?_⟩
      refine ⟨mem_nodes_node.mpr (.inl rfl), covers, ?_⟩
      intro e _ covering
      exact here.2 ▸ covering.1
    have descent := ptnFindLpm_node link wf.1 here covers
    obtain ⟨_, sub⟩ := wf.2 (a.getMsbD d.len)
    -- whatever covers the address and is not this node lies under the link taken
    have split : ∀ e ∈ (Ptn.node d link).nodes, Covers e a 32 →
        e = d ∨ e ∈ (link (a.getMsbD d.len)).nodes := by
      intro e member covering
      rcases mem_nodes_node.mp member with rfl | ⟨b, deeper⟩
      · exact .inl rfl
      · exact .inr (side_of_covers wf deeper covering ▸ deeper)
    cases next : link (a.getMsbD d.len) with
    | null =>
      rw [next] at descent split
      refine ⟨[], d, link, descent, rfl, mem_nodes_node.mpr (.inl rfl), covers, ?_⟩
      intro e member covering
      rcases split e member covering with rfl | deeper
      · exact Nat.le_refl _
      · cases deeper
    | node c l =>
      rw [next] at descent split sub
      by_cases further : Covers c a 32
      · obtain ⟨p, x, lx, found, get, deepest⟩ := ih (a.getMsbD d.len) (next ▸ sub) next further
        have below := below_nodes (wf.2 _).2 (wf.2 _).1 deepest.1
        rw [next] at found get deepest
        rw [found] at descent
        refine ⟨a.getMsbD d.len :: p, x, lx, descent, ?_, ?_, deepest.2.1, ?_⟩
        · simpa only [Ptn.get, next] using get
        · exact mem_nodes_node.mpr (.inr ⟨_, next ▸ deepest.1⟩)
        · intro e member covering
          rcases split e member covering with rfl | deeper
          · exact Nat.le_of_lt below.1
          · exact deepest.2.2 e deeper covering
      · have stop : ptnFindLpm a 32 (.node c l) = none := by
          cases found : ptnFindLpm a 32 (.node c l) with
          | none => rfl
          | some p =>
            by_cases whole : c.key = a ∧ c.len = 32
            · exact False.elim (further ⟨Nat.le_of_eq whole.2, whole.1 ▸ fun _ _ => rfl⟩)
            · have covering := (ptnFindLpm_isSome_iff l sub.1 whole).mp (by simp [found])
              exact False.elim (further covering)
        rw [stop] at descent
        refine ⟨[], d, link, descent, rfl, mem_nodes_node.mpr (.inl rfl), covers, ?_⟩
        intro e member covering
        rcases split e member covering with rfl | deeper
        · exact Nat.le_refl _
        · exact False.elim (further (covers_of_below sub deeper covering sub.1.len_le))

theorem masked_of_mem (wf : WellFormed t) (member : d ∈ t.nodes) :
    d.Masked := by
  induction t with
  | null => cases member
  | node c link ih =>
    rcases mem_nodes_node.mp member with rfl | ⟨b, deeper⟩
    · exact wf.1
    · exact ih b (wf.2 b).2 deeper

theorem Deepest.routes_eq (wf : WellFormed t) {x y : PtnData}
    (hx : Deepest t a x) (hy : Deepest t a y) : x.routes = y.routes := by
  have len : x.len = y.len :=
    Nat.le_antisymm (hy.2.2 x hx.1 hx.2.1) (hx.2.2 y hy.1 hy.2.1)
  have same : SamePrefix x.len x.key y.key := hx.2.1.2.trans (len ▸ hy.2.1.2.symm)
  have key : x.key = y.key :=
    same.eq_of_trimmed (masked_of_mem wf hx.1).trimmed (len ▸ (masked_of_mem wf hy.1).trimmed)
  rw [← lookup_of_mem wf hx.1, ← lookup_of_mem wf hy.1, key, len]

theorem root_found {t : Table} {m : RouteMap} (refines : Refines t m)
    {link : Bool → Ptn} (root : t.ptreeRoot = .node d link) (a : BitVec 32) :
    ∃ x, Deepest t.ptreeRoot a x ∧ routeFindLpm t a 0xffffffff 32 = x.routes.rt.head? := by
  have covers : Covers d a 32 := by
    refine ⟨?_, ?_⟩
    · exact (refines.rooted d link root).2 ▸ Nat.zero_le 32
    · exact (refines.rooted d link root).2 ▸ samePrefix_zero _ _
  have host : (updateMasklen 0xffffffff 32).2 = 32 := by decide
  obtain ⟨p, x, l, found, get, deepest⟩ := ptnFindLpm_deepest refines.wf root covers
  refine ⟨x, deepest, ?_⟩
  rw [root] at found get
  simp only [routeFindLpm, root, host, found, get, routesAt]

theorem isLongestMatch_iff {t : Table} {m : RouteMap} (refines : Refines t m) (a : BitVec 32) :
    IsLongestMatch t.ptreeRoot a (routeFindLpm t a 0xffffffff 32) ↔ Unhidden t.ptreeRoot a := by
  cases root : t.ptreeRoot with
  | null =>
    have none : routeFindLpm t a 0xffffffff 32 = none := by simp only [routeFindLpm, root]
    rw [none]
    constructor
    · rintro _ d ⟨member, _⟩
      cases member
    · intro _ d member
      cases member
  | node d link =>
    obtain ⟨x, deepest, answer⟩ := root_found refines root a
    have wf := refines.wf
    rw [root] at deepest wf
    rw [answer]
    constructor
    · intro longest y hy bare
      rw [deepest.routes_eq wf hy, bare] at longest
      exact longest
    · intro unhidden
      cases first : x.routes.rt.head? with
      | none => exact unhidden x deepest (List.head?_eq_none_iff.mp first)
      | some r =>
        exact ⟨x, deepest.1, deepest.2.1, first, fun e member covers _ =>
          deepest.2.2 e member covers⟩

/-- In the tree of every run with aligned insertions, the match is right for an
address exactly when no longer node without a route hides a covering route. -/
theorem routeFindLpm_longest_iff (ops : List Op) (masked : ∀ op ∈ ops, op.WellMasked)
    (side : alignedRun .initial ops = true) (a : BitVec 32) :
    IsLongestMatch (run .initial ops).ptreeRoot a
        (routeFindLpm (run .initial ops) a 0xffffffff 32) ↔
      Unhidden (run .initial ops).ptreeRoot a :=
  isLongestMatch_iff (run_refines initial_refines masked side) a

/-- 10.0.0.0/8, then 10.1.0.0/16 and 10.2.0.0/16, which `split` glues at 10.0.0.0/14. -/
def siblingOps : List Op :=
  [.routeAdd (intraRoute 0x0a000000 0xff000000 0xc0a80001),
    .routeAdd (intraRoute 0x0a010000 0xffff0000 0xc0a80002),
    .routeAdd (intraRoute 0x0a020000 0xffff0000 0xc0a80003)]

instance (d : PtnData) (a : BitVec 32) : Decidable (Covers d a 32) :=
  inferInstanceAs (Decidable (d.len ≤ 32 ∧ ∀ i, i < d.len → d.key.getMsbD i = a.getMsbD i))

instance (t : Ptn) (a : BitVec 32) (answer : Option Rt) :
    Decidable (IsLongestMatch t a answer) :=
  match answer with
  | some r => inferInstanceAs (Decidable (∃ d ∈ t.nodes, Covers d a 32 ∧
      d.routes.rt.head? = some r ∧
      ∀ e ∈ t.nodes, Covers e a 32 → e.routes.rt ≠ [] → e.len ≤ d.len))
  | none => inferInstanceAs (Decidable (∀ d ∈ t.nodes, Covers d a 32 → d.routes.rt = []))

/-- 10.3.0.1 lies in 10.0.0.0/8, and the glue node above it has no route. -/
theorem glue_hides_route :
    (∀ op ∈ siblingOps, op.WellMasked) ∧ alignedRun .initial siblingOps = true ∧
      routeFindLpm (run .initial siblingOps) 0x0a030001 0xffffffff 32 = none ∧
      ¬ IsLongestMatch (run .initial siblingOps).ptreeRoot 0x0a030001
        (routeFindLpm (run .initial siblingOps) 0x0a030001 0xffffffff 32) := by
  decide

/-- 10.2.0.1 lies under 10.2.0.0/16, which has a route. -/
theorem routeFindLpm_longest_host :
    routeFindLpm (run .initial siblingOps) 0x0a020001 0xffffffff 32 =
        some (newRt 0 (intraRoute 0x0a020000 0xffff0000 0xc0a80003)) ∧
      Unhidden (run .initial siblingOps).ptreeRoot 0x0a020001 :=
  ⟨by decide, (routeFindLpm_longest_iff siblingOps (by decide) (by decide) 0x0a020001).mp
    (by decide)⟩

end LongestMatch
