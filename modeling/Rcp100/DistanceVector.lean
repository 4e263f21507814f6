import Mathlib.Data.List.Induction
import Mathlib.Data.List.Basic

/-!
# A receiver of distance announcements

For one destination, a receiver hears announcements of a next hop with a metric, in
some order. It keeps the routes of least cost: an announcement replaces the route of
its next hop, and what is then worse than the best route is dropped and not heard of
again. A cost that reaches `inf` withdraws the route. Next hops are of any type.

What the receiver ends with depends on the order, but not much: a route carries the
last metric of its next hop, all routes have one cost, and a next hop whose last
metric is least in the whole sequence has a route.
-/

namespace DistanceVector

universe u

variable {H : Type u}

/-- The routes of the destination: next hops with their costs. -/
abbrev Routes (H : Type u) := H → Nat → Prop

/-- The routes from which the best are chosen when `hop` announces `metric`. -/
def candidate (inf : Nat) (routes : Routes H) (hop : H) (metric : Nat) : Routes H :=
  fun h cost => (h = hop ∧ cost = metric+1 ∧ cost < inf) ∨ (h ≠ hop ∧ routes h cost)

def least (routes : Routes H) : Routes H :=
  fun h cost => routes h cost ∧ ∀ h' cost', routes h' cost' → cost ≤ cost'

/-- Routes that cost more than some other route do not count among the best. -/
theorem least_eq_of_dominated {routes more : Routes H} (sub : ∀ h cost, routes h cost → more h cost)
    (dominated : ∀ h cost, more h cost →
      routes h cost ∨ ∃ h' cost', routes h' cost' ∧ cost' < cost) :
    least more = least routes := by
  funext h cost
  apply propext
  constructor
  · rintro ⟨route, lowest⟩
    refine ⟨?_, fun h' cost' other => lowest h' cost' (sub h' cost' other)⟩
    rcases dominated h cost route with own | ⟨h', cost', other, less⟩
    · exact own
    · exact absurd (lowest h' cost' (sub h' cost' other)) (Nat.not_le_of_lt less)
  · rintro ⟨route, lowest⟩
    refine ⟨sub h cost route, ?_⟩
    intro h' cost' other
    rcases dominated h' cost' other with own | ⟨h'', cost'', better, less⟩
    · exact lowest h' cost' own
    · exact Nat.le_trans (lowest h'' cost'' better) (Nat.le_of_lt less)

theorem least_of_level {routes : Routes H}
    (level : ∀ h cost h' cost', routes h cost → routes h' cost' → cost = cost') :
    least routes = routes := by
  funext h cost
  apply propext
  constructor
  · exact fun route => route.1
  · exact fun route =>
        ⟨route, fun h' cost' other => Nat.le_of_eq (level h cost h' cost' route other)⟩

def advance (inf : Nat) (routes : Routes H) (heard : H × Nat) : Routes H :=
  least (candidate inf routes heard.1 heard.2)

def noRoutes : Routes H := fun _ _ => False

def settle (inf : Nat) (heard : List (H × Nat)) : Routes H := heard.foldl (advance inf) noRoutes

theorem settle_append (inf : Nat) (heard : List (H × Nat)) (a : H × Nat) :
    settle inf (heard ++ [a]) = advance inf (settle inf heard) a := by
  rw [settle, List.foldl_append]
  rfl

variable {inf metric : Nat} {heard : List (H × Nat)} {hop : H}

theorem settle_level {h h' : H} {cost cost' : Nat}
    (route : settle inf heard h cost) (route' : settle inf heard h' cost') : cost = cost' := by
  cases heard using List.reverseRecOn with
  | nil => exact False.elim route
  | append_singleton heard a =>
    rw [settle_append] at route route'
    exact Nat.le_antisymm (route.2 h' cost' route'.1) (route'.2 h cost route.1)

theorem settle_restart {rest : List (H × Nat)} {a : H × Nat}
    (only : ∀ h cost, settle inf heard h cost → h = a.1) :
    settle inf (heard ++ a :: rest) = settle inf (a :: rest) := by
  have same : candidate inf (settle inf heard) a.1 a.2 = candidate inf noRoutes a.1 a.2 := by
    funext h cost
    apply propext
    constructor
    · rintro (own | ⟨apart, route⟩)
      · exact .inl own
      · exact False.elim (apart (only h cost route))
    · rintro (own | ⟨_, none⟩)
      · exact .inl own
      · exact False.elim none
  have first : advance inf (settle inf heard) a = advance inf noRoutes a := congrArg least same
  unfold settle at first ⊢
  rw [List.foldl_append, List.foldl_cons, List.foldl_cons, first]

variable [DecidableEq H]

/-- The last metric that a next hop announces. -/
def lastFrom (hop : H) (heard : List (H × Nat)) : Option Nat :=
  (heard.filter (fun a => a.1 = hop)).getLast?.map Prod.snd

theorem lastFrom_append (hop : H) (heard : List (H × Nat)) (a : H × Nat) :
    lastFrom hop (heard ++ [a]) = if a.1 = hop then some a.2 else lastFrom hop heard := by
  unfold lastFrom
  by_cases same : a.1 = hop
  · simp [List.filter_append, same]
  · simp [List.filter_append, same]

theorem lastFrom_cons (hop : H) (a : H × Nat) (l : List (H × Nat)) :
    lastFrom hop (a :: l) = (lastFrom hop l).or (if a.1 = hop then some a.2 else none) := by
  unfold lastFrom
  by_cases own : a.1 = hop
  · cases last : (l.filter fun b => decide (b.1 = hop)).getLast? with
    | none =>
      have none := List.getLast?_eq_none_iff.mp last
      simp [own, none]
    | some b =>
      simp [own, List.getLast?_cons, last]
  · simp [own]

theorem lastFrom_eq_none {l : List (H × Nat)}
    (absent : ∀ a ∈ l, a.1 ≠ hop) : lastFrom hop l = none := by
  have none : (l.filter fun a => decide (a.1 = hop)) = [] := by
    simpa [List.filter_eq_nil_iff] using absent
  simp [lastFrom, none]

theorem lastFrom_mem (last : lastFrom hop heard = some metric) : (hop, metric) ∈ heard := by
  obtain ⟨a, found, rfl⟩ := Option.map_eq_some_iff.mp last
  have member := List.mem_filter.mp (List.mem_of_getLast? found)
  have same : a.1 = hop := by simpa using member.2
  exact same ▸ member.1

theorem lastFrom_of_settle {h : H} {cost : Nat}
    (route : settle inf heard h cost) :
    ∃ metric, lastFrom h heard = some metric ∧ cost = metric+1 ∧ cost < inf := by
  induction heard using List.reverseRecOn with
  | nil => exact False.elim route
  | append_singleton heard a ih =>
    rw [settle_append] at route
    rw [lastFrom_append]
    rcases route.1 with ⟨rfl, value, bound⟩ | ⟨apart, earlier⟩
    · exact ⟨a.2, if_pos rfl, value, bound⟩
    · rw [if_neg (Ne.symm apart)]
      exact ih earlier

/-- A next hop whose last metric is least in the sequence has a route. -/
theorem settle_of_lastFrom (bound : metric+1 < inf) (low : ∀ a ∈ heard, metric ≤ a.2)
    (last : lastFrom hop heard = some metric) : settle inf heard hop (metric+1) := by
  induction heard using List.reverseRecOn with
  | nil => cases last
  | append_singleton heard a ih =>
    have low' : ∀ b ∈ heard, metric ≤ b.2 := fun b member => low b (by simp [member])
    have below : ∀ h cost, candidate inf (settle inf heard) a.1 a.2 h cost → metric+1 ≤ cost := by
      rintro h cost (⟨_, value, _⟩ | ⟨_, earlier⟩)
      · have least := low a (by simp)
        omega
      · obtain ⟨m, found, value, _⟩ := lastFrom_of_settle earlier
        have least := low' _ (lastFrom_mem found)
        dsimp only at least
        omega
    rw [settle_append]
    refine ⟨?_, below⟩
    rw [lastFrom_append] at last
    by_cases same : a.1 = hop
    · rw [if_pos same] at last
      cases last
      exact .inl ⟨same.symm, rfl, bound⟩
    · rw [if_neg same] at last
      exact .inr ⟨Ne.symm same, ih low' last⟩

/-- Where no metric is below `metric`, the routes have that metric exactly when some
next hop announces it last. -/
theorem settle_least_iff (bound : metric+1 < inf) (low : ∀ a ∈ heard, metric ≤ a.2) :
    (∀ cost, (∃ h, settle inf heard h cost) ↔ cost = metric+1) ↔
      ∃ a ∈ heard, lastFrom a.1 heard = some metric := by
  constructor
  · intro routes
    obtain ⟨h, route⟩ := (routes (metric+1)).mpr rfl
    obtain ⟨m, last, value, _⟩ := lastFrom_of_settle route
    have same : m = metric := by omega
    subst same
    exact ⟨(h, m), lastFrom_mem last, last⟩
  · rintro ⟨a, _, last⟩ cost
    have route := settle_of_lastFrom bound low last
    constructor
    · rintro ⟨h, other⟩
      exact settle_level other route
    · rintro rfl
      exact ⟨a.1, route⟩

theorem not_settle_of_high
    (high : ∀ a ∈ heard, inf ≤ a.2+1) (h : H) (cost : Nat) : ¬ settle inf heard h cost := by
  intro route
  obtain ⟨m, last, value, bound⟩ := lastFrom_of_settle route
  have withdrawn := high _ (lastFrom_mem last)
  dsimp only at withdrawn
  omega

/-- After a metric that only one next hop announces, and below which nothing is heard,
no other next hop has a route until that one is heard again. -/
theorem only_of_lastFrom (bound : metric+1 < inf) (low : ∀ a ∈ heard, metric ≤ a.2)
    (alone : ∀ a ∈ heard, a.2 = metric → a.1 = hop)
    (last : lastFrom hop heard = some metric) (h : H) (cost : Nat)
    (route : settle inf heard h cost) : h = hop := by
  have level := settle_level route (settle_of_lastFrom bound low last)
  obtain ⟨m, found, value, _⟩ := lastFrom_of_settle route
  exact alone _ (lastFrom_mem found) (by dsimp only; omega)

end DistanceVector
