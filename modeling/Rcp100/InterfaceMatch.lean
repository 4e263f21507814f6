import Mathlib.Data.List.Perm.Basic
import Rcp100.Redistribution
import Rcp100.IpAddress

/-!
# The interface of an address

`rcpFindInterfaceByLPM` walks over the table of interfaces and returns the first one whose
subnet contains the address. Its comment calls this the longest match, which it is where the
subnets of the table do not overlap.
-/

namespace InterfaceMatch

open IpAddress Redistribution

variable {table : List Interface} {address : BitVec 32}

/-- The interfaces that can be returned. -/
def usable (i : Interface) : Bool := i.named && !i.loopback && i.mask ≠ 0

/-- The subnet of the interface contains the address. -/
def contains (address : BitVec 32) (i : Interface) : Bool :=
  usable i && (i.ip &&& i.mask) = (address &&& i.mask)

def subnet (i : Interface) : BitVec 32 × BitVec 32 := (i.ip &&& i.mask, i.mask)

/-- No two interfaces are on the same subnet. -/
def DistinctSubnets (table : List Interface) : Prop :=
  (table.filter usable).Pairwise fun i j => subnet i ≠ subnet j

/-- The interface without its place. -/
def lookup (table : List Interface) (address : BitVec 32) : Option Interface :=
  (rcpFindInterfaceByLPM table address).map (·.1)

/-- What a longest prefix match is, in every order of the table. -/
structure LongestMatch (table : List Interface) (address : BitVec 32) : Prop where
  longest : ∀ i, lookup table address = some i → i ∈ table ∧ contains address i = true ∧
    ∀ j ∈ table, contains address j = true → mask2bits j.mask ≤ mask2bits i.mask
  none : lookup table address = none ↔ ∀ i ∈ table, contains address i = false
  anyOrder : DistinctSubnets table → ∀ other, other.Perm table →
    lookup other address = lookup table address

/-- The first interface whose subnet contains the address has the longest mask of all. -/
def FirstLongest (table : List Interface) (address : BitVec 32) : Prop :=
  ∀ i rest, table.filter (contains address) = i :: rest →
    ∀ j ∈ rest, mask2bits j.mask ≤ mask2bits i.mask

theorem lookup_zero : lookup table 0 = none := by
  rw [lookup, rcpFindInterfaceByLPM, if_pos rfl, Option.map_none]

theorem lookup_of_ne (given : address ≠ 0) :
    lookup table address = table.find? (contains address) := by
  have places (n : Nat) (l : List Interface) :
      ((l.zipIdx n).find? fun p => contains address p.1).map (·.1) =
        l.find? (contains address) := by
    induction l generalizing n with
    | nil => rfl
    | cons i l ih =>
      rw [List.zipIdx_cons, List.find?_cons, List.find?_cons]
      cases contains address i with
      | true => rfl
      | false => exact ih (n + 1)
  rw [lookup, rcpFindInterfaceByLPM, if_neg given]
  exact places 0 table

theorem lookup_eq_head (given : address ≠ 0) :
    lookup table address = (table.filter (contains address)).head? := by
  rw [lookup_of_ne given, List.head?_filter]

theorem contains_usable {i : Interface} (isContained : contains address i = true) :
    usable i = true := by
  rw [contains, Bool.and_eq_true] at isContained
  exact isContained.1

theorem mem_of_found {i : Interface} {rest : List Interface}
    (found : table.filter (contains address) = i :: rest) :
    ∀ j ∈ i :: rest, j ∈ table ∧ contains address j = true := by
  rw [← found]
  exact fun j member => List.mem_filter.mp member

theorem few_of_anyOrder (given : address ≠ 0) (distinct : DistinctSubnets table)
    (anyOrder : ∀ other, other.Perm table → lookup other address = lookup table address) :
    (table.filter (contains address)).length ≤ 1 := by
  cases found : table.filter (contains address) with
  | nil => exact Nat.zero_le _
  | cons i rest =>
    cases rest with
    | nil => exact le_rfl
    | cons j rest =>
      exfalso
      have split : (table.filter (contains address)).Pairwise fun i j => subnet i ≠ subnet j := by
        have sub : (table.filter (contains address)).Sublist (table.filter usable) :=
          List.monotone_filter_right table fun i => contains_usable
        exact distinct.sublist sub
      rw [found, List.pairwise_cons] at split
      obtain ⟨member, isContained⟩ :=
        mem_of_found found j (List.mem_cons_of_mem i List.mem_cons_self)
      have moved := anyOrder (j :: table.erase j) (List.perm_cons_erase member).symm
      rw [lookup_of_ne given, List.find?_cons_of_pos isContained, lookup_eq_head given, found,
        List.head?_cons] at moved
      exact split.1 j List.mem_cons_self (by rw [Option.some.inj moved])

/-- One interface at most is found in every order of the table. -/
theorem anyOrder_of_few (given : address ≠ 0)
    (few : (table.filter (contains address)).length ≤ 1) {other : List Interface}
    (isPerm : other.Perm table) : lookup other address = lookup table address := by
  have same : (other.filter (contains address)).Perm (table.filter (contains address)) :=
    isPerm.filter _
  rw [lookup_eq_head given, lookup_eq_head given]
  cases found : table.filter (contains address) with
  | nil =>
    rw [found] at same
    rw [List.Perm.eq_nil same]
  | cons i rest =>
    rw [found, List.length_cons] at few
    have alone : rest = [] := List.length_eq_zero_iff.mp (by omega)
    subst alone
    rw [found] at same
    rw [List.Perm.eq_singleton same]

theorem lookup_eq_none_iff (given : address ≠ 0) :
    lookup table address = none ↔ ∀ i ∈ table, contains address i = false := by
  rw [lookup_eq_head given, List.head?_eq_none_iff, List.filter_eq_nil_iff]
  simp only [Bool.not_eq_true]

theorem longest_of_first (given : address ≠ 0) (firstLongest : FirstLongest table address)
    {i : Interface} (found : lookup table address = some i) :
    i ∈ table ∧ contains address i = true ∧
      ∀ j ∈ table, contains address j = true → mask2bits j.mask ≤ mask2bits i.mask := by
  rw [lookup_eq_head given, List.head?_eq_some_iff] at found
  obtain ⟨rest, found⟩ := found
  obtain ⟨first, firstContained⟩ := mem_of_found found i List.mem_cons_self
  refine ⟨first, firstContained, fun j member isContained => ?_⟩
  have place : j ∈ i :: rest := found ▸ List.mem_filter.mpr ⟨member, isContained⟩
  rcases List.mem_cons.mp place with rfl | behind
  · exact le_rfl
  · exact firstLongest i rest found j behind

theorem LongestMatch.firstLongest (longestMatch : LongestMatch table address)
    (given : address ≠ 0) : FirstLongest table address := by
  intro i rest found j member
  have first : lookup table address = some i := by
    rw [lookup_eq_head given, found, List.head?_cons]
  obtain ⟨place, isContained⟩ := mem_of_found found j (List.mem_cons_of_mem i member)
  exact (longestMatch.longest i first).2.2 j place isContained

theorem longestMatch_zero :
    LongestMatch table 0 ↔ ∀ i ∈ table, contains 0 i = false := by
  constructor
  · exact fun longestMatch => longestMatch.none.mp lookup_zero
  · intro nothing
    refine ⟨fun i found => ?_, ⟨fun _ => nothing, fun _ => lookup_zero⟩, fun _ other _ => ?_⟩
    · rw [lookup_zero] at found
      cases found
    · rw [lookup_zero, lookup_zero]

/-- The lookup is a longest match where the address is given, no longer mask stands behind the
first match, and among distinct subnets there is only one match. -/
theorem longestMatch_iff (table : List Interface) (address : BitVec 32) :
    LongestMatch table address ↔
      (address = 0 → ∀ i ∈ table, contains address i = false) ∧ FirstLongest table address ∧
        (DistinctSubnets table → (table.filter (contains address)).length ≤ 1) := by
  by_cases given : address = 0
  · subst given
    rw [longestMatch_zero]
    constructor
    · intro nothing
      have empty : table.filter (contains 0) = [] := List.filter_eq_nil_iff.mpr fun i member => by
        rw [nothing i member]
        exact Bool.false_ne_true
      refine ⟨fun _ => nothing, fun i rest found => ?_, fun _ => ?_⟩
      · rw [empty] at found
        cases found
      · rw [empty]
        exact Nat.zero_le _
    · exact fun conditions => conditions.1 rfl
  · constructor
    · intro longestMatch
      refine ⟨fun zero => absurd zero given, longestMatch.firstLongest given, ?_⟩
      exact fun distinct => few_of_anyOrder given distinct (longestMatch.anyOrder distinct)
    · rintro ⟨-, firstLongest, few⟩
      exact ⟨fun i found => longest_of_first given firstLongest found, lookup_eq_none_iff given,
        fun distinct other isPerm => anyOrder_of_few given (few distinct) isPerm⟩

/-- `10.0.0.1/8` and `10.1.0.1/16`, both up. -/
def nested : List Interface :=
  [⟨true, false, 0x0a000001, 0xff000000, true⟩, ⟨true, false, 0x0a010001, 0xffff0000, true⟩]

/-- The shorter mask stands first. -/
theorem shorter_returned : ¬ LongestMatch nested 0x0a010005 := by
  intro matches_
  have found : lookup nested 0x0a010005 =
      some ⟨true, false, 0x0a000001, 0xff000000, true⟩ := by decide
  have longest := (matches_.longest _ found).2.2 ⟨true, false, 0x0a010001, 0xffff0000, true⟩
    (by decide) (by decide)
  exact absurd longest (by decide)

end InterfaceMatch
