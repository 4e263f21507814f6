import Rcp100.RouteCycle

/-!
# One SPF cycle on the whole table

While the insertions are aligned, every prefix of a table goes through a cycle like the single
one of `RouteCycle`: with the routes that are offered to it.
-/

namespace TableCycle

open RouteEntry PatriciaTree RouteTable RouteCycle

/-- The routes that a run offers to a prefix. -/
def offeredTo (ip : BitVec 32) (len : Nat) (ops : List Op) : List RouteArgs :=
  (offered ops).filter fun a => a.ip = ip ∧ (withMasklen a).len = len

variable {ip : BitVec 32} {len : Nat}

variable {m : RouteMap}

theorem offers_add {a : RouteArgs} {args : List RouteArgs} {r : NodeRoutes}
    (rest : Offers (args.filter fun a => a.ip = ip ∧ (withMasklen a).len = len)
      ((m.add a).routes ip len) r) :
    Offers ((a :: args).filter fun a => a.ip = ip ∧ (withMasklen a).len = len)
      (m.routes ip len) r := by
  rw [List.filter_cons]
  by_cases here : a.ip = ip ∧ (withMasklen a).len = len
  · have routes : (m.add a).routes ip len =
        (routeReplace m.e2Cost (m.routes ip len) (withMasklen a)).1 := if_pos here
    rw [if_pos (decide_eq_true here)]
    exact .cons (routes ▸ routeReplace_offer m.e2Cost _ _) rest
  · have routes : (m.add a).routes ip len = m.routes ip len := if_neg here
    rw [if_neg (by simpa using here)]
    exact routes ▸ rest

theorem offers_to (m : RouteMap) {ops : List Op} (offering : ∀ op ∈ ops, (offerOf op).isSome) :
    Offers (offeredTo ip len ops) (m.routes ip len) ((m.run ops).routes ip len) := by
  induction ops generalizing m with
  | nil => exact .nil
  | cons op ops ih =>
    have isOffer := offering op List.mem_cons_self
    have rest := ih (m.step op) fun op hop => offering op (List.mem_cons_of_mem _ hop)
    cases op with
    | routeAdd a => exact offers_add rest
    | routeAddE2 a e2 => exact offers_add (m := { m with e2Cost := e2 }) rest
    | updateRtStart => cases isOffer
    | updateRtFinish => cases isOffer
    | routePurge => cases isOffer

section

variable (tidy : Tidy (m.routes ip len).rt)

include tidy

theorem add_tidy (a : RouteArgs) :
    Tidy ((m.add a).routes ip len).rt := by
  by_cases here : a.ip = ip ∧ (withMasklen a).len = len
  · have routes : (m.add a).routes ip len =
        (routeReplace m.e2Cost (m.routes ip len) (withMasklen a)).1 := if_pos here
    exact routes ▸ tidy.offer (routeReplace_offer _ _ _)
  · have routes : (m.add a).routes ip len = m.routes ip len := if_neg here
    exact routes ▸ tidy

theorem walk_tidy {f : NodeRoutes → NodeRoutes × List Effect}
    (keeps : ∀ n : NodeRoutes, Tidy n.rt → Tidy (f n).1.rt) :
    Tidy ((m.walk f).routes ip len).rt := by
  simp only [RouteMap.walk, visited]
  split
  · exact tidy
  · exact keeps _ tidy

theorem step_tidy (op : Op) :
    Tidy ((m.step op).routes ip len).rt := by
  cases op with
  | routeAdd a => exact add_tidy tidy a
  | routeAddE2 a e2 => exact add_tidy (m := { m with e2Cost := e2 }) tidy a
  | updateRtStart => exact walk_tidy tidy fun _ h => tidy_map_mark h
  | updateRtFinish =>
    refine walk_tidy tidy fun n h => ?_
    rw [callbackClear_rt]
    exact h.sublist (sweep_sublist _)
  | routePurge => exact tidy

theorem run_tidy (ops : List Op) :
    Tidy ((m.run ops).routes ip len).rt := by
  induction ops generalizing m with
  | nil => exact tidy
  | cons op ops ih => exact ih (step_tidy tidy op)

end

/-- A cycle over any table of an aligned run, seen at any prefix. -/
theorem cycle_table (history offers : List Op) (masked : ∀ op ∈ history ++ offers, op.WellMasked)
    (side : alignedRun .initial history = true)
    (side' : alignedRun (updateRtStart (run .initial history)) offers = true)
    (offering : ∀ op ∈ offers, (offerOf op).isSome) (ip : BitVec 32) (len : Nat)
    (few : (cheapestPairs (offeredTo ip len offers)).dedup.length ≤ ecmpLimit) :
    CycleResult (entries ip len (run .initial history)) (offeredTo ip len offers)
      (entries ip len (updateRtFinish (run (updateRtStart (run .initial history)) offers)).1)
      (updateRtFinish (run (updateRtStart (run .initial history)) offers)).2 := by
  have before := run_refines initial_refines
    (fun op hop => masked op (List.mem_append_left _ hop)) side
  have started := step_refines before .updateRtStart trivial rfl
  have reached := run_refines started
    (fun op hop => masked op (List.mem_append_right _ hop)) side'
  have finished := step_refines reached .updateRtFinish trivial rfl
  have tidy : Tidy ((RouteMap.initial.run history).routes ip len).rt :=
    run_tidy (solo_initial ip len).tidy history
  have hstart : ((RouteMap.initial.run history).step .updateRtStart).routes ip len =
      callbackInit ((RouteMap.initial.run history).routes ip len) :=
    visited_of_clean (f := fun n => (callbackInit n, [])) (before.clean ip len) rfl
  have hoffers := @offers_to ip len ((RouteMap.initial.run history).step .updateRtStart) _ offering
  rw [hstart] at hoffers
  have result := (offers_result tidy hoffers few).mono (finish_effects reached ip len)
  have hfinal := visited_of_clean (f := callbackClear) (reached.clean ip len) rfl
  have hnew := finished.lookup ip len
  rw [entries, before.lookup]
  rw [← hfinal] at result
  simpa only [entries, step] using (congrArg NodeRoutes.rt hnew) ▸ result

/-- A route to 192.168.0.0/16. -/
def elsewhere : Op := .routeAdd (intraRoute 0xc0a80000 0xffff0000 0x0a000001)

theorem cycle_table_elsewhere :
    (cheapest (offeredTo 0x0a000000 8 [via 3, elsewhere, via 2])).length = 2 ∧
      CycleResult (entries 0x0a000000 8 (run .initial (cycle [elsewhere, via 1, via 2])))
        (offeredTo 0x0a000000 8 [via 3, elsewhere, via 2])
        (entries 0x0a000000 8 (updateRtFinish (run (updateRtStart
          (run .initial (cycle [elsewhere, via 1, via 2]))) [via 3, elsewhere, via 2])).1)
        (updateRtFinish (run (updateRtStart
          (run .initial (cycle [elsewhere, via 1, via 2]))) [via 3, elsewhere, via 2])).2 :=
  ⟨by decide, cycle_table (cycle [elsewhere, via 1, via 2]) [via 3, elsewhere, via 2] (by decide)
    (by decide) (by decide) (by decide) 0x0a000000 8 (by decide)⟩

end TableCycle
