import Rcp100.ForwardingTable
import Rcp100.RouteEntry

/-!
# The kernel's copy of an OSPF node

The calls recorded by `ecmp_add` and `ecmp_del` drive a forwarding table whose
keys are addresses with a prefix length, since every call hands `mask2bits` of
its mask to the kernel. The array of a node changes between the paired calls, and
the sweep deletes repeatedly; the kernel still ends with what the array says.
-/

namespace KernelRoutes

open IpAddress RouteEntry ForwardingTable

abbrev Prefix := BitVec 32 × Nat

abbrev Kernel := Prefix → Entry (BitVec 32)

def noRoutes : Kernel := fun _ => .none

/-- The kernel call of an effect; redistribution and the SPF trigger make none. -/
def kernelCall : Effect → Option (Call Prefix (BitVec 32))
  | .addBlackhole ip mask => some (.addBlackhole (ip, mask2bits mask))
  | .delBlackhole ip mask => some (.delBlackhole (ip, mask2bits mask))
  | .rcpAddRoute _ ip mask gw _ => some (.add (ip, mask2bits mask) [gw])
  | .rcpDelRoute ip mask gw => some (.del (ip, mask2bits mask) [gw])
  | .rcpAddEcmpRoute _ ip mask _ gw => some (.add (ip, mask2bits mask) gw)
  | .rcpDelEcmpRoute _ ip mask gw => some (.del (ip, mask2bits mask) gw)
  | .redistributeRoute _ _ _ _ => none
  | .spfTrigger => none

def applyEffects (kernel : Kernel) (effects : List Effect) : Kernel :=
  ForwardingTable.run kernel (effects.filterMap kernelCall)

/-- The part of a slot that reaches the kernel. -/
def kernelView (r : Rt) : RouteType × BitVec 32 := (r.type, r.gw)

/-- The entry of a prefix as its routes describe it: connected and static routes
are the kernel's own, a leading blackhole stands alone, and otherwise the routes
of the smallest type share the traffic. -/
def describe : List (RouteType × BitVec 32) → Entry (BitVec 32)
  | [] => .none
  | first :: rest =>
    if first.1 = .connected ∨ first.1 = .static then .none
    else if first.1 = .ospfBlackhole then .blackhole
    else .gateways (((first :: rest).filter
      (fun r => (first :: rest).all (fun s => r.1.code ≤ s.1.code))).map Prod.snd).toFinset

def described (rt : List Rt) : Entry (BitVec 32) := describe (rt.map kernelView)

@[simp] theorem applyEffects_nil (kernel : Kernel) : applyEffects kernel [] = kernel := rfl

theorem applyEffects_append (kernel : Kernel) (first second : List Effect) :
    applyEffects kernel (first ++ second) = applyEffects (applyEffects kernel first) second := by
  simp only [applyEffects, List.filterMap_append, run_append]

theorem RouteType.code_injective : Function.Injective RouteType.code := by
  intro a b same
  cases a <;> cases b <;> first | rfl | cases same

theorem smaller_eq (a b : RouteType) : smaller a b = a ∨ smaller a b = b := by
  by_cases below : b.code < a.code
  · exact .inr (if_pos below)
  · exact .inl (if_neg below)

theorem code_smaller_le (a b : RouteType) :
    (smaller a b).code ≤ a.code ∧ (smaller a b).code ≤ b.code := by
  by_cases below : b.code < a.code
  · rw [smaller, if_pos below]
    exact ⟨Nat.le_of_lt below, Nat.le_refl _⟩
  · rw [smaller, if_neg below]
    exact ⟨Nat.le_refl _, Nat.le_of_not_lt below⟩

theorem foldl_smaller_mem (t : RouteType) (rt : List Rt) :
    rt.foldl (fun t r => smaller t r.type) t = t ∨
      ∃ r ∈ rt, r.type = rt.foldl (fun t r => smaller t r.type) t := by
  induction rt generalizing t with
  | nil => exact .inl rfl
  | cons r rest ih =>
    obtain same | ⟨s, member, type⟩ := ih (smaller t r.type)
    · rcases smaller_eq t r.type with left | right
      · exact .inl (same.trans left)
      · exact .inr ⟨r, List.mem_cons_self .., (same.trans right).symm⟩
    · exact .inr ⟨s, List.mem_cons_of_mem r member, type⟩

theorem code_foldl_smaller_le (t : RouteType) (rt : List Rt) :
    (rt.foldl (fun t r => smaller t r.type) t).code ≤ t.code ∧
      ∀ r ∈ rt, (rt.foldl (fun t r => smaller t r.type) t).code ≤ r.type.code := by
  induction rt generalizing t with
  | nil => exact ⟨Nat.le_refl _, by simp⟩
  | cons r rest ih =>
    obtain ⟨below, all⟩ := ih (smaller t r.type)
    obtain ⟨left, right⟩ := code_smaller_le t r.type
    refine ⟨Nat.le_trans below left, ?_⟩
    intro s member
    rcases List.mem_cons.mp member with rfl | later
    · exact Nat.le_trans below right
    · exact all s later

theorem type_eq_smallest_iff (first : Rt) (rest : List Rt) {r : Rt} (member : r ∈ first :: rest) :
    r.type = rest.foldl (fun t r => smaller t r.type) first.type ↔
      ∀ s ∈ first :: rest, r.type.code ≤ s.type.code := by
  obtain ⟨below, all⟩ := code_foldl_smaller_le first.type rest
  constructor
  · intro same s hs
    rw [same]
    rcases List.mem_cons.mp hs with rfl | later
    · exact below
    · exact all s later
  · intro least
    apply RouteType.code_injective
    apply Nat.le_antisymm
    · rcases foldl_smaller_mem first.type rest with same | ⟨s, later, type⟩
      · rw [same]
        exact least first (List.mem_cons_self ..)
      · rw [← type]
        exact least s (List.mem_cons_of_mem first later)
    · rcases List.mem_cons.mp member with rfl | later
      · exact below
      · exact all r later

theorem map_least_kernelView (rt : List Rt) :
    ((rt.map kernelView).filter
        (fun r => (rt.map kernelView).all (fun s => r.1.code ≤ s.1.code))).map Prod.snd =
      (rt.filter (fun r => rt.all (fun s => r.type.code ≤ s.type.code))).map Rt.gw := by
  rw [List.filter_map, List.map_map]
  simp only [List.all_map]
  rfl

theorem described_multiple {first : Rt} (rest : List Rt)
    (own : ¬(first.type = .connected ∨ first.type = .static))
    (hole : first.type ≠ .ospfBlackhole) :
    described (first :: rest) = .gateways (((first :: rest).filter (fun r => r.type =
      rest.foldl (fun t r => smaller t r.type) first.type)).map Rt.gw).toFinset := by
  have same : ∀ r ∈ first :: rest,
      decide (r.type = rest.foldl (fun t r => smaller t r.type) first.type) =
        (first :: rest).all (fun s => r.type.code ≤ s.type.code) := by
    intro r member
    rw [Bool.eq_iff_iff, decide_eq_true_iff, List.all_eq_true]
    simpa only [decide_eq_true_iff] using type_eq_smallest_iff first rest member
  rw [List.filter_congr same, ← map_least_kernelView, described, List.map_cons, describe]
  exact (if_neg own).trans (if_neg hole)

/-- The slots of a node all carry the prefix of the node. -/
def At (key : Prefix) (rt : List Rt) : Prop := ∀ r ∈ rt, (r.ip, mask2bits r.mask) = key

theorem filterMap_redistribute (add : Bool) (ip mask : BitVec 32) (gw : List (BitVec 32)) :
    (gw.map (Effect.redistributeRoute add ip mask ·)).filterMap kernelCall = [] := by
  rw [List.filterMap_map]
  exact List.filterMap_eq_nil_iff.mpr (fun _ _ => rfl)

/-- The kernel calls of `ecmp_add` and `ecmp_del` on one array: none, or one call on
the prefix of the node that installs, or removes, what the array describes. -/
inductive Mirrors (key : Prefix) (rt : List Rt) : Prop where
  | nothing (entry : described rt = .none) (add : (ecmpAdd rt).filterMap kernelCall = [])
      (del : (ecmpDel rt).filterMap kernelCall = [])
  | blackhole (entry : described rt = .blackhole)
      (add : (ecmpAdd rt).filterMap kernelCall = [.addBlackhole key])
      (del : (ecmpDel rt).filterMap kernelCall = [.delBlackhole key])
  | gateways (gw : List (BitVec 32)) (entry : described rt = .gateways gw.toFinset)
      (add : (ecmpAdd rt).filterMap kernelCall = [.add key gw])
      (del : (ecmpDel rt).filterMap kernelCall = [.del key gw])

variable {key : Prefix} {rt : List Rt}

theorem ecmp_mirrors (place : At key rt) : Mirrors key rt := by
  cases rt with
  | nil => exact .nothing rfl rfl rfl
  | cons first rest =>
    have here := place first (List.mem_cons_self ..)
    by_cases own : first.type = .connected ∨ first.type = .static
    · refine .nothing ?_ ?_ ?_
      · simp only [described, List.map_cons, describe, kernelView, if_pos own]
      · simp [ecmpAdd, ecmpPlan, own]
      · simp [ecmpDel, ecmpPlan, own]
    by_cases hole : first.type = .ospfBlackhole
    · refine .blackhole ?_ ?_ ?_
      · simp only [described, List.map_cons, describe, kernelView, if_neg own, if_pos hole]
      · simp [ecmpAdd, ecmpPlan, hole, kernelCall, here]
      · simp [ecmpDel, ecmpPlan, hole, kernelCall, here]
    have entry := described_multiple rest own hole
    cases rest with
    | nil =>
      refine .gateways [first.gw] ?_ ?_ ?_
      · simpa using entry
      · simp [ecmpAdd, ecmpPlan, own, hole, kernelCall, here]
      · simp [ecmpDel, ecmpPlan, own, hole, kernelCall, here]
    | cons second others =>
      have last := place ((second :: others).getLast (by simp))
        (List.mem_cons_of_mem first (List.getLast_mem _))
      refine .gateways _ entry ?_ ?_
      · simp only [ecmpAdd, ecmpPlan, own, hole, if_false, List.filterMap_append,
          filterMap_redistribute]
        simp only [List.nil_append, List.filterMap_cons, kernelCall, last, List.filterMap_nil]
      · simp only [ecmpDel, ecmpPlan, own, hole, if_false, List.filterMap_append,
          filterMap_redistribute]
        simp only [List.nil_append, List.filterMap_cons, kernelCall, last, List.filterMap_nil]

theorem applyEffects_ecmpAdd {kernel : Kernel}
    (place : At key rt) (empty : kernel key = .none) :
    applyEffects kernel (ecmpAdd rt) key = described rt := by
  unfold applyEffects
  rcases ecmp_mirrors place with ⟨entry, add, _⟩ | ⟨entry, add, _⟩ | ⟨gw, entry, add, _⟩
  · rw [add, entry]
    exact empty
  · rw [add, entry]
    exact step_key kernel (.addBlackhole key)
  · rw [add, entry]
    exact step_key kernel (.add key gw)

theorem applyEffects_ecmpDel {kernel : Kernel}
    (place : At key rt) (installed : kernel key = described rt ∨ kernel key = .none) :
    applyEffects kernel (ecmpDel rt) key = .none := by
  unfold applyEffects
  rcases ecmp_mirrors place with ⟨entry, _, del⟩ | ⟨entry, _, del⟩ | ⟨gw, entry, _, del⟩
  · rw [del]
    rw [entry] at installed
    exact installed.elim id id
  · rw [del]
    refine (step_key kernel (.delBlackhole key)).trans ?_
    rcases installed with same | none
    · simp only [Call.key, same, entry, Call.act]
    · simp only [Call.key, none, Entry.none, Call.act]
  · rw [del]
    refine (step_key kernel (.del key gw)).trans ?_
    rcases installed with same | none
    · simp only [Call.key, same, entry, Call.act, Entry.none, sdiff_self, Finset.bot_eq_empty]
    · simp only [Call.key, none, Entry.none, Call.act, Finset.empty_sdiff]

theorem map_modify_visit {α : Type} {f : Rt → α} (blind : ∀ r, f (visit r) = f r)
    (rt : List Rt) (i : Nat) : (rt.modify i visit).map f = rt.map f := by
  apply List.ext_getElem?
  intro j
  rw [List.getElem?_map, List.getElem?_map, List.getElem?_modify]
  by_cases here : i = j
  · cases rt[j]? <;> simp [here, blind]
  · cases rt[j]? <;> simp [here]

theorem routeReplace_effects (e2Cost : BitVec 32) (n : NodeRoutes) (a : RouteArgs) :
    ((routeReplace e2Cost n a).2 = [] ∧ ∃ i, (routeReplace e2Cost n a).1.rt = n.rt.modify i visit) ∨
    ((routeReplace e2Cost n a).2 = ecmpDel n.rt ++ ecmpAdd (routeReplace e2Cost n a).1.rt ∧
      ∀ x ∈ (routeReplace e2Cost n a).1.rt, x ∈ n.rt ∨ x = newRt e2Cost a) := by
  have unchanged : n.rt = n.rt.modify n.rt.length visit :=
    (List.modify_eq_self (Nat.le_refl _)).symm
  unfold routeReplace
  dsimp only
  cases hhead : n.rt.head? with
  | none =>
    have idle : ecmpDel n.rt = [] := congrArg ecmpDel (List.head?_eq_none_iff.mp hhead)
    refine .inr ⟨?_, by simp [NodeRoutes.single]⟩
    dsimp only
    exact (congrArg (· ++ ecmpAdd [newRt e2Cost a]) idle).symm
  | some first =>
    dsimp only
    cases hfind : n.rt.findIdx? (sameRoute a) with
    | some i => exact .inl ⟨rfl, i, rfl⟩
    | none =>
      dsimp only
      by_cases stale : n.rt.all (·.delFlag)
      · rw [if_pos stale]
        exact .inr ⟨rfl, by simp [NodeRoutes.single]⟩
      rw [if_neg stale]
      by_cases heq : first.cost = a.cost
      · rw [if_pos heq]
        by_cases room : n.rt.length < ecmpLimit
        · rw [dif_pos room]
          exact .inr ⟨rfl, by simp⟩
        · rw [dif_neg room]
          exact .inl ⟨rfl, _, unchanged⟩
      · rw [if_neg heq]
        by_cases better : a.cost < first.cost
        · rw [if_pos better]
          exact .inr ⟨rfl, by simp [NodeRoutes.single]⟩
        · rw [if_neg better]
          exact .inl ⟨rfl, _, unchanged⟩

/-- The rule for the sweep: each slot that goes is preceded by the calls for the array. -/
theorem clearLoop_rule {I : List Rt → Bool → List Effect → Prop}
    (step : ∀ rt i deleted effects, I rt deleted effects →
      I (rt.eraseIdx i) true (effects ++ ecmpDel rt))
    (steps i : Nat) {deleted : Bool} {effects : List Effect}
    (holds : I rt deleted effects) :
    I (clearLoop steps i rt deleted effects).1 (clearLoop steps i rt deleted effects).2.1
      (clearLoop steps i rt deleted effects).2.2 := by
  induction steps generalizing i rt deleted effects with
  | zero => exact holds
  | succ steps ih =>
    unfold clearLoop
    cases rt[i]? with
    | none => exact holds
    | some r =>
      by_cases flagged : r.delFlag
      · simp only [flagged, if_true]
        exact ih _ (step rt i deleted effects holds)
      · simp only [flagged]
        exact ih (i+1) holds

section Follows

variable {κ ε : Type} {apply : κ → List Effect → κ} {entry : κ → ε} {shown : List Rt → ε}
  {none : ε} {n : NodeRoutes} {k : κ}

/-- What the kernel has for a prefix follows the calls of `ecmp_add` and `ecmp_del` for the
slots of the prefix, whose flags do not matter. -/
structure Follows (apply : κ → List Effect → κ) (entry : κ → ε) (shown : List Rt → ε) (none : ε)
    (key : Prefix) : Prop where
  nil (k : κ) : apply k [] = k
  append (k : κ) (first second : List Effect) :
    apply k (first ++ second) = apply (apply k first) second
  trigger (k : κ) : apply k [.spfTrigger] = k
  add {k : κ} {rt : List Rt} (place : At key rt) (empty : entry k = none) :
    entry (apply k (ecmpAdd rt)) = shown rt
  del {k : κ} {rt : List Rt} (place : At key rt)
    (installed : entry k = shown rt ∨ entry k = none) : entry (apply k (ecmpDel rt)) = none
  blind {rt rt' : List Rt} (same : rt.map visit = rt'.map visit) : shown rt = shown rt'

theorem at_congr {rt' : List Rt} (same : rt.map visit = rt'.map visit) (place : At key rt) :
    At key rt' := by
  intro r member
  have image : visit r ∈ rt.map visit := same ▸ List.mem_map_of_mem member
  obtain ⟨x, hx, eq⟩ := List.mem_map.mp image
  have ip : (visit x).ip = (visit r).ip := congrArg Rt.ip eq
  have mask : (visit x).mask = (visit r).mask := congrArg Rt.mask eq
  change (r.ip, mask2bits r.mask) = key
  exact (congrArg₂ (fun ip mask => (ip, mask2bits mask)) ip mask).symm.trans (place x hx)

/-- The slots have the prefix, and the kernel has what they show. -/
structure Shows (entry : κ → ε) (shown : List Rt → ε) (key : Prefix) (rt : List Rt) (k : κ) :
    Prop where
  place : At key rt
  same : entry k = shown rt

section

variable (follows : Follows apply entry shown none key)

include follows

theorem Follows.routeReplace {a : RouteArgs}
    {e2Cost : BitVec 32} (new : ((newRt e2Cost a).ip, mask2bits (newRt e2Cost a).mask) = key)
    (shows' : Shows entry shown key n.rt k) :
    Shows entry shown key (routeReplace e2Cost n a).1.rt (apply k (routeReplace e2Cost n a).2) := by
  obtain ⟨place, same⟩ := shows'
  rcases routeReplace_effects e2Cost n a with ⟨effects, i, rt⟩ | ⟨effects, slots⟩
  · have blind : n.rt.map visit = (RouteEntry.routeReplace e2Cost n a).1.rt.map visit := by
      rw [rt]
      exact (map_modify_visit (fun _ => rfl) n.rt i).symm
    refine ⟨at_congr blind place, ?_⟩
    rw [effects, follows.nil]
    exact same.trans (follows.blind blind)
  · have place' : At key (RouteEntry.routeReplace e2Cost n a).1.rt := by
      intro r member
      rcases slots r member with old | rfl
      · exact place r old
      · exact new
    refine ⟨place', ?_⟩
    rw [effects, follows.append]
    exact follows.add place' (follows.del place (.inl same))

theorem Follows.callbackInit
    (shows' : Shows entry shown key n.rt k) : Shows entry shown key (callbackInit n).rt k := by
  have blind : n.rt.map visit = (RouteEntry.callbackInit n).rt.map visit := by
    simp only [RouteEntry.callbackInit, List.map_map]
    rfl
  exact ⟨at_congr blind shows'.place, shows'.same.trans (follows.blind blind)⟩

/-- Along the sweep nothing has been deleted and the kernel still has what the array shows, or
something has been and the kernel has no route. -/
theorem Follows.clearLoop (shows' : Shows entry shown key rt k) (steps i : Nat) :
    At key (clearLoop steps i rt false []).1 ∧
      entry (apply k (clearLoop steps i rt false []).2.2) =
        if (clearLoop steps i rt false []).2.1 then none
        else shown (clearLoop steps i rt false []).1 := by
  refine clearLoop_rule (I := fun rt deleted effects => At key rt ∧
    entry (apply k effects) = if deleted then none else shown rt) ?_ steps i
    ⟨shows'.place, (congrArg entry (follows.nil k)).trans shows'.same⟩
  rintro rt i deleted effects ⟨place, swept⟩
  refine ⟨fun x member => place x (List.mem_of_mem_eraseIdx member), ?_⟩
  rw [follows.append, if_pos rfl]
  apply follows.del place
  cases deleted
  · exact .inl swept
  · exact .inr swept

theorem Follows.callbackClear (shows' : Shows entry shown key n.rt k) :
    Shows entry shown key (callbackClear n).1.rt (apply k (callbackClear n).2) := by
  obtain ⟨place, swept⟩ := follows.clearLoop shows' ecmpLimit 0
  refine ⟨place, ?_⟩
  have trigger (k : κ) (wanted : Bool) : apply k (if wanted then [.spfTrigger] else []) = k := by
    cases wanted
    · exact follows.nil k
    · exact follows.trigger k
  simp only [RouteEntry.callbackClear, follows.append, trigger]
  by_cases deleted : (RouteEntry.clearLoop ecmpLimit 0 n.rt false []).2.1 = true
  · rw [if_pos deleted] at swept ⊢
    exact follows.add place swept
  · rw [if_neg deleted] at swept ⊢
    rw [follows.nil]
    exact swept

end

end Follows

theorem mask2bits_updateMasklen (mask : BitVec 32) {len : Nat}
    (fits : (updateMasklen mask len).2 ≤ 32) :
    mask2bits (updateMasklen mask len).1 = (updateMasklen mask len).2 := by
  by_cases zero : mask = 0
  · subst zero
    have all : ∀ n : Fin 33, mask2bits (updateMasklen 0 n.val).1 = n.val := by decide
    have within : len ≤ 32 := by simpa [updateMasklen] using fits
    simpa [updateMasklen] using all ⟨len, by omega⟩
  · have given : updateMasklen mask len = (mask, mask2bits mask) := if_pos zero
    rw [given]

/-- One node and the kernel. -/
structure Node where
  routes : NodeRoutes
  kernel : Kernel

def Node.initial : Node := ⟨.empty, noRoutes⟩

/-- A call of `route_replace` on the node of `ip/len`, as `route_add` makes it: the
node was found by the address and the length. -/
structure NodeOffer (ip : BitVec 32) (len : Fin 33) where
  args : RouteArgs
  e2Cost : BitVec 32
  same_ip : args.ip = ip
  same_len : (updateMasklen args.mask args.len).2 = len

inductive NodeOp (ip : BitVec 32) (len : Fin 33) where
  | routeReplace (offer : NodeOffer ip len)
  | callbackInit
  | callbackClear

section

variable {ip : BitVec 32} {len : Fin 33}

def nodeStep (s : Node) : NodeOp ip len → Node
  | .routeReplace offer =>
    let result := RouteEntry.routeReplace offer.e2Cost s.routes offer.args
    ⟨result.1, applyEffects s.kernel result.2⟩
  | .callbackInit => ⟨RouteEntry.callbackInit s.routes, s.kernel⟩
  | .callbackClear =>
    let result := RouteEntry.callbackClear s.routes
    ⟨result.1, applyEffects s.kernel result.2⟩

def nodeRun (s : Node) (ops : List (NodeOp ip len)) : Node := ops.foldl nodeStep s

theorem NodeOffer.newRt_at (offer : NodeOffer ip len) :
    ((newRt offer.e2Cost offer.args).ip, mask2bits (newRt offer.e2Cost offer.args).mask) =
      (ip, len.val) := by
  have fits : (updateMasklen offer.args.mask offer.args.len).2 ≤ 32 := by
    rw [offer.same_len]
    exact Nat.le_of_lt_succ len.isLt
  have bits := mask2bits_updateMasklen offer.args.mask fits
  rw [offer.same_len] at bits
  exact Prod.ext offer.same_ip bits

theorem follows (key : Prefix) : Follows applyEffects (· key) described .none key where
  nil _ := rfl
  append := applyEffects_append
  trigger _ := rfl
  add := applyEffects_ecmpAdd
  del := applyEffects_ecmpDel
  blind {rt rt'} same := by
    have slots (rt : List Rt) : rt.map kernelView = (rt.map visit).map kernelView :=
      (List.map_map (f := visit) (g := kernelView)).symm
    rw [described, slots rt, same, ← slots rt']
    rfl

/-- The kernel's entry of the prefix is the description of the node's array. -/
def Mirrored (key : Prefix) (s : Node) : Prop :=
  Shows (· key) described key s.routes.rt s.kernel

theorem mirrored_step {s : Node} (mirrored : Mirrored (ip, len.val) s) (op : NodeOp ip len) :
    Mirrored (ip, len.val) (nodeStep s op) := by
  cases op with
  | routeReplace offer => exact (follows _).routeReplace offer.newRt_at mirrored
  | callbackInit => exact (follows _).callbackInit mirrored
  | callbackClear => exact (follows _).callbackClear mirrored

theorem mirrored_run (ops : List (NodeOp ip len)) :
    Mirrored (ip, len.val) (nodeRun .initial ops) :=
  List.foldlRecOn ops nodeStep ⟨List.forall_mem_nil _, rfl⟩
    (fun _ mirrored op _ => mirrored_step mirrored op)

/-- After any sequence of offers and sweeps the kernel holds, for the prefix of the
node, what `ecmp_add` would install from its array into an empty kernel. -/
theorem kernel_mirrors_node (ops : List (NodeOp ip len)) :
    (nodeRun .initial ops).kernel (ip, len.val) =
        applyEffects noRoutes (ecmpAdd (nodeRun .initial ops).routes.rt) (ip, len.val) ∧
      (nodeRun .initial ops).kernel (ip, len.val) =
        described (nodeRun .initial ops).routes.rt := by
  obtain ⟨place, entry⟩ := mirrored_run ops
  exact ⟨entry.trans (applyEffects_ecmpAdd place rfl).symm, entry⟩

end

end KernelRoutes
