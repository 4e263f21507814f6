import Mathlib.Data.Finset.Dedup
import Mathlib.Data.Finset.SDiff
import Mathlib.Logic.Function.Basic

/-!
# A forwarding table driven by calls

The table maps a prefix to a set of gateways or to a blackhole. A routing process
installs and removes routes by calls; a removal takes away what it names and has
no effect on what is not there. The prefixes and the gateways are arbitrary types.
-/

namespace ForwardingTable

universe u v

inductive Entry (γ : Type v) where
  | gateways (set : Finset γ)
  | blackhole
  deriving DecidableEq

/-- The entry of a prefix without a route. -/
def Entry.none {γ : Type v} : Entry γ := .gateways ∅

inductive Call (κ : Type u) (γ : Type v) where
  | add (key : κ) (gw : List γ)
  | del (key : κ) (gw : List γ)
  | addBlackhole (key : κ)
  | delBlackhole (key : κ)

def Call.key {κ : Type u} {γ : Type v} : Call κ γ → κ
  | .add key _ => key
  | .del key _ => key
  | .addBlackhole key => key
  | .delBlackhole key => key

section

variable {κ : Type u} {γ : Type v} [DecidableEq γ]

/-- What a call makes of the entry of its own prefix. -/
def Call.act : Call κ γ → Entry γ → Entry γ
  | .add _ gw, _ => .gateways gw.toFinset
  | .del _ gw, .gateways set => .gateways (set \ gw.toFinset)
  | .del _ _, .blackhole => .blackhole
  | .addBlackhole _, _ => .blackhole
  | .delBlackhole _, .blackhole => .none
  | .delBlackhole _, .gateways set => .gateways set

/-- A removal that names exactly what is installed; the other calls name nothing. -/
def Call.Exact : Call κ γ → Entry γ → Prop
  | .del _ gw, entry => entry = .gateways gw.toFinset
  | .delBlackhole _, entry => entry = .blackhole
  | _, _ => True

variable [DecidableEq κ]

def step (t : κ → Entry γ) (c : Call κ γ) : κ → Entry γ :=
  Function.update t c.key (c.act (t c.key))

def run (t : κ → Entry γ) (calls : List (Call κ γ)) : κ → Entry γ := calls.foldl step t

/-- Every removal of a sequence of calls names what is installed when it is made. -/
def ExactRun : (κ → Entry γ) → List (Call κ γ) → Prop
  | _, [] => True
  | t, c :: rest => c.Exact (t c.key) ∧ ExactRun (step t c) rest

section

variable (t : κ → Entry γ)

include t

@[simp] theorem run_nil : run t [] = t := rfl

@[simp] theorem run_cons (c : Call κ γ) (rest : List (Call κ γ)) :
    run t (c :: rest) = run (step t c) rest := rfl

theorem run_append (first second : List (Call κ γ)) :
    run t (first ++ second) = run (run t first) second :=
  List.foldl_append

theorem exactRun_append (first second : List (Call κ γ)) :
    ExactRun t (first ++ second) ↔ ExactRun t first ∧ ExactRun (run t first) second := by
  induction first generalizing t with
  | nil => simp [ExactRun]
  | cons c rest ih => simp only [List.cons_append, ExactRun, ih, run_cons, and_assoc]

theorem step_key (c : Call κ γ) : step t c c.key = c.act (t c.key) :=
  Function.update_self ..

theorem step_other {c : Call κ γ} {key : κ} (other : c.key ≠ key) :
    step t c key = t key :=
  Function.update_of_ne (Ne.symm other) ..

end

end

end ForwardingTable
