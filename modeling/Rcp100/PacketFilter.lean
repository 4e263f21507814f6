import Mathlib.Data.List.Basic
import Mathlib.Tactic.Common

/-!
# Packet filters

Chains of rules where the first rule decides whose conditions all hold, hooks that jump to
chains, and the commands that build them. Packets and conditions are arbitrary.
-/

namespace PacketFilter

open Function (update update_idem update_self)

universe u v w

inductive Verdict where
  | accept
  | drop
deriving DecidableEq

inductive Hook where
  | input
  | output
  | forward
deriving DecidableEq

/-- What is done when all the conditions hold. -/
structure Rule (C : Type u) (T : Type v) where
  conditions : List C
  target : T

/-- The rules of the chains decide, the rules of the hooks jump to a chain. -/
structure Filter (C : Type u) (N : Type v) where
  policy : Hook → Verdict
  hooks : Hook → List (Rule C N)
  chains : N → Option (List (Rule C Verdict))

/-- The commands that change a filter. -/
inductive Command (C : Type u) (N : Type v) where
  | flush
  | deleteChains
  | policy (hook : Hook) (verdict : Verdict)
  | newChain (name : N)
  | append (name : N) (rule : Rule C Verdict)
  | jump (hook : Hook) (rule : Rule C N)

section Deciding

variable {C : Type u} {N : Type v} {P : Type w} (holds : C → P → Bool)

def Rule.fires {T : Type*} (rule : Rule C T) (packet : P) : Bool :=
  rule.conditions.all (holds · packet)

/-- The first rule that fires. -/
def firstVerdict (rules : List (Rule C Verdict)) (packet : P) : Option Verdict :=
  (rules.find? (·.fires holds packet)).map (·.target)

/-- A packet that leaves a chain without verdict goes on behind the jump. -/
def traverse (chains : N → Option (List (Rule C Verdict))) (policy : Verdict) (packet : P) :
    List (Rule C N) → Verdict
  | [] => policy
  | rule :: rules =>
    if rule.fires holds packet then
      ((chains rule.target).bind (firstVerdict holds · packet)).getD
        (traverse chains policy packet rules)
    else traverse chains policy packet rules

def Filter.verdict (f : Filter C N) (hook : Hook) (packet : P) : Verdict :=
  traverse holds f.chains (f.policy hook) packet (f.hooks hook)

variable {holds}

theorem firstVerdict_append (front back : List (Rule C Verdict)) (packet : P) :
    firstVerdict holds (front ++ back) packet =
      (firstVerdict holds front packet).or (firstVerdict holds back packet) := by
  rw [firstVerdict, List.find?_append, Option.map_or]
  rfl

theorem firstVerdict_target {rules : List (Rule C Verdict)} {verdict : Verdict}
    (same : ∀ rule ∈ rules, rule.target = verdict) (packet : P) :
    firstVerdict holds rules packet =
      if ∃ rule ∈ rules, rule.fires holds packet = true then some verdict else none := by
  rw [firstVerdict]
  cases found : rules.find? (·.fires holds packet) with
  | none =>
    rw [if_neg]
    · rfl
    · rintro ⟨rule, member, fires⟩
      exact List.find?_eq_none.mp found rule member fires
  | some rule =>
    have member := List.mem_of_find?_eq_some found
    have fires : rule.fires holds packet = true :=
      List.find?_some (p := fun rule : Rule C Verdict => rule.fires holds packet) found
    rw [if_pos ⟨rule, member, fires⟩, Option.map_some, same rule member]

theorem traverse_skip {chains : N → Option (List (Rule C Verdict))} {policy : Verdict}
    {packet : P} {front : List (Rule C N)}
    (skipped : ∀ rule ∈ front, rule.fires holds packet = false)
    (back : List (Rule C N)) :
    traverse holds chains policy packet (front ++ back) =
      traverse holds chains policy packet back := by
  induction front with
  | nil => rfl
  | cons rule front ih =>
    rw [List.cons_append, traverse, skipped rule List.mem_cons_self, if_neg Bool.false_ne_true]
    exact ih fun r member => skipped r (List.mem_cons_of_mem rule member)

theorem traverse_single {chains : N → Option (List (Rule C Verdict))} {policy : Verdict}
    {packet : P} {front back : List (Rule C N)} {rule : Rule C N}
    (fires : rule.fires holds packet = true)
    (skipped : ∀ r ∈ front ++ back, r.fires holds packet = false) :
    traverse holds chains policy packet (front ++ rule :: back) =
      ((chains rule.target).bind (firstVerdict holds · packet)).getD policy := by
  have behind := @traverse_skip _ _ _ _ chains policy _ _
    (fun r member => skipped r (List.mem_append_right front member)) []
  rw [List.append_nil] at behind
  rw [traverse_skip fun r member => skipped r (List.mem_append_left back member), traverse,
    if_pos fires, behind]
  rfl

end Deciding

section Building

variable {C : Type u} {N : Type v} [DecidableEq N]

/-- A command that fails changes nothing: chains are deleted when nothing jumps to them, a chain
is made once, rules and jumps need their chain. -/
def exec (f : Filter C N) : Command C N → Filter C N
  | .flush => { f with hooks := fun _ => [], chains := fun n => (f.chains n).map fun _ => [] }
  | .deleteChains =>
    if (f.hooks .input).isEmpty && (f.hooks .output).isEmpty && (f.hooks .forward).isEmpty then
      { f with chains := fun _ => none }
    else f
  | .policy hook verdict => { f with policy := update f.policy hook verdict }
  | .newChain name =>
    match f.chains name with
    | none => { f with chains := update f.chains name (some []) }
    | some _ => f
  | .append name rule =>
    match f.chains name with
    | none => f
    | some rules => { f with chains := update f.chains name (some (rules ++ [rule])) }
  | .jump hook rule =>
    match f.chains rule.target with
    | none => f
    | some _ => { f with hooks := update f.hooks hook (f.hooks hook ++ [rule]) }

def execAll (commands : List (Command C N)) (f : Filter C N) : Filter C N := commands.foldl exec f

theorem execAll_append (front back : List (Command C N)) (f : Filter C N) :
    execAll (front ++ back) f = execAll back (execAll front f) := List.foldl_append

theorem execAll_rules {name : N} {f : Filter C N} {rules : List (Rule C Verdict)}
    (isChain : f.chains name = some rules) (more : List (Rule C Verdict)) :
    execAll (more.map (.append name)) f =
      { f with chains := update f.chains name (some (rules ++ more)) } := by
  induction more generalizing f rules with
  | nil =>
    rw [List.append_nil, ← isChain, Function.update_eq_self]
    rfl
  | cons rule more ih =>
    have next : exec f (.append name rule) =
        { f with chains := update f.chains name (some (rules ++ [rule])) } := by
      simp only [exec, isChain]
    rw [List.map_cons, execAll, List.foldl_cons, next]
    refine (ih (update_self ..)).trans ?_
    simp only [update_idem, List.append_assoc, List.cons_append, List.nil_append]

theorem execAll_newChain {name : N} {f : Filter C N} (isNew : f.chains name = none)
    (rules : List (Rule C Verdict)) :
    execAll (.newChain name :: rules.map (.append name)) f =
      { f with chains := update f.chains name (some rules) } := by
  have next : exec f (.newChain name) =
      { f with chains := update f.chains name (some []) } := by
    simp only [exec, isNew]
  rw [execAll, List.foldl_cons, next]
  refine (execAll_rules (update_self ..) rules).trans ?_
  simp only [update_idem, List.nil_append]

theorem execAll_jumps {f : Filter C N} (jumps : List (Hook × Rule C N)) :
    execAll (jumps.map fun j => .jump j.1 j.2) f =
      { f with hooks := fun hook => f.hooks hook ++ (jumps.filter fun j =>
          decide (j.1 = hook) && (f.chains j.2.target).isSome).map (·.2) } := by
  induction jumps generalizing f with
  | nil =>
    simp only [List.filter_nil, List.map_nil, List.append_nil]
    rfl
  | cons j jumps ih =>
    rw [List.map_cons, execAll, List.foldl_cons]
    cases isChain : f.chains j.2.target with
    | none =>
      have next : exec f (.jump j.1 j.2) = f := by
        simp only [exec, isChain]
      rw [next]
      refine ih.trans ?_
      simp only [List.filter_cons, isChain, Option.isSome_none, Bool.and_false, Bool.false_eq_true,
        if_false]
    | some rules =>
      have next : exec f (.jump j.1 j.2) =
          { f with hooks := update f.hooks j.1 (f.hooks j.1 ++ [j.2]) } := by
        simp only [exec, isChain]
      rw [next]
      refine ih.trans ?_
      congr 1
      funext hook
      by_cases same : j.1 = hook
      · subst same
        simp only [update_self, List.filter_cons, isChain, Option.isSome_some,
          decide_true, Bool.and_self, if_true, List.map_cons, List.append_assoc,
          List.cons_append, List.nil_append]
      · simp only [Function.update_of_ne (Ne.symm same), List.filter_cons, same, decide_false,
          Bool.false_and, Bool.false_eq_true, if_false]

end Building

end PacketFilter
