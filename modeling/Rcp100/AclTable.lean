import Rcp100.AclReading

/-!
# The table of access list entries

What the handlers do to the table: an entry is stored once, or taken out, and nothing else
changes.
-/

namespace AclTable

open AccessLists AclWords AclReading SpecialTokens IpAddress PrintedNumbers ChainTable
open CliParser (isSpecial)

section Tables

variable {t t' : Table} {acl : Acl} {argv : List Word}

/-- The entries of the table. -/
def acls (t : Table) : List Acl := t.filterMap fun slot => slot.map (·.acl)

/-- The table has all its slots, and no entry twice. -/
structure Ok (t : Table) : Prop where
  length : t.length = rcpAclLimit
  nodup : (acls t).Nodup

theorem acls_emptyTable : acls emptyTable = [] :=
  List.filterMap_eq_nil_iff.mpr fun slot member => by rw [List.eq_of_mem_replicate member]; rfl

theorem emptyTable_ok : Ok emptyTable :=
  ⟨List.length_replicate, acls_emptyTable ▸ List.nodup_nil⟩

theorem acls_append (front back : Table) : acls (front ++ back) = acls front ++ acls back :=
  List.filterMap_append

theorem acls_some (s : Stored) (back : Table) : acls (some s :: back) = s.acl :: acls back := rfl

theorem acls_none (back : Table) : acls (none :: back) = acls back := rfl

theorem findIdx_split {p : Option Stored → Bool} {i : Nat} (found : t.findIdx? p = some i) :
    ∃ front slot back, t = front ++ slot :: back ∧ p slot = true ∧
      (∀ s ∈ front, p s = false) ∧ ∀ new, t.set i new = front ++ new :: back := by
  obtain ⟨inside, fits, before⟩ := List.findIdx?_eq_some_iff_getElem.mp found
  refine ⟨t.take i, t[i], t.drop (i + 1), ?_, fits, fun s member => ?_, fun new => ?_⟩
  · rw [← List.drop_eq_getElem_cons inside, List.take_append_drop]
  · obtain ⟨j, inTake, rfl⟩ := List.mem_iff_getElem.mp member
    rw [List.length_take] at inTake
    rw [List.getElem_take]
    exact Bool.eq_false_iff.mpr (before j (by omega))
  · rw [List.set_eq_take_append_cons_drop, if_pos inside]

theorem aclFind_none (absent : aclFind t acl = none) : acl ∉ acls t := by
  intro member
  obtain ⟨slot, inside, isAcl⟩ := List.mem_filterMap.mp member
  have other := List.findIdx?_eq_none_iff.mp absent slot inside
  rw [isAcl] at other
  exact absurd other (by simp)

theorem aclFind_some {i : Nat} (found : aclFind t acl = some i) :
    ∃ front s back, t = front ++ some s :: back ∧ s.acl = acl ∧
      ∀ new, t.set i new = front ++ new :: back := by
  obtain ⟨front, slot, back, shape, fits, -, set⟩ := findIdx_split found
  cases slot with
  | none => cases fits
  | some s => exact ⟨front, s, back, shape, Option.some.inj (of_decide_eq_true fits), set⟩

theorem aclFindEmpty_some {i : Nat} (found : aclFindEmpty t = some i) :
    ∃ front back, t = front ++ none :: back ∧ ∀ new, t.set i new = front ++ new :: back := by
  obtain ⟨front, slot, back, shape, fits, -, set⟩ := findIdx_split found
  cases slot with
  | none => exact ⟨front, back, shape, set⟩
  | some s => cases fits

theorem aclFindEmpty_none (full : aclFindEmpty t = none) : (acls t).length = t.length := by
  have all : ∀ slot ∈ t, ∃ s, slot = some s := by
    intro slot inside
    cases slot with
    | none => exact absurd (List.findIdx?_eq_none_iff.mp full none inside) (by simp)
    | some s => exact ⟨s, rfl⟩
  clear full
  induction t with
  | nil => rfl
  | cons slot t ih =>
    obtain ⟨s, rfl⟩ := all slot List.mem_cons_self
    rw [acls_some, List.length_cons, List.length_cons,
      ih fun slot inside => all slot (List.mem_cons_of_mem _ inside)]

/-- Every handler ends so: the entry is there afterwards, or is not, and nothing else changes,
except that a new entry needs a free slot. -/
theorem processAcl_cases (ok : Ok t) (noform : Bool) (acl : Acl) (argv : List Word) :
    (∃ t', processAcl t noform acl argv = .ok t' ∧ Ok t' ∧
      ∀ a, a ∈ acls t' ↔ if noform then a ∈ acls t ∧ a ≠ acl else a ∈ acls t ∨ a = acl) ∨
    (noform = false ∧ acl ∉ acls t ∧ (acls t).length = rcpAclLimit ∧ processAcl t noform acl argv =
      .error (.message "Error: cannot configure ACL entry, limit reached")) := by
  cases find : aclFind t acl with
  | none =>
    have absent := aclFind_none find
    cases noform with
    | true =>
      refine .inl ⟨t, by simp only [processAcl, find], ok, fun a => ?_⟩
      rw [if_pos rfl]
      refine ⟨fun member => ⟨member, ?_⟩, fun both => both.1⟩
      rintro rfl
      exact absent member
    | false =>
      cases empty : aclFindEmpty t with
      | none =>
        exact .inr ⟨rfl, absent, (aclFindEmpty_none empty).trans ok.length,
          by simp only [processAcl, find, empty]⟩
      | some i =>
        obtain ⟨front, back, rfl, set⟩ := aclFindEmpty_some empty
        refine .inl ⟨front ++ some ⟨acl, argv⟩ :: back,
          by simp only [processAcl, find, empty, set], ⟨?_, ?_⟩, fun a => ?_⟩
        · rw [← ok.length]
          simp only [List.length_append, List.length_cons]
        · have nodup := ok.nodup
          rw [acls_append, acls_none] at nodup absent
          rw [acls_append, acls_some]
          exact List.nodup_middle.mpr (List.nodup_cons.mpr ⟨absent, nodup⟩)
        · rw [acls_append, acls_some, acls_append, acls_none]
          simp only [Bool.false_eq_true, if_false, List.mem_append, List.mem_cons]
          tauto
  | some i =>
    obtain ⟨front, s, back, rfl, rfl, set⟩ := aclFind_some find
    cases noform with
    | true =>
      have nodup := ok.nodup
      rw [acls_append, acls_some] at nodup
      obtain ⟨alone, rest⟩ := List.nodup_cons.mp (List.nodup_middle.mp nodup)
      refine .inl ⟨front ++ none :: back, by simp only [processAcl, find, set], ⟨?_, ?_⟩,
        fun a => ?_⟩
      · rw [← ok.length]
        simp only [List.length_append, List.length_cons]
      · rw [acls_append, acls_none]
        exact rest
      · rw [acls_append, acls_none, acls_append, acls_some]
        simp only [if_true, List.mem_append, List.mem_cons] at alone ⊢
        constructor
        · intro member
          refine ⟨by tauto, ?_⟩
          rintro rfl
          exact alone member
        · rintro ⟨member, other⟩
          tauto
    | false =>
      refine .inl ⟨_, by simp only [processAcl, find], ok, fun a => ?_⟩
      simp only [Bool.false_eq_true, if_false, acls_append, acls_some, List.mem_append,
        List.mem_cons]
      tauto

theorem acls_clear (t : Table) (number : BitVec 32) :
    acls (t.map (clearSlot number)) =
      (acls t).filter fun a => a.listNumber.setWidth 32 ≠ number := by
  induction t with
  | nil => rfl
  | cons slot t ih =>
    cases slot with
    | none => exact ih
    | some s =>
      rw [List.map_cons, acls_some, List.filter_cons, clearSlot]
      by_cases listed : s.acl.listNumber.setWidth 32 = number
      · simp only [listed, if_true, ne_eq, not_true_eq_false, decide_false, Bool.false_eq_true,
          if_false, acls_none]
        exact ih
      · simp only [listed, if_false, ne_eq, not_false_eq_true, decide_true, if_true, acls_some]
        rw [ih]

theorem cliNoAclCmd_spec (ok : Ok t) (list number : Word) :
    ∃ t', cliNoAclCmd t [Token.no.text, list, number] = .ok t' ∧ Ok t' ∧
      ∀ a, a ∈ acls t' ↔ a ∈ acls t ∧ a.listNumber.setWidth 32 ≠ atoi number := by
  have cleared := acls_clear t (atoi number)
  refine ⟨_, rfl, ⟨?_, ?_⟩, fun a => ?_⟩
  · rw [List.length_map]
    exact ok.length
  · exact cleared ▸ ok.nodup.filter _
  · rw [cleared, List.mem_filter, decide_eq_true_eq]

end Tables

section Steps

variable {env : Env} {t : Table} {words : List Word} {items : List Item} {handler : Handler}
  {captured : List (Token × Word)}

theorem run_of_read (entry : handler ≠ .noAcl) {noform : Bool} {acl : Acl}
    (read : handler.read words = .ok (noform, acl)) :
    handler.run t words = processAcl t noform acl words := by
  cases handler with
  | standard =>
    change readStandard words = _ at read
    simp only [Handler.run, cliStandardAclCmd, read, ok_bind]
  | extended =>
    change readExtended words = _ at read
    simp only [Handler.run, cliAclCmd, read, ok_bind]
  | icmp =>
    change readIcmp words = _ at read
    simp only [Handler.run, cliAclIcmpCmd, read, ok_bind]
  | noAcl => exact absurd rfl entry

theorem run_of_error (entry : handler ≠ .noAcl) {failure : Failure}
    (read : handler.read words = .error failure) : handler.run t words = .error failure := by
  cases handler with
  | standard =>
    change readStandard words = _ at read
    simp only [Handler.run, cliStandardAclCmd, read, error_bind]
  | extended =>
    change readExtended words = _ at read
    simp only [Handler.run, cliAclCmd, read, error_bind]
  | icmp =>
    change readIcmp words = _ at read
    simp only [Handler.run, cliAclIcmpCmd, read, error_bind]
  | noAcl => exact absurd rfl entry

theorem exec_command (member : (items, handler) ∈ commands)
    (taken : captures env items words = some captured) :
    exec env t words = after t (handler.run t words) := by
  rw [exec, handlerOf_command member taken]

/-- What a command line does: nothing, when no command takes it or its words are not read; it
clears a list; or it stores or removes the entry that is read. -/
theorem exec_cases (env : Env) (t : Table) (words : List Word) :
    exec env t words = t ∨
      (∃ number, words = [Token.no.text, Token.accessList.text, number] ∧
        exec env t words = after t (cliNoAclCmd t words)) ∨
      ∃ items handler captured noform acl, (items, handler) ∈ commands ∧ handler ≠ .noAcl ∧
        captures env items words = some captured ∧ handler.read words = .ok (noform, acl) ∧
        exec env t words = after t (processAcl t noform acl words) := by
  cases found : handlerOf env words with
  | none => exact .inl (by rw [exec, found])
  | some handler =>
    obtain ⟨items, captured, member, taken⟩ := command_of_handlerOf found
    rw [exec_command member taken]
    by_cases entry : handler = .noAcl
    · subst entry
      cases commandOf_mem member with
      | noAcl inside =>
        obtain ⟨number, rfl⟩ := captures_no inside taken
        exact .inr (.inl ⟨number, rfl, rfl⟩)
    · cases read : handler.read words with
      | error failure => exact .inl (by rw [run_of_error entry read]; rfl)
      | ok r =>
        rw [run_of_read entry read]
        exact .inr (.inr ⟨items, handler, captured, r.1, r.2, member, entry, taken, read, rfl⟩)

theorem exec_ok (ok : Ok t) (words : List Word) : Ok (exec env t words) := by
  rcases exec_cases env t words with same | ⟨number, rfl, cleared⟩ |
    ⟨_, _, _, noform, acl, -, -, -, -, done⟩
  · exact same.symm ▸ ok
  · obtain ⟨t', runs, ok', -⟩ := cliNoAclCmd_spec ok Token.accessList.text number
    rw [cleared, runs]
    exact ok'
  · rw [done]
    rcases processAcl_cases ok noform acl words with ⟨t', runs, ok', -⟩ | ⟨-, -, -, full⟩
    · rw [runs]
      exact ok'
    · rw [full]
      exact ok

/-- What a command for an entry says is done: the entry that is written is stored, or is not in
the table any more. -/
def Obeyed (env : Env) (t : Table) (words : List Word) : Prop :=
  ∀ items handler captured, (items, handler) ∈ commands → handler ≠ .noAcl →
    captures env items words = some captured →
    let w := written captured
    let acl := w.entry handler
    handler.read words = .ok (w.no, acl) ∧
    ∀ a, a ∈ acls (exec env t words) ↔
      if w.no then a ∈ acls t ∧ a ≠ acl else a ∈ acls t ∨ a = acl

/-- The table has a free slot, if the command needs one. -/
def Room (env : Env) (t : Table) (words : List Word) : Prop :=
  ∀ items handler captured, (items, handler) ∈ commands → handler ≠ .noAcl →
    captures env items words = some captured → (written captured).no = false →
    (written captured).entry handler ∈ acls t ∨ (acls t).length < rcpAclLimit

/-- A MAC address is read as it is written, and is not written in a command for ICMP. -/
def MacPlain (env : Env) (words : List Word) : Prop :=
  ∀ items handler captured, (items, handler) ∈ commands → handler ≠ .noAcl →
    captures env items words = some captured →
    ∀ mac ∈ wordOf captured .mac, handler = .extended ∧ MacRead mac

theorem read_iff (member : (items, handler) ∈ commands) (entry : handler ≠ .noAcl)
    (taken : captures env items words = some captured) :
    handler.read words = .ok ((written captured).no, (written captured).entry handler) ↔
      ∀ mac ∈ wordOf captured .mac, handler = .extended ∧ MacRead mac := by
  cases commandOf_mem member with
  | standard inside =>
    have noMac : wordOf captured .mac = none := by
      obtain ⟨no, number, action, source, word, isAction, isSource, -, rfl, -⟩ :=
        captures_standard inside taken
      rcases isAction with rfl | rfl <;> rcases isSource with rfl | rfl <;> simp
    refine iff_of_true (readStandard_written inside taken) fun mac isMac => ?_
    rw [noMac] at isMac
    cases isMac
  | noAcl => exact absurd rfl entry
  | extended inside =>
    refine (readExtended_iff inside taken).trans ?_
    exact forall₂_congr fun mac _ => ⟨fun read => ⟨rfl, read⟩, fun both => both.2⟩
  | icmp inside =>
    refine (readIcmp_iff inside taken).trans ⟨fun noMac mac isMac => ?_, fun all => ?_⟩
    · rw [noMac] at isMac
      cases isMac
    · cases isMac : wordOf captured .mac with
      | none => rfl
      | some mac => cases (all mac isMac).1

theorem acls_length_le (ok : Ok t) : (acls t).length ≤ rcpAclLimit :=
  ok.length ▸ List.length_filterMap_le _ t

theorem obeyed_iff (ok : Ok t) : Obeyed env t words ↔ MacPlain env words ∧ Room env t words := by
  constructor
  · intro obeyed
    have plain : MacPlain env words := fun items handler captured member entry taken =>
      (read_iff member entry taken).mp (obeyed items handler captured member entry taken).1
    refine ⟨plain, fun items handler captured member entry taken isNew => ?_⟩
    obtain ⟨read, effect⟩ := obeyed items handler captured member entry taken
    rw [exec_command member taken, run_of_read entry read, isNew] at effect
    rcases processAcl_cases ok false ((written captured).entry handler) words with
      ⟨t', done, ok', -⟩ | ⟨-, absent, -, full⟩
    · by_cases absent : (written captured).entry handler ∈ acls t
      · exact .inl absent
      · simp only [done, after, Bool.false_eq_true, if_false] at effect
        have larger : ((written captured).entry handler :: acls t).length ≤ (acls t').length := by
          refine (List.subperm_of_subset (List.nodup_cons.mpr ⟨absent, ok.nodup⟩)
            fun a member => (effect a).mpr ?_).length_le
          exact (List.mem_cons.mp member).symm
        exact .inr (Nat.lt_of_lt_of_le larger (acls_length_le ok'))
    · simp only [full, after, Bool.false_eq_true, if_false] at effect
      exact .inl ((effect _).mpr (.inr rfl))
  · rintro ⟨plain, room⟩ items handler captured member entry taken
    have read := (read_iff member entry taken).mpr (plain items handler captured member entry taken)
    refine ⟨read, ?_⟩
    rw [exec_command member taken, run_of_read entry read]
    rcases processAcl_cases ok (written captured).no ((written captured).entry handler) words with
      ⟨t', done, -, effect⟩ | ⟨isNew, absent, size, -⟩
    · simp only [done]
      exact effect
    · rcases room items handler captured member entry taken isNew with inside | less
      · exact absurd inside absent
      · omega

end Steps

end AclTable
