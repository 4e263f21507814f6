import Rcp100.LsUpdate

/-!
# The lengths of admitted advertisements

The verification loop of `lsupdateRx` adds up announced lengths and compares none
of them with the format of its advertisement. The results below say what the
database and the packet buffer can rely on when the records of a packet announce
at least what their formats need.
-/

namespace LsaBounds

open LsaFormat LsUpdate

/-- The bytes that an advertisement of its type is read with. -/
def formatLength (m : Memory) : Nat :=
  if m 3 = 1 then 24 + 12 * (m.get16 22).toNat
  else if m 3 = 2 then 24
  else if m 3 = 3 ∨ m 3 = 4 then 28
  else if m 3 = 5 then 36
  else sizeofHeader

def announced (m : Memory) : Nat := (lsaHeader m).length.toNat

/-- A block in which every read of the database code finds its bytes. -/
structure Sound (l : OspfLsa) : Prop where
  headed : sizeofHeader ≤ l.bytes.length
  length_eq : l.header.length.toNat = l.bytes.length
  format : formatLength l.memory ≤ l.bytes.length
  costs : ∃ costs, lsaAddCost l.bytes = some costs ∧
    (l.header.type = 2 → 4 * costs.length ≤ l.bytes.length - 24) ∧
    (l.header.type = 1 → 12 * costs.length ≤ l.bytes.length - 24)
  links : l.header.type = 1 → (rtrLinks l.bytes).isSome = true
  mask : (netMask l.bytes).isSome = true

section Reads

variable {bytes : List (BitVec 8)} {o : Nat}

theorem exists_read8 (inside : o < bytes.length) : ∃ w, read8 bytes o = some w :=
  ⟨bytes[o], List.getElem?_eq_getElem inside⟩

theorem exists_read16 (inside : o + 2 ≤ bytes.length) : ∃ w, read16 bytes o = some w := by
  obtain ⟨hi, hhi⟩ := exists_read8 (show o < bytes.length by omega)
  obtain ⟨lo, hlo⟩ := exists_read8 (show o + 1 < bytes.length by omega)
  exact ⟨hi ++ lo, by simp [read16, hhi, hlo]⟩

theorem exists_read32 (inside : o + 4 ≤ bytes.length) : ∃ w, read32 bytes o = some w := by
  obtain ⟨hi, hhi⟩ := exists_read16 (show o + 2 ≤ bytes.length by omega)
  obtain ⟨lo, hlo⟩ := exists_read16 (show o + 2 + 2 ≤ bytes.length by omega)
  exact ⟨hi ++ lo, by simp [read32, hhi, hlo]⟩

theorem exists_rtrLink {i : Nat} (inside : 36 + 12 * i ≤ bytes.length) :
    ∃ lnk, rtrLink bytes i = some lnk := by
  obtain ⟨linkId, h1⟩ := exists_read32 (show 24 + 12 * i + 4 ≤ bytes.length by omega)
  obtain ⟨linkData, h2⟩ := exists_read32 (show 28 + 12 * i + 4 ≤ bytes.length by omega)
  obtain ⟨type, h3⟩ := exists_read8 (show 32 + 12 * i < bytes.length by omega)
  obtain ⟨tos, h4⟩ := exists_read8 (show 33 + 12 * i < bytes.length by omega)
  obtain ⟨metric, h5⟩ := exists_read16 (show 34 + 12 * i + 2 ≤ bytes.length by omega)
  exact ⟨⟨linkId, linkData, type, tos, metric⟩, by simp [rtrLink, h1, h2, h3, h4, h5]⟩

end Reads

section Copy

variable {m : Memory} {n : Nat}

theorem read8_bytes {o : Nat} (inside : o < n) : read8 (m.bytes n) o = some (m o) := by
  simp [read8, Memory.bytes, inside]

theorem read16_bytes {o : Nat} (inside : o + 2 ≤ n) :
    read16 (m.bytes n) o = some (m.get16 o) := by
  simp [read16, read8_bytes (show o < n by omega), read8_bytes (show o + 1 < n by omega),
    Memory.get16]

theorem exists_rtrLinks (room : 24 + 12 * (m.get16 22).toNat ≤ n) :
    ∃ links, rtrLinks (m.bytes n) = some links ∧ links.length = (m.get16 22).toNat := by
  have each : ∀ i ∈ List.range (m.get16 22).toNat, ∃ lnk, rtrLink (m.bytes n) i = some lnk := by
    intro i hi
    have bound := List.mem_range.mp hi
    refine exists_rtrLink ?_
    rw [Memory.length_bytes]
    omega
  obtain ⟨links, hlinks, hlen⟩ := exists_mapM each
  refine ⟨links, ?_, hlen.trans List.length_range⟩
  rw [rtrLinks, read16_bytes (by omega)]
  exact hlinks

theorem netCount_eq {length : BitVec 16} (room : 24 ≤ length.toNat) :
    netCount length = (length.toNat - 24) / 4 := by
  unfold netCount
  congr 1
  bv_omega

theorem exists_netCosts (type : m 3 = 2) (room : 24 ≤ n) (length : (m.get16 18).toNat = n) :
    ∃ costs, lsaAddCost (m.bytes n) = some costs ∧ 4 * costs.length ≤ n - 24 := by
  have count := netCount_eq (length ▸ room)
  have each : ∀ i ∈ List.range (netCount (m.get16 18)), ∃ c,
      (do
        let id ← read32 (m.bytes n) (24 + 4*i)
        return { LsaCost.zero with id := id, type := 1 } : Option LsaCost) = some c := by
    intro i hi
    have bound := List.mem_range.mp hi
    rw [count] at bound
    have inside : 24 + 4 * i + 4 ≤ (m.bytes n).length := by
      rw [Memory.length_bytes]
      omega
    obtain ⟨id, hid⟩ := exists_read32 inside
    exact ⟨{ LsaCost.zero with id := id, type := 1 }, by simp [hid]⟩
  obtain ⟨costs, hcosts, hlen⟩ := exists_mapM each
  refine ⟨costs, ?_, ?_⟩
  · rw [lsaAddCost, read8_bytes (by omega), type]
    simpa [read16_bytes (show 18 + 2 ≤ n by omega)] using hcosts
  · rw [hlen, List.length_range, count, length]
    omega

end Copy

section Costs

variable {m : Memory} {n : Nat}

theorem exists_rtrCosts (type : m 3 = 1) (room : 24 + 12 * (m.get16 22).toNat ≤ n) :
    ∃ costs, lsaAddCost (m.bytes n) = some costs ∧ 12 * costs.length ≤ n - 24 := by
  obtain ⟨links, hlinks, hlen⟩ := exists_rtrLinks room
  refine ⟨links.map fun lnk =>
    { LsaCost.zero with id := lnk.linkId, cost := lnk.metric.setWidth 32, type := 2 }, ?_, ?_⟩
  · rw [lsaAddCost, read8_bytes (by omega), type]
    simp [hlinks]
  · rw [List.length_map, hlen]
    omega

theorem exists_sumCosts (type : m 3 = 3 ∨ m 3 = 4) (room : 28 ≤ n) :
    ∃ cost, lsaAddCost (m.bytes n) = some [cost] := by
  obtain ⟨metric, hmetric⟩ := exists_read32 (show 24 + 4 ≤ (m.bytes n).length by
    rw [Memory.length_bytes]; omega)
  obtain ⟨mask, hmask⟩ := exists_read32 (show 20 + 4 ≤ (m.bytes n).length by
    rw [Memory.length_bytes]; omega)
  refine ⟨{ LsaCost.zero with cost := metric &&& 0x00ffffff, mask := mask }, ?_⟩
  rw [lsaAddCost, read8_bytes (by omega)]
  rcases type with h | h
  · rw [h]
    simp [hmetric, hmask]
  · rw [h]
    simp [hmetric, hmask]

theorem exists_extCosts (type : m 3 = 5) (room : 36 ≤ n) :
    ∃ cost, lsaAddCost (m.bytes n) = some [cost] := by
  have inside : ∀ o, o + 4 ≤ 36 → ∃ w, read32 (m.bytes n) o = some w := by
    intro o ho
    refine exists_read32 ?_
    rw [Memory.length_bytes]
    omega
  obtain ⟨fwAddress, h1⟩ := inside 28 (by omega)
  obtain ⟨mask, h2⟩ := inside 20 (by omega)
  obtain ⟨typeMetric, h3⟩ := inside 24 (by omega)
  obtain ⟨tag, h4⟩ := inside 32 (by omega)
  refine ⟨⟨fwAddress, mask, 5, if typeMetric &&& 0x80000000 ≠ 0 then 2 else 1,
    typeMetric &&& 0x00ffffff, tag⟩, ?_⟩
  rw [lsaAddCost, read8_bytes (by omega), type]
  simp [h1, h2, h3, h4]

end Costs

variable {stub : Bool} {m : Memory} {l : OspfLsa} {e : LsaEvent} {net : Network} {desc : PacketDesc}
  {st : RxState} {r : Router} {pkt : UpdatePacket}

theorem known_type (pass : accepted stub m = true) :
    m 3 = 1 ∨ m 3 = 2 ∨ m 3 = 3 ∨ m 3 = 4 ∨ m 3 = 5 := by
  simp only [accepted, Bool.and_eq_true, decide_eq_true_eq] at pass
  obtain ⟨⟨⟨_, nonzero⟩, bound⟩, _⟩ := pass
  have type : (lsaHeader m).type = m 3 := rfl
  rw [type] at nonzero bound
  bv_omega

section Room

variable {m : Memory} (room : formatLength m ≤ announced m)

include room

theorem headed_of_room (known : m 3 = 1 ∨ m 3 = 2 ∨ m 3 = 3 ∨ m 3 = 4 ∨ m 3 = 5) :
    24 ≤ announced m := by
  refine Nat.le_trans ?_ room
  rcases known with h | h | h | h | h <;> simp [formatLength, h]

theorem links_of_room (router : m 3 = 1) : 24 + 12 * (m.get16 22).toNat ≤ announced m := by
  simpa [formatLength, router] using room

theorem exists_costs (known : m 3 = 1 ∨ m 3 = 2 ∨ m 3 = 3 ∨ m 3 = 4 ∨ m 3 = 5) :
    ∃ costs, lsaAddCost (m.bytes (announced m)) = some costs ∧
      (m 3 = 2 → 4 * costs.length ≤ announced m - 24) ∧
      (m 3 = 1 → 12 * costs.length ≤ announced m - 24) := by
  have headed := headed_of_room room known
  have single : m 3 ≠ 1 → m 3 ≠ 2 → (∃ cost, lsaAddCost (m.bytes (announced m)) = some [cost]) →
      ∃ costs, lsaAddCost (m.bytes (announced m)) = some costs ∧
        (m 3 = 2 → 4 * costs.length ≤ announced m - 24) ∧
        (m 3 = 1 → 12 * costs.length ≤ announced m - 24) := by
    rintro h1 h2 ⟨cost, hcost⟩
    exact ⟨[cost], hcost, fun h => absurd h h2, fun h => absurd h h1⟩
  rcases known with h | h | h | h | h
  · obtain ⟨costs, hcosts, bound⟩ := exists_rtrCosts h (links_of_room room h)
    refine ⟨costs, hcosts, ?_, fun _ => bound⟩
    intro h2
    rw [h] at h2
    cases h2
  · obtain ⟨costs, hcosts, bound⟩ := exists_netCosts h headed rfl
    refine ⟨costs, hcosts, fun _ => bound, ?_⟩
    intro h1
    rw [h] at h1
    cases h1
  · exact single (by rw [h]; decide) (by rw [h]; decide)
      (exists_sumCosts (Or.inl h) (by simpa [formatLength, h] using room))
  · exact single (by rw [h]; decide) (by rw [h]; decide)
      (exists_sumCosts (Or.inr h) (by simpa [formatLength, h] using room))
  · exact single (by rw [h]; decide) (by rw [h]; decide)
      (exists_extCosts h (by simpa [formatLength, h] using room))

end Room

/-- A copy that is as long as its format has all the bytes that are read from it. -/
theorem sound_duplicateLsa (known : m 3 = 1 ∨ m 3 = 2 ∨ m 3 = 3 ∨ m 3 = 4 ∨ m 3 = 5)
    (room : formatLength m ≤ announced m)
    (copy : l.bytes = (duplicateLsa m).bytes) : Sound l := by
  have hbytes : l.bytes = m.bytes (announced m) := copy
  have hlen : l.bytes.length = announced m := by rw [hbytes, Memory.length_bytes]
  have headed := headed_of_room room known
  have inside : ∀ i < announced m, l.memory i = m i := by
    intro i hi
    rw [OspfLsa.memory, hbytes]
    exact Memory.getD_bytes m hi
  have hheader : l.header = lsaHeader m :=
    lsaHeader_congr (fun i hi => inside i (by simp only [sizeofHeader] at hi; omega))
  have htype : l.header.type = m 3 := by rw [hheader]; rfl
  constructor
  · simp only [sizeofHeader]
    omega
  · rw [hheader, hlen]
    rfl
  · have same : formatLength l.memory = formatLength m := by
      simp only [formatLength, Memory.get16, inside 3 (by omega), inside 22 (by omega),
        inside 23 (by omega)]
    rw [same, hlen]
    exact room
  · rw [htype, hlen, hbytes]
    exact exists_costs room known
  · intro h
    rw [htype] at h
    obtain ⟨links, found, _⟩ := exists_rtrLinks (links_of_room room h)
    rw [hbytes, found]
    rfl
  · obtain ⟨mask, found⟩ := exists_read32 (show 20 + 4 ≤ l.bytes.length by omega)
    rw [netMask, found]
    rfl

/-- The pass hands a copy to `lsadbAdd` or `lsadbReplace`. -/
def admits (e : LsaEvent) : Bool :=
  accepted e.stub e.lsah &&
    match lsaListFind (e.before.lsdb e.header.type) e.header.key with
    | none => !(e.net.state = .backup && e.desc.ipDest = allDRouters) && e.header.age ≠ maxAge
    | some found => !found.selfOriginated && found.header.seq < e.header.seq

/-- An entry that was there before, with its age or its notes written over. -/
def Touched (l l' : OspfLsa) : Prop := l'.bytes = l.bytes ∨ l'.bytes = (l.setAge maxAge).bytes

theorem mem_lsaListUpdate {list : List OspfLsa} {key : LsaKey} {f : OspfLsa → OspfLsa}
    (member : l ∈ lsaListUpdate list key f) :
    l ∈ list ∨ ∃ l₀ ∈ list, l = f l₀ := by
  induction list with
  | nil => cases member
  | cons x rest ih =>
    rw [lsaListUpdate] at member
    split at member
    · rcases List.mem_cons.mp member with rfl | later
      · exact Or.inr ⟨x, List.mem_cons_self, rfl⟩
      · exact Or.inl (List.mem_cons_of_mem _ later)
    · rcases List.mem_cons.mp member with rfl | later
      · exact Or.inl List.mem_cons_self
      · rcases ih later with old | ⟨l₀, hl₀, rfl⟩
        · exact Or.inl (List.mem_cons_of_mem _ old)
        · exact Or.inr ⟨l₀, List.mem_cons_of_mem _ hl₀, rfl⟩

theorem mem_installLsa (pass : accepted e.stub e.lsah = true)
    (member : l ∈ installLsa e.net e.desc (e.before.lsdb e.header.type) e.lsah) :
    (∃ l₀ ∈ e.before.lsdb e.header.type, Touched l₀ l) ∨
      admits e = true ∧ l = receivedLsa e.net e.lsah := by
  have updated : ∀ f : OspfLsa → OspfLsa,
      l ∈ lsaListUpdate (e.before.lsdb e.header.type) (lsaHeader e.lsah).key f →
      (∀ x, Touched x (f x)) → ∃ l₀ ∈ e.before.lsdb e.header.type, Touched l₀ l := by
    intro f h touched
    rcases mem_lsaListUpdate h with old | ⟨l₀, hl₀, rfl⟩
    · exact ⟨l, old, Or.inl rfl⟩
    · exact ⟨l₀, hl₀, touched l₀⟩
  have outcome := installs_installLsa e.net e.desc (e.before.lsdb e.header.type) e.lsah
  generalize installLsa e.net e.desc (e.before.lsdb e.header.type) e.lsah = list'
    at outcome member
  cases outcome with
  | keep => exact Or.inl ⟨l, member, Or.inl rfl⟩
  | add absent ready young =>
    rcases List.mem_cons.mp member with rfl | old
    · refine Or.inr ⟨?_, rfl⟩
      have hfind : lsaListFind (e.before.lsdb e.header.type) e.header.key = none := absent
      have young' : e.header.age ≠ maxAge := young
      simpa [admits, pass, hfind, young'] using not_and_or.mp ready
    · exact Or.inl ⟨l, old, Or.inl rfl⟩
  | age => exact Or.inl (updated _ member fun _ => Or.inr rfl)
  | note => exact Or.inl (updated _ member fun _ => Or.inl rfl)
  | @replace found present foreign newer =>
    rcases mem_lsaListUpdate member with old | ⟨l₀, _, rfl⟩
    · exact Or.inl ⟨l, old, Or.inl rfl⟩
    · refine Or.inr ⟨?_, rfl⟩
      have hfind : lsaListFind (e.before.lsdb e.header.type) e.header.key = some found := present
      have newer' : found.header.seq < e.header.seq := newer
      simpa [admits, pass, hfind, newer'] using foreign

section Age

variable (l : OspfLsa) (age : BitVec 16)

theorem length_setAge : (l.setAge age).bytes.length = l.bytes.length := by
  simp [OspfLsa.setAge]

theorem read8_setAge {o : Nat} (inside : 2 ≤ o) :
    read8 (l.setAge age).bytes o = read8 l.bytes o := by
  have h0 : 0 ≠ o := by omega
  have h1 : 1 ≠ o := by omega
  simp [read8, OspfLsa.setAge, List.getElem?_set_ne h0, List.getElem?_set_ne h1]

theorem read16_setAge {o : Nat} (inside : 2 ≤ o) :
    read16 (l.setAge age).bytes o = read16 l.bytes o := by
  simp (disch := omega) only [read16, read8_setAge]

theorem read32_setAge {o : Nat} (inside : 2 ≤ o) :
    read32 (l.setAge age).bytes o = read32 l.bytes o := by
  simp (disch := omega) only [read32, read16_setAge]

theorem rtrLinks_setAge : rtrLinks (l.setAge age).bytes = rtrLinks l.bytes := by
  have links : rtrLink (l.setAge age).bytes = rtrLink l.bytes := by
    funext i
    simp (disch := omega) only [rtrLink, read8_setAge, read16_setAge, read32_setAge]
  simp (disch := omega) only [rtrLinks, read16_setAge, links]

theorem lsaAddCost_setAge : lsaAddCost (l.setAge age).bytes = lsaAddCost l.bytes := by
  simp (disch := omega) only [lsaAddCost, read8_setAge, read16_setAge, read32_setAge,
    rtrLinks_setAge]

end Age

theorem Sound.setAge (sound : Sound l) (age : BitVec 16) : Sound (l.setAge age) := by
  have outside : ∀ i, 2 ≤ i → (l.setAge age).memory i = l.memory i :=
    fun i hi => l.memory_setAge age hi
  have htype : (l.setAge age).header.type = l.header.type := outside 3 (by omega)
  have hlength : (l.setAge age).header.length = l.header.length := by
    simp [OspfLsa.header, lsaHeader, Memory.get16, outside]
  have hformat : formatLength (l.setAge age).memory = formatLength l.memory := by
    simp [formatLength, Memory.get16, outside]
  constructor
  · rw [length_setAge]
    exact sound.headed
  · rw [length_setAge, hlength]
    exact sound.length_eq
  · rw [length_setAge, hformat]
    exact sound.format
  · rw [length_setAge, htype, lsaAddCost_setAge]
    exact sound.costs
  · rw [htype, rtrLinks_setAge]
    exact sound.links
  · rw [netMask, read32_setAge l age (by omega)]
    exact sound.mask

theorem Sound.congr {l' : OspfLsa} (sound : Sound l) (same : l'.bytes = l.bytes) : Sound l' := by
  have hheader : l'.header = l.header := OspfLsa.header_congr same
  have hmemory : l'.memory = l.memory := by
    unfold OspfLsa.memory
    rw [same]
  constructor
  · rw [same]
    exact sound.headed
  · rw [same, hheader]
    exact sound.length_eq
  · rw [same, hmemory]
    exact sound.format
  · rw [same, hheader]
    exact sound.costs
  · rw [same, hheader]
    exact sound.links
  · rw [same]
    exact sound.mask

theorem Sound.touched {l' : OspfLsa} (sound : Sound l) (touched : Touched l l') : Sound l' := by
  rcases touched with same | aged
  · exact sound.congr same
  · exact (sound.setAge maxAge).congr aged

/-- What the records of a packet need to announce: the count is not negative, each
record has its header, and each one with a valid checksum and a known type is as
long as its format. -/
structure WireOk (pkt : UpdatePacket) : Prop where
  count : 0 ≤ pkt.cnt
  headed : ∀ m ∈ pkt.lsas, sizeofHeader ≤ announced m
  format : ∀ m ∈ pkt.lsas, accepted false m = true → formatLength m ≤ announced m

theorem accepted_mono (pass : accepted stub m = true) :
    accepted false m = true := by
  simp only [accepted, Bool.and_eq_true] at pass ⊢
  exact ⟨pass.1, by simp⟩

theorem mem_loopEvents {lsas : List Memory}
    (member : e ∈ loopEvents stub net desc st lsas) :
    e.lsah ∈ lsas := by
  induction lsas generalizing st with
  | nil => cases member
  | cons lsah rest ih =>
    rcases List.mem_cons.mp member with rfl | later
    · exact List.mem_cons_self
    · exact List.mem_cons_of_mem _ (ih later)

theorem mem_packetEvents (member : e ∈ packetEvents r pkt desc) : e.lsah ∈ pkt.lsas := by
  unfold packetEvents at member
  split at member
  · split at member
    · cases member
    · split at member
      · cases member
      · exact mem_loopEvents member
  · cases member

theorem WireOk.sound (wire : WireOk pkt)
    (member : m ∈ pkt.lsas) (pass : accepted stub m = true) (net : Network) :
    Sound (receivedLsa net m) :=
  sound_duplicateLsa (known_type pass) (wire.format m member (accepted_mono pass)) rfl

theorem receiveLsa_sound
    {lsah : Memory} (ok : accepted stub lsah = true → Sound (receivedLsa net lsah))
    (sound : ∀ type, ∀ l ∈ st.lsdb type, Sound l) (type : BitVec 8) :
    ∀ l ∈ (receiveLsa stub net desc st lsah).lsdb type, Sound l := by
  intro l member
  rw [lsdb_receiveLsa] at member
  split at member
  · rename_i pass
    by_cases side : type = 5 ↔ (lsaHeader lsah).type = 5
    · rw [lsdb_setLsdb_of_iff st _ side] at member
      rcases mem_installLsa (e := ⟨stub, net, desc, st, lsah⟩) pass member with
        ⟨l₀, hl₀, touched⟩ | ⟨_, rfl⟩
      · exact (sound _ l₀ hl₀).touched touched
      · exact ok pass
    · rw [lsdb_setLsdb_of_not_iff st _ side] at member
      exact sound type l member
  · exact sound type l member

theorem loop_sound {lsas : List Memory}
    (ok : ∀ m ∈ lsas, accepted stub m = true → Sound (receivedLsa net m))
    (sound : ∀ type, ∀ l ∈ st.lsdb type, Sound l) (type : BitVec 8) :
    ∀ l ∈ (lsas.foldl (receiveLsa stub net desc) st).lsdb type, Sound l := by
  induction lsas generalizing st with
  | nil => exact sound type
  | cons lsah rest ih =>
    refine ih (fun m hm => ok m (List.mem_cons_of_mem _ hm)) ?_
    intro t
    exact receiveLsa_sound (ok lsah List.mem_cons_self) sound t

/-- Every block of the database is sound. -/
structure SoundDatabase (r : Router) : Prop where
  areas : ∀ areaId area, r.area areaId = some area → ∀ l ∈ area.list, Sound l
  external : ∀ l ∈ r.extlist, Sound l

theorem rxStore_sound (sound : SoundDatabase r) {area : Area}
    (loop : ∀ type, ∀ l ∈ st.lsdb type, Sound l) :
    SoundDatabase (rxStore r area desc st) := by
  refine ⟨?_, loop 5⟩
  intro areaId a found l member
  by_cases here : areaId = desc.areaId
  · simp only [rxStore, here, Function.update_self, Option.some.injEq] at found
    rw [← found] at member
    exact loop 1 l member
  · simp only [rxStore, Function.update_of_ne here] at found
    exact sound.areas areaId a found l member

theorem rxStart_sound (sound : SoundDatabase r) {area : Area} {areaId : BitVec 32}
    (found : r.area areaId = some area) (nb : Neighbor) (type : BitVec 8) :
    ∀ l ∈ (rxStart r area nb).lsdb type, Sound l := by
  intro l member
  unfold RxState.lsdb rxStart at member
  split at member
  · exact sound.external l member
  · exact sound.areas areaId area found l member

theorem lsupdateRx_sound (sound : SoundDatabase r)
    (wire : WireOk pkt) (desc : PacketDesc) : SoundDatabase (lsupdateRx r pkt desc).1 := by
  unfold lsupdateRx
  split
  · cases hsender : sender r desc with
    | none => exact sound
    | some found =>
      obtain ⟨area, net, nb⟩ := found
      dsimp only
      split
      · exact sound
      · refine rxStore_sound sound ?_
        intro type
        exact loop_sound (fun m hm pass => wire.sound hm pass net)
          (rxStart_sound sound ((sender_eq_some hsender).1) nb) type
  · split
    · exact sound
    · exact sound

/-- The verification loop: each record lies in what is left of the packet, and
records with a header take at least 20 bytes each. -/
theorem verifyLength_spec {body : Memory} {cnt : Nat} {size rest : Int} {ptr : Nat}
    (ok : verifyLength body cnt size ptr = some rest) :
    (∀ p ∈ lsaPointers body cnt ptr, (p : Int) + announced (body.offset p) ≤ ptr + (size - rest)) ∧
      rest ≤ size ∧
      ((∀ p ∈ lsaPointers body cnt ptr, sizeofHeader ≤ announced (body.offset p)) →
        (20 * cnt : Int) ≤ size - rest) := by
  induction cnt generalizing size ptr with
  | zero =>
    cases ok
    refine ⟨?_, by omega, fun _ => by omega⟩
    intro p hp
    cases hp
  | succ cnt ih =>
    rw [verifyLength] at ok
    split at ok
    · cases ok
    · rename_i fits
      obtain ⟨inside, less, counted⟩ := ih ok
      have hlen : ((lsaHeader (body.offset ptr)).length.toNat : Int) =
          announced (body.offset ptr) :=
        rfl
      rw [hlen] at fits inside less counted
      refine ⟨?_, by omega, ?_⟩
      · intro p hp
        rcases List.mem_cons.mp hp with rfl | later
        · omega
        · have bound := inside p later
          omega
      · intro headed
        have first := headed ptr List.mem_cons_self
        have bound := counted (fun p hp => headed p (List.mem_cons_of_mem _ hp))
        simp only [sizeofHeader] at first
        omega

theorem mem_lsas {p : Nat}
    (member : p ∈ lsaPointers pkt.body pkt.cnt.toNat 0) :
    pkt.body.offset p ∈ pkt.lsas :=
  List.mem_map_of_mem member

theorem verified_bounds (ok : pkt.verified = true) (count : 0 ≤ pkt.cnt)
    (headed : ∀ m ∈ pkt.lsas, sizeofHeader ≤ announced m) :
    pkt.count.toNat ≤ (pkt.length.toNat - 28) / 20 ∧
      ∀ p ∈ lsaPointers pkt.body pkt.cnt.toNat 0,
        28 + p + announced (pkt.body.offset p) ≤ pkt.length.toNat := by
  simp only [UpdatePacket.verified, Bool.and_eq_true, decide_eq_true_eq] at ok
  obtain ⟨nonzero, lengths⟩ := ok
  obtain ⟨inside, less, counted⟩ := verifyLength_spec lengths
  have total := counted (fun p hp => headed _ (mem_lsas hp))
  have hcount : pkt.cnt.toNat = pkt.count.toNat := by
    simp only [UpdatePacket.cnt] at count ⊢
    rw [BitVec.toInt_eq_msb_cond] at count ⊢
    split at count
    · have bound := pkt.count.isLt
      omega
    · rename_i low
      rw [if_neg low]
      exact Int.toNat_natCast _
  constructor
  · omega
  · intro p hp
    have bound := inside p hp
    omega

/-- An instance with the key of a record and the sequence number 0. -/
def placeholder (m : Memory) : OspfLsa where
  bytes := Memory.bytes (fun i => if 12 ≤ i ∧ i < 16 then 0 else m i) sizeofHeader
  selfOriginated := false
  flood := 0
  oldCnt := 0
  oldSelfOriginatedSeq := 0
  netIp := 0

theorem placeholder_memory {i : Nat} (inside : i < 20) :
    (placeholder m).memory i = if 12 ≤ i ∧ i < 16 then 0 else m i :=
  Memory.getD_bytes (fun i => if 12 ≤ i ∧ i < 16 then 0 else m i) inside

theorem key_placeholder (m : Memory) : (placeholder m).key = (lsaHeader m).key := by
  simp [OspfLsa.key, OspfLsa.header, LsaHeader.key, lsaHeader, Memory.get32, Memory.get16,
    placeholder_memory]

theorem seq_placeholder (m : Memory) : (placeholder m).header.seq = 0 := by
  simp [OspfLsa.header, lsaHeader, Memory.get32, Memory.get16, placeholder_memory]

/-- The instances of a receiver that takes the record: none, or an older one. -/
def olderInstances (m : Memory) : List OspfLsa :=
  if (lsaHeader m).seq = 0 then [] else [placeholder m]

theorem held_of_headed (ok : pkt.verified = true) (count : 0 ≤ pkt.cnt)
    (headed : ∀ m ∈ pkt.lsas, sizeofHeader ≤ announced m) : pkt.held = true := by
  have few := (verified_bounds ok count headed).1
  have length := pkt.length.isLt
  have same : pkt.cnt.toNat ≤ pkt.count.toNat := by
    have bound : pkt.cnt ≤ pkt.count.toNat := by
      rw [UpdatePacket.cnt, BitVec.toInt_eq_toNat_cond]
      split <;> omega
    omega
  rw [UpdatePacket.held, ok, Bool.true_and, ackFits, Bool.and_eq_true, decide_eq_true_eq,
    decide_eq_true_eq, stackSize]
  omega

theorem packetEvents_receiver (list : List OspfLsa)
    (ok : pkt.held = true) :
    packetEvents (receiver list) pkt fromNeighbor =
      loopEvents false designated fromNeighbor ⟨[], list, list, [], []⟩ pkt.lsas := by
  rw [packetEvents, if_pos ok]
  rfl

theorem mem_loopEvents_append (stub : Bool) (net : Network) (desc : PacketDesc)
    (front rest : List Memory) (m : Memory) (st : RxState) :
    (⟨stub, net, desc, front.foldl (receiveLsa stub net desc) st, m⟩ : LsaEvent) ∈
      loopEvents stub net desc st (front ++ m :: rest) := by
  induction front generalizing st with
  | nil => exact List.mem_cons_self
  | cons x front ih => exact List.mem_cons_of_mem _ (ih _)

theorem find_foldl_receiveLsa (stub : Bool) (net : Network) (desc : PacketDesc)
    {front : List Memory} (headed : ∀ x ∈ front, sizeofHeader ≤ announced x) {k : LsaKey}
    (other : ∀ x ∈ front, k ≠ (lsaHeader x).key) (st : RxState) :
    lsaListFind ((front.foldl (receiveLsa stub net desc) st).lsdb k.type) k =
      lsaListFind (st.lsdb k.type) k := by
  induction front generalizing st with
  | nil => rfl
  | cons x front ih =>
    rw [List.foldl_cons, ih (fun y hy => headed y (List.mem_cons_of_mem _ hy))
      (fun y hy => other y (List.mem_cons_of_mem _ hy))]
    exact lsaListFind_receiveLsa_ne stub net desc st (fun _ => headed x List.mem_cons_self)
      (other x List.mem_cons_self)

theorem find_olderInstances (hlist : st.lsdb (lsaHeader m).type = olderInstances m) :
    lsaListFind (st.lsdb (lsaHeader m).type) (lsaHeader m).key =
      if (lsaHeader m).seq = 0 then none else some (placeholder m) := by
  rw [hlist, olderInstances]
  split
  · rfl
  · rw [lsaListFind_cons, key_placeholder, if_pos rfl]

theorem admits_record (headed : ∀ m ∈ pkt.lsas, sizeofHeader ≤ announced m)
    {front rest : List Memory} (split : pkt.lsas = front ++ m :: rest)
    (other : ∀ x ∈ front, (lsaHeader m).key ≠ (lsaHeader x).key) (pass : accepted false m = true)
    (live : (lsaHeader m).age = maxAge → (lsaHeader m).seq ≠ 0) :
    admits ⟨false, designated, fromNeighbor, front.foldl (receiveLsa false designated fromNeighbor)
      ⟨[], olderInstances m, olderInstances m, [], []⟩, m⟩ = true := by
  have headed' : ∀ x ∈ front, sizeofHeader ≤ announced x := by
    intro x hx
    refine headed x ?_
    rw [split]
    exact List.mem_append_left _ hx
  have kept := find_foldl_receiveLsa false designated fromNeighbor headed' other
    ⟨[], olderInstances m, olderInstances m, [], []⟩
  have start : lsaListFind ((⟨[], olderInstances m, olderInstances m, [], []⟩ : RxState).lsdb
      (lsaHeader m).key.type) (lsaHeader m).key =
        if (lsaHeader m).seq = 0 then none else some (placeholder m) :=
    find_olderInstances (ite_self _)
  have found : lsaListFind ((front.foldl (receiveLsa false designated fromNeighbor)
      ⟨[], olderInstances m, olderInstances m, [], []⟩).lsdb (lsaHeader m).type)
      (lsaHeader m).key = if (lsaHeader m).seq = 0 then none else some (placeholder m) :=
    kept.trans start
  simp only [admits, LsaEvent.header, pass, found, Bool.true_and]
  by_cases zero : (lsaHeader m).seq = 0
  · have young : (lsaHeader m).age ≠ maxAge := fun h => live h zero
    rw [if_pos zero]
    simp [designated, young]
  · have newer : (placeholder m).header.seq < (lsaHeader m).seq := by
      rw [seq_placeholder]
      bv_omega
    rw [if_neg zero]
    simp only [newer]
    rfl

theorem Sound.format_le (sound : Sound (receivedLsa net m))
    (known : m 3 = 1 ∨ m 3 = 2 ∨ m 3 = 3 ∨ m 3 = 4 ∨ m 3 = 5) : formatLength m ≤ announced m := by
  have hlen : (receivedLsa net m).bytes.length = announced m := Memory.length_bytes m _
  have inside : ∀ i < announced m, (receivedLsa net m).memory i = m i := fun i hi =>
    Memory.getD_bytes m hi
  have headed := sound.headed
  have format := sound.format
  rw [hlen] at headed format
  simp only [sizeofHeader] at headed
  have type : (receivedLsa net m).memory 3 = m 3 := inside 3 (by omega)
  have long : 24 ≤ announced m := by
    refine Nat.le_trans ?_ format
    rcases known with h | h | h | h | h <;> simp [formatLength, type, h]
  have same : formatLength (receivedLsa net m).memory = formatLength m := by
    simp only [formatLength, Memory.get16, type, inside 22 (by omega), inside 23 (by omega)]
  exact same ▸ format

/-- When the records of a packet name different advertisements, their lengths are
also needed: some receiver takes each of them. -/
theorem wireOk_of_sound (ok : pkt.verified = true) (count : 0 ≤ pkt.cnt)
    (headed : ∀ m ∈ pkt.lsas, sizeofHeader ≤ announced m)
    (distinct : (pkt.lsas.map (fun m => (lsaHeader m).key)).Nodup)
    (live : ∀ m ∈ pkt.lsas, (lsaHeader m).age = maxAge → (lsaHeader m).seq ≠ 0)
    (sound : ∀ r desc, ∀ e ∈ packetEvents r pkt desc, admits e = true →
      Sound (receivedLsa e.net e.lsah)) : WireOk pkt := by
  refine ⟨count, headed, ?_⟩
  intro m member pass
  obtain ⟨front, rest, split⟩ := List.append_of_mem member
  have other : ∀ x ∈ front, (lsaHeader m).key ≠ (lsaHeader x).key := by
    intro x hx same
    rw [split, List.map_append, List.map_cons, List.nodup_append] at distinct
    exact distinct.2.2 _ (List.mem_map_of_mem hx) _ List.mem_cons_self same.symm
  have taken := admits_record headed split other pass (live m member)
  have event := mem_loopEvents_append false designated fromNeighbor front rest m
    ⟨[], olderInstances m, olderInstances m, [], []⟩
  rw [← split, ← packetEvents_receiver _ (held_of_headed ok count headed)] at event
  exact (sound _ _ _ event taken).format_le (known_type pass)

/-- When the records announce what their formats need, every block that reaches the
database is sound, the accepted count fits the packet, and the records lie inside
the received bytes. For packets that name different advertisements nothing less is
enough. -/
theorem admitted_sound (pkt : UpdatePacket) (received : Nat)
    (fits : pkt.length.toNat ≤ received) :
    (WireOk pkt →
      (∀ r desc, (∀ e ∈ packetEvents r pkt desc, admits e = true →
          Sound (receivedLsa e.net e.lsah)) ∧
        (SoundDatabase r → SoundDatabase (lsupdateRx r pkt desc).1)) ∧
      (pkt.verified = true → pkt.count.toNat ≤ (pkt.length.toNat - 28) / 20 ∧
        ∀ p ∈ lsaPointers pkt.body pkt.cnt.toNat 0,
          28 + p + announced (pkt.body.offset p) ≤ received)) ∧
    (pkt.verified = true → 0 ≤ pkt.cnt → (∀ m ∈ pkt.lsas, sizeofHeader ≤ announced m) →
      (pkt.lsas.map (fun m => (lsaHeader m).key)).Nodup →
      (∀ m ∈ pkt.lsas, (lsaHeader m).age = maxAge → (lsaHeader m).seq ≠ 0) →
      (∀ r desc, ∀ e ∈ packetEvents r pkt desc, admits e = true →
        Sound (receivedLsa e.net e.lsah)) → WireOk pkt) := by
  refine ⟨?_, wireOk_of_sound⟩
  intro wire
  refine ⟨?_, ?_⟩
  · intro r desc
    refine ⟨?_, fun sound => lsupdateRx_sound sound wire desc⟩
    intro e he taken
    have pass : accepted e.stub e.lsah = true := by
      simp only [admits, Bool.and_eq_true] at taken
      exact taken.1
    exact wire.sound (mem_packetEvents he) pass e.net
  · intro ok
    obtain ⟨counted, inside⟩ := verified_bounds ok wire.count wire.headed
    exact ⟨counted, fun p hp => Nat.le_trans (inside p hp) fits⟩

/-- The router LSA of 3.3.3.3 with one link to the network of 10.0.0.1. -/
def routerLsa : List (BitVec 8) :=
  [0, 1, 0, 1, 3, 3, 3, 3, 3, 3, 3, 3, 128, 0, 0, 1, 146, 137, 0, 36,
    0, 0, 0, 1, 10, 0, 0, 1, 10, 0, 0, 3, 2, 0, 0, 10]

theorem wireOk_routerLsa : WireOk (updateOf 1 routerLsa) := ⟨by decide, by decide, by decide⟩

theorem admitted_sound_routerLsa :
    (updateOf 1 routerLsa).verified = true ∧
      SoundDatabase (lsupdateRx (receiver []) (updateOf 1 routerLsa) fromNeighbor).1 ∧
      (updateOf 1 routerLsa).count.toNat ≤ ((updateOf 1 routerLsa).length.toNat - 28) / 20 := by
  have empty : SoundDatabase (receiver []) := by
    refine ⟨?_, fun l hl => by cases hl⟩
    intro areaId area found l hl
    simp only [receiver] at found
    split at found
    · cases found
      cases hl
    · cases found
  obtain ⟨rx, bounds⟩ := (admitted_sound (updateOf 1 routerLsa) 64 (by decide)).1 wireOk_routerLsa
  exact ⟨by decide, (rx _ _).2 empty, (bounds (by decide)).1⟩

/-- The header of a router LSA without its body. -/
def headerOnly : List (BitVec 8) :=
  [0, 1, 0, 1, 3, 3, 3, 3, 3, 3, 3, 3, 128, 0, 0, 1, 176, 160, 0, 20]

/-- A router LSA of 20 bytes is admitted, and reading its links leaves the block; a
packet without records passes the checks with a count of 2^31, and kills the process. -/
theorem short_lsa_admitted :
    (∃ e ∈ packetEvents (receiver []) (updateOf 1 headerOnly) fromNeighbor,
        admits e = true ∧ ¬ Sound (receivedLsa e.net e.lsah) ∧
        lsaAddCost (receivedLsa e.net e.lsah).bytes = none) ∧
      (updateOf 0x80000000 []).verified = true ∧
      ¬ (updateOf 0x80000000 []).count.toNat ≤
        ((updateOf 0x80000000 []).length.toNat - 28) / 20 ∧
      (lsupdateRx (receiver []) (updateOf 0x80000000 []) fromNeighbor).2 = .killed := by
  refine ⟨⟨⟨false, designated, fromNeighbor, ⟨[], [], [], [], []⟩,
    (updateOf 1 headerOnly).body.offset 0⟩, ?_, by decide, ?_, by decide⟩, by decide, by decide,
    by decide⟩
  · rw [packetEvents_receiver [] (by decide)]
    exact List.mem_cons_self
  · intro sound
    exact absurd sound.mask (by decide)

end LsaBounds
