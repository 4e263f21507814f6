import Rcp100.CachedAnswers

/-!
# Hosts that are configured

The entry of a configured host stays in the cache from one static update to the next. A name
of one label is looked up with the domain of the router behind it, as a string without its
length.
-/

namespace StaticHosts

open ChainTable FaultRuns DnsPacket DnsMessages DnsProxy CachedAnswers
open DnsCache (Cache Entry Host MadeStatic Shape Owned FreshBlock FreshBlocks Hits HitsOne Aged
  Answer Chained Inserts Keeps Packet StaticMarked Walking addStatic_grows addStatics_cons age
  cString cacheAddStatic cacheReply makeStatic)
open ByteBuffer (be32 length_be32)
open Function (update update_of_ne update_self)
open DnsRequests (maxReq)

/-- The cache has an entry that was made for the host. -/
def Holds (m : Cache) (host : Host) : Prop := ∃ p ∈ m.live, MadeStatic host (m.entry p)

section Keeping

variable {m m' : Cache} {host other : Host}

/-- The timer takes no static entry out that has a marker. -/
def Kept (m m' : Cache) : Prop :=
  Aged m m' ∧ ∀ p ∈ m.live, (m.entry p).isStatic = true → (m.entry p).marker = true →
    p ∈ m'.live

theorem kept_walking : Walking Kept StaticMarked where
  refl := fun m => ⟨DnsCache.aged_walking.refl m, fun _ used _ _ => used⟩
  trans := by
    rintro a b c ⟨aged, stays⟩ ⟨aged', stays'⟩
    refine ⟨DnsCache.aged_walking.trans aged aged', fun p used static marked => ?_⟩
    have used' := stays p used static marked
    exact stays' p used' ((aged.1.isStatic used').trans static) ((aged.2 p used').trans marked)
  fewer := fun kept => kept.1.1
  keeps := fun kept => DnsCache.aged_walking.keeps kept.1

/-- What leaves the chains as they are, or takes one entry out, takes out no other one. -/
theorem stays_of_chained {chains : BitVec 10 → List DnsCache.Ptr} {p q : DnsCache.Ptr}
    (chained : Chained m chains)
    (after : Chained m' chains ∨
      Chained m' (update chains (DnsCache.hash (m.entry p).name)
        ((chains (DnsCache.hash (m.entry p).name)).erase p)))
    (used : q ∈ m.live) (other : q ≠ p) : q ∈ m'.live := by
  have inside := (Threads.mem chained (DnsCache.hash (m.entry q).name) q).mpr ⟨used, rfl⟩
  rcases after with same | removed
  · exact ((Threads.mem same _ q).mp inside).1
  · refine ((Threads.mem removed (DnsCache.hash (m.entry q).name) q).mp ?_).1
    by_cases here : DnsCache.hash (m.entry q).name = DnsCache.hash (m.entry p).name
    · rw [here, update_self]
      rw [here] at inside
      exact (List.mem_erase_of_ne other).mpr inside
    · rw [update_of_ne here]
      exact inside

theorem age_kept : Keeps Kept StaticMarked age := by
  intro m chains p chained owned used
  obtain ⟨m', aged, owned', step, marked, after⟩ :=
    DnsCache.age_keeps m chains p chained owned used
  refine ⟨m', aged, owned', ⟨step, fun q usedQ static isMarked => ?_⟩, marked, after⟩
  by_cases same : q = p
  · subst same
    rw [age, access_ok used, ok_bind, if_pos static, if_pos isMarked] at aged
    cases aged
    exact used
  · exact stays_of_chained chained after usedQ same

theorem Holds.kept (holds : Holds m host) (kept : Kept m m') : Holds m' host := by
  obtain ⟨p, used, made⟩ := holds
  have used' := kept.2 p used made.isStatic made.marker
  have marker := (kept.1.2 p used').trans made.marker
  have key := (kept.1.1.key used').trans made.key
  have cname := (kept.1.1.cname used').trans made.cname
  obtain ⟨ttl, mark, same⟩ := kept.1.1.entry p used'
  refine ⟨p, used', key, ?_, (kept.1.1.isStatic used').trans made.isStatic, marker, cname⟩
  rw [same]
  exact made.ip

theorem Holds.timer (holds : Holds m host) (shape : Shape m) (owned : Owned m)
    (timed : DnsCache.cacheTimer m = .ok m') : Holds m' host := by
  obtain ⟨t, timed', -, -, kept, -⟩ := DnsCache.sweepChains_spec kept_walking age_kept shape owned
  cases timed.symm.trans timed'
  exact holds.kept kept

theorem Holds.more (holds : Holds m host) {p : DnsCache.Ptr} (fresh : p ∉ m.live) {e : Entry}
    (live : ∀ q ∈ m.live, q ∈ m'.live) (entry : m'.entry = update m.entry p e) :
    Holds m' host := by
  obtain ⟨q, used, made⟩ := holds
  refine ⟨q, live q used, ?_⟩
  rw [entry, update_of_ne (ne_of_mem_of_not_mem used fresh)]
  exact made

theorem Holds.inserts (holds : Holds m host) {a : Answer}
    {block packetBlock : Option DnsCache.Ptr} (fresh : FreshBlock m.live block)
    (inserts : Inserts m a block packetBlock m') : Holds m' host := by
  cases inserts with
  | found => exact holds
  | noMemory => exact holds
  | plain p malloc =>
    exact holds.more (fresh p malloc) (fun q used => List.mem_cons_of_mem p used) rfl
  | cname p q malloc =>
    exact holds.more (fresh p malloc) (fun r used => List.mem_cons_of_mem p used) rfl

theorem Holds.addStatic (holds : Holds m host) (shape : Shape m)
    {block : Option DnsCache.Ptr} (fresh : FreshBlock m.live block)
    (differ : other.key ≠ host.key) (done : cacheAddStatic m other block = .ok m') :
    Holds m' host := by
  have adds := DnsCache.cacheAddStatic_cases shape other block
  rw [done] at adds
  have apart (p : DnsCache.Ptr) (key : (m.entry p).key = other.key) (e : Entry)
      (entry : m'.entry = update m.entry p e) (live : m'.live = m.live) :
      Holds m' host := by
    obtain ⟨q, used, made⟩ := holds
    refine ⟨q, live ▸ used, ?_⟩
    rw [entry, update_of_ne]
    · exact made
    · rintro rfl
      exact differ (key.symm.trans made.key)
  cases adds with
  | nothing => exact holds
  | plain p used key => exact apart p key _ rfl rfl
  | cname p q used key _ _ entry => exact apart p key entry rfl rfl
  | new p malloc absent entry =>
    exact holds.more (fresh p malloc) (fun q used => List.mem_cons_of_mem p used) rfl

theorem holds_addStatic (shape : Shape m) {block : Option DnsCache.Ptr} (named : host.name ≠ [])
    (memory : block ≠ none) (noHit : ¬ Hits m host)
    (done : cacheAddStatic m host block = .ok m') : Holds m' host := by
  have adds := DnsCache.cacheAddStatic_cases shape host block
  generalize isDone : cacheAddStatic m host block = r at adds
  rw [done] at isDone
  subst isDone
  cases adds with
  | nothing why =>
    -- no entry has the key, so that `malloc` was called
    have absent := why.resolve_left named
    obtain ⟨p, malloc⟩ := Option.ne_none_iff_exists'.mp memory
    obtain ⟨r, searched, isEntry⟩ := shape.find (DnsCache.realStaticName host.name) 1
    have missed : r = none := by
      cases r with
      | none => rfl
      | some q =>
        obtain ⟨used, key⟩ := (isEntry q).mp rfl
        exact absurd key (absent q used)
    subst missed
    rw [cacheAddStatic, if_neg named] at done
    simp only [searched, ok_bind, malloc, DnsCache.cacheAdd, DnsCache.Cache.setEntry, access,
      List.mem_cons_self, if_true] at done
    have live := congrArg (fun r => r.toOption.map Cache.live) done
    exact absurd (congrArg (fun l => l.map List.length) live) (by simp [Except.toOption])
  | plain p used key cname =>
    refine ⟨p, used, ?_⟩
    have self : (m.setEntry p (makeStatic (m.entry p) host.ip)).entry p =
        makeStatic (m.entry p) host.ip := update_self ..
    rw [self]
    have type : (m.entry p).type = 1 := congrArg Prod.snd key
    refine ⟨?_, rfl, rfl, rfl, cname⟩
    rw [← key, Entry.key, Entry.key, type]
    rfl
  | cname p q used key cname =>
    refine absurd ⟨p, used, key, ?_⟩ noHit
    rw [cname]
    exact Option.some_ne_none q
  | new p malloc absent entry isNew =>
    refine ⟨p, List.mem_cons_self, ?_⟩
    change MadeStatic host (update m.entry p entry p)
    rw [update_self, isNew]
    exact ⟨rfl, rfl, rfl, rfl, rfl⟩

end Keeping

section Updates

variable {m m' : Cache}

theorem Holds.addStatics {host : Host} (holds : Holds m host) (shape : Shape m)
    {hosts : List (Host × Option DnsCache.Ptr)} (fresh : FreshBlocks m.live hosts)
    (differ : ∀ other ∈ hosts, other.1.key ≠ host.key)
    (done : DnsCache.addStatics m hosts = .ok m') : Holds m' host := by
  induction hosts generalizing m with
  | nil =>
    cases done
    exact holds
  | cons other hosts ih =>
    rw [addStatics_cons] at done
    obtain ⟨t, first, done⟩ := bind_eq_ok done
    obtain ⟨shape', -, -, live⟩ := addStatic_grows shape fresh.head first
    have kept := holds.addStatic shape fresh.head (differ other List.mem_cons_self) first
    exact ih kept shape' (fresh.tail live)
      (fun o member => differ o (List.mem_cons_of_mem other member)) done

theorem holds_addStatics (shape : Shape m) (owned : Owned m)
    {hosts : List (Host × Option DnsCache.Ptr)} (fresh : FreshBlocks m.live hosts)
    (noHit : ¬ HitsOne m hosts) (memory : ∀ host ∈ hosts, host.2 ≠ none)
    (named : ∀ host ∈ hosts, host.1.name ≠ []) (differ : (hosts.map (·.1.key)).Nodup)
    (done : DnsCache.addStatics m hosts = .ok m') : ∀ host ∈ hosts, Holds m' host.1 := by
  induction hosts generalizing m with
  | nil => exact fun host member => absurd member List.not_mem_nil
  | cons first hosts ih =>
    have isNamed := named first List.mem_cons_self
    have notHit : ¬ Hits m first.1 := fun hits =>
      noHit ⟨first, List.mem_cons_self, isNamed, hits⟩
    obtain ⟨t, added, owned', adds⟩ :=
      @DnsCache.addStatic_spec m first.1 shape owned first.2 fun _ => notHit
    obtain ⟨shape', -, -, live⟩ := addStatic_grows shape fresh.head added
    rw [addStatics_cons, added, ok_bind] at done
    have here := holds_addStatic shape isNamed (memory first List.mem_cons_self) notHit added
    obtain ⟨apart, later⟩ := List.nodup_cons.mp differ
    intro host member
    rcases List.mem_cons.mp member with rfl | rest
    · refine here.addStatics shape' (fresh.tail live) (fun other inside same => apart ?_) done
      exact List.mem_map.mpr ⟨other, inside, same⟩
    · refine ih shape' owned' (fresh.tail live) ?_
        (fun o inside => memory o (List.mem_cons_of_mem first inside))
        (fun o inside => named o (List.mem_cons_of_mem first inside)) later done host rest
      rintro ⟨other, inside, otherNamed, hits⟩
      exact noHit ⟨other, List.mem_cons_of_mem first inside, otherNamed, adds.hits hits⟩

theorem holds_update (shape : Shape m) (owned : Owned m)
    {hosts : List (Host × Option DnsCache.Ptr)} (fresh : FreshBlocks m.live hosts)
    (noHit : ¬ HitsOne m hosts) (memory : ∀ host ∈ hosts, host.2 ≠ none)
    (named : ∀ host ∈ hosts, host.1.name ≠ []) (differ : (hosts.map (·.1.key)).Nodup)
    (done : DnsCache.cacheUpdateStatic m hosts = .ok m') : ∀ host ∈ hosts, Holds m' host.1 := by
  obtain ⟨t, cleared, shapeT, ownedT, same, -⟩ := DnsCache.clearMarkers_spec shape owned
  have freshT : FreshBlocks t.live hosts := same.live.symm ▸ fresh
  simp only [DnsCache.cacheUpdateStatic, cleared, ok_bind] at done
  exact holds_addStatics shapeT ownedT freshT (fun hits => noHit (same.hitsOne.mp hits)) memory
    named differ done

end Updates

section Queries

variable {host : Host} {labels : List Label}

/-- The name of a host, in labels. -/
structure Named (host : Host) (labels : List Label) : Prop where
  wellFormed : WellFormed labels
  zeroFree : ZeroFree labels
  dotFree : DotFree labels
  nonempty : labels ≠ []
  spelled : host.name = (dotted labels).dropLast
  short : host.name.length ≤ 60

section

variable (named : Named host labels)

include named

theorem Named.hostNamed : HostNamed host.name labels :=
  ⟨named.wellFormed, named.zeroFree, named.dotFree, named.nonempty, .inl named.spelled⟩

theorem Named.length : (wire labels).length = host.name.length + 2 := by
  have last := congrArg List.length (dropLast_dotted labels named.nonempty)
  have size := length_dotted labels
  rw [List.length_append, List.length_singleton] at last
  rw [named.spelled]
  omega

theorem Named.wire_le : (wire labels).length ≤ maxDomainName := by
  have length := named.length
  have short := named.short
  unfold maxDomainName
  omega

theorem Named.name_ne : host.name ≠ [] := by
  intro empty
  have length := named.length
  rw [empty] at length
  obtain ⟨label, rest, rfl⟩ := List.exists_cons_of_ne_nil named.nonempty
  have first := named.wellFormed.head.1
  have positive := length_wire_pos rest
  rw [length_wire_cons, List.length_nil] at length
  omega

theorem Named.key : host.key = (prefixed labels, 1) := by
  rw [Host.key, named.hostNamed.realStaticName]

theorem Named.name_eq {other : Host} {labels' : List Label}
    (named' : Named other labels') (same : host.key = other.key) : host.name = other.name := by
  rw [named.key, named'.key, Prod.mk.injEq] at same
  rw [named.spelled, named'.spelled,
    prefixed_injective named.wellFormed named'.wellFormed same.1]

end

/-- The name is looked up as the cache has it: a name of one label is too long with the domain
behind it, or is the length of the label with the label behind it even so. -/
def LooksUp (config : Config) (labels : List Label) : Prop :=
  ∀ label, labels = [label] → maxDomainName < label.length + config.domainName.length ∨
    label ++ config.domainName = BitVec.ofNat 8 label.length :: label

theorem isUnqualified_wire (wellFormed : WellFormed labels) (zeroFree : ZeroFree labels)
    (dotFree : DotFree labels) (nonempty : labels ≠ [])
    (short : (wire labels).length ≤ maxDomainName) :
    (∃ label, labels = [label] ∧ isUnqualified (wire labels) = some label) ∨
      (∀ label, labels ≠ [label]) ∧ isUnqualified (wire labels) = none := by
  have whole : cString (dotted labels).dropLast = (dotted labels).dropLast :=
    cString_self fun inside => zero_notMem_dotted zeroFree ((List.dropLast_sublist _).subset inside)
  obtain ⟨label, rest, rfl⟩ := List.exists_cons_of_ne_nil nonempty
  have noDot := dotFree label List.mem_cons_self
  cases rest with
  | nil =>
    have alone : (dotted [label]).dropLast = label := by
      rw [dotted_cons]
      exact List.dropLast_concat
    refine .inl ⟨label, rfl, ?_⟩
    rw [isUnqualified, getRealName_wire wellFormed short, whole, alone]
    exact if_neg noDot
  | cons next rest =>
    refine .inr ⟨fun _ same => (by cases same), ?_⟩
    have some : dotted (next :: rest) ≠ [] := by
      rw [dotted_cons]
      simp
    have dot : (0x2e : Byte) ∈ (dotted (label :: next :: rest)).dropLast := by
      rw [dotted_cons, List.dropLast_append_of_ne_nil (List.cons_ne_nil _ _),
        List.dropLast_cons_of_ne_nil some]
      exact List.mem_append_right _ List.mem_cons_self
    rw [isUnqualified, getRealName_wire wellFormed short, whole]
    exact if_pos dot

theorem lookupName_iff (named : Named host labels) (config : Config) :
    lookupName config (wire labels) = prefixed labels ↔ LooksUp config labels := by
  have text := cString_wire named.wellFormed named.zeroFree
  rcases isUnqualified_wire named.wellFormed named.zeroFree named.dotFree named.nonempty
    named.wire_le with ⟨label, rfl, single⟩ | ⟨several, qualified⟩
  · have alone : prefixed [label] = BitVec.ofNat 8 label.length :: label := by
      rw [prefixed_cons]
      exact congrArg _ (List.append_nil label)
    rw [lookupName, single]
    dsimp only
    by_cases long : maxDomainName < label.length + config.domainName.length
    · rw [if_pos long, text]
      exact ⟨fun _ _ same => .inl (by cases same; exact long), fun _ => rfl⟩
    · rw [if_neg long, alone]
      constructor
      · intro same label' isLabel
        cases isLabel
        exact .inr same
      · exact fun looks => (looks label rfl).resolve_left long
  · rw [lookupName, qualified]
    exact ⟨fun _ label same => absurd same (several label), fun _ => text⟩

end Queries

section Answers

variable {host : Host} {labels : List Label} {m : Proxy} {d : Datagram} {w : World}

/-- A query of type A for the name, which `dnspkt_verify` accepts; `sendto` will not fail. -/
structure Query (labels : List Label) (d : Datagram) (w : World) : Prop where
  accepted : (dnspktVerify d.buf d.len w.old).1 = false
  question : HasQuestions d.buf d.len [(labels, 1)]
  sends : w.sends = true

/-- The query is answered from the entry of the host, with the address of the host. -/
def Answered (m : Proxy) (host : Host) (labels : List Label) (d : Datagram) (w : World) : Prop :=
  ∃ dc m' message,
    cacheReply m.cache (lookupName m.config (extracted d w).queryName)
      (extracted d w).queryType = .ok (some (dc, none)) ∧ dc.key = host.key ∧
    processClient m d (extracted d w) w = .ok (m', .reply message) ∧
    message.sock = m.config.clientSock ∧ message.ip = d.ip ∧ message.port = d.port ∧
    read16 message.buf 0 = read16 d.buf 0 ∧
    Complete message.buf message.len [(labels, 1)] [(1, be32 host.ip)]

/-- A name server is configured. -/
def HasServer (config : Config) : Prop := config.nameServer1 ≠ 0 ∨ config.nameServer2 ≠ 0

theorem pickServer_ne_zero {config : Config} (server : HasServer config) (lastServer1 : Bool) :
    (pickServer config lastServer1).1 ≠ 0 := by
  rw [pickServer]
  split_ifs with first second second
  · exact second
  · exact server.resolve_right second
  · exact second
  · exact server.resolve_left second

theorem cacheReply_entry {m : Cache} (shape : Shape m) {p : DnsCache.Ptr} (used : p ∈ m.live)
    {name : List Byte} {type : Byte} (key : (m.entry p).key = (name, type))
    (cname : (m.entry p).cname = none) :
    cacheReply m name type = .ok (some (m.entry p, none)) := by
  obtain ⟨r, searched, isEntry⟩ := shape.find name type
  rw [(isEntry p).mpr ⟨used, key⟩] at searched
  simp only [cacheReply, searched, ok_bind, cname, pure_eq_ok]

theorem cacheReply_key {m : Cache} (shape : Shape m) {name : List Byte} {type : Byte}
    {dc : Entry} {packet : Option Packet}
    (found : cacheReply m name type = .ok (some (dc, packet))) :
    dc.key = (name, type) := by
  obtain ⟨r, searched, isEntry⟩ := shape.find name type
  simp only [cacheReply, searched, ok_bind] at found
  cases r with
  | none => cases found
  | some p =>
    have key := ((isEntry p).mp rfl).2
    cases cname : (m.entry p).cname with
    | none =>
      simp only [cname] at found
      cases found
      exact key
    | some q =>
      simp only [cname, access] at found
      by_cases used : q ∈ m.packets
      · rw [if_pos used] at found
        cases found
        exact key
      · rw [if_neg used] at found
        cases found

theorem answered_iff (shape : Shape m.cache) (holds : Holds m.cache host)
    (named : Named host labels) (server : HasServer m.config) (query : Query labels d w) :
    Answered m host labels d w ↔ LooksUp m.config labels := by
  obtain ⟨isName, isType⟩ := verify_question query.question named.wire_le w.old
  have name : (extracted d w).queryName = wire labels := isName
  have type : (extracted d w).queryType = 1 := isType
  rw [← lookupName_iff named]
  constructor
  · rintro ⟨dc, _, _, found, key, -⟩
    have key' := cacheReply_key shape found
    rw [key, named.key, name, Prod.mk.injEq] at key'
    exact key'.1.symm
  · intro looked
    obtain ⟨p, used, made⟩ := holds
    have key : (m.cache.entry p).key = (prefixed labels, 1) := made.key.trans named.key
    have found := cacheReply_entry shape used key made.cname
    have isA : (m.cache.entry p).type = 1 := congrArg Prod.snd key
    have built := dnspktBuild_eq w.out (m.cache.entry p) (read16 d.buf 0)
      (.inl ⟨isA, rfl⟩)
    obtain ⟨tid, complete⟩ := reply_complete w.out (read16 d.buf 0) named.wellFormed
      (congrArg Prod.fst key) (show (m.cache.entry p).type.setWidth 16 = 1 by rw [isA]; rfl)
      (show (be32 (m.cache.entry p).ip).length < 65536 by rw [length_be32]; decide)
    rw [made.ip] at built tid complete
    let message : Message :=
      { sock := m.config.clientSock, ip := d.ip, port := d.port
        buf := writeBytes w.out 0 (replyHead (read16 d.buf 0) (m.cache.entry p) ++
          replyTail (m.cache.entry p) (be32 host.ip))
        len := 12 + ((m.cache.entry p).name.length + 1) + 16 + (be32 host.ip).length }
    refine ⟨m.cache.entry p, { m with lastServer1 := (pickServer m.config m.lastServer1).2 },
      message, ?_, made.key, ?_, rfl, rfl, rfl, tid, complete⟩
    · rw [name, type, looked, found]
    · have notShort :
          ¬ 12 + ((m.cache.entry p).name.length + 1) + 16 + (be32 host.ip).length ≤ 12 := by
        omega
      simp only [processClient, if_neg (pickServer_ne_zero server m.lastServer1), replyFromCache,
        name, type, looked, found, ok_bind, built, if_neg notShort, query.sends]
      rfl

end Answers

section Runs

variable {s s' : State} {op : DnsProxy.Op} {hosts : List Host}

/-- Hosts with names that are spelled well, and differ. -/
structure ValidHosts (hosts : List Host) : Prop where
  named : ∀ host ∈ hosts, ∃ labels, Named host labels
  differ : (hosts.map Host.name).Nodup

theorem ValidHosts.keys (valid : ValidHosts hosts) : (hosts.map Host.key).Nodup := by
  refine List.Nodup.map_on ?_ (List.Nodup.of_map Host.name valid.differ)
  intro host member other member' same
  obtain ⟨labels, named⟩ := valid.named host member
  obtain ⟨labels', named'⟩ := valid.named other member'
  exact List.inj_on_of_nodup_map valid.differ member member' (named.name_eq named' same)

/-- The hosts of the last static update; `clear ip host` clears the cache before it makes
one. -/
def nowConfigured (hosts : List Host) : DnsProxy.Op → List Host
  | .updateStatic now => now.map (·.1)
  | .clear => []
  | _ => hosts

def configured (ops : List DnsProxy.Op) : List Host := ops.foldl nowConfigured []

/-- There is memory for the hosts. -/
def Roomy (_ : State) : DnsProxy.Op → Prop
  | .updateStatic hosts => ∀ host ∈ hosts, host.2 ≠ none
  | _ => True

/-- The invariant: the cache has all hosts of the last update. -/
def Holding (hosts : List Host) (s : State) : Prop :=
  (∃ act inact, Linked s act inact) ∧
    (ValidHosts hosts → ∀ host ∈ hosts, Holds s.proxy.cache host)

theorem holds_receive {act inact : List DnsRequests.Ptr} {d : Datagram} {w : World}
    (fresh : FreshBlock s.proxy.cache.live w.block) {r : Proxy × Effect}
    (receives : Receives s.proxy act inact d w r) {host : Host}
    (holds : Holds s.proxy.cache host) : Holds r.1.cache host := by
  cases receives with
  | dropped => exact holds
  | server delivered r serves =>
    cases serves with
    | ignored => exact holds
    | forwarded p member fits sends requests cache pool req cached =>
      rcases cached with ⟨-, same⟩ | ⟨answer, -, inserts⟩
      · exact same ▸ holds
      · exact holds.inserts fresh inserts
  | client other sock r asks =>
    cases asks <;> exact holds

theorem step_holding (holding : Holding hosts s) (allowed : Allowed s op) (roomy : Roomy s op)
    (noCname : NoCname s op) :
    ∃ s', step s op = .ok s' ∧ Holding (nowConfigured hosts op) s' := by
  obtain ⟨⟨act, inact, linked⟩, holds⟩ := holding
  obtain ⟨m, effect, executed, -, act', inact', linked'⟩ := exec_spec linked allowed noCname
  refine ⟨s.after op m effect, ?_, ⟨act', inact', linked'⟩, fun valid host member => ?_⟩
  · simp only [step, executed, ok_bind, pure_eq_ok]
  change Holds m.cache host
  have sound := linked.sound
  cases op with
  | receive d w =>
    obtain ⟨r, received, receives⟩ := rxPacket_cases (d := d) linked.pool linked.differ
      sound allowed.1 allowed.2.1
    cases (Except.ok.inj (received.symm.trans executed))
    exact holds_receive allowed.2.1 receives (holds valid host member)
  | timer =>
    obtain ⟨cache, timed, -⟩ := DnsCache.cacheTimer_spec sound.shape sound.owned
    obtain ⟨requests, ticked, -⟩ := DnsRequests.rqTimer_spec linked.pool
    simp only [exec, tick, timed, ticked, ok_bind, pure_eq_ok] at executed
    cases executed
    exact (holds valid host member).timer sound.shape sound.owned timed
  | updateStatic now =>
    obtain ⟨_, cache, updated, -⟩ := DnsCache.cacheUpdateStatic_spec sound.shape sound.owned
      allowed noCname
    simp only [exec, updated, ok_bind, pure_eq_ok] at executed
    cases executed
    obtain ⟨pair, inside, rfl⟩ := List.mem_map.mp member
    have differ := valid.keys
    rw [nowConfigured, List.map_map] at differ
    refine holds_update sound.shape sound.owned allowed noCname roomy (fun other isIn => ?_) differ
      updated pair inside
    obtain ⟨labels, named⟩ := valid.named other.1 (List.mem_map_of_mem isIn)
    exact named.name_ne
  | clear => exact absurd member List.not_mem_nil
  | configure config =>
    cases executed
    exact holds valid host member

theorem run_holding {ops : List DnsProxy.Op} (holding : Holding hosts s)
    (allowed : Along step Allowed ops s) (roomy : Along step Roomy ops s)
    (noCname : Along step NoCname ops s) :
    ∃ s', run step ops s = .ok s' ∧ Holding (ops.foldl nowConfigured hosts) s' := by
  induction ops generalizing s hosts with
  | nil => exact ⟨s, rfl, holding⟩
  | cons op ops ih =>
    obtain ⟨t, done, holding'⟩ := step_holding holding allowed.1 roomy.1 noCname.1
    obtain ⟨s', ran, last⟩ := ih holding' (allowed.2 t done) (roomy.2 t done) (noCname.2 t done)
    refine ⟨s', ?_, last⟩
    rw [run_cons, done, ok_bind]
    exact ran

theorem start_holding {blocks : List DnsRequests.Ptr} (nodup : blocks.Nodup) (config : Config) :
    Holding [] (start config blocks) :=
  ⟨⟨[], blocks.reverse, start_linked nodup config⟩,
    fun _ _ member => absurd member List.not_mem_nil⟩

/-- In every run where no configured host has the name of an entry with a packet, queries for
the hosts of the last update are answered, exactly when their names are looked up as the
cache has them. -/
theorem hosts_answered {blocks : List DnsRequests.Ptr} (nodup : blocks.Nodup) (config : Config)
    (ops : List DnsProxy.Op) (allowed : Along step Allowed ops (start config blocks))
    (roomy : Along step Roomy ops (start config blocks))
    (noCname : Along step NoCname ops (start config blocks)) :
    ∃ s, run step ops (start config blocks) = .ok s ∧
      (ValidHosts (configured ops) → HasServer s.proxy.config → ∀ host ∈ configured ops,
        ∀ labels d w, Named host labels → Query labels d w →
          (Answered s.proxy host labels d w ↔ LooksUp s.proxy.config labels)) := by
  obtain ⟨s, ran, ⟨act, inact, linked⟩, holds⟩ :=
    run_holding (start_holding nodup config) allowed roomy noCname
  refine ⟨s, ran, fun valid server host member labels d w named query => ?_⟩
  exact answered_iff linked.sound.shape (holds valid host member) named server query

end Runs

section Demo

/-- The host `a.b`. -/
def demoHost : Host := { name := [0x61, 0x2e, 0x62], ip := 0x0a0a0a0a }

theorem demoHost_named : Named demoHost [[0x61], [0x62]] := by
  refine ⟨demoAsk_plain.wellFormed, demoAsk_plain.zeroFree, ?_, by decide, rfl, by decide⟩
  unfold DotFree
  decide

theorem empty_noHit (host : Host) (block : Option DnsCache.Ptr) (config : Config)
    (blocks : List DnsRequests.Ptr) :
    NoCname (start config blocks) (.updateStatic [(host, block)]) := by
  rintro ⟨_, -, -, p, used, -⟩
  exact absurd used List.not_mem_nil

theorem validHosts_one {host : Host} {labels : List Label} (named : Named host labels) :
    ValidHosts [host] := by
  refine ⟨fun other member => ?_, List.nodup_singleton _⟩
  cases List.mem_singleton.mp member
  exact ⟨labels, named⟩

/-- The host is configured, a second passes, and the host is asked for. -/
theorem hosts_answered_demo :
    ∃ s, run step [demoUpdate, .timer] (start demoConfig (List.range maxReq)) = .ok s ∧
      Answered s.proxy demoHost [[0x61], [0x62]] (demoAsk 0 1) (demoWorld 7 11) := by
  obtain ⟨s, ran, answered⟩ := hosts_answered
    (List.nodup_range (n := maxReq)) demoConfig [demoUpdate, .timer] (by decide +kernel)
    ⟨fun host member => by cases List.mem_singleton.mp member; exact Option.some_ne_none 0,
      fun _ _ => ⟨trivial, fun _ _ => trivial⟩⟩
    ⟨empty_noHit demoHost (some 0) demoConfig _, fun _ _ => ⟨trivial, fun _ _ => trivial⟩⟩
  have same : (run step [demoUpdate, .timer]
      (start demoConfig (List.range maxReq))).toOption.map
        (fun s => s.proxy.config.nameServer1) = some 0x08080808 := by
    decide +kernel
  rw [ran] at same
  have isServer : s.proxy.config.nameServer1 = 0x08080808 := Option.some.inj same
  have server : HasServer s.proxy.config := by
    refine .inl ?_
    rw [isServer]
    decide
  refine ⟨s, ran, (answered (validHosts_one demoHost_named) server demoHost
    (List.mem_singleton.mpr rfl) _ _ _ demoHost_named
    ⟨by decide +kernel, demoAsk_plain.question, rfl⟩).mpr ?_⟩
  intro label single
  cases single

/-- The host `a`. -/
def shortHost : Host := { name := [0x61], ip := 0x0a0a0a0a }

theorem shortHost_named : Named shortHost [[0x61]] := by
  refine ⟨?_, ?_, ?_, by decide, rfl, by decide⟩
  · unfold WellFormed
    decide
  · unfold ZeroFree
    decide
  · unfold DotFree
    decide

/-- A name of one label is not found under the string that is looked up. -/
theorem hosts_unanswered :
    ¬ ∀ (config : Config) (blocks : List DnsRequests.Ptr) (ops : List DnsProxy.Op),
      blocks.Nodup → blocks.length = maxReq →
      Along step Allowed ops (start config blocks) →
      Along step Roomy ops (start config blocks) →
      ∃ s, run step ops (start config blocks) = .ok s ∧
        (ValidHosts (configured ops) → HasServer s.proxy.config → ∀ host ∈ configured ops,
          ∀ labels d w, Named host labels → Query labels d w →
            Answered s.proxy host labels d w) := by
  intro all
  have roomy : Along step Roomy [.updateStatic [(shortHost, some 0)]]
      (start demoConfig (List.range maxReq)) :=
    ⟨fun host member => by cases List.mem_singleton.mp member; exact Option.some_ne_none 0,
      fun _ _ => trivial⟩
  have allowed : Along step Allowed [.updateStatic [(shortHost, some 0)]]
      (start demoConfig (List.range maxReq)) := by
    decide +kernel
  obtain ⟨s, ran, answered⟩ := all demoConfig _ _ List.nodup_range List.length_range allowed roomy
  obtain ⟨t, ran', ⟨act, inact, linked⟩, holds⟩ := run_holding
    (start_holding List.nodup_range demoConfig) allowed roomy
    ⟨empty_noHit shortHost (some 0) demoConfig _, fun _ _ => trivial⟩
  cases ran.symm.trans ran'
  have same : (run step [.updateStatic [(shortHost, some 0)]]
      (start demoConfig (List.range maxReq))).toOption.map
        (fun s => (s.proxy.config.nameServer1, s.proxy.config.domainName)) =
          some (0x08080808, []) := by
    decide +kernel
  rw [ran] at same
  obtain ⟨isServer, noDomain⟩ := Prod.mk.inj (Option.some.inj same)
  have server : HasServer s.proxy.config := by
    refine .inl ?_
    rw [isServer]
    decide
  have valid := validHosts_one shortHost_named
  have query : Query [[0x61]] (demoDatagram 3 0x0a000001 (demoQuestion 1)) (demoWorld 7 11) :=
    ⟨by decide +kernel, demoQuestion_hasQuestions 1, rfl⟩
  have looks := (answered_iff linked.sound.shape
    (holds valid shortHost (List.mem_singleton.mpr rfl)) shortHost_named server query).mp
      (answered valid server shortHost (List.mem_singleton.mpr rfl)
      _ _ _ shortHost_named query)
  rcases looks [0x61] rfl with long | same
  · rw [noDomain] at long
    exact absurd long (by decide)
  · rw [noDomain] at same
    exact absurd same (by decide)

end Demo

end StaticHosts
