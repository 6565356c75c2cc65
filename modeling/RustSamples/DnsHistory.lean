import RustSamples.DnsServer
import RustSamples.LastWrite
import RustSamples.Machine

/-! # Histories of the DNS server

Requests, updates and sweeps run side by side and meet at the mutex, so a history is a
schedule of critical sections.  A request is cut there: the local lookup, the lookup in
the cache, the reply of the forwarder, and the end of `handle_request`, which saves the
first address of the reply.  Clock readings and replies are part of the schedule, in any
order.

Two logs are read off a history: the updates that succeeded and the replies whose
address was saved.  Each row of the tables is the last entry of its log for its key
(`lookupLocalARecord_run`, `Traced`), which is all that an answer depends on.

A query reaches the handler in lower case, but `/update` stores the name as it was
written.  `update_is_served_iff` says which updates are served in spite of that.
-/
namespace RustSamples.Dns
open RustStr RustNet Rfc3339 Scheduling

/-! ## The machine -/

/-- The types a query can ask for: `A`, and all others. -/
inductive RecordType
  | a
  | other
  deriving DecidableEq

/-- A record of a reply: its address if it is an `A` record, and its time to live. -/
structure Record where
  address : Option (BitVec 32)
  ttl : UInt32
  deriving DecidableEq

/-- What is sent back. -/
inductive Response
  /-- `respond_with_a` -/
  | withA (ip : BitVec 32) (ttl : Nat) (authoritative : Bool)
  /-- the records of the reply, not authoritative -/
  | forwarded (records : List Record)
  | nxDomain
  deriving DecidableEq

/-- Where `handle_request` stands. -/
inductive Phase
  | received
  | localMiss
  | forwarding
  | replied (records : List Record)
  | answered (response : Response)
  deriving DecidableEq

/-- The records of the reply that `handle_request` has yet to finish. -/
def Phase.reply? : Phase → Option (List Record)
  | .replied records => some records
  | _ => none

structure Request where
  name : List Char
  recordType : RecordType
  phase : Phase
  deriving DecidableEq

structure Server where
  db : Db
  requests : List Request

/-- ASCII lower case. -/
def toAsciiLowercase (s : List Char) : List Char := s.map Char.toLower

inductive Action
  /-- a query arrives, with the name as the client wrote it -/
  | query (name : List Char) (recordType : RecordType)
  | lookupLocal (i : Nat)
  | lookupCache (i : Nat) (now : Nat)
  /-- `forwarder.lookup` returns; `none` is an error -/
  | reply (i : Nat) (result : Option (List Record))
  /-- the rest of `handle_request`: save to the cache and respond -/
  | finish (i : Nat) (now : Nat)
  | update (params : UpdateParams) (executes : Bool)
  | cleanup (now : Nat)

/-- The handler's name is the lower-cased one; only `A` queries are looked up. -/
def Request.new (name : List Char) (recordType : RecordType) : Request :=
  ⟨toAsciiLowercase name, recordType, if recordType = .a then .received else .forwarding⟩

/-- The first `A` record of a reply, as the loop over `records` finds it. -/
def firstA (records : List Record) : Option (BitVec 32 × UInt32) :=
  records.findSome? fun r => r.address.map fun ip => (ip, r.ttl)

def afterLocal (found : Option (BitVec 32)) : Phase :=
  found.elim .localMiss fun ip => .answered (.withA ip 60 true)

def afterCache (found : Option (BitVec 32)) : Phase :=
  found.elim .forwarding fun ip => .answered (.withA ip 300 false)

def afterReply (result : Option (List Record)) : Phase :=
  result.elim (.answered .nxDomain) .replied

/-- The loop over the records of a reply: the first address is saved, once. -/
def Db.saveReply (db : Db) (now : Nat) (request : Request) (records : List Record) : Db :=
  if request.recordType = .a then
    (firstA records).elim db fun (ip, ttl) => db.saveToCache now request.name (ipv4ToString ip) ttl
  else db

def Server.setPhase (s : Server) (i : Nat) (r : Request) (phase : Phase) : Server :=
  { s with requests := s.requests.set i { r with phase := phase } }

def Server.step (s : Server) : Action → Option Server
  | .query name recordType => some { s with requests := s.requests ++ [.new name recordType] }
  | .lookupLocal i => s.requests[i]?.bind fun r =>
      if r.phase = .received then
        some (s.setPhase i r (afterLocal (s.db.lookupLocalARecord r.name)))
      else none
  | .lookupCache i now => s.requests[i]?.bind fun r =>
      if r.phase = .localMiss then
        some (s.setPhase i r (afterCache (s.db.lookupCacheARecord now r.name)))
      else none
  | .reply i result => s.requests[i]?.bind fun r =>
      if r.phase = .forwarding then some (s.setPhase i r (afterReply result)) else none
  | .finish i now => s.requests[i]?.bind fun r => r.phase.reply?.map fun records =>
      { s.setPhase i r (.answered (.forwarded records)) with db := s.db.saveReply now r records }
  | .update params executes => some { s with db := (s.db.handleDdnsUpdate params executes).2 }
  | .cleanup now => some { s with db := s.db.cleanup now }

def Server.start : Server := ⟨.new, []⟩

def server : Machine Server Action := ⟨Server.step⟩

/-- What a step can do. -/
inductive Server.Step (s : Server) : Action → Server → Prop
  | query (name : List Char) (recordType : RecordType) :
      Step s (.query name recordType) { s with requests := s.requests ++ [.new name recordType] }
  | lookupLocal {i : Nat} {r : Request} (hr : s.requests[i]? = some r) (hp : r.phase = .received) :
      Step s (.lookupLocal i) (s.setPhase i r (afterLocal (s.db.lookupLocalARecord r.name)))
  | lookupCache {i : Nat} {r : Request} (hr : s.requests[i]? = some r) (hp : r.phase = .localMiss)
      (now : Nat) :
      Step s (.lookupCache i now) (s.setPhase i r (afterCache (s.db.lookupCacheARecord now r.name)))
  | reply {i : Nat} {r : Request} (hr : s.requests[i]? = some r) (hp : r.phase = .forwarding)
      (result : Option (List Record)) :
      Step s (.reply i result) (s.setPhase i r (afterReply result))
  | finish {i : Nat} {r : Request} {records : List Record} (hr : s.requests[i]? = some r)
      (hp : r.phase.reply? = some records) (now : Nat) :
      Step s (.finish i now) { s.setPhase i r (.answered (.forwarded records)) with
        db := s.db.saveReply now r records }
  | update (params : UpdateParams) (executes : Bool) :
      Step s (.update params executes) { s with db := (s.db.handleDdnsUpdate params executes).2 }
  | cleanup (now : Nat) : Step s (.cleanup now) { s with db := s.db.cleanup now }

theorem step_cases {s t : Server} {a : Action} (h : server.step s a = some t) : s.Step a t := by
  cases a with
  | query name recordType => cases h; exact .query name recordType
  | update params executes => cases h; exact .update params executes
  | cleanup now => cases h; exact .cleanup now
  | lookupLocal i =>
    obtain ⟨r, hr, h⟩ := Option.bind_eq_some_iff.mp h
    by_cases hp : r.phase = .received
    · rw [if_pos hp] at h; cases h; exact .lookupLocal hr hp
    · rw [if_neg hp] at h; cases h
  | lookupCache i now =>
    obtain ⟨r, hr, h⟩ := Option.bind_eq_some_iff.mp h
    by_cases hp : r.phase = .localMiss
    · rw [if_pos hp] at h; cases h; exact .lookupCache hr hp now
    · rw [if_neg hp] at h; cases h
  | reply i result =>
    obtain ⟨r, hr, h⟩ := Option.bind_eq_some_iff.mp h
    by_cases hp : r.phase = .forwarding
    · rw [if_pos hp] at h; cases h; exact .reply hr hp result
    · rw [if_neg hp] at h; cases h
  | finish i now =>
    obtain ⟨r, hr, h⟩ := Option.bind_eq_some_iff.mp h
    obtain ⟨records, hp, rfl⟩ := Option.map_eq_some_iff.mp h
    exact .finish hr hp now

/-! ## What the updates leave in `dns_records` -/

/-- An update that succeeded. -/
structure Updated where
  domain : List Char
  ip : BitVec 32
  deriving DecidableEq

def Action.updated : Action → Option Updated
  | .update params true => (ipv4FromStr params.ip).map fun ip => ⟨params.domain, ip⟩
  | _ => none

/-- The most recent update with a property that succeeded in a history. -/
def lastUpdate (p : Updated → Bool) (history : List Action) : Option Updated :=
  ((history.filterMap Action.updated).filter p).getLast?

theorem lastUpdate_concat (p : Updated → Bool) (as : List Action) (a : Action) :
    lastUpdate p (as ++ [a]) = (a.updated.filter p).or (lastUpdate p as) := by
  have hlog : (as ++ [a]).filterMap Action.updated =
      as.filterMap Action.updated ++ a.updated.toList := by
    rw [List.filterMap_append]
    cases h : a.updated <;> simp [h]
  rw [lastUpdate, hlog, LastWrite.getLast?_filter_append_toList, lastUpdate]

/-- A rejected update changes nothing, and says so. -/
theorem handleDdnsUpdate_rejected (db : Db) {params : UpdateParams}
    (h : ipv4FromStr params.ip = none) (executes : Bool) :
    db.handleDdnsUpdate params executes =
      ((.badRequest, "Error: invalid IPv4 address format\n".toList), db) := by
  rw [Db.handleDdnsUpdate, h]
  rfl

theorem lookupLocalARecord_eq_of_dnsRecords {db db' : Db} (h : db'.dnsRecords = db.dnsRecords)
    (name : List Char) : db'.lookupLocalARecord name = db.lookupLocalARecord name := by
  rw [Db.lookupLocalARecord, Db.lookupLocalARecord, Db.selectRecord, Db.selectRecord, h]

theorem selectRecord_insertRecord (db : Db) (domain ip key : List Char) :
    (db.insertRecord domain ip).selectRecord key =
      if domain = key then some ⟨domain, ['A'], ip⟩ else db.selectRecord key := by
  by_cases h : domain = key
  · subst h
    rw [if_pos rfl]
    exact Sql.Table.selectOne_insertOrReplace_same _ (fun r hr => by simp_all) (by simp)
  · rw [if_neg h]
    exact Sql.Table.selectOne_insertOrReplace_of_ne _ (fun r hr => by simp_all) h

/-- What an update changes for the local lookup. -/
theorem lookupLocalARecord_handleDdnsUpdate (db : Db) (params : UpdateParams) (executes : Bool)
    (name : List Char) :
    (db.handleDdnsUpdate params executes).2.lookupLocalARecord name =
      (((Action.update params executes).updated.filter
        fun u => trimEndDots u.domain = trimEndDots name).map Updated.ip).or
        (db.lookupLocalARecord name) := by
  cases hip : ipv4FromStr params.ip with
  | none =>
    rw [handleDdnsUpdate_rejected db hip]
    cases executes <;> simp [Action.updated, hip]
  | some ip =>
    cases executes with
    | false => simp [Db.handleDdnsUpdate, hip, Action.updated]
    | true =>
      have hdb : (db.handleDdnsUpdate params true).2 =
          db.insertRecord (trimEndDots params.domain) params.ip := by
        simp [Db.handleDdnsUpdate, hip]
      rw [Db.lookupLocalARecord, hdb, selectRecord_insertRecord]
      by_cases hname : trimEndDots params.domain = trimEndDots name
      · simp [Action.updated, hip, hname, Option.filter]
      · simp [Action.updated, hip, hname, Option.filter, Db.lookupLocalARecord]

theorem dnsRecords_saveReply (db : Db) (now : Nat) (r : Request) (records : List Record) :
    (db.saveReply now r records).dnsRecords = db.dnsRecords := by
  unfold Db.saveReply
  split
  · cases firstA records <;> rfl
  · rfl

/-- Only an update touches `dns_records`. -/
theorem lookupLocalARecord_step {s t : Server} {a : Action} (h : server.step s a = some t)
    (name : List Char) :
    t.db.lookupLocalARecord name =
      ((a.updated.filter fun u => trimEndDots u.domain = trimEndDots name).map Updated.ip).or
        (s.db.lookupLocalARecord name) := by
  cases step_cases h with
  | update params executes => exact lookupLocalARecord_handleDdnsUpdate s.db params executes name
  | finish hr hp now =>
    exact lookupLocalARecord_eq_of_dnsRecords (dnsRecords_saveReply s.db now _ _) name
  | cleanup now => rfl
  | query name recordType => rfl
  | lookupLocal hr hp => rfl
  | lookupCache hr hp now => rfl
  | reply hr hp result => rfl

/-- **The local lookup gives the most recent update of its key.** -/
theorem lookupLocalARecord_run {as : List Action} {s : Server}
    (h : server.run .start as = some s) (name : List Char) :
    s.db.lookupLocalARecord name =
      (lastUpdate (fun u => trimEndDots u.domain = trimEndDots name) as).map Updated.ip := by
  refine server.run_induction (I := fun as s => s.db.lookupLocalARecord name =
    (lastUpdate (fun u => trimEndDots u.domain = trimEndDots name) as).map Updated.ip) rfl
    (fun as s a t _ ih ha => ?_) h
  rw [lookupLocalARecord_step ha, ih, lastUpdate_concat, Option.map_or]

/-! ## Reading one's writes -/

/-- The same DNS name: ASCII case and trailing dots do not count. -/
def SameName (a b : List Char) : Prop :=
  toAsciiLowercase (trimEndDots a) = toAsciiLowercase (trimEndDots b)

instance (a b : List Char) : Decidable (SameName a b) := inferInstanceAs (Decidable (_ = _))

theorem toLower_beq_dot (c : Char) : (c.toLower == '.') = (c == '.') := by
  unfold Char.toLower
  split
  · rename_i h
    have hval : c.val + ('a'.val - 'A'.val) ≠ '.'.val := by
      intro he
      have heq := congrArg UInt32.toNat he
      have hge := UInt32.le_iff_toNat_le.mp h.1
      have hle := UInt32.le_iff_toNat_le.mp h.2
      simp at heq hge hle
      omega
    have hc : c ≠ '.' := by
      rintro rfl
      exact absurd h (by decide)
    rw [beq_eq_false_iff_ne.mpr hc, beq_eq_false_iff_ne]
    exact fun he => hval (congrArg Char.val he)
  · rfl

theorem trimEndDots_toAsciiLowercase (s : List Char) :
    trimEndDots (toAsciiLowercase s) = toAsciiLowercase (trimEndDots s) := by
  have hdot : ((fun c : Char => c == '.') ∘ Char.toLower) = fun c => c == '.' :=
    funext toLower_beq_dot
  rw [trimEndDots, toAsciiLowercase, List.rdropWhile, ← List.map_reverse, List.dropWhile_map, hdot,
    ← List.map_reverse]
  rfl

/-- The local lookup of request `i` answers it with `ip`, authoritatively. -/
def AnsweredLocally (s : Server) (i : Nat) (ip : BitVec 32) : Prop :=
  ∃ t r, server.step s (.lookupLocal i) = some t ∧ t.requests[i]? = some r ∧
    r.phase = .answered (.withA ip 60 true)

theorem answeredLocally_iff {s : Server} {i : Nat} {r : Request} (hr : s.requests[i]? = some r)
    (hp : r.phase = .received) (ip : BitVec 32) :
    AnsweredLocally s i ip ↔ s.db.lookupLocalARecord r.name = some ip := by
  have hlen : i < s.requests.length := (List.getElem?_eq_some_iff.mp hr).1
  have hstep : server.step s (.lookupLocal i) =
      some (s.setPhase i r (afterLocal (s.db.lookupLocalARecord r.name))) := by
    simp [server, Server.step, hr, hp]
  have hself : (s.setPhase i r (afterLocal (s.db.lookupLocalARecord r.name))).requests[i]? =
      some { r with phase := afterLocal (s.db.lookupLocalARecord r.name) } := by
    simp [Server.setPhase, hlen]
  constructor
  · rintro ⟨t, r', ht, hr', hphase⟩
    rw [hstep] at ht
    obtain rfl := Option.some.inj ht
    rw [hself] at hr'
    obtain rfl := Option.some.inj hr'
    cases hl : s.db.lookupLocalARecord r.name with
    | none => simp [afterLocal, hl] at hphase
    | some ip' => simpa [afterLocal, hl] using hphase
  · intro hl
    exact ⟨_, _, hstep, hself, by simp [afterLocal, hl]⟩

/-- **Which updates are served.**  After any history, an `A` query for a name for which
some update succeeded is answered authoritatively with the address of the most recent one
if and only if the most recent one among those *spelled in lower case* has that address:
the lookup finds no other spelling.  The cache has no say in it, and an update with a bad
address changes nothing. -/
theorem update_is_served_iff {as : List Action} {s : Server} (h : server.run .start as = some s)
    {i : Nat} {name : List Char} (hi : s.requests[i]? = some (.new name .a)) :
    (∀ u, lastUpdate (fun v => SameName v.domain name) as = some u →
      (AnsweredLocally s i u.ip ↔
        (lastUpdate (fun v => trimEndDots v.domain = toAsciiLowercase (trimEndDots name)) as).map
          Updated.ip = some u.ip)) ∧
    ∀ params executes, ipv4FromStr params.ip = none →
      (s.db.handleDdnsUpdate params executes).1.1 = .badRequest ∧
        server.step s (.update params executes) = some s := by
  constructor
  · intro u _
    rw [answeredLocally_iff hi rfl, lookupLocalARecord_run h]
    simp only [Request.new, trimEndDots_toAsciiLowercase]
  · intro params executes hip
    have hdb := handleDdnsUpdate_rejected s.db hip executes
    exact ⟨by rw [hdb], by simp [server, Server.step, hdb]⟩

/-- A name is resolved and cached, then updated in lower case and asked for again. -/
def servedHistory : List Action :=
  [.query "www.home.example.".toList .a, .lookupLocal 0, .lookupCache 0 unixEpoch,
    .reply 0 (some [⟨none, 60⟩, ⟨some 0x01020304#32, 300⟩]), .finish 0 unixEpoch,
    .update ⟨"www.home.example".toList, "10.0.0.1".toList⟩ true,
    .query "WWW.Home.Example.".toList .a]

theorem servedHistory_answered :
    ∃ s, server.run .start servedHistory = some s ∧
      s.requests[1]? = some (.new "WWW.Home.Example.".toList .a) ∧
      AnsweredLocally s 1 0x0A000001#32 := by
  have hsome : (server.run .start servedHistory).isSome := by decide +kernel
  obtain ⟨s, hs⟩ := Option.isSome_iff_exists.mp hsome
  have hrequest : (server.run .start servedHistory).bind (fun s => s.requests[1]?) =
      some (.new "WWW.Home.Example.".toList .a) := by decide +kernel
  rw [hs, Option.bind_some] at hrequest
  have hiff := (update_is_served_iff hs hrequest).1 ⟨"www.home.example".toList, 0x0A000001#32⟩
    (by decide +kernel)
  exact ⟨s, hs, hrequest, hiff.mpr (by decide +kernel)⟩

/-- A name is updated with a capital letter and asked for. -/
def mixedCaseHistory : List Action :=
  [.update ⟨"Home.example".toList, "10.0.0.1".toList⟩ true, .query "home.example".toList .a]

/-- An update in another spelling is confirmed to the client and never served. -/
theorem mixed_case_update_is_not_served :
    ¬ ∀ (as : List Action) (s : Server) (name : List Char) (u : Updated) (i : Nat),
      server.run .start as = some s → lastUpdate (fun v => SameName v.domain name) as = some u →
      s.requests[i]? = some (.new name .a) → AnsweredLocally s i u.ip := by
  intro hall
  have hsome : (server.run .start mixedCaseHistory).isSome := by decide +kernel
  obtain ⟨s, hs⟩ := Option.isSome_iff_exists.mp hsome
  have hrequest : (server.run .start mixedCaseHistory).bind (fun s => s.requests[0]?) =
      some (.new "home.example".toList .a) := by decide +kernel
  have hmiss : (server.run .start mixedCaseHistory).bind
      (fun s => s.db.lookupLocalARecord (toAsciiLowercase "home.example".toList)) = none := by
    decide +kernel
  rw [hs, Option.bind_some] at hrequest hmiss
  have hanswered := hall mixedCaseHistory s "home.example".toList
    ⟨"Home.example".toList, 0x0A000001#32⟩ 0 hs (by decide +kernel) hrequest
  rw [answeredLocally_iff hrequest rfl] at hanswered
  exact absurd (hmiss.symm.trans hanswered) (by simp)

/-! ## What the cache serves -/

/-- A reply whose first address was saved, under the key `domain` and at the time
`clock`. -/
structure Saved where
  domain : List Char
  records : List Record
  clock : Nat
  deriving DecidableEq

/-- The reply that `finish` saves, if it has an `A` record. -/
def Request.saved (r : Request) (now : Nat) : Option Saved :=
  r.phase.reply?.bind fun records =>
    if r.recordType = .a ∧ (firstA records).isSome then some ⟨trimEndDots r.name, records, now⟩
    else none

def Server.saved (s : Server) : Action → Option Saved
  | .finish i now => s.requests[i]?.bind fun r => r.saved now
  | _ => none

/-- The replies saved in a history, in order. -/
def savedIn (history : List Action) : List Saved :=
  server.observations (fun s a => (s.saved a).toList) .start history

/-- The most recent reply saved under a key. -/
def lastSaved (domain : List Char) (history : List Action) : Option Saved :=
  ((savedIn history).filter fun v => v.domain = domain).getLast?

theorem lastSaved_concat {as : List Action} {s : Server} (h : server.run .start as = some s)
    (domain : List Char) (a : Action) :
    lastSaved domain (as ++ [a]) =
      ((s.saved a).filter fun v => v.domain = domain).or (lastSaved domain as) := by
  rw [lastSaved, savedIn, server.observations_concat _ h, LastWrite.getLast?_filter_append_toList,
    lastSaved, savedIn]

/-- A request's local lookup ran when `dns_records` had no row for its name. -/
def NoRowAtLookup (history : List Action) (i : Nat) (domain : List Char) : Prop :=
  ∃ earlier later t, history = earlier ++ .lookupLocal i :: later ∧
    server.run .start earlier = some t ∧ ∀ row ∈ t.db.dnsRecords.rows, row.domain ≠ domain

theorem NoRowAtLookup.concat {as : List Action} {i : Nat} {domain : List Char}
    (h : NoRowAtLookup as i domain) (a : Action) : NoRowAtLookup (as ++ [a]) i domain := by
  obtain ⟨earlier, later, t, rfl, ht, hrows⟩ := h
  exact ⟨earlier, later ++ [a], t, by simp, ht, hrows⟩

/-- The row is what `save_to_cache` wrote for the most recent reply saved under its key. -/
def CacheEntry.Traced (history : List Action) (row : CacheEntry) : Prop :=
  ∃ v ip ttl, lastSaved row.domain history = some v ∧ firstA v.records = some (ip, ttl) ∧
    row = cacheRow v.clock row.domain (ipv4ToString ip) ttl

/-- Every row goes back to the event that wrote it, and every request past its local lookup
to that lookup. -/
structure Traced (history : List Action) (s : Server) : Prop where
  cached : ∀ row ∈ s.db.dnsCache.rows, row.Traced history
  updated : ∀ row ∈ s.db.dnsRecords.rows,
    row.recordType = ['A'] ∧ (ipv4FromStr row.ipAddress).isSome
  missed : ∀ i r, s.requests[i]? = some r → r.phase = .localMiss →
    NoRowAtLookup history i (trimEndDots r.name)

theorem traced_start : Traced [] .start where
  cached row h := absurd h (Sql.Table.not_mem_empty row)
  updated row h := absurd h (Sql.Table.not_mem_empty row)
  missed i r h := by cases h

/-- `finish` saves an address exactly when it logs a reply. -/
theorem saveReply_cases {r : Request} {records : List Record} (hp : r.phase.reply? = some records)
    (db : Db) (now : Nat) :
    r.saved now = none ∧ db.saveReply now r records = db ∨
      ∃ ip ttl, r.saved now = some ⟨trimEndDots r.name, records, now⟩ ∧
        firstA records = some (ip, ttl) ∧
        db.saveReply now r records = db.saveToCache now r.name (ipv4ToString ip) ttl := by
  unfold Request.saved Db.saveReply
  rw [hp, Option.bind_some]
  by_cases hr : r.recordType = .a
  · cases hf : firstA records with
    | none => exact Or.inl (by simp [hr])
    | some address => exact Or.inr ⟨address.1, address.2, by simp [hr], rfl, by simp [hr]⟩
  · exact Or.inl (by simp [hr])

/-- A row stays the last of its key while nothing is saved under that key. -/
theorem CacheEntry.Traced.concat {as : List Action} {s : Server}
    (hs : server.run .start as = some s) {row : CacheEntry} (h : row.Traced as) {a : Action}
    (ha : ∀ v, s.saved a = some v → v.domain ≠ row.domain) : row.Traced (as ++ [a]) := by
  obtain ⟨v, ip, ttl, hlast, hfirst, hrow⟩ := h
  refine ⟨v, ip, ttl, ?_, hfirst, hrow⟩
  rw [lastSaved_concat hs]
  cases hsaved : s.saved a with
  | none => simpa using hlast
  | some w => simpa [Option.filter, ha w hsaved] using hlast

theorem cached_of_unsaved {as : List Action} {s : Server} (hs : server.run .start as = some s)
    (ht : Traced as s) {a : Action} (ha : s.saved a = none) :
    ∀ row ∈ s.db.dnsCache.rows, row.Traced (as ++ [a]) := by
  intro row hrow
  refine (ht.cached row hrow).concat hs fun v hv => ?_
  rw [ha] at hv
  cases hv

theorem cached_finish {as : List Action} {s : Server} (hs : server.run .start as = some s)
    (ht : Traced as s) {i : Nat} {r : Request} {records : List Record}
    (hr : s.requests[i]? = some r) (hp : r.phase.reply? = some records) (now : Nat) :
    ∀ row ∈ (s.db.saveReply now r records).dnsCache.rows, row.Traced (as ++ [.finish i now]) := by
  have hsaved : s.saved (.finish i now) = r.saved now := by simp [Server.saved, hr]
  intro row hrow
  rcases saveReply_cases hp s.db now with ⟨hnone, hdb⟩ | ⟨ip, ttl, hsome, hfirst, hdb⟩
  · rw [hdb] at hrow
    exact cached_of_unsaved hs ht (hsaved.trans hnone) row hrow
  · rw [hdb] at hrow
    rcases Sql.Table.mem_insertOrReplace.mp hrow with ⟨hold, hne⟩ | rfl
    · refine (ht.cached row hold).concat hs fun v hv => ?_
      rw [hsaved, hsome] at hv
      obtain rfl := Option.some.inj hv
      exact fun h => hne h.symm
    · refine ⟨⟨trimEndDots r.name, records, now⟩, ip, ttl, ?_, hfirst, ?_⟩
      · rw [lastSaved_concat hs, hsaved, hsome]
        simp [Option.filter, cacheRow]
      · simp [cacheRow, trimEndDots, List.rdropWhile_idempotent]

theorem dnsCache_handleDdnsUpdate (db : Db) (params : UpdateParams) (executes : Bool) :
    (db.handleDdnsUpdate params executes).2.dnsCache = db.dnsCache := by
  unfold Db.handleDdnsUpdate
  split
  · rfl
  · split <;> rfl

theorem updated_update {s : Server} {as : List Action} (ht : Traced as s) (params : UpdateParams)
    (executes : Bool) :
    ∀ row ∈ (s.db.handleDdnsUpdate params executes).2.dnsRecords.rows,
      row.recordType = ['A'] ∧ (ipv4FromStr row.ipAddress).isSome := by
  intro row hrow
  unfold Db.handleDdnsUpdate at hrow
  by_cases hip : (ipv4FromStr params.ip).isNone
  · rw [if_pos hip] at hrow
    exact ht.updated row hrow
  · rw [if_neg hip] at hrow
    cases executes with
    | false => exact ht.updated row hrow
    | true =>
      rcases Sql.Table.mem_insertOrReplace.mp hrow with ⟨hold, -⟩ | rfl
      · exact ht.updated row hold
      · exact ⟨rfl, by simpa [Option.isSome_iff_ne_none] using hip⟩

/-- A local lookup that finds nothing finds no row at all. -/
theorem no_row_of_lookupLocalARecord {as : List Action} {s : Server} (ht : Traced as s)
    {name : List Char} (h : s.db.lookupLocalARecord name = none) :
    ∀ row ∈ s.db.dnsRecords.rows, row.domain ≠ trimEndDots name := by
  intro row hrow hdomain
  obtain ⟨htype, hip⟩ := ht.updated row hrow
  have hsel : s.db.selectRecord (trimEndDots name) = some row :=
    (Sql.Table.selectOne_eq_some_iff _ (k := trimEndDots name) (fun r hr => by simp_all)).mpr
      ⟨hrow, by simp [hdomain, htype]⟩
  rw [Db.lookupLocalARecord, hsel, Option.bind_some] at h
  rw [h] at hip
  cases hip

/-- A request that moves to a phase other than `localMiss` leaves the rest as it was. -/
theorem missed_setPhase {as : List Action} {s : Server} (ht : Traced as s) (a : Action) {i : Nat}
    {r : Request} {phase : Phase} (hphase : phase ≠ .localMiss) :
    ∀ j q, (s.setPhase i r phase).requests[j]? = some q → q.phase = .localMiss →
      NoRowAtLookup (as ++ [a]) j (trimEndDots q.name) := by
  intro j q hq hp
  rcases getElem?_set_cases hq with ⟨-, rfl⟩ | ⟨-, hold⟩
  · exact absurd hp hphase
  · exact (ht.missed j q hold hp).concat a

theorem traced_step {as : List Action} {s t : Server} {a : Action}
    (hs : server.run .start as = some s) (ht : Traced as s) (h : server.step s a = some t) :
    Traced (as ++ [a]) t := by
  cases step_cases h with
  | query name recordType =>
    refine ⟨cached_of_unsaved hs ht rfl, ht.updated, ?_⟩
    intro j q hq hp
    change (s.requests ++ [Request.new name recordType])[j]? = some q at hq
    rcases getElem?_concat_cases hq with hq | ⟨-, rfl⟩
    · exact (ht.missed j q hq hp).concat _
    · cases recordType <;> cases hp
  | @lookupLocal i r hr hp =>
    refine ⟨cached_of_unsaved hs ht rfl, ht.updated, ?_⟩
    cases hl : s.db.lookupLocalARecord r.name with
    | some ip => exact missed_setPhase ht _ (by simp [afterLocal])
    | none =>
      intro j q hq hq'
      rcases getElem?_set_cases hq with ⟨rfl, rfl⟩ | ⟨-, hold⟩
      · exact ⟨as, [], s, rfl, hs, no_row_of_lookupLocalARecord ht hl⟩
      · exact (ht.missed j q hold hq').concat _
  | @lookupCache i r hr hp now =>
    refine ⟨cached_of_unsaved hs ht rfl, ht.updated,
      missed_setPhase ht _ ?_⟩
    cases s.db.lookupCacheARecord now r.name <;> simp [afterCache]
  | reply hr hp result =>
    refine ⟨cached_of_unsaved hs ht rfl, ht.updated,
      missed_setPhase ht _ ?_⟩
    cases result <;> simp [afterReply]
  | @finish i r records hr hp now =>
    refine ⟨cached_finish hs ht hr hp now, ?_, missed_setPhase ht _ (by simp)⟩
    intro row hrow
    rw [dnsRecords_saveReply] at hrow
    exact ht.updated row hrow
  | update params executes =>
    refine ⟨fun row hrow => ?_, updated_update ht params executes,
      fun j q hq hp => (ht.missed j q hq hp).concat _⟩
    rw [dnsCache_handleDdnsUpdate] at hrow
    exact cached_of_unsaved hs ht rfl row hrow
  | cleanup now =>
    refine ⟨fun row hrow => ?_, ht.updated, fun j q hq hp => (ht.missed j q hq hp).concat _⟩
    exact cached_of_unsaved hs ht rfl row (Sql.Table.mem_deleteWhere.mp hrow).1

theorem traced_run {as : List Action} {s : Server} (h : server.run .start as = some s) :
    Traced as s :=
  server.run_induction (I := Traced) traced_start (fun _ _ _ _ hs ht ha => traced_step hs ht ha) h

/-- What a row that goes back to a saved reply serves: the address of that reply, before
the end of its time to live. -/
theorem CacheEntry.Traced.serve {as : List Action} {row : CacheEntry} (h : row.Traced as)
    {now : Nat} {ip : BitVec 32} (hserve : row.serve now = some ip) :
    ∃ v ttl, lastSaved row.domain as = some v ∧ firstA v.records = some (ip, ttl) ∧
      now < v.clock + ttl.toNat * second := by
  obtain ⟨v, ip', ttl, hlast, hfirst, hrow⟩ := h
  rw [hrow, CacheEntry.serve, cacheRow, parseFromRfc3339_toRfc3339] at hserve
  split at hserve
  · rw [Option.bind_some] at hserve
    split at hserve
    · rename_i hlt
      rw [ipv4FromStr_ipv4ToString] at hserve
      obtain rfl := Option.some.inj hserve
      exact ⟨v, ttl, hlast, hfirst, hlt⟩
    · cases hserve
  · cases hserve

theorem CacheEntry.Traced.parses {as : List Action} {row : CacheEntry} (h : row.Traced as) :
    (ipv4FromStr row.ipAddress).isSome := by
  obtain ⟨v, ip, ttl, -, -, hrow⟩ := h
  rw [hrow, cacheRow, ipv4FromStr_ipv4ToString]
  rfl

/-- **Answers from the cache are fresh.**  In every history, a request that is answered from
the cache at the time `now` gets the address of the first `A` record of the most recent
reply saved for its name, before the time to live of that record is over, counted from when
it was saved; and no update for the name was there when its local lookup ran.  In every
reachable state both tables have at most one row for a name, each with an address that
parses. -/
theorem cache_answers_are_fresh {as : List Action} {s : Server}
    (h : server.run .start as = some s) :
    (∀ i now t r ip ttl, server.step s (.lookupCache i now) = some t → t.requests[i]? = some r →
      r.phase = .answered (.withA ip ttl false) →
      (∃ v ttl, lastSaved (trimEndDots r.name) as = some v ∧ firstA v.records = some (ip, ttl) ∧
        now < v.clock + ttl.toNat * second) ∧
      NoRowAtLookup as i (trimEndDots r.name)) ∧
    (s.db.dnsCache.rows.map CacheEntry.domain).Nodup ∧
    (s.db.dnsRecords.rows.map DnsRecord.domain).Nodup ∧
    (∀ row ∈ s.db.dnsCache.rows, (ipv4FromStr row.ipAddress).isSome) ∧
    ∀ row ∈ s.db.dnsRecords.rows, (ipv4FromStr row.ipAddress).isSome := by
  have ht := traced_run h
  refine ⟨?_, s.db.dnsCache.unique, s.db.dnsRecords.unique,
    fun row hrow => (ht.cached row hrow).parses, fun row hrow => (ht.updated row hrow).2⟩
  intro i now t q ip ttl hstep hq hphase
  cases step_cases hstep with
  | @lookupCache _ r hr hp _ =>
    have hlen : i < s.requests.length := (List.getElem?_eq_some_iff.mp hr).1
    have hself : (s.setPhase i r (afterCache (s.db.lookupCacheARecord now r.name))).requests[i]? =
        some { r with phase := afterCache (s.db.lookupCacheARecord now r.name) } := by
      simp [Server.setPhase, hlen]
    obtain rfl := Option.some.inj (hself.symm.trans hq)
    refine ⟨?_, ht.missed i r hr hp⟩
    cases hl : s.db.lookupCacheARecord now r.name with
    | none => simp [afterCache, hl] at hphase
    | some ip' =>
      have heq : ip' = ip := by
        rw [hl] at hphase
        cases hphase
        rfl
      obtain ⟨row, hsel, hserve⟩ := Option.bind_eq_some_iff.mp hl
      obtain ⟨hrow, hdomain, -⟩ := selectCached_eq_some_iff.mp hsel
      rw [← hdomain, ← heq]
      exact (ht.cached row hrow).serve hserve

/-- A name is resolved, saved and asked for again 100 seconds later. -/
def cachedHistory : List Action :=
  [.query "a.example.".toList .a, .lookupLocal 0, .lookupCache 0 unixEpoch,
    .reply 0 (some [⟨none, 60⟩, ⟨some 0x01020304#32, 300⟩, ⟨some 0x05060708#32, 300⟩]),
    .finish 0 unixEpoch, .query "A.example.".toList .a, .lookupLocal 1]

theorem cachedHistory_fresh :
    ∃ s t, server.run .start cachedHistory = some s ∧
      server.step s (.lookupCache 1 (unixEpoch + 100 * second)) = some t ∧
      t.requests[1]? =
        some ⟨"a.example.".toList, .a, .answered (.withA 0x01020304#32 300 false)⟩ ∧
      NoRowAtLookup cachedHistory 1 "a.example".toList := by
  have hsome : (server.run .start cachedHistory).isSome := by decide +kernel
  obtain ⟨s, hs⟩ := Option.isSome_iff_exists.mp hsome
  have hstep : ((server.run .start cachedHistory).bind fun s =>
      server.step s (.lookupCache 1 (unixEpoch + 100 * second))).isSome := by decide +kernel
  have hanswer : ((server.run .start cachedHistory).bind fun s =>
      server.step s (.lookupCache 1 (unixEpoch + 100 * second))).bind (fun t => t.requests[1]?) =
      some ⟨"a.example.".toList, .a, .answered (.withA 0x01020304#32 300 false)⟩ := by
    decide +kernel
  rw [hs, Option.bind_some] at hstep hanswer
  obtain ⟨t, ht⟩ := Option.isSome_iff_exists.mp hstep
  rw [ht, Option.bind_some] at hanswer
  exact ⟨s, t, hs, ht, hanswer,
    ((cache_answers_are_fresh hs).1 1 _ t _ _ _ ht hanswer rfl).2⟩

end RustSamples.Dns
