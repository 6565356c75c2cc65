import Mathlib.Data.List.DropRight
import RustSamples.Rfc3339
import RustSamples.RustNet
import RustSamples.SqlTable

/-! # The DNS server's database

`dns_server` answers `A` queries from two SQLite tables behind one mutex:
`dns_records`, which the HTTP call `/update` writes, and `dns_cache`, which keeps the
first address of a forwarded reply until its time to live is over.  Every function here
is one critical section.  Text columns hold characters, and `record_type` is `A` in
every row the program writes.

The cache is read by time and swept by text: `lookupCacheARecord` parses the expiry and
compares instants, the sweep compares the bytes of the column with those of the current
time.  `cleanup_agrees_with_lookup` shows that the two agree.
-/
namespace RustSamples.Dns
open RustStr RustNet Rfc3339

/-- `s.trim_end_matches('.')`. -/
def trimEndDots (s : List Char) : List Char := s.rdropWhile (· == '.')

/-- A row of `dns_records`. -/
structure DnsRecord where
  domain : List Char
  recordType : List Char
  ipAddress : List Char
  deriving DecidableEq

/-- A row of `dns_cache`. -/
structure CacheEntry where
  domain : List Char
  recordType : List Char
  ipAddress : List Char
  expiresAt : List Char
  deriving DecidableEq

/-- The database file: in both tables `domain` is `UNIQUE`. -/
structure Db where
  dnsRecords : Sql.Table DnsRecord.domain
  dnsCache : Sql.Table CacheEntry.domain

/-- The tables as `main` creates them. -/
def Db.new : Db := ⟨Sql.Table.empty, Sql.Table.empty⟩

/-- `WHERE domain = ? AND record_type = 'A'` on `dns_records`. -/
def Db.selectRecord (db : Db) (domain : List Char) : Option DnsRecord :=
  db.dnsRecords.selectOne fun row => row.domain = domain ∧ row.recordType = ['A']

/-- `WHERE domain = ? AND record_type = 'A'` on `dns_cache`. -/
def Db.selectCached (db : Db) (domain : List Char) : Option CacheEntry :=
  db.dnsCache.selectOne fun row => row.domain = domain ∧ row.recordType = ['A']

/-- `lookup_local_a_record`. -/
def Db.lookupLocalARecord (db : Db) (domain : List Char) : Option (BitVec 32) :=
  (db.selectRecord (trimEndDots domain)).bind fun row => ipv4FromStr row.ipAddress

/-- The address of a cached row at the time `now`, unless the row has expired. -/
def CacheEntry.serve (row : CacheEntry) (now : Nat) : Option (BitVec 32) :=
  (parseFromRfc3339 row.expiresAt).bind fun expiresAt =>
    if now < expiresAt then ipv4FromStr row.ipAddress else none

/-- `lookup_cache_a_record`, with the clock at `now`. -/
def Db.lookupCacheARecord (db : Db) (now : Nat) (domain : List Char) : Option (BitVec 32) :=
  (db.selectCached (trimEndDots domain)).bind fun row => row.serve now

/-- The row that `save_to_cache` writes at the time `now`. -/
def cacheRow (now : Nat) (domain ip : List Char) (ttl : UInt32) : CacheEntry :=
  ⟨trimEndDots domain, ['A'], ip, toRfc3339 (now + ttl.toNat * second)⟩

/-- `save_to_cache`. -/
def Db.saveToCache (db : Db) (now : Nat) (domain ip : List Char) (ttl : UInt32) : Db :=
  { db with dnsCache := db.dnsCache.insertOrReplace (cacheRow now domain ip ttl) }

/-- `expires_at < ?` with the text of `now`: SQLite compares the bytes. -/
def CacheEntry.expiresAtBelow (now : Nat) (row : CacheEntry) : Bool :=
  utf8 row.expiresAt < utf8 (toRfc3339 now)

/-- The cleanup task: `DELETE FROM dns_cache WHERE expires_at < ?`. -/
def Db.cleanup (db : Db) (now : Nat) : Db :=
  { db with dnsCache := db.dnsCache.deleteWhere (CacheEntry.expiresAtBelow now) }

/-- The parameters of `/update`. -/
structure UpdateParams where
  domain : List Char
  ip : List Char
  deriving DecidableEq

/-- The status codes of `/update`. -/
inductive StatusCode
  | ok
  | badRequest
  | internalServerError
  deriving DecidableEq

/-- `INSERT OR REPLACE INTO dns_records`. -/
def Db.insertRecord (db : Db) (domain ip : List Char) : Db :=
  { db with dnsRecords := db.dnsRecords.insertOrReplace ⟨domain, ['A'], ip⟩ }

/-- `handle_ddns_update`; `executes` is whether SQLite carries out the statement. -/
def Db.handleDdnsUpdate (db : Db) (params : UpdateParams) (executes : Bool) :
    (StatusCode × List Char) × Db :=
  if (ipv4FromStr params.ip).isNone then
    ((.badRequest, "Error: invalid IPv4 address format\n".toList), db)
  else if executes then
    ((.ok, "successfully updated: ".toList ++ trimEndDots params.domain ++ " points to ".toList ++
        params.ip ++ ['\n']),
      db.insertRecord (trimEndDots params.domain) params.ip)
  else ((.internalServerError, "internal database error\n".toList), db)

/-! ## The sweep and the lookup -/

/-- What `save_to_cache` writes: the expiry of every row is the text of an instant, in
years of four digits. -/
def Db.ExpiriesWritten (db : Db) : Prop :=
  ∀ row ∈ db.dnsCache.rows, ∃ e, FourDigitYear e ∧ row.expiresAt = toRfc3339 e

theorem expiriesWritten_new : Db.new.ExpiriesWritten := fun row h =>
  absurd h (Sql.Table.not_mem_empty row)

/-- The only writer keeps it, while the clock and the time to live stay below 10000. -/
theorem Db.ExpiriesWritten.saveToCache {db : Db} (hdb : db.ExpiriesWritten) {now : Nat}
    {ttl : UInt32} (hexpiry : FourDigitYear (now + ttl.toNat * second)) (domain ip : List Char) :
    (db.saveToCache now domain ip ttl).ExpiriesWritten := by
  intro row hrow
  rcases Sql.Table.mem_insertOrReplace.mp hrow with ⟨hold, -⟩ | rfl
  · exact hdb row hold
  · exact ⟨_, hexpiry, rfl⟩

/-- The expiry of a row, read back, lies before `now`. -/
def CacheEntry.ExpiredBefore (row : CacheEntry) (now : Nat) : Prop :=
  ∃ e, parseFromRfc3339 row.expiresAt = some e ∧ e < now

theorem parseFromRfc3339_of_fourDigitYear {e : Nat} (he : FourDigitYear e) :
    parseFromRfc3339 (toRfc3339 e) = some e := by
  rw [parseFromRfc3339_toRfc3339, if_pos he]

/-- The condition of the `DELETE`, as a condition on the parsed expiry. -/
theorem expiresAtBelow_iff {db : Db} (hdb : db.ExpiriesWritten) {now : Nat}
    (hnow : FourDigitYear now) {row : CacheEntry} (hrow : row ∈ db.dnsCache.rows) :
    row.expiresAtBelow now = true ↔ row.ExpiredBefore now := by
  obtain ⟨e, he, htext⟩ := hdb row hrow
  rw [CacheEntry.expiresAtBelow, decide_eq_true_iff, htext, utf8_toRfc3339_lt_iff he hnow,
    CacheEntry.ExpiredBefore, htext, parseFromRfc3339_of_fourDigitYear he]
  simp

theorem mem_cleanup_iff {db : Db} (hdb : db.ExpiriesWritten) {now : Nat}
    (hnow : FourDigitYear now) {row : CacheEntry} :
    row ∈ (db.cleanup now).dnsCache.rows ↔
      row ∈ db.dnsCache.rows ∧ ¬ row.ExpiredBefore now := by
  rw [Db.cleanup, Sql.Table.mem_deleteWhere]
  refine and_congr_right fun hrow => ?_
  rw [← expiresAtBelow_iff hdb hnow hrow, Bool.not_eq_true]

/-- A row that is served has not expired. -/
theorem CacheEntry.not_expired_of_serve {row : CacheEntry} {now : Nat} {ip : BitVec 32}
    (h : row.serve now = some ip) : ¬ row.ExpiredBefore now := by
  rintro ⟨e, he, hlt⟩
  rw [CacheEntry.serve, he, Option.bind_some, if_neg (Nat.not_lt.mpr (Nat.le_of_lt hlt))] at h
  cases h

theorem selectCached_eq_some_iff {db : Db} {domain : List Char} {row : CacheEntry} :
    db.selectCached domain = some row ↔
      row ∈ db.dnsCache.rows ∧ row.domain = domain ∧ row.recordType = ['A'] := by
  rw [Db.selectCached, Sql.Table.selectOne_eq_some_iff _ (k := domain) (fun r h => by simp_all)]
  simp

/-- **The sweep agrees with the lookup.**  For instants in the years 0000 to 9999 the
byte order of the texts is the chronological order; so a sweep at the time `t` removes
exactly the rows whose parsed expiry is strictly before `t`, and never the row a lookup
at `t` serves: every lookup that succeeds at `t` still gives the same answer. -/
theorem cleanup_agrees_with_lookup :
    (∀ t u, FourDigitYear t → FourDigitYear u →
      (utf8 (toRfc3339 t) < utf8 (toRfc3339 u) ↔ t < u)) ∧
    ∀ (db : Db) (t : Nat), db.ExpiriesWritten → FourDigitYear t →
      (∀ row ∈ db.dnsCache.rows,
        row ∉ (db.cleanup t).dnsCache.rows ↔ row.ExpiredBefore t) ∧
      (∀ row ∈ (db.cleanup t).dnsCache.rows, row ∈ db.dnsCache.rows) ∧
      (∀ domain row ip, db.selectCached (trimEndDots domain) = some row → row.serve t = some ip →
        row ∈ (db.cleanup t).dnsCache.rows) ∧
      ∀ domain ip, db.lookupCacheARecord t domain = some ip →
        (db.cleanup t).lookupCacheARecord t domain = some ip := by
  refine ⟨fun t u ht hu => utf8_toRfc3339_lt_iff ht hu, fun db t hdb ht => ?_⟩
  have hserved : ∀ domain row ip, db.selectCached (trimEndDots domain) = some row →
      row.serve t = some ip → row ∈ (db.cleanup t).dnsCache.rows := by
    intro domain row ip hsel hserve
    exact (mem_cleanup_iff hdb ht).mpr
      ⟨(selectCached_eq_some_iff.mp hsel).1, CacheEntry.not_expired_of_serve hserve⟩
  refine ⟨fun row hrow => ?_, fun row hrow => ((mem_cleanup_iff hdb ht).mp hrow).1, hserved, ?_⟩
  · rw [mem_cleanup_iff hdb ht]
    tauto
  · intro domain ip h
    obtain ⟨row, hsel, hserve⟩ := Option.bind_eq_some_iff.mp h
    have hrow := hserved domain row ip hsel hserve
    have hsel' : (db.cleanup t).selectCached (trimEndDots domain) = some row :=
      selectCached_eq_some_iff.mpr ⟨hrow, (selectCached_eq_some_iff.mp hsel).2⟩
    rw [Db.lookupCacheARecord, hsel', Option.bind_some, hserve]

/-- The beginning of 1970. -/
def unixEpoch : Nat := daysBeforeYear 1970 * 86400 * second

/-- Two addresses cached in 1970, one for a minute and one for five. -/
def cachedDb : Db :=
  (Db.new.saveToCache unixEpoch "a.example.".toList "10.0.0.1".toList 60).saveToCache
    unixEpoch "b.example".toList "10.0.0.2".toList 300

/-- After two minutes the sweep removes the first row and leaves the second to be served. -/
theorem cleanup_agrees_with_lookup_cachedDb :
    cacheRow unixEpoch "a.example.".toList "10.0.0.1".toList 60 ∉
        (cachedDb.cleanup (unixEpoch + 120 * second)).dnsCache.rows ∧
      (cachedDb.cleanup (unixEpoch + 120 * second)).lookupCacheARecord (unixEpoch + 120 * second)
        "b.example.".toList = some 0x0A000002#32 := by
  have hdb : cachedDb.ExpiriesWritten :=
    (expiriesWritten_new.saveToCache (by decide) _ _).saveToCache (by decide) _ _
  obtain ⟨hremoved, -, -, hserved⟩ :=
    cleanup_agrees_with_lookup.2 cachedDb (unixEpoch + 120 * second) hdb (by decide)
  have hmem : cacheRow unixEpoch "a.example.".toList "10.0.0.1".toList 60 ∈
      cachedDb.dnsCache.rows := by decide +kernel
  refine ⟨(hremoved _ hmem).mpr ⟨unixEpoch + 60 * second, ?_, by decide⟩,
    hserved _ _ (by decide +kernel)⟩
  exact parseFromRfc3339_of_fourDigitYear (by decide)

end RustSamples.Dns
