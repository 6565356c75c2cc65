import RustSamples.DnsHistory

/-! # The time to live of an answer from the cache

The lifetime that the origin gives a record passes through three functions: `save_to_cache` turns it
into an expiry, `lookup_cache_a_record` compares the expiry with the clock, and `respond_with_a`
puts a time to live into the answer.  The last one does not look at the expiry: an answer from the
cache lives for 300 seconds, whatever is left.

So a client keeps the address no longer than the origin said exactly if at least 300 seconds of the
lifetime are left when the cache answers (`cached_ttls_keep_lifetimes_iff`).
-/
namespace RustSamples.Dns
open RustStr RustNet Rfc3339 Scheduling

/-- The whole seconds that are left of a row at the time `now`. -/
def CacheEntry.secondsLeft (row : CacheEntry) (now : Nat) : Nat :=
  (parseFromRfc3339 row.expiresAt).elim 0 fun expiresAt => (expiresAt - now) / second

/-- After the history `earlier` request `i` is answered from `row` at the time `now`, with `ttl` in
the record of the response. -/
def AnswersFromCache (earlier : List Action) (i now : Nat) (row : CacheEntry) (ttl : Nat) : Prop :=
  ∃ s t r ip, server.run .start earlier = some s ∧ s.requests[i]? = some r ∧
    s.db.selectCached (trimEndDots r.name) = some row ∧
    server.step s (.lookupCache i now) = some t ∧
    t.requests[i]? = some { r with phase := .answered (.withA ip ttl false) }

/-- `row` was saved at the time `clock`, with the time to live `ttl`. -/
def SavedWith (history : List Action) (row : CacheEntry) (clock : Nat) (ttl : UInt32) : Prop :=
  ∃ v ip, lastSaved row.domain history = some v ∧ firstA v.records = some (ip, ttl) ∧
    v.clock = clock

/-- What an answer from the cache goes back to. -/
theorem AnswersFromCache.served {earlier : List Action} {i now : Nat} {row : CacheEntry} {ttl : Nat}
    (h : AnswersFromCache earlier i now row ttl) :
    ttl = 300 ∧ row.Traced earlier ∧ (row.serve now).isSome := by
  obtain ⟨s, t, r, ip, hs, hr, hselect, hstep, ht⟩ := h
  cases step_cases hstep with
  | @lookupCache _ r' hr' hp _ =>
    obtain rfl : r = r' := Option.some.inj (hr.symm.trans hr')
    have hlen : i < s.requests.length := (List.getElem?_eq_some_iff.mp hr).1
    have hlookup : s.db.lookupCacheARecord now r.name = row.serve now := by
      rw [Db.lookupCacheARecord, hselect, Option.bind_some]
    have hself : (s.setPhase i r (afterCache (row.serve now))).requests[i]? =
        some { r with phase := afterCache (row.serve now) } := by
      simp [Server.setPhase, hlen]
    rw [hlookup, hself, Option.some.injEq, Request.mk.injEq] at ht
    have hrow := (traced_run hs).cached row (selectCached_eq_some_iff.mp hselect).1
    cases hserve : row.serve now with
    | none =>
      rw [hserve] at ht
      cases ht.2.2
    | some ip' =>
      rw [hserve] at ht
      cases ht.2.2
      exact ⟨rfl, hrow, rfl⟩

/-- Every answer from the cache goes back to a reply that was saved. -/
theorem AnswersFromCache.exists_savedWith {earlier : List Action} {i now : Nat} {row : CacheEntry}
    {ttl : Nat} (h : AnswersFromCache earlier i now row ttl) :
    ∃ clock lifetime, SavedWith earlier row clock lifetime := by
  obtain ⟨-, ⟨v, ip, lifetime, hlast, hfirst, -⟩, -⟩ := h.served
  exact ⟨v.clock, lifetime, v, ip, hlast, hfirst, rfl⟩

/-- What is left of a row that is served: its lifetime, less the age. -/
theorem secondsLeft_of_served {earlier : List Action} {row : CacheEntry} {now clock : Nat}
    {lifetime : UInt32} (htraced : row.Traced earlier) (hserve : (row.serve now).isSome)
    (hsaved : SavedWith earlier row clock lifetime) :
    row.secondsLeft now = (clock + lifetime.toNat * second - now) / second := by
  obtain ⟨v, ip, ttl, hlast, hfirst, hrow⟩ := htraced
  obtain ⟨v', ip', hlast', hfirst', rfl⟩ := hsaved
  obtain rfl : v = v' := Option.some.inj (hlast.symm.trans hlast')
  have hfirst := hfirst.symm.trans hfirst'
  obtain rfl : ttl = lifetime := congrArg Prod.snd (Option.some.inj hfirst)
  have hexpires : row.expiresAt = toRfc3339 (v.clock + ttl.toNat * second) :=
    congrArg CacheEntry.expiresAt hrow
  have hparse : parseFromRfc3339 row.expiresAt = some (v.clock + ttl.toNat * second) := by
    rw [CacheEntry.serve] at hserve
    rw [hexpires, parseFromRfc3339_toRfc3339] at hserve ⊢
    split at hserve
    · rename_i hyear
      exact if_pos hyear
    · cases hserve
  rw [CacheEntry.secondsLeft, hparse, Option.elim_some]

/-- The time to live of one answer is within what is left if and only if 300 seconds are. -/
theorem cached_ttl_le_iff {earlier : List Action} {i now : Nat} {row : CacheEntry} {ttl clock : Nat}
    {lifetime : UInt32} (h : AnswersFromCache earlier i now row ttl)
    (hsaved : SavedWith earlier row clock lifetime) :
    ttl ≤ row.secondsLeft now ↔ now + 300 * second ≤ clock + lifetime.toNat * second := by
  obtain ⟨rfl, htraced, hserve⟩ := h.served
  have hpos : 0 < second := by decide
  rw [secondsLeft_of_served htraced hserve hsaved, Nat.le_div_iff_mul_le hpos]
  omega

/-- **Cached lifetimes are kept if and only if they have 300 seconds left.**  In a history, no
answer from the cache gives a client more time than the whole seconds up to the `expires_at` of its
row, exactly if every row that the cache answers from was saved with a lifetime of at least 300
seconds more than its age. -/
theorem cached_ttls_keep_lifetimes_iff (history : List Action) :
    (∀ earlier i now row ttl, earlier ++ [.lookupCache i now] <+: history →
      AnswersFromCache earlier i now row ttl → ttl ≤ row.secondsLeft now) ↔
    ∀ earlier i now row ttl clock lifetime, earlier ++ [.lookupCache i now] <+: history →
      AnswersFromCache earlier i now row ttl → SavedWith earlier row clock lifetime →
      now + 300 * second ≤ clock + lifetime.toNat * second := by
  constructor
  · intro hkeeps earlier i now row ttl clock lifetime hpre h hsaved
    exact (cached_ttl_le_iff h hsaved).1 (hkeeps earlier i now row ttl hpre h)
  · intro hleft earlier i now row ttl hpre h
    obtain ⟨clock, lifetime, hsaved⟩ := h.exists_savedWith
    exact (cached_ttl_le_iff h hsaved).2 (hleft earlier i now row ttl clock lifetime hpre h hsaved)

/-- An address is saved for a minute, and asked for again. -/
def minuteHistory : List Action :=
  [.query "a.example.".toList .a, .lookupLocal 0, .lookupCache 0 unixEpoch,
    .reply 0 (some [⟨some 0x01020304#32, 60⟩]), .finish 0 unixEpoch,
    .query "a.example.".toList .a, .lookupLocal 1]

def minuteRow : CacheEntry := cacheRow unixEpoch "a.example.".toList "1.2.3.4".toList 60

/-- After half of the minute the client is told to keep it for five. -/
theorem half_a_minute_becomes_five :
    AnswersFromCache minuteHistory 1 (unixEpoch + 30 * second) minuteRow 300 ∧
      SavedWith minuteHistory minuteRow unixEpoch 60 ∧
      minuteRow.secondsLeft (unixEpoch + 30 * second) = 30 := by
  refine ⟨?_, ?_, ?_⟩
  · have hsome : (server.run .start minuteHistory).isSome := by decide +kernel
    obtain ⟨s, hs⟩ := Option.isSome_iff_exists.mp hsome
    have hrequest : ((server.run .start minuteHistory).bind fun s => s.requests[1]?) =
        some ⟨"a.example.".toList, .a, .localMiss⟩ := by decide +kernel
    have hselect : ((server.run .start minuteHistory).bind fun s =>
        s.db.selectCached "a.example".toList) = some minuteRow := by decide +kernel
    have hstep : ((server.run .start minuteHistory).bind fun s =>
        server.step s (.lookupCache 1 (unixEpoch + 30 * second))).isSome := by decide +kernel
    have hanswer : ((server.run .start minuteHistory).bind fun s =>
        server.step s (.lookupCache 1 (unixEpoch + 30 * second))).bind (fun t => t.requests[1]?) =
        some ⟨"a.example.".toList, .a, .answered (.withA 0x01020304#32 300 false)⟩ := by
      decide +kernel
    rw [hs, Option.bind_some] at hrequest hselect hstep hanswer
    obtain ⟨t, ht⟩ := Option.isSome_iff_exists.mp hstep
    rw [ht, Option.bind_some] at hanswer
    exact ⟨s, t, _, _, hs, hrequest, hselect, ht, hanswer⟩
  · refine ⟨⟨"a.example".toList, [⟨some 0x01020304#32, 60⟩], unixEpoch⟩, 0x01020304#32, ?_, rfl,
      rfl⟩
    decide +kernel
  · rw [CacheEntry.secondsLeft, minuteRow, cacheRow, parseFromRfc3339_of_fourDigitYear (by decide)]
    decide

end RustSamples.Dns
