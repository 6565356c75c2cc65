import Mathlib.Data.Finset.Card
import RustSamples.AntiDdosAccounting
import RustSamples.RustNet

/-! # The limit per IP of the `anti_ddos` shield

`MAX_CONN_PER_IP` is meant as a limit per IP, but the registry is keyed by the
`SocketAddr` of the client, its source port included.  So the limit holds for each
key and not for each IP: a host gets past it by connecting from two ports.

`perIp_limit_iff` says for which clients the limit per IP holds.  Where it does, it
follows from the limit per key.  Where it does not, the interleaving is built:
accept every client, then let 21 handlers of the host pass admission one after the
other (`admit_all`); none of their keys reaches its own limit.
-/
namespace RustSamples.AntiDdos
open Scheduling RustNet

/-- The number of running handlers past admission whose client has this IP. -/
def Shield.admittedFrom (s : Shield SocketAddr) (ip : IpAddr) : Nat :=
  s.handlers.countP fun h => decide (h.addr.ip = ip) && h.phase.admitted

/-- The clients a schedule accepts, in order. -/
def accepted {Addr : Type} (actions : List (Action Addr)) : List Addr :=
  actions.filterMap fun
    | .accept addr => some addr
    | _ => none

/-- An IP cannot exceed the limit: it has too few clients, or they all have the
same socket address. -/
def Harmless (clients : List SocketAddr) (ip : IpAddr) : Prop :=
  clients.countP (fun c => decide (c.ip = ip)) ≤ maxConnPerIp ∨
    ∀ c ∈ clients, ∀ d ∈ clients, c.ip = ip → d.ip = ip → c = d

/-! ## Runs within the limit -/

section
variable {Addr : Type} [DecidableEq Addr]

theorem handlers_accepted {s : Shield Addr} {actions : List (Action Addr)}
    (hrun : shield.run .start actions = some s) :
    s.handlers.map Handler.addr = accepted actions := by
  refine shield.run_induction
    (I := fun as t => t.handlers.map Handler.addr = accepted as) rfl ?_ hrun
  intro as t a u _ ih hstep
  rw [accepted, List.filterMap_append]
  rcases shield_step_cases hstep with ⟨addr, rfl, rfl⟩ | ⟨i, m, hd, p', sh', rfl, hi, -, rfl⟩ |
    ⟨key, now, rfl, rfl⟩
  · rw [List.map_append, ih]
    rfl
  · -- the handler keeps its address
    obtain ⟨hlt, rfl⟩ := List.getElem?_eq_some_iff.mp hi
    have hset : (t.handlers.map Handler.addr).set i t.handlers[i].addr =
        t.handlers.map Handler.addr := by
      rw [← List.getElem_map (h := by simpa using hlt) Handler.addr, List.set_getElem_self]
    rw [List.map_set, hset]
    exact ih.trans (List.append_nil _).symm
  · exact ih.trans (List.append_nil _).symm

end

/-- The handlers past admission of an IP whose clients are all the same are those of
one key. -/
theorem admittedFrom_le_of_harmless {s : Shield SocketAddr} {actions : List (Action SocketAddr)}
    {ip : IpAddr} (hrun : shield.run .start actions = some s)
    (hip : Harmless (accepted actions) ip) : s.admittedFrom ip ≤ maxConnPerIp := by
  rw [← handlers_accepted hrun] at hip
  rcases hip with hfew | hsame
  · rw [List.countP_map] at hfew
    refine Nat.le_trans (List.countP_mono_left ?_) hfew
    intro h _ hh
    exact (Bool.and_eq_true_iff.mp hh).1
  · rcases Nat.eq_zero_or_pos (s.admittedFrom ip) with h0 | hpos
    · rw [h0]; exact Nat.zero_le _
    · obtain ⟨h, hmem, hh⟩ := List.countP_pos_iff.mp hpos
      have hs := accounting_run hrun
      have hle : s.admittedFrom ip ≤ s.admittedAt h.addr := by
        refine List.countP_mono_left ?_
        intro h' hmem' hh'
        simp only [Bool.and_eq_true, decide_eq_true_eq] at hh hh' ⊢
        exact ⟨hsame _ (List.mem_map_of_mem hmem') _ (List.mem_map_of_mem hmem) hh'.1 hh.1, hh'.2⟩
      calc s.admittedFrom ip ≤ s.admittedAt h.addr := hle
        _ = s.connectionCount h.addr := (hs.counts h.addr).symm
        _ ≤ maxConnPerIp := hs.limit h.addr

theorem harmless_of_isPrefix {clients clients' : List SocketAddr} {ip : IpAddr}
    (hp : clients' <+: clients) (h : Harmless clients ip) : Harmless clients' ip := by
  rcases h with hfew | hsame
  · exact Or.inl (Nat.le_trans (hp.sublist.countP_le) hfew)
  · exact Or.inr fun c hc d hd => hsame c (hp.subset hc) d (hp.subset hd)

/-! ## Runs past the limit -/

/-- The turns that take the handlers at these places past admission. -/
def admitSchedule (places : List Nat) : List (Action SocketAddr) :=
  places.flatMap fun i => [.handler i .acquire, .handler i (.admission 0)]

theorem accepted_append (as bs : List (Action SocketAddr)) :
    accepted (as ++ bs) = accepted as ++ accepted bs := List.filterMap_append

theorem accepted_map_accept (clients : List SocketAddr) :
    accepted (clients.map .accept) = clients := by simp [accepted, List.filterMap_map]

theorem accepted_admitSchedule (places : List Nat) : accepted (admitSchedule places) = [] := by
  induction places with
  | nil => rfl
  | cons i places ih => exact ih

/-- A spawned handler whose key is below its limit passes admission. -/
theorem admit_one {s : Shield SocketAddr} {i : Nat} {addr : SocketAddr}
    (hi : s.handlers[i]? = some ⟨addr, .spawned⟩) (hfree : 0 < s.shared.freePermits)
    (hlim : s.connectionCount addr < maxConnPerIp) :
    ∃ u, shield.run s [.handler i .acquire, .handler i (.admission 0)] = some u ∧
      u.handlers = s.handlers.set i ⟨addr, .reading⟩ ∧
      u.shared.freePermits + 1 = s.shared.freePermits ∧
      ∀ key, u.connectionCount key = s.connectionCount key + indicator (decide (addr = key)) := by
  obtain ⟨hlt, -⟩ := List.getElem?_eq_some_iff.mp hi
  rcases admission_spec 0 (s.shared.registry addr) with ⟨-, hadm, hcount⟩ | ⟨hge, -, -⟩
  · let entry := (admission 0 (s.shared.registry addr)).2
    let t : Shield SocketAddr :=
      ⟨⟨s.shared.registry, s.shared.freePermits - 1⟩, s.handlers.set i ⟨addr, .permitted⟩⟩
    let u : Shield SocketAddr :=
      ⟨⟨Function.update s.shared.registry addr (some entry), s.shared.freePermits - 1⟩,
        s.handlers.set i ⟨addr, .reading⟩⟩
    have hacquire : shield.step s (.handler i .acquire) = some t :=
      shield_step_handler hi (by simp [Phase.step, hfree])
    have hadmit : shield.step t (.handler i (.admission 0)) = some u := by
      have hti : t.handlers[i]? = some ⟨addr, .permitted⟩ := by simp [t, hlt]
      rw [shield_step_handler hti (by simp [Phase.step, t, hadm]; exact ⟨rfl, rfl⟩)]
      simp [u, t, entry]
    refine ⟨u, ?_, rfl, Nat.sub_add_cancel hfree, ?_⟩
    · rw [Machine.run, hacquire, Option.bind_some, Machine.run, hadmit]
      rfl
    · intro key
      by_cases hkey : addr = key
      · subst hkey
        simp [Shield.connectionCount, u, entry, hcount, indicator]
      · simp [Shield.connectionCount, u, Function.update_of_ne (Ne.symm hkey), hkey, indicator]
  · exact absurd hge (Nat.not_le.mpr hlim)

/-- **Admitting one by one.**  Spawned handlers of one IP all pass admission as long
as no key among them exceeds its limit. -/
theorem admit_all {s : Shield SocketAddr} {ip : IpAddr} {places : List Nat}
    (hnodup : places.Nodup)
    (hspawned : ∀ i ∈ places, ∃ addr, s.handlers[i]? = some ⟨addr, .spawned⟩ ∧ addr.ip = ip)
    (hfree : places.length ≤ s.shared.freePermits)
    (hlim : ∀ key, s.connectionCount key +
      places.countP (fun i => decide (s.handlers[i]?.map Handler.addr = some key)) ≤ maxConnPerIp) :
    ∃ u, shield.run s (admitSchedule places) = some u ∧
      u.admittedFrom ip = s.admittedFrom ip + places.length := by
  induction places generalizing s with
  | nil => exact ⟨s, rfl, rfl⟩
  | cons i places ih =>
    obtain ⟨hnot, hnodup⟩ := List.nodup_cons.mp hnodup
    obtain ⟨addr, hi, hip⟩ := hspawned i List.mem_cons_self
    have hlim' : ∀ key, s.connectionCount key + (places.countP (fun j =>
        decide (s.handlers[j]?.map Handler.addr = some key)) + indicator (decide (addr = key))) ≤
        maxConnPerIp := by
      intro key
      have := hlim key
      simpa [List.countP_cons, hi, indicator] using this
    have hbelow : s.connectionCount addr < maxConnPerIp := by
      have := hlim' addr
      simp [indicator] at this
      omega
    rw [List.length_cons] at hfree
    obtain ⟨t, hrun, hhandlers, hpermits, hcounts⟩ := admit_one hi (by omega) hbelow
    -- the other places are untouched
    have hother : ∀ j ∈ places, t.handlers[j]? = s.handlers[j]? := by
      intro j hj
      rw [hhandlers, List.getElem?_set_ne]
      rintro rfl
      exact hnot hj
    have hcount : ∀ key, places.countP (fun j =>
        decide (t.handlers[j]?.map Handler.addr = some key)) = places.countP (fun j =>
        decide (s.handlers[j]?.map Handler.addr = some key)) := by
      intro key
      refine List.countP_congr fun j hj => ?_
      rw [hother j hj]
    obtain ⟨u, hrest, hadmitted⟩ := ih hnodup
      (fun j hj => by rw [hother j hj]; exact hspawned j (List.mem_cons_of_mem _ hj))
      (by omega)
      (fun key => by rw [hcounts, hcount]; have := hlim' key; omega)
    refine ⟨u, ?_, ?_⟩
    · rw [admitSchedule, List.flatMap_cons, Machine.run_append, hrun]
      exact hrest
    · have hmove := countP_move (fun h => decide (h.addr.ip = ip) && h.phase.admitted) hi .reading
      rw [← hhandlers] at hmove
      simp only [hip, decide_true, Bool.true_and] at hmove
      have hone : t.admittedFrom ip = s.admittedFrom ip + 1 := hmove
      rw [hadmitted, hone, List.length_cons]
      omega

/-- The shield after it has accepted clients and nothing else has happened. -/
theorem run_accept (s : Shield SocketAddr) (clients : List SocketAddr) :
    shield.run s (clients.map .accept) =
      some { s with handlers := s.handlers ++ clients.map (⟨·, .spawned⟩) } := by
  induction clients generalizing s with
  | nil => simp
  | cons c clients ih =>
    rw [List.map_cons, Machine.run]
    exact (ih _).trans (by simp)

/-- More places than the limit, two of them with different clients: one more than
the limit can be chosen that still has both. -/
theorem exists_places {clients : List SocketAddr} {ip : IpAddr} (h : ¬ Harmless clients ip) :
    ∃ places : List Nat, places.Nodup ∧ places.length = maxConnPerIp + 1 ∧
      (∀ i ∈ places, ∃ c, clients[i]? = some c ∧ c.ip = ip) ∧
      ∃ i ∈ places, ∃ j ∈ places, clients[i]? ≠ clients[j]? := by
  obtain ⟨hmany, hdiff⟩ := not_or.mp h
  simp only [not_forall] at hdiff
  obtain ⟨c, hc, d, hd, hcip, hdip, hne⟩ := hdiff
  obtain ⟨i, hi⟩ := List.mem_iff_getElem?.mp hc
  obtain ⟨j, hj⟩ := List.mem_iff_getElem?.mp hd
  let all := placesOf (fun c => decide (c.ip = ip)) clients
  have hall : all.Nodup := List.nodup_range.filter _
  have hi' : i ∈ all := mem_placesOf.mpr ⟨c, hi, by simpa using hcip⟩
  have hj' : j ∈ all := mem_placesOf.mpr ⟨d, hj, by simpa using hdip⟩
  have hcard : maxConnPerIp + 1 ≤ all.toFinset.card := by
    rw [List.toFinset_card_of_nodup hall, length_placesOf]
    omega
  obtain ⟨chosen, hlow, hup, hsize⟩ := Finset.exists_subsuperset_card_eq
    (s := {i, j}) (t := all.toFinset) (n := maxConnPerIp + 1)
    (by intro k hk; simp at hk; rcases hk with rfl | rfl <;> simpa)
    (Finset.card_le_two.trans (by decide)) hcard
  refine ⟨chosen.toList, chosen.nodup_toList, by rw [Finset.length_toList, hsize], ?_, ?_⟩
  · intro k hk
    have := hup (Finset.mem_toList.mp hk)
    obtain ⟨c, hk, hip⟩ := mem_placesOf.mp (List.mem_toFinset.mp this)
    exact ⟨c, hk, by simpa using hip⟩
  · refine ⟨i, Finset.mem_toList.mpr (hlow (by simp)), j,
      Finset.mem_toList.mpr (hlow (by simp)), ?_⟩
    rw [hi, hj]
    exact fun he => hne (Option.some.inj he)

/-- **The code keeps the limit per IP exactly when no IP can exceed it anyway** or has
all its connections from one socket address: these are the clients for which, under
every interleaving and at every time, at most `MAX_CONN_PER_IP` handlers of an IP are
past admission. -/
theorem perIp_limit_iff (clients : List SocketAddr) :
    (∀ actions s, accepted actions <+: clients → shield.run .start actions = some s →
        ∀ ip, s.admittedFrom ip ≤ maxConnPerIp) ↔
      ∀ ip, Harmless clients ip := by
  constructor
  · intro hlimit ip
    by_contra hharm
    obtain ⟨places, hnodup, hlen, hplaces, i, hi, j, hj, hne⟩ := exists_places hharm
    let t : Shield SocketAddr := { Shield.start with handlers := clients.map (⟨·, .spawned⟩) }
    have hstart : shield.run .start (clients.map .accept) = some t := run_accept .start clients
    have haddr : ∀ k : Nat, t.handlers[k]?.map Handler.addr = clients[k]? := by
      intro k
      simp [t, Function.comp_def]
    obtain ⟨u, hrun, hcount⟩ : ∃ u, shield.run t (admitSchedule places) = some u ∧
        u.admittedFrom ip = t.admittedFrom ip + places.length := by
      refine admit_all hnodup ?_ ?_ ?_
      · intro k hk
        obtain ⟨c, hk, hip⟩ := hplaces k hk
        exact ⟨c, by simp [t, hk], hip⟩
      · rw [hlen]
        exact show maxConnPerIp + 1 ≤ maxGlobalConnections by decide
      · intro key
        -- the two different clients are not both at this key
        have hlt : places.countP (fun k => decide (t.handlers[k]?.map Handler.addr = some key)) <
            places.length := by
          refine Nat.lt_of_le_of_ne List.countP_le_length fun heq => hne ?_
          have hall := List.countP_eq_length.mp heq
          have hik := hall i hi
          have hjk := hall j hj
          simp only [haddr, decide_eq_true_eq] at hik hjk
          rw [hik, hjk]
        have hzero : t.connectionCount key = 0 := rfl
        omega
    have hle := hlimit (clients.map .accept ++ admitSchedule places) u
      (by rw [accepted_append, accepted_admitSchedule, accepted_map_accept, List.append_nil])
      (by rw [Machine.run_append, hstart]; exact hrun) ip
    have hnone : t.admittedFrom ip = 0 := by
      simp [Shield.admittedFrom, t, Phase.admitted]
    omega
  · intro hharm actions s hacc hrun ip
    exact admittedFrom_le_of_harmless hrun (harmless_of_isPrefix hacc (hharm ip))

/-- 21 connections of one host, from the source ports 1024, 1025, …, 1044. -/
def floodClients : List SocketAddr :=
  (List.range 21).map fun i => .v4 0x0a000001 (UInt16.ofNat (1024 + i))

/-- All 21 are past admission at once. -/
theorem perIp_limit_exceeded :
    ∃ s, shield.run .start (floodClients.map .accept ++ admitSchedule (List.range 21)) = some s ∧
      s.admittedFrom (.v4 0x0a000001) = 21 ∧ maxConnPerIp < s.admittedFrom (.v4 0x0a000001) :=
  ⟨_, rfl, by decide +kernel, by decide +kernel⟩

end RustSamples.AntiDdos
