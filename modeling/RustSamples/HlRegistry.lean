import RustSamples.HlWebsocket

/-! # The registry of a node

`handle_connection` inserts the session into `connections` and takes it out again when
its read loop is over; the write task takes it out when it cannot write.  Both remove the
entry under their own id, and ids are not reused before the counter wraps around, so
neither ever removes the entry of another session.

Between the insertion and the read loop stand the two `?` of the Welcome frame.  A handler
that returns there leaves its entry behind: it never gets to its own `remove`, and the
write task that would do it has not been spawned.  Nothing removes such an entry any more.
-/
namespace RustSamples.Hl
open Scheduling

namespace Session

/-- The handler is at a point where its session can be in the map. -/
def Enrolled (s : Session) : Prop :=
  s.handler ≠ .handshaking ∧ s.handler ≠ .aborting ∧ s.handler ≠ .returned .handshakeFailed ∧
    s.handler ≠ .returned .readLoopEnded

/-- The handler is about to send the Welcome frame, or failed to. -/
def AtWelcome (s : Session) : Prop :=
  s.handler = .welcoming ∨ s.handler = .returned .welcomeFailed

theorem AtWelcome.notWelcomed {s : Session} (h : s.AtWelcome) : s.NotWelcomed := by
  rcases h with h | h
  · exact Or.inr (Or.inl h)
  · exact Or.inr (Or.inr (Or.inr h))

/-- **What a move does to the own entry**: it makes one, it removes it and is past
Welcome, or it leaves the map alone and no session gets into a point without entry or
back to Welcome. -/
theorem Step.entry {E : Env} {s s' : Session} {m : Move} {effect : Effect}
    (h : Step E s m s' effect) (hw : s.WriterWaits) :
    (effect = .insert ∧ s.handler = .handshaking ∧ s'.handler = .welcoming) ∨
      (effect = .remove ∧ ¬ s'.AtWelcome) ∨
      (effect ≠ .insert ∧ effect ≠ .remove ∧ (s.Enrolled → s'.Enrolled) ∧
        (s'.AtWelcome → s.AtWelcome)) := by
  cases h with
  | register h => exact Or.inl ⟨rfl, h, rfl⟩
  | removeEntry => exact Or.inr (Or.inl ⟨rfl, by rintro (h | h) <;> cases h⟩)
  | writerRemove h =>
    refine Or.inr (Or.inl ⟨rfl, fun hat => ?_⟩)
    have hnot : s.writer = .notSpawned := hw (AtWelcome.notWelcomed hat)
    rw [h] at hnot
    cases hnot
  | ignored | ping | recv | recvUnencodable | tick | sendDone | sendFailed | closeDone | cancelIdle
  | cancelSending => exact Or.inr (Or.inr ⟨nofun, nofun, fun h => h, fun h => h⟩)
  | handshakeFailed h | abort h =>
    refine Or.inr (Or.inr ⟨nofun, nofun, fun hen => ?_, by rintro (h' | h') <;> cases h'⟩)
    first
      | exact absurd h hen.1
      | exact absurd h hen.2.1
  | welcomeSent h | broadcast h | leave h =>
    refine Or.inr (Or.inr ⟨nofun, nofun, fun _ => ?_, by rintro (h' | h') <;> cases h'⟩)
    exact ⟨nofun, nofun, nofun, nofun⟩
  | welcomeUnencodable h | welcomeUnsent h =>
    exact Or.inr (Or.inr ⟨nofun, nofun, fun _ => ⟨nofun, nofun, nofun, nofun⟩,
      fun _ => Or.inl h⟩)
  | publish h =>
    rename_i delivered
    refine Or.inr (Or.inr ⟨?_, ?_, fun _ => ⟨nofun, nofun, nofun, nofun⟩, ?_⟩)
    · cases delivered <;> nofun
    · cases delivered <;> nofun
    · rintro (h' | h') <;> cases h'

end Session

/-- The map and the sessions of a node. -/
structure Registry (n : Node) : Prop where
  counter : n.sessionCounter = UInt64.ofNat n.sessions.length
  ids : ∀ (i : Nat) (s : Session), n.sessions[i]? = some s → s.id = UInt64.ofNat (i + 1)
  waits : ∀ (i : Nat) (s : Session), n.sessions[i]? = some s → s.WriterWaits
  entries : ∀ key j, n.connections.lookup key = some j →
    ∃ s : Session, n.sessions[j]? = some s ∧ s.id = key ∧ s.Enrolled
  kept : n.sessions.length < 2 ^ 64 → ∀ (i : Nat) (s : Session), n.sessions[i]? = some s →
    s.AtWelcome → n.connections.lookup s.id = some i

/-- Below 2⁶⁴ connections, no two sessions of a node have the same id. -/
theorem Registry.id_inj {n : Node} (hn : Registry n) (hlen : n.sessions.length < 2 ^ 64)
    {i j : Nat} {s t : Session} (hs : n.sessions[i]? = some s) (ht : n.sessions[j]? = some t)
    (h : s.id = t.id) : i = j := by
  have hi := (List.getElem?_eq_some_iff.mp hs).1
  have hj := (List.getElem?_eq_some_iff.mp ht).1
  rw [hn.ids i s hs, hn.ids j t ht] at h
  have hnat := congrArg UInt64.toNat h
  rw [UInt64.toNat_ofNat', UInt64.toNat_ofNat'] at hnat
  omega

/-- What is registered under the id of a session is the session. -/
theorem Registry.lookup_own {n : Node} (hn : Registry n) (hlen : n.sessions.length < 2 ^ 64)
    {i j : Nat} {s : Session} (hs : n.sessions[i]? = some s)
    (h : n.connections.lookup s.id = some j) : j = i := by
  obtain ⟨t, ht, hid, -⟩ := hn.entries _ _ h
  exact hn.id_inj hlen ht hs hid

theorem registry_start : Registry .start where
  counter := rfl
  ids := nofun
  waits := nofun
  entries := nofun
  kept := nofun

theorem Session.core_eq_iff {s s' : Session} :
    s'.core = s.core ↔ s'.id = s.id ∧ s'.handler = s.handler ∧ s'.writer = s.writer := by
  simp [core]

theorem length_eq_of_cores {l l' : List Session} (h : l'.map Session.core = l.map Session.core) :
    l'.length = l.length := by
  simpa using congrArg List.length h

/-- The registry looks at the cores of the sessions only. -/
theorem Registry.of_cores {n n' : Node} (hn : Registry n)
    (hcores : n'.sessions.map Session.core = n.sessions.map Session.core)
    (hconn : n'.connections = n.connections) (hcounter : n'.sessionCounter = n.sessionCounter) :
    Registry n' := by
  have hlen := length_eq_of_cores hcores
  constructor
  · rw [hcounter, hlen, hn.counter]
  · intro i s' hs'
    obtain ⟨s, hs, hcore⟩ := exists_getElem?_of_map_eq hcores hs'
    rw [(Session.core_eq_iff.mp hcore).1, hn.ids i s hs]
  · intro i s' hs'
    obtain ⟨s, hs, hcore⟩ := exists_getElem?_of_map_eq hcores hs'
    exact (hn.waits i s hs).of_core hcore
  · intro key j hlookup
    rw [hconn] at hlookup
    obtain ⟨s, hs, hid, hen⟩ := hn.entries key j hlookup
    obtain ⟨s', hs', hcore⟩ := exists_getElem?_of_map_eq hcores.symm hs
    obtain ⟨hid', hh, -⟩ := Session.core_eq_iff.mp hcore.symm
    exact ⟨s', hs', by rw [hid', hid], by rw [Session.Enrolled, hh]; exact hen⟩
  · intro hlt i s' hs' hat
    obtain ⟨s, hs, hcore⟩ := exists_getElem?_of_map_eq hcores hs'
    obtain ⟨hid, hh, -⟩ := Session.core_eq_iff.mp hcore
    rw [hconn, hid]
    exact hn.kept (hlen ▸ hlt) i s hs (by rw [Session.AtWelcome, ← hh]; exact hat)

theorem registry_accept {E : Env} {n : Node} (hn : Registry n) {id : UInt64}
    (hid : n.nextSession E = some id) :
    Registry { n with sessionCounter := id, sessions := n.sessions ++ [.start id] } := by
  have hnext : id = UInt64.ofNat (n.sessions.length + 1) := by
    have hadd : id = n.sessionCounter + 1 := by
      unfold Node.nextSession at hid
      split at hid
      · exact (Option.some.inj hid).symm
      · rename_i hover
        split at hid
        · cases hid
        · -- the last number wraps to 0
          obtain rfl := Option.some.inj hid
          have hmax : n.sessionCounter.toNat = 2 ^ 64 - 1 := by
            have := n.sessionCounter.toNat_lt
            omega
          apply UInt64.toNat.inj
          rw [UInt64.toNat_add, hmax]
          rfl
    rw [hadd, hn.counter, UInt64.ofNat_add]
    rfl
  constructor
  · rw [List.length_append, hnext]; rfl
  · intro i s hs
    rcases getElem?_concat_cases hs with hs | ⟨rfl, rfl⟩
    · exact hn.ids i s hs
    · exact hnext
  · intro i s hs
    rcases getElem?_concat_cases hs with hs | ⟨-, rfl⟩
    · exact hn.waits i s hs
    · exact fun _ => rfl
  · intro key j hlookup
    obtain ⟨s, hs, h⟩ := hn.entries key j hlookup
    exact ⟨s, by rw [List.getElem?_append_left (List.getElem?_eq_some_iff.mp hs).1, hs], h⟩
  · intro hlt i s hs hat
    rcases getElem?_concat_cases hs with hs | ⟨-, rfl⟩
    · rw [List.length_append] at hlt
      exact hn.kept (by omega) i s hs hat
    · rcases hat with hat | hat <;> cases hat

/-- Only registration and removal change the map. -/
theorem Node.connections_commit_of_ne (n : Node) (i : Nat) (s : Session) {effect : Effect}
    (hinsert : effect ≠ .insert) (hremove : effect ≠ .remove) :
    (n.commit i s effect).connections = n.connections := by
  cases effect with
  | insert => exact absurd rfl hinsert
  | remove => exact absurd rfl hremove
  | none | publish => rfl
  | pong =>
    simp only [commit]
    split <;> rfl

theorem Node.sessionCounter_commit (n : Node) (i : Nat) (s : Session) (effect : Effect) :
    (n.commit i s effect).sessionCounter = n.sessionCounter := by
  cases effect with
  | none | insert | remove | publish => rfl
  | pong =>
    simp only [commit]
    split <;> rfl

section
variable {E : Env} {n : Node} {i : Nat} {s s' : Session} {m : Move} {effect : Effect}

/-- Every entry is that of an enrolled session, behind a move. -/
theorem Registry.entries_commit (hn : Registry n) (hs : n.sessions[i]? = some s)
    (h : Session.Step E s m s' effect) {key : UInt64} {j : Nat}
    (hlookup : (n.commit i s' effect).connections.lookup key = some j) :
    ∃ t, (n.sessions.set i s')[j]? = some t ∧ t.id = key ∧ t.Enrolled := by
  have hself : (n.sessions.set i s')[i]? = some s' :=
    List.getElem?_set_self (List.getElem?_eq_some_iff.mp hs).1
  have hother : ∀ {j t}, j ≠ i → n.sessions[j]? = some t →
      (n.sessions.set i s')[j]? = some t :=
    fun hji ht => (List.getElem?_set_ne (Ne.symm hji)).trans ht
  -- an entry that was there and is not of this session
  have hentry : key ≠ s'.id → n.connections.lookup key = some j →
      ∃ t : Session, (n.sessions.set i s')[j]? = some t ∧ t.id = key ∧ t.Enrolled := by
    intro hkey hlookup
    obtain ⟨t, ht, htid, hten⟩ := hn.entries key j hlookup
    have hji : j ≠ i := by
      rintro rfl
      rw [hs] at ht
      exact hkey (by rw [h.id_eq, Option.some.inj ht, htid])
    exact ⟨t, hother hji ht, htid, hten⟩
  rcases h.entry (hn.waits i s hs) with ⟨rfl, -, hwelcoming⟩ | ⟨rfl, -⟩ | ⟨hinsert, hremove, hen, -⟩
  · by_cases hkey : key = s'.id
    · subst hkey
      obtain rfl := Option.some.inj (hlookup.symm.trans (AList.lookup_insert n.connections))
      refine ⟨s', hself, rfl, ?_⟩
      rw [Session.Enrolled, hwelcoming]
      exact ⟨nofun, nofun, nofun, nofun⟩
    · exact hentry hkey ((AList.lookup_insert_ne hkey).symm.trans hlookup)
  · by_cases hkey : key = s'.id
    · subst hkey
      cases (AList.lookup_erase s'.id n.connections).symm.trans hlookup
    · exact hentry hkey ((AList.lookup_erase_ne hkey).symm.trans hlookup)
  · rw [n.connections_commit_of_ne i s' hinsert hremove] at hlookup
    by_cases hkey : key = s'.id
    · obtain ⟨t, ht, htid, hten⟩ := hn.entries key j hlookup
      by_cases hji : j = i
      · subst hji
        obtain rfl := Option.some.inj (hs.symm.trans ht)
        exact ⟨s', hself, hkey.symm, hen hten⟩
      · exact ⟨t, hother hji ht, htid, hten⟩
    · exact hentry hkey hlookup

/-- As long as the ids have not wrapped, no session loses its entry to a move of another. -/
theorem Registry.kept_commit (hn : Registry n) (hs : n.sessions[i]? = some s)
    (h : Session.Step E s m s' effect) (hlen : n.sessions.length < 2 ^ 64) {j : Nat} {t : Session}
    (ht : (n.sessions.set i s')[j]? = some t) (hat : t.AtWelcome) :
    (n.commit i s' effect).connections.lookup t.id = some j := by
  -- another session has another id
  have hne : ∀ {j t}, j ≠ i → n.sessions[j]? = some t → t.id ≠ s'.id := by
    intro j t hji ht heq
    exact hji (hn.id_inj hlen ht hs (heq.trans h.id_eq))
  rcases h.entry (hn.waits i s hs) with ⟨rfl, -, -⟩ | ⟨rfl, hnot⟩ | ⟨hinsert, hremove, -, hback⟩
  · rcases getElem?_set_cases ht with ⟨rfl, rfl⟩ | ⟨hji, ht⟩
    · exact AList.lookup_insert n.connections
    · exact (AList.lookup_insert_ne (hne hji ht)).trans (hn.kept hlen j t ht hat)
  · rcases getElem?_set_cases ht with ⟨rfl, rfl⟩ | ⟨hji, ht⟩
    · exact absurd hat hnot
    · exact (AList.lookup_erase_ne (hne hji ht)).trans (hn.kept hlen j t ht hat)
  · rw [n.connections_commit_of_ne i s' hinsert hremove]
    rcases getElem?_set_cases ht with ⟨rfl, rfl⟩ | ⟨hji, ht⟩
    · rw [h.id_eq]
      exact hn.kept hlen j s hs (hback hat)
    · exact hn.kept hlen j t ht hat

theorem registry_commit (hn : Registry n) (hs : n.sessions[i]? = some s)
    (h : Session.Step E s m s' effect) : Registry (n.commit i s' effect) := by
  -- the move without a Pong reply, which changes no core
  suffices hset : Registry { n with
      sessions := n.sessions.set i s', connections := (n.commit i s' effect).connections } from
    hset.of_cores (n.cores_commit i s' effect) rfl (n.sessionCounter_commit i s' effect)
  constructor
  · simpa using hn.counter
  · intro j t ht
    rcases getElem?_set_cases ht with ⟨rfl, rfl⟩ | ⟨-, ht⟩
    · rw [h.id_eq, hn.ids j s hs]
    · exact hn.ids j t ht
  · intro j t ht
    rcases getElem?_set_cases ht with ⟨rfl, rfl⟩ | ⟨-, ht⟩
    · exact Session.writerWaits_step (hn.waits j s hs) h
    · exact hn.waits j t ht
  · exact fun key j hlookup => hn.entries_commit hs h hlookup
  · intro hlt j t ht hat
    exact hn.kept_commit hs h (by simpa using hlt) ht hat

end

variable {ι : Type} [DecidableEq ι] {E : Env}

theorem registry_kept : Node.KeptBySteps E Registry where
  accept _ _ hn hid := registry_accept hn hid
  commit _ _ _ _ _ _ hn hs hm := registry_commit hn hs hm
  redis _ _ _ _ hn := hn.of_cores rfl rfl rfl
  visit n f hn := hn.of_cores (n.cores_visit E f) rfl rfl

theorem registry_run {events : List (Event ι)} {c : Cluster ι}
    (hrun : (cluster E).run .start events = some c) (b : ι) : Registry (c.node b) :=
  registry_kept.run registry_start hrun b

/-- A session stays in the list. -/
theorem session_isSome_step {c u : Cluster ι} {e : Event ι} (h : (cluster E).step c e = some u)
    {b : ι} {i : Nat} {s : Session} (hs : c.session b i = some s) :
    ∃ s', u.session b i = some s' := by
  have hkept : Node.KeptBySteps E fun n => i < n.sessions.length := by
    constructor
    · intro n id hn _
      rw [List.length_append]
      exact Nat.lt_add_right _ hn
    · intro n j s m s' effect hn _ _
      rwa [length_eq_of_cores (n.cores_commit j s' effect), List.length_set]
    · exact fun n _ _ _ hn => hn
    · intro n f hn
      rwa [length_eq_of_cores (n.cores_visit E f)]
  have hlt := hkept.step (List.getElem?_eq_some_iff.mp hs).1 h
  exact ⟨_, List.getElem?_eq_getElem hlt⟩

/-- With overflow checks the counter stops before it wraps. -/
theorem length_lt_of_overflowChecks (hE : E.overflowChecks = true) {events : List (Event ι)}
    {c : Cluster ι} (hrun : (cluster E).run .start events = some c) (b : ι) :
    (c.node b).sessions.length < 2 ^ 64 := by
  have hkept : Node.KeptBySteps E fun n => Registry n ∧ n.sessions.length < 2 ^ 64 := by
    constructor
    · intro n id hn hid
      refine ⟨registry_accept hn.1 hid, ?_⟩
      have hcounter := hn.1.counter
      have hlen := hn.2
      simp only [Node.nextSession, hE, if_true] at hid
      split at hid
      · rename_i hlt
        rw [hcounter, UInt64.toNat_ofNat'] at hlt
        rw [List.length_append, List.length_singleton]
        omega
      · cases hid
    · intro n i s m s' effect hn hs hm
      refine ⟨registry_commit hn.1 hs hm, ?_⟩
      rw [length_eq_of_cores (n.cores_commit i s' effect), List.length_set]
      exact hn.2
    · exact fun n _ _ _ hn => ⟨hn.1.of_cores rfl rfl rfl, hn.2⟩
    · intro n f hn
      refine ⟨hn.1.of_cores (n.cores_visit E f) rfl rfl, ?_⟩
      rw [length_eq_of_cores (n.cores_visit E f)]
      exact hn.2
  exact (hkept.run ⟨registry_start, Nat.two_pow_pos 64⟩ hrun b).2

/-! ## The moves of one session -/

theorem Cluster.exists_core_of_setNode {c : Cluster ι} {b₀ : ι} {n : Node}
    (hcores : n.sessions.map Session.core = (c.node b₀).sessions.map Session.core)
    {b : ι} {i : Nat} {s' : Session} (hs : (c.setNode b₀ n).session b i = some s') :
    ∃ s, c.session b i = some s ∧ s'.core = s.core := by
  unfold session at hs ⊢
  by_cases hb : b = b₀
  · subst hb
    rw [node_setNode] at hs
    exact exists_getElem?_of_map_eq hcores hs
  · rw [node_setNode_of_ne c hb] at hs
    exact ⟨s', hs, rfl⟩

/-- **Whose step moves a session.**  A step leaves the core of a session alone unless it
is a move of that session, which it then makes; or it accepts the session. -/
theorem cluster_step_core {c u : Cluster ι} {e : Event ι} (h : (cluster E).step c e = some u)
    {b : ι} {i : Nat} {s' : Session} (hs' : u.session b i = some s') :
    (c.session b i = none ∧ (∀ m, e ≠ .move b i m) ∧ ∃ id, s' = .start id) ∨
      ∃ s, c.session b i = some s ∧
        ((∃ m s₁ effect, e = .move b i m ∧ Session.Step E s m s₁ effect ∧ s'.core = s₁.core) ∨
          (∀ m, e ≠ .move b i m) ∧ s'.core = s.core) := by
  rcases cluster_step_cases h with ⟨b₀, id, rfl, hid, rfl⟩ |
    ⟨b₀, i₀, m, s, s₁, effect, rfl, hs, hm, rfl⟩ | ⟨b₀, rfl, rfl⟩ | ⟨b₀, rfl, -, rfl⟩ |
    ⟨b₀, d, rest, rfl, -, -, rfl⟩ | ⟨b₀, f, rfl, -, rfl⟩
  · unfold Cluster.session at hs' ⊢
    by_cases hb : b = b₀
    · subst hb
      rw [Cluster.node_setNode] at hs'
      rcases getElem?_concat_cases hs' with hs' | ⟨rfl, rfl⟩
      · exact Or.inr ⟨s', hs', Or.inr ⟨nofun, rfl⟩⟩
      · exact Or.inl ⟨List.getElem?_eq_none (Nat.le_refl _), nofun, id, rfl⟩
    · rw [Cluster.node_setNode_of_ne c hb] at hs'
      exact Or.inr ⟨s', hs', Or.inr ⟨nofun, rfl⟩⟩
  · obtain ⟨inbox, hcommit⟩ := c.node_commit b₀ i₀ s₁ effect b
    unfold Cluster.session at hs' hs ⊢
    rw [hcommit] at hs'
    by_cases hb : b = b₀
    · subst hb
      rw [Cluster.node_setNode] at hs'
      obtain ⟨t, ht, hcore⟩ := exists_getElem?_of_map_eq (Node.cores_commit _ i₀ s₁ effect) hs'
      rcases getElem?_set_cases ht with ⟨rfl, rfl⟩ | ⟨hi, ht⟩
      · exact Or.inr ⟨s, hs, Or.inl ⟨m, t, effect, rfl, hm, hcore⟩⟩
      · refine Or.inr ⟨t, ht, Or.inr ⟨fun m' he => ?_, hcore⟩⟩
        exact hi (by cases he; rfl)
    · rw [Cluster.node_setNode_of_ne c hb] at hs'
      exact Or.inr ⟨s', hs', Or.inr ⟨fun m' he => hb (by cases he; rfl), rfl⟩⟩
  · obtain ⟨s, hs, hcore⟩ := Cluster.exists_core_of_setNode (by rfl) hs'
    exact Or.inr ⟨s, hs, Or.inr ⟨nofun, hcore⟩⟩
  · obtain ⟨s, hs, hcore⟩ := Cluster.exists_core_of_setNode (by rfl) hs'
    exact Or.inr ⟨s, hs, Or.inr ⟨nofun, hcore⟩⟩
  · obtain ⟨s, hs, hcore⟩ := Cluster.exists_core_of_setNode (by rfl) hs'
    exact Or.inr ⟨s, hs, Or.inr ⟨nofun, hcore⟩⟩
  · obtain ⟨s, hs, hcore⟩ := Cluster.exists_core_of_setNode (Node.cores_visit E _ f) hs'
    exact Or.inr ⟨s, hs, Or.inr ⟨nofun, hcore⟩⟩

/-! ## How a session left -/

/-- The Welcome frame of session `i` of node `b` could not be encoded or sent. -/
def WelcomeFailed (E : Env) (events : List (Event ι)) (b : ι) (i : Nat) (id : UInt64) : Prop :=
  ∃ result, .move b i (.welcome result) ∈ events ∧
    (E.toAllocvec (.welcome id) = none ∨ result ≠ .sent)

/-- The handler has not come to the Welcome frame. -/
def Session.Unwelcomed (s : Session) : Prop :=
  s.handler = .handshaking ∨ s.handler = .welcoming ∨ s.handler = .returned .handshakeFailed

/-- A move is the sending of the Welcome frame, which decides whether the session fails
there, or has nothing to do with it. -/
theorem Session.Step.welcome_cases {s s' : Session} {m : Move} {effect : Effect}
    (h : Session.Step E s m s' effect) :
    (∃ result, m = .welcome result ∧ s.handler = .welcoming ∧ ¬ s'.Unwelcomed ∧
        (s'.handler = .returned .welcomeFailed ↔
          E.toAllocvec (.welcome s.id) = none ∨ result ≠ .sent)) ∨
      ((∀ result, m ≠ .welcome result) ∧ (s'.Unwelcomed → s.Unwelcomed) ∧
        (s'.handler = .returned .welcomeFailed ↔ s.handler = .returned .welcomeFailed)) := by
  have hgone : ∀ {h' : HandlerPc}, h' = .reading ∨ (∃ p t, h' = .publishing p t) ∨ h' = .removing ∨
      h' = .aborting ∨ (∃ exit, h' = .returned exit ∧ exit ≠ .handshakeFailed) →
      ¬ (h' = .handshaking ∨ h' = .welcoming ∨ h' = .returned .handshakeFailed) := by
    rintro h' (rfl | ⟨_, _, rfl⟩ | rfl | rfl | ⟨exit, rfl, hne⟩) (h | h | h) <;> cases h
    exact hne rfl
  cases h with
  | welcomeSent h hbytes =>
    refine Or.inl ⟨_, rfl, h, hgone (Or.inl rfl), ?_⟩
    simp [hbytes]
  | welcomeUnencodable h hbytes =>
    exact Or.inl ⟨_, rfl, h, hgone (Or.inr (Or.inr (Or.inr (Or.inr ⟨_, rfl, nofun⟩)))),
      fun _ => Or.inl hbytes, fun _ => rfl⟩
  | welcomeUnsent h hbytes =>
    exact Or.inl ⟨_, rfl, h, hgone (Or.inr (Or.inr (Or.inr (Or.inr ⟨_, rfl, nofun⟩)))),
      fun _ => Or.inr nofun, fun _ => rfl⟩
  | handshakeFailed h | register h =>
    exact Or.inr ⟨nofun, fun _ => Or.inl h, nofun, by rw [h]; nofun⟩
  | broadcast h => exact Or.inr ⟨nofun, fun hu => absurd hu (hgone (Or.inr (Or.inl ⟨_, _, rfl⟩))),
      nofun, by rw [h]; nofun⟩
  | leave h hm => exact Or.inr ⟨hm, fun hu => absurd hu (hgone (Or.inr (Or.inr (Or.inl rfl)))),
      nofun, by rw [h]; nofun⟩
  | publish h => exact Or.inr ⟨nofun, fun hu => absurd hu (hgone (Or.inl rfl)),
      nofun, by rw [h]; nofun⟩
  | removeEntry h => exact Or.inr ⟨nofun,
      fun hu => absurd hu (hgone (Or.inr (Or.inr (Or.inr (Or.inl rfl))))), nofun, by rw [h]; nofun⟩
  | abort h => exact Or.inr ⟨nofun,
      fun hu => absurd hu (hgone (Or.inr (Or.inr (Or.inr (Or.inr ⟨_, rfl, nofun⟩))))),
      nofun, by rw [h]; nofun⟩
  | ignored | ping | recv | recvUnencodable | tick | sendDone | sendFailed | closeDone
  | writerRemove | cancelIdle | cancelSending => exact Or.inr ⟨nofun, fun h => h, Iff.rfl⟩

/-- What a run says about the Welcome frame of a session. -/
structure Traced (E : Env) (events : List (Event ι)) (b : ι) (i : Nat) (s : Session) : Prop where
  unwelcomed : s.Unwelcomed → ∀ result, .move b i (.welcome result) ∉ events
  failed : s.handler = .returned .welcomeFailed ↔ WelcomeFailed E events b i s.id

omit [DecidableEq ι] in
theorem Traced.of_core {events : List (Event ι)} {b : ι} {i : Nat} {s s' : Session}
    (hs : Traced E events b i s) (h : s'.core = s.core) : Traced E events b i s' := by
  obtain ⟨hid, hh, -⟩ := Session.core_eq_iff.mp h
  constructor
  · rw [Session.Unwelcomed, hh]; exact hs.unwelcomed
  · rw [hh, hid]; exact hs.failed

omit [DecidableEq ι] in
/-- Events that are not the Welcome frame of the session say nothing about it. -/
theorem Traced.concat {events : List (Event ι)} {b : ι} {i : Nat} {s : Session}
    (hs : Traced E events b i s) {e : Event ι} (he : ∀ result, e ≠ .move b i (.welcome result)) :
    Traced E (events ++ [e]) b i s := by
  have hmem : ∀ result, .move b i (.welcome result) ∈ events ++ [e] ↔
      .move b i (.welcome result) ∈ events := by
    intro result
    rw [List.mem_append, List.mem_singleton]
    exact ⟨fun h => h.resolve_right fun h => he result h.symm, Or.inl⟩
  constructor
  · intro hu result
    rw [hmem]
    exact hs.unwelcomed hu result
  · rw [hs.failed]
    unfold WelcomeFailed
    simp only [hmem]

omit [DecidableEq ι] in
theorem Traced.step {events : List (Event ι)} {b : ι} {i : Nat} {s s' : Session} {m : Move}
    {effect : Effect} (hs : Traced E events b i s) (h : Session.Step E s m s' effect) :
    Traced E (events ++ [.move b i m]) b i s' := by
  rcases h.welcome_cases with ⟨result, rfl, hwelcoming, hnot, hiff⟩ | ⟨hm, hback, hiff⟩
  · have hfirst := hs.unwelcomed (Or.inr (Or.inl hwelcoming))
    refine ⟨fun hu => absurd hu hnot, ?_⟩
    rw [hiff, h.id_eq]
    constructor
    · exact fun hfail => ⟨result, by simp, hfail⟩
    · rintro ⟨result', hmem, hfail⟩
      rcases List.mem_append.mp hmem with hmem | hmem
      · exact absurd hmem (hfirst result')
      · cases List.mem_singleton.mp hmem
        exact hfail
  · have hold := hs.concat (e := .move b i m) fun result he => hm result (by cases he; rfl)
    refine ⟨fun hu => hold.unwelcomed (hback hu), ?_⟩
    rw [hiff, h.id_eq]
    exact hold.failed

theorem traced_run {events : List (Event ι)} {c : Cluster ι}
    (hrun : (cluster E).run .start events = some c) {b : ι} {i : Nat} {s : Session}
    (hs : c.session b i = some s) : Traced E events b i s := by
  have hall : (∀ b i, c.session b i = none → ∀ m, .move b i m ∉ events) ∧
      ∀ b i s, c.session b i = some s → Traced E events b i s := by
    refine (cluster E).run_induction (I := fun events c =>
      (∀ b i, c.session b i = none → ∀ m, .move b i m ∉ events) ∧
        ∀ b i s, c.session b i = some s → Traced E events b i s)
      ⟨fun _ _ _ _ => List.not_mem_nil, fun b i s hs => by simp at hs⟩ ?_ hrun
    rintro events c e u - ⟨hnone, hsome⟩ h
    have hfresh : ∀ b i, c.session b i = none → ∀ m, .move b i m ∉ events ++ [e] := by
      intro b i hbi m hmem
      rcases List.mem_append.mp hmem with hmem | hmem
      · exact hnone b i hbi m hmem
      · rw [← List.mem_singleton.mp hmem] at h
        simp [cluster, hbi] at h
    refine ⟨fun b i hbi m => ?_, fun b i s' hs' => ?_⟩
    · cases hc : c.session b i with
      | none => exact hfresh b i hc m
      | some s =>
        obtain ⟨s', hs'⟩ := session_isSome_step h hc
        rw [hbi] at hs'
        cases hs'
    · rcases cluster_step_core h hs' with ⟨hc, -, id, rfl⟩ | ⟨s, hc, hmove | ⟨hother, hcore⟩⟩
      · refine ⟨fun _ result => hfresh b i hc _, fun h => HandlerPc.noConfusion h, ?_⟩
        rintro ⟨result, hmem, -⟩
        exact absurd hmem (hfresh b i hc _)
      · obtain ⟨m, s₁, effect, rfl, hm, hcore⟩ := hmove
        exact ((hsome b i s hc).step hm).of_core hcore
      · exact ((hsome b i s hc).concat fun result => hother _).of_core hcore
  exact hall.2 b i s hs

/-! ## Registry hygiene -/

/-- **When a session leaves the registry clean.**  Take any run of any cluster in which no
node has used up its ids: the build checks for overflow, or fewer than 2⁶⁴ connections
were accepted.  Once `handle_connection` has returned, the session's id is not in the map
if and only if its Welcome frame did not fail.  And no move of a session takes the entry
of another session out of the map, or overwrites it. -/
theorem returned_unregistered_iff {events : List (Event ι)} {c : Cluster ι}
    (hrun : (cluster E).run .start events = some c)
    (hids : E.overflowChecks = true ∨ ∀ b, (c.node b).sessions.length < 2 ^ 64) :
    (∀ b i s exit, c.session b i = some s → s.handler = .returned exit →
      (s.id ∉ (c.node b).connections ↔ ¬ WelcomeFailed E events b i s.id)) ∧
    ∀ b i m u, (cluster E).step c (.move b i m) = some u → ∀ key j, j ≠ i →
      (c.node b).connections.lookup key = some j → (u.node b).connections.lookup key = some j := by
  have hlen : ∀ b, (c.node b).sessions.length < 2 ^ 64 :=
    hids.elim (fun h => length_lt_of_overflowChecks h hrun) id
  refine ⟨fun b i s exit hs hret => ?_, fun b i m u h key j hji hlookup => ?_⟩
  · have hreg := registry_run hrun b
    rw [← (traced_run hrun hs).failed, ← AList.lookup_eq_none]
    constructor
    · intro hnone hfailed
      rw [hreg.kept (hlen b) i s hs (Or.inr hfailed)] at hnone
      cases hnone
    · intro hnot
      cases hlookup : (c.node b).connections.lookup s.id with
      | none => rfl
      | some j =>
        -- an entry under the id is the session's, and a handler that is back has none
        obtain rfl := hreg.lookup_own (hlen b) hs hlookup
        obtain ⟨t, ht, -, hen⟩ := hreg.entries _ _ hlookup
        obtain rfl := Option.some.inj (hs.symm.trans ht)
        cases exit with
        | handshakeFailed => exact absurd hret hen.2.2.1
        | welcomeFailed => exact absurd hret hnot
        | readLoopEnded => exact absurd hret hen.2.2.2
  · rcases cluster_step_cases h with ⟨_, _, he, -⟩ | ⟨b₀, i₀, m₀, s, s', effect, he, hs, hm, rfl⟩ |
      ⟨_, he, -⟩ | ⟨_, he, -⟩ | ⟨_, _, _, he, -⟩ | ⟨_, _, he, -⟩ <;> cases he
    obtain ⟨inbox, hcommit⟩ := c.node_commit b i s' effect b
    rw [hcommit, Cluster.node_setNode]
    have hreg := registry_run hrun b
    have hkey : key ≠ s'.id := by
      rintro rfl
      rw [hm.id_eq] at hlookup
      exact hji (hreg.lookup_own (hlen b) hs hlookup)
    by_cases hinsert : effect = .insert
    · subst hinsert
      exact (AList.lookup_insert_ne hkey).trans hlookup
    · by_cases hremove : effect = .remove
      · subst hremove
        exact (AList.lookup_erase_ne hkey).trans hlookup
      · show ((c.node b).commit i s' effect).connections.lookup key = some j
        rw [Node.connections_commit_of_ne _ i s' hinsert hremove, hlookup]

/-- One client whose connection breaks while the Welcome frame is sent. -/
def brokenWelcome : List (Event Unit) :=
  [.accept (), .move () 0 .register, .move () 0 (.welcome (.failed false))]

/-- Its handler has returned, and its entry is still in the map. -/
theorem broken_welcome_leaks :
    ¬ ∀ c s exit, (cluster sampleEnv).run .start brokenWelcome = some c →
      c.session () 0 = some s → s.handler = .returned exit → s.id ∉ (c.node ()).connections := by
  intro h
  obtain ⟨c, s, hrun, hs, hret, hmem⟩ : ∃ c s,
      (cluster sampleEnv).run .start brokenWelcome = some c ∧ c.session () 0 = some s ∧
        s.handler = .returned .welcomeFailed ∧ s.id ∈ (c.node ()).connections :=
    ⟨_, _, rfl, rfl, rfl, by decide⟩
  exact h c s _ hrun hs hret hmem

/-- Two clients, the first of which closes its connection again. -/
def closedSession : List (Event Unit) :=
  [.accept (), .move () 0 .register, .move () 0 (.welcome .sent), .accept (),
    .move () 1 .register, .move () 0 (.frame .close), .move () 0 .removeEntry, .move () 0 .abort]

theorem closed_session_unregistered :
    ∃ c s, (cluster sampleEnv).run .start closedSession = some c ∧ c.session () 0 = some s ∧
      s.handler = .returned .readLoopEnded ∧ s.id ∉ (c.node ()).connections ∧
      (c.node ()).connections.lookup 2 = some 1 := by
  obtain ⟨c, s, hrun, hs, hret, hlen, hid, hother⟩ : ∃ c s,
      (cluster sampleEnv).run .start closedSession = some c ∧ c.session () 0 = some s ∧
        s.handler = .returned .readLoopEnded ∧ (c.node ()).sessions.length < 2 ^ 64 ∧ s.id = 1 ∧
        (c.node ()).connections.lookup 2 = some 1 :=
    ⟨_, _, rfl, rfl, rfl, by decide, rfl, rfl⟩
  refine ⟨c, s, hrun, hs, hret, ?_, hother⟩
  refine ((returned_unregistered_iff hrun (Or.inr fun _ => hlen)).1 () 0 s _ hs hret).mpr ?_
  rintro ⟨result, hmem, hfail⟩
  rw [hid] at hfail
  have hsent : result = .sent := by
    simpa [closedSession] using hmem
  rcases hfail with hfail | hfail
  · cases hfail
  · exact hfail hsent

end RustSamples.Hl
