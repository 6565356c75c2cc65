import RustSamples.HlRegistry

/-! # Who gets a broadcast

A session that broadcasts a text publishes it under its session id, and every node hands
it to all sessions in its map but the one with that id.  The comment in the source says
what the test is for: not to send the text back to the sender if it is on this node.  But
ids are counted on each node separately, so on another node the same id belongs to somebody
else, and that client misses the message.

Redis numbers what it publishes (`Feed`): a node takes the numbers in increasing order, and
every shard is visited once for each.  So a fan-out finds a session at most once, and what
a session got of a publication is settled by that one visit (`Node.visit_session`).
-/
namespace RustSamples.Hl
open Scheduling

/-! ## One visit -/

/-- What was queued for the client of publication `p`. -/
def Session.received (s : Session) (p : Nat) : List ServerMessage :=
  (s.queued.filter fun q => q.2 = some p).map Prod.fst

theorem Session.received_send_none (s : Session) (m : ServerMessage) (p : Nat) :
    (s.send m none).received p = s.received p := by
  unfold send received
  split
  · simp
  · rfl

@[simp] theorem Session.offered_offer (s : Session) (key : UInt64) (f : FanOut) :
    (s.offer key f).offered = s.offered ++ [f.number] := by
  unfold offer send
  simp only
  split
  · split <;> rfl
  · rfl

/-- A fan-out that finds a session adds its message, unless the key is the sender's or the
channel is closed. -/
theorem Session.received_offer (s : Session) (key : UInt64) (f : FanOut) (p : Nat) :
    (s.offer key f).received p = s.received p ++
      if p = f.number ∧ key ≠ f.originSender ∧ s.receiverAlive = true then [f.serverMsg]
      else [] := by
  have halive : ({ s with offered := s.offered ++ [f.number] } : Session).receiverAlive =
      s.receiverAlive := rfl
  unfold offer send received
  by_cases hkey : key = f.originSender
  · simp [hkey]
  · cases hr : s.receiverAlive with
    | false => simp [hkey, halive, hr]
    | true =>
      by_cases hp : p = f.number
      · simp [hkey, halive, hr, hp]
      · simp [hkey, halive, hr, hp, Ne.symm hp]

/-- What a publication leaves in a session. -/
def Session.feed (s : Session) : UInt64 × List Nat × (Nat → List ServerMessage) :=
  (s.id, s.offered, s.received)

theorem Session.feed_eq_iff {s s' : Session} :
    s'.feed = s.feed ↔ s'.id = s.id ∧ s'.offered = s.offered ∧ s'.received = s.received := by
  simp [feed]

/-- The moves of a session and the Pong replies have no part in broadcasts. -/
theorem Node.feeds_commit {E : Env} {n : Node} {i : Nat} {s s' : Session} {m : Move}
    {effect : Effect} (hs : n.sessions[i]? = some s) (h : Session.Step E s m s' effect) :
    (n.commit i s' effect).sessions.map Session.feed = n.sessions.map Session.feed := by
  have hfeed : s'.feed = s.feed := by cases h <;> rfl
  have hset : (n.sessions.set i s').map Session.feed = n.sessions.map Session.feed := by
    obtain ⟨hi, rfl⟩ := List.getElem?_eq_some_iff.mp hs
    rw [List.map_set, hfeed, ← List.map_set, List.set_getElem_self]
  cases effect with
  | none | insert | remove | publish => exact hset
  | pong =>
    simp only [commit]
    split
    · rw [map_modify_eq, hset]
      intro t
      refine Session.feed_eq_iff.mpr ⟨?_, ?_, funext fun p => t.received_send_none _ p⟩
      · exact (Session.core_eq_iff.mp (t.core_send _ _)).1
      · unfold Session.send
        split <;> rfl
    · exact hset

/-- The session has an entry in the map, in shard `k`. -/
def Node.InShard (E : Env) (n : Node) (k i : Nat) (s : Session) : Prop :=
  n.connections.lookup s.id = some i ∧ (E.shardOf s.id).val = k

/-- **What a visit does**: it offers the message to the sessions that have an entry in the
shard, once each, and leaves the others alone. -/
theorem Node.visit_session {E : Env} {n : Node} (hn : Registry n) (f : FanOut) {i : Nat}
    {s' : Session} (hs' : (n.visit E f).sessions[i]? = some s') :
    ∃ s, n.sessions[i]? = some s ∧
      (n.InShard E f.next i s ∧ s' = s.offer s.id f ∨ ¬ n.InShard E f.next i s ∧ s' = s) := by
  -- an entry is filed under the id of its session
  have hentry : ∀ target ∈ n.shard E f.next, ∃ s : Session, n.sessions[target.2]? = some s ∧
      s.id = target.1 ∧ n.InShard E f.next target.2 s := by
    intro target hmem
    obtain ⟨hmem, hshard⟩ := List.mem_filter.mp hmem
    have hlookup : n.connections.lookup target.1 = some target.2 := AList.mem_lookup_iff.mpr hmem
    obtain ⟨s, hs, hid, -⟩ := hn.entries _ _ hlookup
    exact ⟨s, hs, hid, by rw [InShard, hid]; exact ⟨hlookup, by simpa using hshard⟩⟩
  have hnodup : ((n.shard E f.next).map Sigma.snd).Nodup := by
    refine List.Nodup.map_on ?_ (n.connections.nodupKeys.nodup.filter _)
    intro x hx y hy hxy
    obtain ⟨s, hs, hid, -⟩ := hentry x hx
    obtain ⟨t, ht, htid, -⟩ := hentry y hy
    rw [hxy, ht] at hs
    obtain rfl := Option.some.inj hs
    exact Sigma.ext (hid.symm.trans htid) (heq_of_eq hxy)
  by_cases hmem : ∃ target ∈ n.shard E f.next, target.2 = i
  · obtain ⟨target, hmem, rfl⟩ := hmem
    obtain ⟨s, hs, hid, hin⟩ := hentry target hmem
    have hget := getElem?_foldl_modify_of_mem Sigma.snd (fun target => Session.offer target.1 f)
      hnodup hmem n.sessions
    rw [hs] at hget
    obtain rfl := Option.some.inj (hs'.symm.trans hget)
    exact ⟨s, hs, Or.inl ⟨hin, by rw [hid]⟩⟩
  · have hget := getElem?_foldl_modify_of_ne Sigma.snd (fun target => Session.offer target.1 f)
      (fun target ht he => hmem ⟨target, ht, he⟩) n.sessions
    refine ⟨s', hget.symm.trans hs', Or.inr ⟨fun hin => hmem ?_, rfl⟩⟩
    exact ⟨⟨s'.id, i⟩, List.mem_filter.mpr ⟨AList.mem_lookup_iff.mp hin.1, by simpa using hin.2⟩,
      rfl⟩

/-! ## What is on its way -/

variable {ι : Type}

/-- What a node has taken from Redis and what it has still to take, given everything that
was published. -/
structure Feed (E : Env) (published : List (Publication ι)) (n : Node) : Prop where
  inbox : ∀ d ∈ n.inbox, ∃ pub, published[d.number]? = some pub ∧
    E.toAllocvec (.notification pub.fromUser pub.text) = some d.payload
  fan : ∀ f, n.fanOut = some f → ∃ pub, published[f.number]? = some pub ∧
    f.serverMsg = .notification pub.fromUser pub.text ∧ f.originSender = pub.fromUser
  sorted : (n.inbox.map Delivery.number).Pairwise (· < ·)
  ahead : ∀ f, n.fanOut = some f → ∀ d ∈ n.inbox, f.number < d.number
  past : ∀ (i : Nat) (s : Session), n.sessions[i]? = some s → ∀ p ∈ s.offered,
    p < published.length ∧ (∀ d ∈ n.inbox, p < d.number) ∧
      ∀ f, n.fanOut = some f → p < f.number ∨ p = f.number ∧ (E.shardOf s.id).val < f.next
  silent : ∀ (i : Nat) (s : Session), n.sessions[i]? = some s → ∀ p ∉ s.offered,
    s.received p = []

section
variable {E : Env} {published : List (Publication ι)} {n : Node}

theorem feed_start : Feed E published .start where
  inbox := nofun
  fan := nofun
  sorted := .nil
  ahead := nofun
  past := nofun
  silent := nofun

/-- The feed of a node looks at the sessions' feeds only. -/
theorem Feed.of_feeds {n' : Node} (hn : Feed E published n)
    (hfeeds : n'.sessions.map Session.feed = n.sessions.map Session.feed)
    (hinbox : n'.inbox = n.inbox) (hfan : n'.fanOut = n.fanOut) : Feed E published n' := by
  constructor
  · rw [hinbox]; exact hn.inbox
  · rw [hfan]; exact hn.fan
  · rw [hinbox]; exact hn.sorted
  · rw [hinbox, hfan]; exact hn.ahead
  · intro i s' hs' p hp
    obtain ⟨s, hs, hfeed⟩ := exists_getElem?_of_map_eq hfeeds hs'
    obtain ⟨hid, hoffered, -⟩ := Session.feed_eq_iff.mp hfeed
    rw [hinbox, hfan, hid]
    exact hn.past i s hs p (hoffered ▸ hp)
  · intro i s' hs' p hp
    obtain ⟨s, hs, hfeed⟩ := exists_getElem?_of_map_eq hfeeds hs'
    obtain ⟨-, hoffered, hreceived⟩ := Session.feed_eq_iff.mp hfeed
    rw [hreceived]
    exact hn.silent i s hs p (hoffered ▸ hp)

theorem getElem?_concat_of_some {α : Type} {l : List α} {i : Nat} {a : α} (h : l[i]? = some a)
    (b : α) : (l ++ [b])[i]? = some a := by
  rw [List.getElem?_append_left (List.getElem?_eq_some_iff.mp h).1, h]

/-- A publication the node does not get. -/
theorem Feed.more (hn : Feed E published n) (pub : Publication ι) :
    Feed E (published ++ [pub]) n := by
  constructor
  · intro d hd
    obtain ⟨pub', hpub', hbytes⟩ := hn.inbox d hd
    exact ⟨pub', getElem?_concat_of_some hpub' pub, hbytes⟩
  · intro f hf
    obtain ⟨pub', hpub', hmsg⟩ := hn.fan f hf
    exact ⟨pub', getElem?_concat_of_some hpub' pub, hmsg⟩
  · exact hn.sorted
  · exact hn.ahead
  · intro i s hs p hp
    obtain ⟨hlt, hrest⟩ := hn.past i s hs p hp
    exact ⟨by rw [List.length_append]; exact Nat.lt_add_right _ hlt, hrest⟩
  · exact hn.silent

/-- Redis hands over the next publication. -/
theorem Feed.deliver (hn : Feed E published n) (pub : Publication ι) {payload : List UInt8}
    (hbytes : E.toAllocvec (.notification pub.fromUser pub.text) = some payload) :
    Feed E (published ++ [pub]) (n.deliver ⟨published.length, payload⟩) := by
  unfold Node.deliver
  split
  · have hold := hn.more pub
    have hnumber : ∀ d ∈ n.inbox, d.number < published.length := by
      intro d hd
      obtain ⟨pub', hpub', -⟩ := hn.inbox d hd
      exact (List.getElem?_eq_some_iff.mp hpub').1
    have hmem : ∀ {d}, d ∈ n.inbox ++ [⟨published.length, payload⟩] →
        d ∈ n.inbox ∨ d = ⟨published.length, payload⟩ := by
      intro d hd
      simpa using hd
    constructor
    · intro d hd
      rcases hmem hd with hd | rfl
      · exact hold.inbox d hd
      · exact ⟨pub, by simp, hbytes⟩
    · exact hold.fan
    · show ((n.inbox ++ [_]).map Delivery.number).Pairwise (· < ·)
      rw [List.map_append, List.pairwise_append]
      refine ⟨hn.sorted, List.pairwise_singleton _ _, ?_⟩
      intro a ha b hb
      obtain ⟨d, hd, rfl⟩ := List.mem_map.mp ha
      rw [List.mem_singleton.mp hb]
      exact hnumber d hd
    · intro f hf d hd
      rcases hmem hd with hd | rfl
      · exact hn.ahead f hf d hd
      · obtain ⟨pub', hpub', -⟩ := hn.fan f hf
        exact (List.getElem?_eq_some_iff.mp hpub').1
    · intro i s hs p hp
      obtain ⟨hlt, hinbox, hfan⟩ := hold.past i s hs p hp
      refine ⟨hlt, fun d hd => ?_, hfan⟩
      rcases hmem hd with hd | rfl
      · exact hinbox d hd
      · exact (hn.past i s hs p hp).1
    · exact hold.silent
  · exact hn.more pub

theorem Feed.accept (hn : Feed E published n) (id : UInt64) :
    Feed E published { n with sessionCounter := id, sessions := n.sessions ++ [.start id] } := by
  constructor
  · exact hn.inbox
  · exact hn.fan
  · exact hn.sorted
  · exact hn.ahead
  · intro i s hs p hp
    rcases getElem?_concat_cases hs with hs | ⟨-, rfl⟩
    · exact hn.past i s hs p hp
    · cases hp
  · intro i s hs p hp
    rcases getElem?_concat_cases hs with hs | ⟨-, rfl⟩
    · exact hn.silent i s hs p hp
    · rfl

/-- The node loses its connection, and with it the messages it has not taken. -/
theorem Feed.disconnect (hn : Feed E published n) :
    Feed E published { n with subscribed := false, inbox := [] } := by
  have hempty : ∀ {P : Delivery → Prop}, ∀ d ∈ ([] : List Delivery), P d :=
    fun d hd => absurd hd List.not_mem_nil
  constructor
  · exact hempty
  · exact hn.fan
  · exact .nil
  · exact fun _ _ => hempty
  · intro i s hs p hp
    obtain ⟨hlt, -, hfan⟩ := hn.past i s hs p hp
    exact ⟨hlt, hempty, hfan⟩
  · exact hn.silent

/-- The node takes the next message from its inbox. -/
theorem Feed.take (hcodec : ∀ fromUser text bytes,
      E.toAllocvec (.notification fromUser text) = some bytes →
        E.serverFromBytes bytes = some (.notification fromUser text))
    (hn : Feed E published n) {d : Delivery} {rest : List Delivery}
    (hinbox : n.inbox = d :: rest) : Feed E published (n.take E d rest) := by
  have hd : d ∈ n.inbox := by rw [hinbox]; exact List.mem_cons_self
  have hrest : ∀ d' ∈ rest, d' ∈ n.inbox := by
    intro d' hd'
    rw [hinbox]
    exact List.mem_cons_of_mem _ hd'
  have hsorted := hn.sorted
  rw [hinbox, List.map_cons, List.pairwise_cons] at hsorted
  obtain ⟨pub, hpub, hbytes⟩ := hn.inbox d hd
  have hfan : (n.take E d rest).fanOut =
      some ⟨d.number, .notification pub.fromUser pub.text, pub.fromUser, 0⟩ := by
    simp [Node.take, hcodec _ _ _ hbytes, originSender]
  have hf : ∀ {f}, (n.take E d rest).fanOut = some f → f.number = d.number := by
    intro f hf
    rw [← Option.some.inj (hfan.symm.trans hf)]
  constructor
  · exact fun d' hd' => hn.inbox d' (hrest d' hd')
  · intro f hf
    rw [← Option.some.inj (hfan.symm.trans hf)]
    exact ⟨pub, hpub, rfl, rfl⟩
  · exact hsorted.2
  · intro f h d' hd'
    rw [hf h]
    exact hsorted.1 _ (List.mem_map.mpr ⟨d', hd', rfl⟩)
  · intro i s hs p hp
    obtain ⟨hlt, hall, -⟩ := hn.past i s hs p hp
    refine ⟨hlt, fun d' hd' => hall d' (hrest d' hd'), fun f h => Or.inl ?_⟩
    rw [hf h]
    exact hall d hd
  · exact hn.silent

/-- The node visits a shard. -/
theorem Feed.visit (hreg : Registry n) (hn : Feed E published n) {f : FanOut}
    (hf : n.fanOut = some f) : Feed E published (n.visit E f) := by
  obtain ⟨pub, hpub, hmsg, hsender⟩ := hn.fan f hf
  have hnext : ∀ {f'}, (n.visit E f).fanOut = some f' → f' = { f with next := f.next + 1 } := by
    intro f' hf'
    simp only [Node.visit] at hf'
    split at hf'
    · exact (Option.some.inj hf').symm
    · cases hf'
  -- a publication that had found the session before
  have hpast : ∀ (i : Nat) (s : Session), n.sessions[i]? = some s → ∀ p ∈ s.offered,
      p < published.length ∧ (∀ d ∈ n.inbox, p < d.number) ∧ ∀ f', (n.visit E f).fanOut = some f' →
        p < f'.number ∨ p = f'.number ∧ (E.shardOf s.id).val < f'.next := by
    intro i s hs p hp
    obtain ⟨hlt, hinbox, hfan⟩ := hn.past i s hs p hp
    refine ⟨hlt, hinbox, fun f' hf' => ?_⟩
    rw [hnext hf']
    rcases hfan f hf with h | ⟨h, hshard⟩
    · exact Or.inl h
    · exact Or.inr ⟨h, Nat.lt_succ_of_lt hshard⟩
  constructor
  · exact hn.inbox
  · intro f' hf'
    rw [hnext hf']
    exact ⟨pub, hpub, hmsg, hsender⟩
  · exact hn.sorted
  · intro f' hf' d hd
    rw [hnext hf']
    exact hn.ahead f hf d hd
  · intro i s' hs' p hp
    obtain ⟨s, hs, ⟨hin, rfl⟩ | ⟨-, rfl⟩⟩ := Node.visit_session hreg f hs'
    · rw [(Session.core_eq_iff.mp (s.core_offer _ _)).1]
      rw [Session.offered_offer, List.mem_append, List.mem_singleton] at hp
      rcases hp with hp | rfl
      · exact hpast i s hs p hp
      · refine ⟨(List.getElem?_eq_some_iff.mp hpub).1, hn.ahead f hf, fun f' hf' => ?_⟩
        rw [hnext hf']
        exact Or.inr ⟨rfl, by rw [hin.2]; exact Nat.lt_succ_self _⟩
    · exact hpast i s' hs p hp
  · intro i s' hs' p hp
    obtain ⟨s, hs, ⟨-, rfl⟩ | ⟨-, rfl⟩⟩ := Node.visit_session hreg f hs'
    · rw [Session.offered_offer, List.mem_append, List.mem_singleton, not_or] at hp
      rw [Session.received_offer, hn.silent i s hs p hp.1, if_neg fun h => hp.2 h.1]
      rfl
    · exact hn.silent i s' hs p hp

/-- The session a visit finds has not been found for this publication before. -/
theorem Feed.not_offered (hn : Feed E published n) {f : FanOut} (hf : n.fanOut = some f)
    {i : Nat} {s : Session}
    (hs : n.sessions[i]? = some s) (hin : n.InShard E f.next i s) : f.number ∉ s.offered := by
  intro hmem
  rcases (hn.past i s hs _ hmem).2.2 f hf with h | ⟨-, h⟩
  · exact Nat.lt_irrefl _ h
  · rw [hin.2] at h
    exact Nat.lt_irrefl _ h

end

/-! ## Over a run -/

variable [DecidableEq ι] {E : Env}

/-- **How a publication gets into a session.**  A step changes what a session has of
broadcasts only if it is a visit that finds the session in the shard; or it accepts the
session. -/
theorem cluster_step_feed {c u : Cluster ι} {e : Event ι} (hreg : ∀ b, Registry (c.node b))
    (h : (cluster E).step c e = some u) {b : ι} {i : Nat} {s' : Session}
    (hs' : u.session b i = some s') :
    (c.session b i = none ∧ ∃ id, s' = .start id) ∨
      ∃ s, c.session b i = some s ∧
        ((∃ f, e = .visit b ∧ (c.node b).fanOut = some f ∧ (c.node b).InShard E f.next i s ∧
            s' = s.offer s.id f) ∨
          (∀ f, e = .visit b → (c.node b).fanOut = some f →
            ¬ (c.node b).InShard E f.next i s) ∧ s'.feed = s.feed) := by
  -- the node of the step has the feeds it had, or the step is at another node
  have hnode : ∀ b₀ n, n.sessions.map Session.feed = (c.node b₀).sessions.map Session.feed →
      (∀ b, e ≠ .visit b) → (c.setNode b₀ n).session b i = some s' →
      ∃ s, c.session b i = some s ∧ ((∃ f, e = .visit b ∧ (c.node b).fanOut = some f ∧
          (c.node b).InShard E f.next i s ∧ s' = s.offer s.id f) ∨
        (∀ f, e = .visit b → (c.node b).fanOut = some f →
          ¬ (c.node b).InShard E f.next i s) ∧ s'.feed = s.feed) := by
    intro b₀ n hfeeds hne hs'
    unfold Cluster.session at hs' ⊢
    by_cases hb : b = b₀
    · subst hb
      rw [Cluster.node_setNode] at hs'
      obtain ⟨s, hs, hfeed⟩ := exists_getElem?_of_map_eq hfeeds hs'
      exact ⟨s, hs, Or.inr ⟨fun _ he => absurd he (hne b), hfeed⟩⟩
    · rw [Cluster.node_setNode_of_ne c hb] at hs'
      exact ⟨s', hs', Or.inr ⟨fun _ he => absurd he (hne b), rfl⟩⟩
  rcases cluster_step_cases h with ⟨b₀, id, rfl, hid, rfl⟩ |
    ⟨b₀, i₀, m, s, s₁, effect, rfl, hs, hm, rfl⟩ | ⟨b₀, rfl, rfl⟩ | ⟨b₀, rfl, -, rfl⟩ |
    ⟨b₀, d, rest, rfl, -, -, rfl⟩ | ⟨b₀, f, rfl, hf, rfl⟩
  · rcases cluster_step_core h hs' with ⟨hnone, -, hstart⟩ | ⟨s, hs, -⟩
    · exact Or.inl ⟨hnone, hstart⟩
    · refine Or.inr ⟨s, hs, Or.inr ⟨nofun, ?_⟩⟩
      unfold Cluster.session at hs hs'
      by_cases hb : b = b₀
      · subst hb
        rw [Cluster.node_setNode, List.getElem?_append_left (List.getElem?_eq_some_iff.mp hs).1,
          hs] at hs'
        rw [Option.some.inj hs']
      · rw [Cluster.node_setNode_of_ne c hb, hs] at hs'
        rw [Option.some.inj hs']
  · obtain ⟨inbox, hcommit⟩ := c.node_commit b₀ i₀ s₁ effect b
    refine Or.inr (hnode b₀ _ (Node.feeds_commit hs hm) nofun ?_)
    unfold Cluster.session at hs' ⊢
    rwa [hcommit] at hs'
  · exact Or.inr (hnode b₀ _ (by rfl) nofun hs')
  · exact Or.inr (hnode b₀ _ (by rfl) nofun hs')
  · exact Or.inr (hnode b₀ _ (by rfl) nofun hs')
  · refine Or.inr ?_
    unfold Cluster.session at hs' ⊢
    by_cases hb : b = b₀
    · subst hb
      rw [Cluster.node_setNode] at hs'
      obtain ⟨s, hs, ⟨hin, rfl⟩ | ⟨hnot, rfl⟩⟩ := Node.visit_session (hreg b) f hs'
      · exact ⟨s, hs, Or.inl ⟨f, rfl, hf, hin, rfl⟩⟩
      · refine ⟨s', hs, Or.inr ⟨fun f' _ hf' => ?_, rfl⟩⟩
        rwa [← Option.some.inj (hf.symm.trans hf')]
    · rw [Cluster.node_setNode_of_ne c hb] at hs'
      exact ⟨s', hs', Or.inr ⟨fun _ he => absurd (by cases he; rfl) hb, rfl⟩⟩

/-- The payload a handler is about to publish. -/
theorem publishing_payload {events : List (Event ι)} {c : Cluster ι}
    (hrun : (cluster E).run .start events = some c) {b : ι} {i : Nat} {s : Session}
    (hs : c.session b i = some s) {payload : List UInt8} {text : String}
    (hp : s.handler = .publishing payload text) :
    E.toAllocvec (.notification s.id text) = some payload := by
  have hcore : ∀ s s' : Session, (∀ payload text, s.handler = .publishing payload text →
      E.toAllocvec (.notification s.id text) = some payload) → s'.core = s.core →
      ∀ payload text, s'.handler = .publishing payload text →
        E.toAllocvec (.notification s'.id text) = some payload := by
    intro s s' hs h payload text hp
    obtain ⟨hid, hh, -⟩ := Session.core_eq_iff.mp h
    rw [hid]
    exact hs payload text (hh ▸ hp)
  refine session_invariant (E := E) (P := fun s => ∀ payload text,
    s.handler = .publishing payload text → E.toAllocvec (.notification s.id text) = some payload)
    nofun ?_ (fun s hs m p => hcore s _ hs (s.core_send m p))
    (fun s hs key f => hcore s _ hs (s.core_offer key f)) hrun hs payload text hp
  intro s m s' effect hs h payload text hp
  cases h with
  | broadcast _ hpayload => cases hp; exact hpayload
  | handshakeFailed | register | welcomeSent | welcomeUnencodable | welcomeUnsent | leave | publish
  | removeEntry | abort => cases hp
  | ignored | ping | recv | recvUnencodable | tick | sendDone | sendFailed | closeDone
  | writerRemove | cancelIdle | cancelSending => exact hs payload text hp

theorem Session.Step.publish_inv {s s' : Session} {m : Move} {payload : List UInt8}
    {text : String} (h : Session.Step E s m s' (.publish payload text)) :
    s.handler = .publishing payload text := by
  generalize heffect : Effect.publish payload text = effect at h
  cases h with
  | publish hp =>
    rename_i delivered
    cases delivered with
    | false => cases heffect
    | true => cases heffect; exact hp
  | _ => cases heffect

/-- What is published, and what every node has of it. -/
structure Broadcasts (E : Env) (c : Cluster ι) : Prop where
  feed : ∀ b, Feed E c.published (c.node b)
  origin : ∀ (p : Nat) pub, c.published[p]? = some pub →
    ∃ s, c.session pub.origin.1 pub.origin.2 = some s ∧ s.id = pub.fromUser ∧ s.received p = []

section
variable (hcodec : ∀ fromUser text bytes,
  E.toAllocvec (.notification fromUser text) = some bytes →
    E.serverFromBytes bytes = some (.notification fromUser text))
include hcodec

theorem feed_step {c u : Cluster ι} {e : Event ι} (hreg : ∀ b, Registry (c.node b))
    (hpayload : ∀ b i s payload text, c.session b i = some s →
      s.handler = .publishing payload text → E.toAllocvec (.notification s.id text) = some payload)
    (hc : ∀ b, Feed E c.published (c.node b)) (h : (cluster E).step c e = some u) (b' : ι) :
    Feed E u.published (u.node b') := by
  have hnode : ∀ b n, Feed E c.published n → Feed E c.published ((c.setNode b n).node b') := by
    intro b n hn
    exact c.setNode_cases (fun _ => hn) (fun _ => hc b')
  rcases cluster_step_cases h with ⟨b, id, -, -, rfl⟩ | ⟨b, i, m, s, s', effect, -, hs, hm, rfl⟩ |
    ⟨b, -, rfl⟩ | ⟨b, -, -, rfl⟩ | ⟨b, d, rest, -, -, hinbox, rfl⟩ | ⟨b, f, -, hf, rfl⟩
  · exact hnode b _ ((hc b).accept id)
  · have hcommit : Feed E c.published
        ((c.setNode b ((c.node b).commit i s' effect)).node b') := by
      refine hnode b _ ((hc b).of_feeds (Node.feeds_commit hs hm) ?_ ?_)
      · cases effect <;> simp only [Node.commit]
        split <;> rfl
      · cases effect <;> simp only [Node.commit]
        split <;> rfl
    cases effect with
    | none | insert | remove | pong => exact hcommit
    | publish payload text =>
      have hbytes := hpayload b i s payload text hs hm.publish_inv
      rw [← hm.id_eq] at hbytes
      exact hcommit.deliver ⟨(b, i), s'.id, text⟩ hbytes
  · exact hnode b _ ((hc b).of_feeds rfl rfl rfl)
  · exact hnode b _ (hc b).disconnect
  · exact hnode b _ ((hc b).take hcodec hinbox)
  · exact hnode b _ ((hc b).visit (hreg b) hf)

/-- The originator of a publication gets nothing of it: where it has an entry, the entry
is under the id the publication names. -/
theorem broadcasts_step {c u : Cluster ι} {e : Event ι} (hreg : ∀ b, Registry (c.node b))
    (hpayload : ∀ b i s payload text, c.session b i = some s →
      s.handler = .publishing payload text → E.toAllocvec (.notification s.id text) = some payload)
    (hc : Broadcasts E c) (h : (cluster E).step c e = some u) : Broadcasts E u := by
  refine ⟨feed_step hcodec hreg hpayload hc.feed h, fun p pub hpub => ?_⟩
  -- an old publication
  have hold : c.published[p]? = some pub → ∃ s, u.session pub.origin.1 pub.origin.2 = some s ∧
      s.id = pub.fromUser ∧ s.received p = [] := by
    intro hpub
    obtain ⟨s, hs, hid, hnothing⟩ := hc.origin p pub hpub
    obtain ⟨s', hs'⟩ := session_isSome_step h hs
    refine ⟨s', hs', ?_⟩
    rcases cluster_step_feed hreg h hs' with ⟨hnone, -⟩ | ⟨t, ht, hmoved⟩
    · rw [hs] at hnone; cases hnone
    · obtain rfl := Option.some.inj (hs.symm.trans ht)
      rcases hmoved with ⟨f, -, hf, -, rfl⟩ | ⟨-, hfeed⟩
      · refine ⟨by rw [(Session.core_eq_iff.mp (s.core_offer _ _)).1, hid], ?_⟩
        rw [Session.received_offer, hnothing, if_neg]
        · rfl
        · rintro ⟨rfl, hkey, -⟩
          obtain ⟨pub', hpub', -, hsender⟩ := (hc.feed _).fan f hf
          obtain rfl := Option.some.inj (hpub.symm.trans hpub')
          exact hkey (hid.trans hsender.symm)
      · obtain ⟨hid', -, hreceived⟩ := Session.feed_eq_iff.mp hfeed
        exact ⟨by rw [hid', hid], by rw [hreceived, hnothing]⟩
  rcases cluster_step_cases h with ⟨b, id, -, -, rfl⟩ | ⟨b, i, m, s, s', effect, rfl, hs, hm, rfl⟩ |
    ⟨b, -, rfl⟩ | ⟨b, -, -, rfl⟩ | ⟨b, d, rest, -, -, -, rfl⟩ | ⟨b, f, -, -, rfl⟩
  · exact hold hpub
  · cases effect with
    | none | insert | remove | pong => exact hold hpub
    | publish payload text =>
      have hp : (c.published ++ [(⟨(b, i), s'.id, text⟩ : Publication ι)])[p]? = some pub := hpub
      rcases getElem?_concat_cases hp with hp | ⟨rfl, rfl⟩
      · exact hold hp
      · -- the new publication: nobody can have it yet
        obtain ⟨t, ht⟩ := session_isSome_step h hs
        refine ⟨t, ht, ?_⟩
        rcases cluster_step_feed hreg h ht with ⟨hnone, -⟩ | ⟨s₀, hs₀, ⟨f, he, -⟩ | ⟨-, hfeed⟩⟩
        · rw [hs] at hnone; cases hnone
        · cases he
        · obtain rfl := Option.some.inj (hs.symm.trans hs₀)
          obtain ⟨hid', -, hreceived⟩ := Session.feed_eq_iff.mp hfeed
          refine ⟨by rw [hid', hm.id_eq], ?_⟩
          rw [hreceived]
          exact (hc.feed b).silent i s hs _ fun hmem =>
            absurd ((hc.feed b).past i s hs _ hmem).1 (Nat.lt_irrefl _)
  · exact hold hpub
  · exact hold hpub
  · exact hold hpub
  · exact hold hpub

theorem broadcasts_run {events : List (Event ι)} {c : Cluster ι}
    (hrun : (cluster E).run .start events = some c) : Broadcasts E c :=
  (cluster E).run_induction (I := fun _ c => Broadcasts E c)
    ⟨fun _ => feed_start, fun p pub h => by simp [Cluster.start] at h⟩
    (fun _ _ _ _ hpre hc h => broadcasts_step hcodec (registry_run hpre)
      (fun _ _ _ _ _ hs hp => publishing_payload hpre hs hp) hc h) hrun

end

/-! ## Everybody in the map is found -/

/-- Only taking a message and visiting a shard change the fan-out of a node. -/
theorem fanOut_step {c u : Cluster ι} {e : Event ι} (h : (cluster E).step c e = some u) {b : ι}
    {f : FanOut} (hf : (c.node b).fanOut = some f) :
    (u.node b).fanOut = some f ∨ e = .visit b ∧ (u.node b).fanOut =
      if f.next + 1 < E.shards then some { f with next := f.next + 1 } else none := by
  have hnode : ∀ b₀ n, (b = b₀ → n.fanOut = (c.node b).fanOut) →
      ((c.setNode b₀ n).node b).fanOut = some f := by
    intro b₀ n hn
    exact c.setNode_cases (P := fun n => n.fanOut = some f) (fun hb => (hn hb).trans hf)
      (fun _ => hf)
  rcases cluster_step_cases h with ⟨b₀, id, -, -, rfl⟩ | ⟨b₀, i, m, s, s', effect, -, -, -, rfl⟩ |
    ⟨b₀, -, rfl⟩ | ⟨b₀, -, -, rfl⟩ | ⟨b₀, d, rest, -, hnone, -, rfl⟩ | ⟨b₀, f', rfl, hf', rfl⟩
  · exact Or.inl (hnode b₀ _ fun hb => by rw [hb])
  · obtain ⟨inbox, hcommit⟩ := c.node_commit b₀ i s' effect b
    rw [hcommit]
    refine Or.inl (hnode b₀ _ fun hb => ?_)
    rw [hb]
    cases effect <;> simp only [Node.commit]
    split <;> rfl
  · exact Or.inl (hnode b₀ _ fun hb => by rw [hb])
  · exact Or.inl (hnode b₀ _ fun hb => by rw [hb])
  · by_cases hb : b = b₀
    · rw [hb, hnone] at hf
      cases hf
    · exact Or.inl (by rw [Cluster.node_setNode_of_ne c hb, hf])
  · by_cases hb : b = b₀
    · subst hb
      obtain rfl := Option.some.inj (hf.symm.trans hf')
      exact Or.inr ⟨rfl, by rw [Cluster.node_setNode]; rfl⟩
    · exact Or.inl (by rw [Cluster.node_setNode_of_ne c hb, hf])

/-- **No entry is passed over.**  A session that stays in the map of a node from the
moment the node takes a message until its fan-out is over has been found by it. -/
theorem offered_of_registered {events more : List (Event ι)} {c₀ c : Cluster ι}
    (hrun : (cluster E).run .start events = some c₀) (hmore : (cluster E).run c₀ more = some c)
    {b : ι} {i : Nat} {f₀ : FanOut} (hf₀ : (c₀.node b).fanOut = some f₀) (hnext : f₀.next = 0)
    (hin : ∀ as c', as <+: more → (cluster E).run c₀ as = some c' →
      ∃ s, c'.session b i = some s ∧ (c'.node b).connections.lookup s.id = some i)
    (hover : ∀ f, (c.node b).fanOut = some f → f.number ≠ f₀.number) :
    ∃ s, c.session b i = some s ∧ f₀.number ∈ s.offered := by
  -- found already, or the fan-out has not come to the session's shard
  have hinv : more <+: more → ∃ s, c.session b i = some s ∧ (f₀.number ∈ s.offered ∨
      ∃ f, (c.node b).fanOut = some f ∧ f.number = f₀.number ∧ f.next ≤ (E.shardOf s.id).val) := by
    refine (cluster E).run_induction (I := fun as c' => as <+: more →
      ∃ s, c'.session b i = some s ∧ (f₀.number ∈ s.offered ∨ ∃ f, (c'.node b).fanOut = some f ∧
        f.number = f₀.number ∧ f.next ≤ (E.shardOf s.id).val)) ?_ ?_ hmore
    · intro _
      obtain ⟨s, hs, -⟩ := hin [] c₀ List.nil_prefix rfl
      exact ⟨s, hs, Or.inr ⟨f₀, hf₀, rfl, by rw [hnext]; exact Nat.zero_le _⟩⟩
    · intro as t e u ht ih h hpre
      have hpre' : as <+: more := (List.prefix_append _ _).trans hpre
      obtain ⟨s, hs, hs₀⟩ := ih hpre'
      obtain ⟨s₁, hs₁, hlookup⟩ := hin as t hpre' ht
      obtain rfl := Option.some.inj (hs.symm.trans hs₁)
      have hreach : (cluster E).run .start (events ++ as) = some t := by
        rw [(cluster E).run_append, hrun]
        exact ht
      have hreg := registry_run hreach
      obtain ⟨s', hs'⟩ := session_isSome_step h hs
      refine ⟨s', hs', ?_⟩
      rcases cluster_step_feed hreg h hs' with ⟨hnone, -⟩ | ⟨s₁, hs₁, hmoved⟩
      · rw [hs] at hnone; cases hnone
      obtain rfl := Option.some.inj (hs.symm.trans hs₁)
      rcases hmoved with ⟨f', rfl, hf', hshard, rfl⟩ | ⟨hnot, hfeed⟩
      · rcases hs₀ with hoffered | ⟨f, hf, hnumber, -⟩
        · exact Or.inl (by rw [Session.offered_offer]; exact List.mem_append_left _ hoffered)
        · obtain rfl := Option.some.inj (hf.symm.trans hf')
          exact Or.inl (by rw [Session.offered_offer, ← hnumber]; simp)
      · obtain ⟨hid, hsame, -⟩ := Session.feed_eq_iff.mp hfeed
        rw [hid, hsame]
        rcases hs₀ with hoffered | ⟨f, hf, hnumber, hle⟩
        · exact Or.inl hoffered
        · rcases fanOut_step h hf with hf' | ⟨rfl, hf'⟩
          · exact Or.inr ⟨f, hf', hnumber, hle⟩
          · -- the shard was another one, so the session's shard is still to come
            have hne : (E.shardOf s.id).val ≠ f.next := fun he => hnot f rfl hf ⟨hlookup, he⟩
            have hlt := (E.shardOf s.id).isLt
            rw [if_pos (by omega)] at hf'
            exact Or.inr ⟨_, hf', hnumber, show f.next + 1 ≤ _ by omega⟩
  obtain ⟨s, hs, hoffered | ⟨f, hf, hnumber, -⟩⟩ := hinv (List.prefix_refl _)
  · exact ⟨s, hs, hoffered⟩
  · exact absurd hnumber (hover f hf)


/-! ## Who gets a broadcast -/

/-- Every session that a fan-out has found in the map has exactly one notification of the
publication, with its text; the session that broadcast it has none. -/
def Delivered (c : Cluster ι) : Prop :=
  ∀ b i s p pub, c.session b i = some s → c.published[p]? = some pub →
    ((b, i) = pub.origin → s.received p = []) ∧
    ((b, i) ≠ pub.origin → p ∈ s.offered →
      s.received p = [.notification pub.fromUser pub.text])

/-- In the shard that node `b` visits next, nobody but the originator has the
originator's id, and nobody's channel is closed. -/
def ReachesAll (E : Env) (c : Cluster ι) (b : ι) : Prop :=
  ∀ f pub, (c.node b).fanOut = some f → c.published[f.number]? = some pub →
    ∀ i s, c.session b i = some s → (c.node b).InShard E f.next i s → (b, i) ≠ pub.origin →
      s.id ≠ pub.fromUser ∧ s.receiverAlive = true

theorem published_prefix_step {c u : Cluster ι} {e : Event ι}
    (h : (cluster E).step c e = some u) : c.published <+: u.published := by
  rcases cluster_step_cases h with ⟨b, id, -, -, rfl⟩ | ⟨b, i, m, s, s', effect, -, -, -, rfl⟩ |
    ⟨b, -, rfl⟩ | ⟨b, -, -, rfl⟩ | ⟨b, d, rest, -, -, -, rfl⟩ | ⟨b, f, -, -, rfl⟩
  · exact List.prefix_refl _
  · cases effect with
    | none | insert | remove | pong => exact List.prefix_refl _
    | publish payload text => exact List.prefix_append _ _
  · exact List.prefix_refl _
  · exact List.prefix_refl _
  · exact List.prefix_refl _
  · exact List.prefix_refl _

theorem delivered_step {c u : Cluster ι} {e : Event ι} (hreg : ∀ b, Registry (c.node b))
    (hc : Broadcasts E c) (hu : Broadcasts E u) (h : (cluster E).step c e = some u)
    (hreach : ∀ b, e = .visit b → ReachesAll E c b) (hd : Delivered c) : Delivered u := by
  intro b i s' p pub hs' hpub
  refine ⟨fun horigin => ?_, fun hother hoffered => ?_⟩
  · obtain ⟨t, ht, -, hnothing⟩ := hu.origin p pub hpub
    rw [← horigin] at ht
    rwa [Option.some.inj (hs'.symm.trans ht)]
  · -- a publication that had found a session was there before the step
    have hbefore : ∀ s, c.session b i = some s → p ∈ s.offered → c.published[p]? = some pub := by
      intro s hs hp
      obtain ⟨rest, hrest⟩ := published_prefix_step h
      rw [← hrest, List.getElem?_append_left ((hc.feed b).past i s hs p hp).1] at hpub
      exact hpub
    rcases cluster_step_feed hreg h hs' with ⟨-, id, rfl⟩ | ⟨s, hs, hmoved⟩
    · cases hoffered
    · rcases hmoved with ⟨f, rfl, hf, hin, rfl⟩ | ⟨-, hfeed⟩
      · have hfresh := (hc.feed b).not_offered hf hs hin
        rw [Session.received_offer]
        by_cases hp : p = f.number
        · subst hp
          obtain ⟨pub', hpub', hmsg, hsender⟩ := (hc.feed b).fan f hf
          obtain ⟨rest, hrest⟩ := published_prefix_step h
          rw [← hrest, List.getElem?_append_left (List.getElem?_eq_some_iff.mp hpub').1] at hpub
          obtain rfl := Option.some.inj (hpub.symm.trans hpub')
          obtain ⟨hid, halive⟩ := hreach b rfl f pub hf hpub i s hs hin hother
          rw [(hc.feed b).silent i s hs _ hfresh, if_pos ⟨rfl, by rwa [hsender], halive⟩, hmsg]
          rfl
        · have hmem : p ∈ s.offered := by
            rw [Session.offered_offer, List.mem_append, List.mem_singleton] at hoffered
            exact hoffered.resolve_right hp
          rw [if_neg fun hcond => hp hcond.1, List.append_nil]
          exact (hd b i s p pub hs (hbefore s hs hmem)).2 hother hmem
      · obtain ⟨-, hsame, hreceived⟩ := Session.feed_eq_iff.mp hfeed
        rw [hreceived]
        rw [hsame] at hoffered
        exact (hd b i s p pub hs (hbefore s hs hoffered)).2 hother hoffered

/-- A visit that does not reach everybody leaves somebody without the message. -/
theorem not_delivered_of_visit {c u : Cluster ι} {b : ι} (hreg : ∀ b, Registry (c.node b))
    (hc : Broadcasts E c) (h : (cluster E).step c (.visit b) = some u) (hu : Delivered u) :
    ReachesAll E c b := by
  intro f pub hf hpub i s hs hin hother
  obtain ⟨s', hs'⟩ := session_isSome_step h hs
  obtain ⟨rest, hrest⟩ := published_prefix_step h
  have hpub' : u.published[f.number]? = some pub := by
    rw [← hrest, List.getElem?_append_left (List.getElem?_eq_some_iff.mp hpub).1, hpub]
  obtain ⟨pub', hpub'', -, hsender⟩ := (hc.feed b).fan f hf
  obtain rfl := Option.some.inj (hpub.symm.trans hpub'')
  rcases cluster_step_feed hreg h hs' with ⟨hnone, -⟩ | ⟨t, ht, hmoved⟩
  · rw [hs] at hnone; cases hnone
  · obtain rfl := Option.some.inj (hs.symm.trans ht)
    rcases hmoved with ⟨f', -, hf', -, rfl⟩ | ⟨hnot, -⟩
    · obtain rfl := Option.some.inj (hf.symm.trans hf')
      have hgot := (hu b i _ _ pub hs' hpub').2 hother (by simp)
      rw [Session.received_offer,
        (hc.feed b).silent i s hs _ ((hc.feed b).not_offered hf hs hin)] at hgot
      by_cases hcond : f.number = f.number ∧ s.id ≠ f.originSender ∧ s.receiverAlive = true
      · exact ⟨by rw [← hsender]; exact hcond.2.1, hcond.2.2⟩
      · rw [if_neg hcond] at hgot
        cases hgot
    · exact absurd hin (hnot f rfl hf)

/-- **Who gets a broadcast, over every run.**  Let Postcard decode what it encoded.  In
every state of a run every session that a fan-out found in the map has exactly one
notification of the publication and its originator none, if and only if at every visit of
the run nobody but the originator is in the shard under the originator's id, and nobody is
there whose channel is closed. -/
theorem broadcast_delivered_iff
    (hcodec : ∀ fromUser text bytes, E.toAllocvec (.notification fromUser text) = some bytes →
      E.serverFromBytes bytes = some (.notification fromUser text))
    {events : List (Event ι)} {c : Cluster ι} (hrun : (cluster E).run .start events = some c) :
    (∀ as c', as <+: events → (cluster E).run .start as = some c' → Delivered c') ↔
      ∀ as b c', as ++ [.visit b] <+: events → (cluster E).run .start as = some c' →
        ReachesAll E c' b := by
  constructor
  · intro hall as b c' hpre hrun'
    obtain ⟨u, -, -, hu, -⟩ := (cluster E).run_prefix_split hpre hrun
    obtain ⟨t, ht, hstep⟩ := (cluster E).run_concat.mp hu
    obtain rfl := Option.some.inj (hrun'.symm.trans ht)
    exact not_delivered_of_visit (registry_run hrun') (broadcasts_run hcodec hrun') hstep
      (hall _ u hpre hu)
  · intro hall as c' hpre hrun'
    refine (cluster E).run_induction (I := fun as c => as <+: events → Delivered c)
      (fun _ b i s p pub hs => by simp at hs) ?_ hrun' hpre
    intro as t e u ht ih hstep hpre
    have hu := (cluster E).run_concat.mpr ⟨t, ht, hstep⟩
    refine delivered_step (registry_run ht) (broadcasts_run hcodec ht) (broadcasts_run hcodec hu)
      hstep ?_ (ih ((List.prefix_append _ _).trans hpre))
    rintro b rfl
    exact hall as b t hpre ht

/-! ### Two nodes -/

theorem sampleEnv_codec : ∀ fromUser text bytes,
    sampleEnv.toAllocvec (.notification fromUser text) = some bytes →
      sampleEnv.serverFromBytes bytes = some (.notification fromUser text) := by
  intro fromUser text bytes h
  simp only [sampleEnv] at h ⊢
  split at h
  · rename_i heq; cases heq
  · rename_i heq
    obtain ⟨rfl, rfl⟩ := ServerMessage.notification.inj heq
    obtain rfl := Option.some.inj h
    rfl
  · cases h

/-- A session of each node registers, and the first one broadcasts. -/
def greeting (skipped : List (Event Bool)) (i : Nat) : List (Event Bool) :=
  [.subscribe true, .subscribe false, .accept true, .move true 0 .register,
    .move true 0 (.welcome .sent)] ++ skipped ++ [.accept false, .move false i .register,
    .move true 0 (.frame (.binary [2, 2, 104, 105])), .move true 0 (.publish true), .take false,
    .visit false, .visit false]

/-- Session 1 of one node broadcasts, and session 1 of the other gets nothing. -/
theorem same_id_misses_broadcast :
    ¬ ∀ c, (cluster sampleEnv).run .start (greeting [] 0) = some c → Delivered c := by
  intro h
  obtain ⟨c, s, hrun, hs, hpub, hoffered, hnothing⟩ : ∃ c s,
      (cluster sampleEnv).run .start (greeting [] 0) = some c ∧ c.session false 0 = some s ∧
        c.published[0]? = some ⟨(true, 0), 1, "hi"⟩ ∧ 0 ∈ s.offered ∧ s.received 0 = [] :=
    ⟨_, _, rfl, rfl, rfl, by decide, by decide⟩
  have hgot := (h c hrun false 0 s 0 _ hs hpub).2 (by decide) hoffered
  rw [hnothing] at hgot
  cases hgot

/-- The client of a second session on the other node gets the text. -/
theorem other_id_gets_broadcast :
    ∃ c s, (cluster sampleEnv).run .start
        (greeting [.accept false, .move false 0 .handshakeFailed] 1) = some c ∧
      c.session false 1 = some s ∧ s.offered = [0] ∧ s.received 0 = [.notification 1 "hi"] := by
  obtain ⟨c, s, hrun, hs, hpub, hoffered⟩ : ∃ c s, (cluster sampleEnv).run .start
        (greeting [.accept false, .move false 0 .handshakeFailed] 1) = some c ∧
      c.session false 1 = some s ∧ c.published[0]? = some ⟨(true, 0), 1, "hi"⟩ ∧ s.offered = [0] :=
    ⟨_, _, rfl, rfl, rfl, by decide⟩
  refine ⟨c, s, hrun, hs, hoffered, ?_⟩
  have hreach := (broadcast_delivered_iff sampleEnv_codec hrun).mpr ?_ _ c (List.prefix_refl _) hrun
  · exact (hreach false 1 s 0 _ hs hpub).2 (by decide) (by rw [hoffered]; decide)
  intro as b c' hpre hrun'
  obtain ⟨rest, hrest⟩ := hpre
  have hget : (greeting [.accept false, .move false 0 .handshakeFailed] 1)[as.length]? =
      some (.visit b) := by
    rw [← hrest]; simp
  have has : as = (greeting [.accept false, .move false 0 .handshakeFailed] 1).take as.length := by
    rw [← hrest]; simp
  have hlen : as.length < 14 := (List.getElem?_eq_some_iff.mp hget).1
  -- the two visits of the run
  have hvisits : ∀ b : Bool, ∀ k < 14, (greeting [.accept false, .move false 0 .handshakeFailed]
      1)[k]? = some (.visit b) → b = false ∧ (k = 12 ∨ k = 13) := by decide
  obtain ⟨rfl, hk⟩ := hvisits b as.length hlen hget
  have hstate : ∃ s₀ s₁, (c'.node false).sessions = [s₀, s₁] ∧
      (c'.node false).connections.lookup s₀.id = none ∧ s₁.id = 2 ∧ s₁.receiverAlive = true ∧
      c'.published = [⟨(true, 0), 1, "hi"⟩] := by
    rw [has] at hrun'
    rcases hk with hk | hk <;> rw [hk] at hrun' <;> obtain rfl := Option.some.inj hrun' <;>
      exact ⟨_, _, rfl, rfl, rfl, rfl, rfl⟩
  obtain ⟨s₀, s₁, hsessions, hnone, hid, halive, hpubs⟩ := hstate
  intro f pub _ hpub' i t ht hin _
  have hfrom : pub.fromUser = 1 := by
    rw [hpubs] at hpub'
    have hmem := List.mem_iff_getElem?.mpr ⟨_, hpub'⟩
    rw [List.mem_singleton.mp hmem]
  unfold Cluster.session at ht
  rw [hsessions] at ht
  match i, ht with
  | 0, ht =>
    obtain rfl := Option.some.inj ht
    rw [hin.1] at hnone
    cases hnone
  | 1, ht =>
    obtain rfl := Option.some.inj ht
    rw [hid, hfrom]
    exact ⟨by decide, halive⟩

end RustSamples.Hl
