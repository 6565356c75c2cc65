import RustSamples.Machine
import RustSamples.XdpDataPlane

/-! # `xdp_router` as it runs

`main` attaches the program to the interface, then writes the routes one by one, and only then
begins to follow the neighbours.  So frames arrive at any time, and meet the routes that are there.

What becomes of a frame is told here from what has happened (`frames_follow_history`).  A frame is
sent on only if its destination is an address of the router itself: the routes are those of its own
interfaces, and no neighbour message adds one.
-/
namespace RustSamples.XdpRouter
open RustNet Xdp Scheduling LastWrite

/-- The routes that `main` writes, in their order. -/
def insertions (interfaces : List NetworkInterface) : List (IpAddr × RouteValue) :=
  interfaces.flatMap fun iface =>
    iface.macAddr.elim [] fun mac =>
      iface.addr.map fun ip => (ip, ⟨parseMac mac, broadcast, iface.index, 0⟩)

/-- `routes_map.insert`. -/
def insertRoute (routes : Routes) (insertion : IpAddr × RouteValue) : Routes :=
  Function.update routes (routeKey insertion.1) (some insertion.2)

/-- The running router: the routes that `main` has yet to write, and the map.  What was written and
which messages came is for the statements only. -/
structure Router where
  toInsert : List (IpAddr × RouteValue)
  routes : Routes
  inserted : List (IpAddr × RouteValue)
  messages : List (Option (List NeighbourAttribute))

inductive RouterAction
  | insert
  /-- a message in `monitor_arp_updates`, which is spawned behind the last route -/
  | message (msg : Option (List NeighbourAttribute))

namespace Router

/-- The program is attached. -/
def attached (interfaces : List NetworkInterface) : Router :=
  ⟨insertions interfaces, fun _ => none, [], []⟩

def step (r : Router) : RouterAction → Option Router
  | .insert =>
      match r.toInsert with
      | [] => none
      | insertion :: toInsert => some { r with
          toInsert
          routes := insertRoute r.routes insertion
          inserted := r.inserted ++ [insertion] }
  | .message msg =>
      if r.toInsert.isEmpty then
        some { r with routes := onMessage r.routes msg, messages := r.messages ++ [msg] }
      else none

end Router

def router : Machine Router RouterAction := ⟨Router.step⟩

/-- The last route that was written for an address. -/
def lastInserted (ip : IpAddr) (inserted : List (IpAddr × RouteValue)) : Option RouteValue :=
  (inserted.filter fun insertion => insertion.1 = ip).getLast?.map (·.2)

/-- **What becomes of a frame to `ip`**: it is passed on as it came if no route was written for
`ip`.  Otherwise it goes to the interface of the last route that was, with the MAC that the
neighbours have left, the MAC of the route, and all behind the first twelve bytes as it was. -/
def IsVerdict (ip : IpAddr) (inserted : List (IpAddr × RouteValue))
    (messages : List (Option (List NeighbourAttribute))) (packet : List UInt8)
    (verdict : Verdict × List UInt8) : Prop :=
  (∀ insertion ∈ inserted, insertion.1 ≠ ip) ∧ verdict = (.pass, packet) ∨
  ∃ route mac, IsLast (fun insertion => insertion.1 = ip) inserted (ip, route) ∧
    DstMac ip messages mac ∧
    verdict = (.redirect route.ifIndex, mac.val ++ route.srcMac.val ++ packet.drop 12)

/-- The map is what the routes and the messages have made of it. -/
structure Followed (interfaces : List NetworkInterface) (r : Router) : Prop where
  order : r.inserted ++ r.toInsert = insertions interfaces
  routes : r.routes = monitorArpUpdates (r.inserted.foldl insertRoute fun _ => none) r.messages
  behind : r.messages ≠ [] → r.toInsert = []

theorem followed_step {interfaces : List NetworkInterface} {r r' : Router} {a : RouterAction}
    (h : Followed interfaces r) (hstep : router.step r a = some r') : Followed interfaces r' := by
  change r.step a = some r' at hstep
  cases a with
  | insert =>
    obtain ⟨toInsert, routes, inserted, messages⟩ := r
    cases toInsert with
    | nil => cases hstep
    | cons insertion toInsert =>
      obtain rfl := Option.some.inj hstep
      have hnone : messages = [] := by
        by_contra hne
        cases h.behind hne
      subst hnone
      refine ⟨?_, ?_, fun hne => absurd rfl hne⟩
      · change inserted ++ [insertion] ++ toInsert = _
        rw [List.append_assoc, List.singleton_append]
        exact h.order
      · have hroutes : routes = inserted.foldl insertRoute fun _ => none := h.routes
        change insertRoute routes insertion = (inserted ++ [insertion]).foldl insertRoute _
        rw [hroutes, List.foldl_append]
        rfl
  | message msg =>
    by_cases hdone : r.toInsert.isEmpty
    · rw [Router.step, if_pos hdone] at hstep
      obtain rfl := Option.some.inj hstep
      refine ⟨h.order, ?_, fun _ => List.isEmpty_iff.1 hdone⟩
      change onMessage r.routes msg = List.foldl onMessage _ (r.messages ++ [msg])
      rw [h.routes, List.foldl_append]
      rfl
    · rw [Router.step, if_neg hdone] at hstep
      cases hstep

theorem followed_run {interfaces : List NetworkInterface} {actions : List RouterAction}
    {r : Router} (h : router.run (.attached interfaces) actions = some r) :
    Followed interfaces r :=
  router.run_invariant (fun _ _ _ hr hs => followed_step hr hs)
    ⟨rfl, rfl, fun hne => absurd rfl hne⟩ h

/-- The last route that was written for a key. -/
theorem inserted_apply (inserted : List (IpAddr × RouteValue)) (key : RouteKey) :
    inserted.foldl insertRoute (fun _ => none) key =
      (inserted.filter fun insertion => routeKey insertion.1 = key).getLast?.map (·.2) := by
  refine (LastWrite.foldl_update_apply (fun insertion : IpAddr × RouteValue =>
    routeKey insertion.1) (fun insertion => some insertion.2) inserted (fun _ => none) key).trans ?_
  cases (inserted.filter fun insertion => decide (routeKey insertion.1 = key)).getLast? <;> rfl

theorem inserted_routeKey (inserted : List (IpAddr × RouteValue)) (ip : IpAddr) :
    inserted.foldl insertRoute (fun _ => none) (routeKey ip) = lastInserted ip inserted := by
  have hkey : (fun insertion : IpAddr × RouteValue =>
      decide (routeKey insertion.1 = routeKey ip)) = fun insertion => decide (insertion.1 = ip) :=
    funext fun insertion => decide_eq_decide.2
      ⟨fun heq => routeKey_injective heq, congrArg routeKey⟩
  rw [inserted_apply, hkey, lastInserted]

theorem keyOf_zero (ip : IpAddr) : keyOf ip 0 = routeKey ip := by
  cases ip <;> rfl

/-- The route of an address, and what the neighbours have made of it. -/
theorem Followed.route {interfaces : List NetworkInterface} {r : Router}
    (h : Followed interfaces r) (ip : IpAddr) :
    r.routes (routeKey ip) = (lastInserted ip r.inserted).map fun route =>
      { route with dstMac := (lastNeighbour ip r.messages).getD route.dstMac } := by
  rw [h.routes, monitorArpUpdates_routeKey, inserted_routeKey]

/-- A VLAN has no route. -/
theorem Followed.no_vlan {interfaces : List NetworkInterface} {r : Router}
    (h : Followed interfaces r) (ip : IpAddr) {vlan : UInt16} (hvlan : vlan ≠ 0) :
    r.routes (keyOf ip vlan) = none := by
  have hkey : ∀ ip', keyOf ip vlan ≠ routeKey ip' := by
    intro ip' heq
    have hzero := congrArg RouteKey.vlanId heq
    cases ip' <;> exact hvlan hzero
  have hnil : (r.inserted.filter fun insertion => routeKey insertion.1 = keyOf ip vlan) = [] :=
    List.filter_eq_nil_iff.2 fun insertion _ heq => hkey insertion.1 (of_decide_eq_true heq).symm
  rw [h.routes, monitorArpUpdates_other _ _ hkey, inserted_apply, hnil]
  rfl

theorem lastInserted_eq_some_iff {ip : IpAddr} {inserted : List (IpAddr × RouteValue)}
    {route : RouteValue} : lastInserted ip inserted = some route ↔
      IsLast (fun insertion => insertion.1 = ip) inserted (ip, route) := by
  rw [lastInserted, Option.map_eq_some_iff]
  constructor
  · rintro ⟨⟨ip', route'⟩, hlast, rfl⟩
    have hisLast := getLast?_filter_eq_some_iff.1 hlast
    obtain rfl : ip' = ip := hisLast.1
    exact hisLast
  · exact fun h => ⟨_, getLast?_filter_eq_some_iff.2 h, rfl⟩

theorem lastInserted_eq_none_iff {ip : IpAddr} {inserted : List (IpAddr × RouteValue)} :
    lastInserted ip inserted = none ↔ ∀ insertion ∈ inserted, insertion.1 ≠ ip := by
  simp [lastInserted]

/-- A written route is one of `main`'s: the broadcast address until a neighbour is known, and the
MAC of an interface as it is read. -/
theorem route_of_lastInserted {interfaces : List NetworkInterface} {r : Router}
    (h : Followed interfaces r) {ip : IpAddr} {route : RouteValue}
    (hroute : lastInserted ip r.inserted = some route) :
    route.dstMac = broadcast ∧ ∃ iface ∈ interfaces, ∃ text, iface.macAddr = some text ∧
      ip ∈ iface.addr ∧ iface.index = route.ifIndex ∧ route.srcMac = parseMac text := by
  have hmem := (lastInserted_eq_some_iff.1 hroute).mem
  have hall : (ip, route) ∈ insertions interfaces := h.order ▸ List.mem_append_left _ hmem
  obtain ⟨iface, hiface, hin⟩ := List.mem_flatMap.1 hall
  cases hmac : iface.macAddr with
  | none =>
    rw [hmac] at hin
    cases hin
  | some text =>
    rw [hmac, Option.elim_some] at hin
    obtain ⟨ip', hip', heq⟩ := List.mem_map.1 hin
    obtain ⟨rfl, rfl⟩ := Prod.mk.inj heq
    exact ⟨rfl, iface, hiface, text, hmac, hip', rfl, rfl⟩

/-- What becomes of a frame outside of VLANs. -/
theorem Followed.carried (e : Endian) {interfaces : List NetworkInterface} {r : Router}
    (h : Followed interfaces r) {packet : List UInt8} {ip : IpAddr}
    (hcarries : Carries packet ip 0) :
    xdpRouter e r.routes packet =
      some ((lastInserted ip r.inserted).elim (.pass, packet) fun route =>
        (.redirect route.ifIndex, ((lastNeighbour ip r.messages).getD broadcast).val ++
          route.srcMac.val ++ packet.drop 12)) := by
  obtain ⟨found, hr, hkey⟩ := finds_lookupKey e hcarries.le_length
  obtain rfl := (hkey _).2 ⟨ip, 0, hcarries, rfl⟩
  have hroute := h.route ip
  rw [← keyOf_zero] at hroute
  cases hlast : lastInserted ip r.inserted with
  | none =>
    rw [hlast] at hroute
    refine xdpRouter_of_no_route e hcarries.le_length hr fun key hsome => ?_
    rw [← Option.some.inj (Except.ok.inj hsome)]
    exact hroute
  | some route =>
    rw [hlast] at hroute
    rw [xdpRouter_of_route e hcarries.le_length hr hroute, Option.elim_some]
    simp only [(route_of_lastInserted h hlast).1]

theorem Followed.not_carried (e : Endian) {interfaces : List NetworkInterface} {r : Router}
    (h : Followed interfaces r) {packet : List UInt8} (hnone : ∀ ip, ¬ Carries packet ip 0) :
    xdpRouter e r.routes packet = some (.pass, packet) := by
  refine xdpRouter_of_unrouted e fun ip vlan hcarries => h.no_vlan ip ?_
  rintro rfl
  exact hnone ip hcarries

/-- **A frame is treated by what has happened until it came.**  In every run, at every moment, a
frame to `ip` outside of VLANs goes to the interface of the last route that was written for `ip`,
with the MAC that the latest neighbour message about `ip` tells, or the broadcast address; without a
route, and if it carries no such destination, it is passed on unchanged.  What is redirected has as
its destination an address of one of the router's own interfaces, goes there, and has the MAC of
that interface as its source. -/
theorem frames_follow_history (e : Endian) {interfaces : List NetworkInterface}
    {actions : List RouterAction} {r : Router}
    (h : router.run (.attached interfaces) actions = some r) (packet : List UInt8) :
    (∀ ip, Carries packet ip 0 → ∀ verdict, xdpRouter e r.routes packet = some verdict ↔
      IsVerdict ip r.inserted r.messages packet verdict) ∧
    ((∀ ip, ¬ Carries packet ip 0) → xdpRouter e r.routes packet = some (.pass, packet)) ∧
    (r.inserted <+: insertions interfaces ∧
      (r.messages ≠ [] → r.inserted = insertions interfaces)) ∧
    ∀ i out, xdpRouter e r.routes packet = some (.redirect i, out) →
      ∃ iface ∈ interfaces, iface.index = i ∧ (∃ ip ∈ iface.addr, Carries packet ip 0) ∧
        ∃ text, iface.macAddr = some text ∧
          ∀ mac, text = macText mac → (out.drop 6).take 6 = mac.val := by
  have hf := followed_run h
  refine ⟨fun ip hcarries verdict => ?_, hf.not_carried e, ⟨⟨r.toInsert, hf.order⟩, fun hne => ?_⟩,
    fun i out hout => ?_⟩
  · rw [hf.carried e hcarries, IsVerdict, ← lastInserted_eq_none_iff, Option.some_inj, eq_comm]
    simp only [← lastInserted_eq_some_iff, ← lastNeighbour_eq_iff]
    cases lastInserted ip r.inserted <;> simp
  · have horder := hf.order
    rwa [hf.behind hne, List.append_nil] at horder
  · by_cases hcarries : ∃ ip, Carries packet ip 0
    · obtain ⟨ip, hcarries⟩ := hcarries
      rw [hf.carried e hcarries] at hout
      cases hlast : lastInserted ip r.inserted with
      | none =>
        rw [hlast] at hout
        cases hout
      | some route =>
        rw [hlast, Option.elim_some] at hout
        obtain ⟨-, iface, hiface, text, hmac, hip, hindex, hsrc⟩ := route_of_lastInserted hf hlast
        obtain ⟨hredirect, rfl⟩ := Prod.mk.inj (Option.some.inj hout)
        refine ⟨iface, hiface, hindex.trans (Verdict.redirect.inj hredirect), ⟨ip, hip, hcarries⟩,
          text, hmac, fun mac htext => ?_⟩
        have hdst := ((lastNeighbour ip r.messages).getD broadcast).property
        rw [List.append_assoc, List.drop_left' hdst, List.take_left' route.srcMac.property, hsrc,
          htext, parseMac_macText]
    · rw [hf.not_carried e fun ip hip => hcarries ⟨ip, hip⟩] at hout
      cases hout

/-- An IPv4 frame to 10.0.0.2. -/
def frameTo2 : List UInt8 := List.replicate 12 9 ++ [8, 0] ++ List.replicate 16 5 ++ [10, 0, 0, 2]

/-- A frame before the neighbour is known, and one behind its message. -/
theorem frame_to_known_neighbour :
    (∃ r : Router, router.run (.attached oneInterface) [.insert] = some r ∧
      xdpRouter .little r.routes frameTo2 = some (.redirect 7,
        [0xff, 0xff, 0xff, 0xff, 0xff, 0xff] ++ [1, 1, 1, 1, 1, 1] ++ frameTo2.drop 12)) ∧
    ∃ r : Router, router.run (.attached oneInterface) [.insert, .message (some tellsMac)] = some r ∧
      xdpRouter .little r.routes frameTo2 = some (.redirect 7,
        [2, 0, 0, 0, 0, 9] ++ [1, 1, 1, 1, 1, 1] ++ frameTo2.drop 12) := by
  have hcarries : Carries frameTo2 (.v4 0x0A000002#32) 0 :=
    Or.inl ⟨⟨by decide, by decide⟩, rfl⟩
  refine ⟨⟨_, rfl, ?_⟩, ⟨_, rfl, ?_⟩⟩
  · refine ((frames_follow_history .little
      (rfl : router.run (.attached oneInterface) [.insert] = some _) frameTo2).1 _ hcarries _).2
      (Or.inr ⟨⟨parseMac "01:01:01:01:01:01".toList, broadcast, 7, 0⟩, broadcast, ?_, ?_, rfl⟩)
    · exact ⟨rfl, [], [], rfl, List.forall_mem_nil _⟩
    · exact Or.inr ⟨fun _ hmem => absurd hmem List.not_mem_nil, rfl⟩
  · refine ((frames_follow_history .little (rfl : router.run (.attached oneInterface)
      [.insert, .message (some tellsMac)] = some _) frameTo2).1 _ hcarries _).2
      (Or.inr ⟨⟨parseMac "01:01:01:01:01:01".toList, broadcast, 7, 0⟩,
        ⟨[2, 0, 0, 0, 0, 9], rfl⟩, ?_, ?_, rfl⟩)
    · exact ⟨rfl, [], [], rfl, List.forall_mem_nil _⟩
    · exact Or.inl ⟨tellsMac, tells_tellsMac, ⟨_, _, rfl, tells_tellsMac⟩, [], [], rfl,
        List.forall_mem_nil _⟩

end RustSamples.XdpRouter
