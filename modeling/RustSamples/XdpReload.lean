import Mathlib.Data.List.Induction
import RustSamples.XdpAgreement

/-! # What the reload loop of `xdp_firewall` leaves in the map

The loop reads the file again every five seconds and inserts a key for every network it
lists.  It takes no key out: a network stays in `BLOCKED_IPS` for as long as the program
runs, whether or not a later file lists it.  So after any number of passes the map holds
the networks of all the files together (`mem_blockedIps`), and these are the networks of
the last file exactly when that file lists everything the earlier ones did.
-/
namespace RustSamples.Xdp
open Lpm RustNet RustStr

/-- A line of the file that is neither blank nor a comment is the network, or is the one
address of it. -/
def ListsNetwork (P : Parsers) (contents : String) (net : IpNet) : Prop :=
  ∃ line ∈ lines contents.toList, trim line ≠ [] ∧ (trim line).head? ≠ some '#' ∧
    ∃ listed : IpNet, listed.Same net ∧
      (P.ipNet (trim line) = some listed ∨
        ∃ addr, P.ipAddr (trim line) = some addr ∧ listed = .ofAddr addr)

/-- The networks that have an entry in the map. -/
def MapHolds (T : EntryTrie) (map : T.State) (net : IpNet) : Prop :=
  T.entry map (netKey net) = true

/-- The keys of two networks have one prefix if and only if the networks are the same. -/
theorem samePrefix_netKey_iff (a b : IpNet) :
    SamePrefix (netKey a) (netKey b) ↔ a.Same b := by
  cases a with
  | v4 a =>
    have hle := a.le
    cases b with
    | v4 b =>
      rw [netKey_v4, netKey_v4, SamePrefix, agreeOn_cons,
        agreeOn_append (by simp; omega) (by simp; omega), IpNet.Same]
      simp only [Nat.add_left_cancel_iff, UInt8.toNat_inj, true_and]
      exact and_congr_right fun hlen => agreeOn_octets_networks (by decide) hlen
    | v6 b =>
      -- the type bytes differ
      rw [netKey_v4, netKey_v6, SamePrefix, agreeOn_cons]
      exact ⟨fun h => absurd h.2.1 (by decide), False.elim⟩
  | v6 a =>
    cases b with
    | v4 b =>
      rw [netKey_v4, netKey_v6, SamePrefix, agreeOn_cons]
      exact ⟨fun h => absurd h.2.1 (by decide), False.elim⟩
    | v6 b =>
      rw [netKey_v6, netKey_v6, SamePrefix, agreeOn_cons, IpNet.Same]
      simp only [Nat.add_left_cancel_iff, UInt8.toNat_inj, true_and]
      exact and_congr_right fun hlen => agreeOn_octets_networks (by decide) hlen

theorem listsNetwork_iff (P : Parsers) (contents : String) (net : IpNet) :
    ListsNetwork P contents net ↔ ∃ listed ∈ P.currentNetworks contents, listed.Same net := by
  simp only [ListsNetwork, Parsers.currentNetworks, List.mem_filterMap, lineNetwork_eq_some_iff]
  constructor
  · rintro ⟨line, hmem, hne, hhash, listed, hsame, hline⟩
    exact ⟨listed, ⟨line, hmem, hne, hhash, hline⟩, hsame⟩
  · rintro ⟨listed, ⟨line, hmem, hne, hhash, hline⟩, hsame⟩
    exact ⟨line, hmem, hne, hhash, listed, hsame, hline⟩

/-- One pass adds the networks of the file it read and takes none away. -/
theorem mapHolds_apply {P : Parsers} (T : EntryTrie) (map : T.State) (iteration : Iteration P)
    (net : IpNet) : MapHolds T (iteration.apply T.toTrie map) net ↔
      (∃ contents ∈ loadedFiles [iteration], ListsNetwork P contents net) ∨
        MapHolds T map net := by
  cases iteration with
  | openFailed => simp [Iteration.apply, loadedFiles]
  | readFailed => simp [Iteration.apply, loadedFiles]
  | loaded load =>
    have hkeys : load.order.foldl (fun map net => T.insert map (netKey net)) map =
        (load.order.map netKey).foldl T.insert map := by rw [List.foldl_map]
    rw [MapHolds, Iteration.apply, hkeys, T.entry_foldl]
    refine or_congr ?_ Iff.rfl
    simp only [loadedFiles, List.filterMap_cons, List.filterMap_nil, List.mem_singleton,
      exists_eq_left, listsNetwork_iff, List.mem_map]
    constructor
    · rintro ⟨key, ⟨listed, hmem, rfl⟩, hsame⟩
      exact ⟨listed, (load.mem_order listed).mp hmem, (samePrefix_netKey_iff listed net).mp hsame⟩
    · rintro ⟨listed, hmem, hsame⟩
      exact ⟨netKey listed, ⟨listed, (load.mem_order listed).mpr hmem, rfl⟩,
        (samePrefix_netKey_iff listed net).mpr hsame⟩

/-- After any passes the map holds the networks of all the files that were read. -/
theorem mem_blockedIps {P : Parsers} (T : EntryTrie) (iterations : List (Iteration P))
    (net : IpNet) : MapHolds T (blockedIps T.toTrie iterations) net ↔
      ∃ contents ∈ loadedFiles iterations, ListsNetwork P contents net := by
  induction iterations using List.reverseRecOn with
  | nil => simp [blockedIps, MapHolds, T.entry_empty, loadedFiles]
  | append_singleton iterations iteration ih =>
    have hfiles : loadedFiles (iterations ++ [iteration]) =
        loadedFiles iterations ++ loadedFiles [iteration] := List.filterMap_append
    have hmap : blockedIps T.toTrie (iterations ++ [iteration]) =
        iteration.apply T.toTrie (blockedIps T.toTrie iterations) := by
      rw [blockedIps, List.foldl_append]; rfl
    rw [hmap, mapHolds_apply, ih, hfiles]
    simp only [List.mem_append, or_and_right, exists_or]
    exact or_comm

/-- **The map accumulates.**  After any passes of the loop the networks in the map are
exactly those that some file read so far lists.  They are those of the last file if and
only if the last file lists every network that an earlier one listed. -/
theorem map_holds_union_of_files {P : Parsers} (T : EntryTrie) (iterations : List (Iteration P))
    (last : Load P) :
    (∀ net, MapHolds T (blockedIps T.toTrie (iterations ++ [.loaded last])) net ↔
      ∃ contents ∈ loadedFiles iterations ++ [last.contents], ListsNetwork P contents net) ∧
    ((∀ net, MapHolds T (blockedIps T.toTrie (iterations ++ [.loaded last])) net ↔
        ListsNetwork P last.contents net) ↔
      ∀ contents ∈ loadedFiles iterations, ∀ net, ListsNetwork P contents net →
        ListsNetwork P last.contents net) := by
  have hfiles : loadedFiles (iterations ++ [.loaded last]) =
      loadedFiles iterations ++ [last.contents] := List.filterMap_append
  have hall : ∀ net, MapHolds T (blockedIps T.toTrie (iterations ++ [.loaded last])) net ↔
      ∃ contents ∈ loadedFiles iterations ++ [last.contents], ListsNetwork P contents net := by
    intro net
    rw [mem_blockedIps, hfiles]
  refine ⟨hall, ?_⟩
  constructor
  · intro h contents hmem net hnet
    exact (h net).mp ((hall net).mpr ⟨contents, List.mem_append_left _ hmem, hnet⟩)
  · intro h net
    rw [hall]
    constructor
    · rintro ⟨contents, hmem, hnet⟩
      rcases List.mem_append.mp hmem with hmem | hmem
      · exact h contents hmem net hnet
      · rwa [← List.mem_singleton.mp hmem]
    · intro hnet
      exact ⟨_, List.mem_append_right _ (List.mem_singleton.mpr rfl), hnet⟩

/-- A file with `10.0.0.0/24`, then an empty one: the network is still in the map. -/
theorem deleted_network_stays :
    ¬ ∀ net, MapHolds listEntryTrie (blockedIps listTrie
        ([.loaded (.inFileOrder ipv4Parsers "10.0.0.0/24")] ++
          [.loaded (.inFileOrder ipv4Parsers "")])) net ↔ ListsNetwork ipv4Parsers "" net := by
  intro h
  have hheld := (h (.v4 ⟨0x0a000000, 24, by decide⟩)).mp (by unfold MapHolds; decide)
  obtain ⟨line, hmem, -⟩ := hheld
  cases hmem

end RustSamples.Xdp
