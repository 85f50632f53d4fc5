import LatticeMesh.Reachable

/-!
# The first boot

The first boot of a production device writes the default peers to flash and loads the registry from
there; a boot that finds no peers in flash takes them from the configuration instead.  The table
holds six bytes a peer, but it is written as if it held whole records.

## Main definitions

* `savePeerListReads` — the bytes that `savePeerList` reads.

## Main results

* `savePeerList_congr` — the other bytes do not matter.
* `Device.firstBoot_iff` — **the two ways agree, and the reads stay in the table, only if the table
  is empty.**
-/

namespace LatticeMesh

open EffectSpec Relation

/-! ### The bytes that are read -/

/-- The bytes that `savePeerList` reads, as addresses relative to the list. -/
def savePeerListReads (isDevMode : Bool) (numPeers : ℕ) : List ℕ :=
  if isDevMode ∨ numPeers > maxPeers then [] else (List.range numPeers).flatMap peerRecordOffsets

theorem mem_savePeerListReads {numPeers k : ℕ} (h : numPeers ≤ maxPeers) :
    k ∈ savePeerListReads false numPeers ↔ k < 38 * numPeers := by
  have hc : ¬(false = true ∨ numPeers > maxPeers) := by simpa using h
  rw [savePeerListReads, if_neg hc]
  simp only [List.mem_flatMap, List.mem_range, peerRecordOffsets, List.mem_map]
  constructor
  · rintro ⟨i, hi, j, hj, rfl⟩
    omega
  · intro hk
    exact ⟨k / 38, by omega, k % 38, by omega, by omega⟩

/-- Bytes that are not read do not matter. -/
theorem savePeerList_congr {w : World} {s : Node} {bytes bytes' : ℕ → UInt8} {numPeers : ℕ}
    (h : ∀ k ∈ savePeerListReads s.eeprom.isDevMode numPeers, bytes k = bytes' k) :
    savePeerList w bytes numPeers s = savePeerList w bytes' numPeers s := by
  show (if s.eeprom.isDevMode ∨ numPeers > maxPeers then pure () else _ : MeshM Unit) s =
    (if s.eeprom.isDevMode ∨ numPeers > maxPeers then pure () else _ : MeshM Unit) s
  by_cases hc : s.eeprom.isDevMode ∨ numPeers > maxPeers
  · rw [if_pos hc, if_pos hc]
  · rw [if_neg hc, if_neg hc]
    rw [savePeerListReads, if_neg hc] at h
    have hrec : ∀ i < numPeers, peerRecordAt bytes i = peerRecordAt bytes' i := by
      intro i hi
      apply List.Vector.eq
      refine List.map_congr_left fun k hk => h k ?_
      exact List.mem_flatMap.2 ⟨i, List.mem_range.2 hi, hk⟩
    have hslots : (fun i : Fin maxPeers =>
        if i.val < numPeers then some (peerRecordAt bytes i) else none) =
        fun i : Fin maxPeers =>
          if i.val < numPeers then some (peerRecordAt bytes' i) else none := by
      funext i
      split
      · rw [hrec i ‹_›]
      · rfl
    rw [hslots]

/-! ### The registry after the first boot -/

/-- Slots without records hold no peers. -/
theorem PeerRegistry.storedPeers_eq_nil {v : Nvs} (h : ∀ j, v.peer.get j = none) :
    storedPeers v = [] := by
  unfold storedPeers
  refine List.filterMap_eq_nil_iff.2 fun r hr => ?_
  obtain ⟨j, rfl⟩ := (List.Vector.mem_iff_get r v.peer).1 hr
  rw [h j]

/-- Blank flash holds no peers. -/
theorem Nvs.hasPeers_blank : Nvs.hasPeers {} = false := by decide

/-- Without default peers the registry of a boot without stored peers is empty. -/
theorem PeerRegistry.loadFromEEPROM_nil {r : PeerRegistry} {c : Config} {v : Nvs}
    (hc : c.defaultPeers = []) (h : ∀ j, v.peer.get j = none) :
    (r.loadFromEEPROM c v).peers = [] := by
  show List.take maxPeers (if storedPeers v = [] then defaultPeers c else storedPeers v) = []
  rw [if_pos (storedPeers_eq_nil h), defaultPeers, hc]
  rfl

namespace Device

variable {b : Board} {e : Env}

/-- **The first boot of a production device loads the registry that a boot without stored peers
would build, from bytes of the table alone, exactly if the table is empty.** -/
theorem firstBoot_iff (hprod : b.config.devMode = false)
    (hn : b.config.defaultPeers.length ≤ maxPeers)
    (hrun : (step b (blank {}) (e, .boot)).status = .running) :
    ((step b (blank {}) (e, .boot)).node.peers.peers =
        (PeerRegistry.loadFromEEPROM {} b.config {}).peers ∧
      ∀ k ∈ savePeerListReads false b.config.defaultPeers.length,
        k < 6 * b.config.defaultPeers.length) ↔
    b.config.defaultPeers = [] := by
  constructor
  · rintro ⟨-, hin⟩
    -- the last byte of the last record lies behind the table
    by_contra hne
    have hpos : 0 < b.config.defaultPeers.length := List.length_pos_iff.2 hne
    have hlast := hin (38 * b.config.defaultPeers.length - 1)
      ((mem_savePeerListReads hn).2 (by omega))
    omega
  · intro hnil
    refine ⟨?_, fun k hk => ?_⟩
    · have hst := stepTo b (blank {}) e .boot
      generalize step b (blank {}) (e, .boot) = d' at hst hrun ⊢
      cases hst with
      | @booted t h =>
        have hboots : bootstraps b.config {} = true := by
          simp [bootstraps, bootsInDevMode, hprod, hnil, Nvs.flag, Nvs.hasPeers_blank]
        have hstored := h.stored
        have hslots : ∀ j, t.nvs.peer.get j = none := by
          intro j
          have hj : (if bootstraps b.config {} then ∀ j, t.nvs.peer.get j =
            b.config.defaultRecords j else _) := hstored
          rw [hboots, if_pos rfl] at hj
          rw [hj j, Config.defaultRecords, hnil, if_neg (by simp)]
        have hblank := PeerRegistry.loadFromEEPROM_nil (r := {}) (v := {}) hnil fun j =>
          List.Vector.get_replicate _ j
        exact (h.peers.trans (PeerRegistry.loadFromEEPROM_nil hnil hslots)).trans hblank.symm
      | bootHalted => cases hrun
      | ignored hi => exact absurd rfl hi
      | ran hi => exact absurd rfl hi
      | halted hi => exact absurd rfl hi
    · rw [mem_savePeerListReads hn, hnil] at hk
      simp at hk

end Device

namespace Sample

/-- A board with the default peers of the project configuration, behind which the linker placed
zeros. -/
def bootstrapBoard : Board :=
  { board with
    config := { config with
      defaultPeers := [Bytes.ofList (n := 6) [0xAA, 0xBB, 0xCC, 0xDD, 0xEE, 1],
        Bytes.ofList (n := 6) [0xAA, 0xBB, 0xCC, 0xDD, 0xEE, 2]]
      afterDefaultPeers := fun _ => 0 } }

end Sample

namespace Device

/-- A first boot without default peers. -/
theorem firstBoot_empty :
    (step Sample.board (blank {}) (Sample.env 1 100, .boot)).node.peers.peers =
        (PeerRegistry.loadFromEEPROM {} Sample.board.config {}).peers ∧
      ∀ k ∈ savePeerListReads false Sample.board.config.defaultPeers.length,
        k < 6 * Sample.board.config.defaultPeers.length :=
  (firstBoot_iff rfl (by decide) (by decide +kernel)).2 rfl

/-- **The default peers of the project configuration**: the first record takes the second address
for the key of the first peer, and the second record lies behind the table altogether. -/
theorem not_firstBoot_defaults :
    let d := step Sample.bootstrapBoard (blank {}) (Sample.env 1 100, .boot)
    let c := Sample.bootstrapBoard.config
    c.devMode = false ∧ c.defaultPeers.length ≤ maxPeers ∧
      (∀ mac ∈ c.defaultPeers, mac ≠ broadcastMac) ∧ d.status = .running ∧
      ¬(d.node.peers.peers = (PeerRegistry.loadFromEEPROM {} c {}).peers ∧
        ∀ k ∈ savePeerListReads false c.defaultPeers.length, k < 6 * c.defaultPeers.length) ∧
      d.node.peers.peers.map PeerInfo.mac ≠
        (PeerRegistry.loadFromEEPROM {} c {}).peers.map PeerInfo.mac := by
  refine ⟨rfl, by decide, by decide, by decide +kernel, fun h => ?_, by decide +kernel⟩
  have hin := h.2 75 (by decide)
  revert hin
  decide

end Device

end LatticeMesh
