import LatticeMesh.BootEffects
import LatticeMesh.JoinAckCrash
import LatticeMesh.Lib.Crc

/-!
# The stored keypair

The device keypair is stored in three writes: the private key, the public key, and a checksum over
both.  A keypair whose checksum does not match is not loaded, so a corrupted one is noticed, and so
is one whose writes were cut short before there was any checksum.

## Main definitions

* `bitsOf` — the bits of a byte string in the order in which the checksum takes them.

## Main results

* `toBitVec_crc16` — the checksum is a cyclic redundancy check.
* `loadKeypair_burst` — **a burst of up to sixteen corrupted bits is noticed.**
* `wp_saveKeypair_through` — a save that is cut short stores the new keypair or none.
* `keypair_integrity` — **what is loaded is what was saved, or nothing.**
-/

namespace LatticeMesh

open EffectSpec

variable {w : World} {s t : Node} {priv pub : Key}

/-! ### The checksum -/

/-- The bits of a byte, the top one first. -/
def bitsOfByte (b : UInt8) : List Bool := (List.range 8).map b.toBitVec.getMsbD

/-- The bits of a byte string, in the order in which the checksum takes them. -/
def bitsOf (bs : List UInt8) : List Bool := bs.flatMap bitsOfByte

/-- One step of the checksum register is a shift. -/
theorem toBitVec_crc16Bit (c : UInt16) :
    (crc16Bit c).toBitVec = Crc.shift 0x1021#16 c.toBitVec := by
  have hand : (c &&& 0x8000).toBitVec =
      if c.toBitVec.getLsbD 15 then BitVec.twoPow 16 15 else 0#16 :=
    (UInt16.toBitVec_and c 0x8000).trans (BitVec.and_twoPow c.toBitVec 15)
  have htop : c &&& 0x8000 ≠ 0 ↔ c.toBitVec.msb = true := by
    rw [BitVec.msb_eq_getLsbD_last, ne_eq, ← UInt16.toBitVec_inj, hand]
    cases c.toBitVec.getLsbD (16 - 1) <;> decide
  unfold crc16Bit Crc.shift
  by_cases h : c &&& 0x8000 ≠ 0
  · rw [if_pos h, if_pos (htop.mp h)]
    rfl
  · rw [if_neg h, if_neg fun hm => h (htop.mpr hm)]
    rfl

/-- A byte at the top of the register. -/
theorem toBitVec_shiftLeft_eight : ∀ b : Fin 256,
    ((UInt8.ofNat b).toUInt16 <<< (8 : UInt16)).toBitVec
      = (Crc.pack (bitsOfByte (UInt8.ofNat b)) : BitVec 16) := by
  decide +kernel

/-- A byte that is added at the top and shifted through is fed bit by bit. -/
theorem toBitVec_crc16Byte (c : UInt16) (b : UInt8) :
    ((List.range 8).foldl (fun c _ => crc16Bit c) (c ^^^ b.toUInt16 <<< (8 : UInt16))).toBitVec
      = Crc.run 0x1021#16 c.toBitVec (bitsOfByte b) := by
  have hbyte := toBitVec_shiftLeft_eight ⟨b.toNat, b.toNat_lt⟩
  rw [UInt8.ofNat_toNat] at hbyte
  have hrun : ∀ (n : ℕ) (c : UInt16),
      ((List.range n).foldl (fun c _ => crc16Bit c) c).toBitVec
        = (Crc.shift 0x1021#16)^[n] c.toBitVec := by
    intro n
    induction n with
    | zero => exact fun c => rfl
    | succ n ih =>
      intro c
      rw [List.range_succ, List.foldl_append, Function.iterate_succ_apply', ← ih]
      exact toBitVec_crc16Bit _
  have hlen : (bitsOfByte b).length = 8 := by rw [bitsOfByte, List.length_map, List.length_range]
  rw [hrun, UInt16.toBitVec_xor, hbyte, Crc.run_eq_iterate _ (by rw [hlen]; decide), hlen]

/-- **The checksum is a cyclic redundancy check** with the polynomial `x^16 + x^12 + x^5 + 1`. -/
theorem toBitVec_crc16 (bs : List UInt8) :
    (crc16 bs).toBitVec = Crc.run 0x1021#16 0xFFFF#16 (bitsOf bs) := by
  have hfold : ∀ (bs : List UInt8) (c : UInt16),
      (bs.foldl (fun (crc : UInt16) b =>
        (List.range 8).foldl (fun c _ => crc16Bit c)
          (crc ^^^ b.toUInt16 <<< (8 : UInt16))) c).toBitVec
          = Crc.run 0x1021#16 c.toBitVec (bitsOf bs) := by
    intro bs
    induction bs with
    | nil => exact fun c => rfl
    | cons b bs ih =>
      intro c
      rw [List.foldl_cons, ih, toBitVec_crc16Byte, ← Crc.run_append]
      rfl
  exact hfold bs 0xFFFF

/-- **A burst of up to sixteen bits changes the checksum.** -/
theorem crc16_ne_of_burst {bs bs' : List UInt8} (h : Crc.Burst 16 (bitsOf bs) (bitsOf bs')) :
    crc16 bs ≠ crc16 bs' := by
  intro heq
  have hpoly : (0x1021#16).getLsbD 0 = true := by decide
  refine Crc.run_ne_of_burst hpoly h 0xFFFF#16 ?_
  rw [← toBitVec_crc16, ← toBitVec_crc16, heq]

/-! ### Corrupted keypairs -/

/-- A keypair that is loaded is stored under its checksum. -/
theorem loadKeypair_eq_some {v : Nvs} (h : v.loadKeypair = some (priv, pub)) :
    v.keypairCrc.getD 0xFFFFFFFF ≠ 0xFFFFFFFF ∧
      (v.keypairCrc.getD 0xFFFFFFFF).toUInt16 = crcOfKeypair priv pub := by
  unfold Nvs.loadKeypair at h
  split at h
  · simp only [Option.ite_none_left_eq_some, not_not] at h
    obtain ⟨hset, hcrc, hkeys⟩ := h
    cases hkeys
    exact ⟨hset, hcrc⟩
  · cases h

/-- A burst in a stored keypair is noticed. -/
theorem loadKeypair_burst {v : Nvs} (h : v.loadKeypair = some (priv, pub)) {priv' pub' : Key}
    (hb : Crc.Burst 16 (bitsOf (priv.toList ++ pub.toList))
      (bitsOf (priv'.toList ++ pub'.toList))) :
    Nvs.loadKeypair { v with privateKey := some priv', publicKey := some pub' } = none := by
  obtain ⟨-, hcrc⟩ := loadKeypair_eq_some h
  have hne : (v.keypairCrc.getD 0xFFFFFFFF).toUInt16 ≠ crcOfKeypair priv' pub' := by
    rw [hcrc]
    exact crc16_ne_of_burst hb
  show (if v.keypairCrc.getD 0xFFFFFFFF = 0xFFFFFFFF then none else
    if (v.keypairCrc.getD 0xFFFFFFFF).toUInt16 ≠ crcOfKeypair priv' pub' then none else _) = none
  rw [if_pos hne, ite_self]

/-! ### Saves that are cut short -/

/-- While a keypair is saved, there is no checksum yet, or all of it is stored. -/
def SavesKeypair (priv pub : Key) (v : Nvs) : Prop :=
  v.keypairCrc = none ∨ v.loadKeypair = some (priv, pub)

theorem loadKeypair_of_unset {v : Nvs} (h : v.keypairCrc = none) : v.loadKeypair = none := by
  unfold Nvs.loadKeypair
  rw [h]
  split <;> rfl

/-- A fault is not a write. -/
theorem isWrite_of_isFault {e : Event} (h : e.isFault = true) : e.isWrite = false := by
  cases e <;> first | rfl | exact nomatch h

/-- A program that is abandoned leaves the flash as it is. -/
theorem Aborted.through {P : Nvs → Prop} (h : Aborted s t) (hs : P s.nvs) :
    Through (fun _ => True) P s t := by
  obtain ⟨es, htrace, hes⟩ := h.trace
  have hno : ∀ e ∈ es, e.isWrite = false := fun e he => isWrite_of_isFault (hes e he)
  refine ⟨es, htrace, ?_, fun _ _ => trivial, fun us hus => ?_⟩
  · rw [h.nvs, flashAfter_of_no_write hno]
  · rwa [flashAfter_of_no_write fun e he => hno e (hus.subset he)]

/-- A security-relevant write, at every loss of power along it. -/
theorem wp_nvsSave_through {op : NvsOp} {P : Nvs → Prop} (hs : P s.nvs)
    (hp : s.eeprom.isDevMode = false → P (op.apply s.nvs)) :
    wp (nvsSave w op true) (fun _ t => t = s.saved op ∧ Through (fun _ => True) P s t)
      (fun _ t => w.nvsOk op = false ∧ Through (fun _ => True) P s t) s := by
  refine wp_nvsSave ⟨rfl, ?_⟩ fun hno u hu => ⟨hno, ?_⟩
  · by_cases hd : s.eeprom.isDevMode = true
    · rw [Node.saved_of_dev hd]
      exact .refl hs
    · rw [Node.saved_of_not_dev hd]
      exact .one rfl rfl trivial hs (hp (Bool.eq_false_of_not_eq_true hd))
  · exact hu.through hs

/-- Dev mode stays what it is along a write. -/
theorem Node.saved_isDevMode (s : Node) (op : NvsOp) :
    (s.saved op).eeprom.isDevMode = s.eeprom.isDevMode := by
  unfold Node.saved
  split <;> rfl

theorem Node.saved_nvs (hd : s.eeprom.isDevMode = false) (op : NvsOp) :
    (s.saved op).nvs = op.apply s.nvs := by
  unfold Node.saved
  rw [if_neg (by rw [hd]; decide)]
  rfl

/-- Outside dev mode a keypair that was saved is loaded.  The save halts only when a write fails. -/
theorem wp_saveKeypair_loads (hd : s.eeprom.isDevMode = false) :
    wp (saveKeypair w priv pub) (fun _ t => t.nvs.loadKeypair = some (priv, pub))
      (fun _ _ => ∃ op, w.nvsOk op = false) s := by
  unfold saveKeypair
  rw [wp_bind]
  refine wp_nvsSave ?_ fun hno _ _ => ⟨_, hno⟩
  rw [wp_bind]
  refine wp_nvsSave ?_ fun hno _ _ => ⟨_, hno⟩
  refine wp_nvsSave ?_ fun hno _ _ => ⟨_, hno⟩
  simp only [Node.saved_nvs, Node.saved_isDevMode, hd]
  exact loadKeypair_saved

/-- **A save that is cut short stores the new keypair or none.** -/
theorem wp_saveKeypair_through (hcrc : s.nvs.keypairCrc = none) :
    wp (saveKeypair w priv pub) (fun _ t => Through (fun _ => True) (SavesKeypair priv pub) s t)
      (fun _ t => Through (fun _ => True) (SavesKeypair priv pub) s t) s := by
  -- A write before the last one leaves the checksum unset, and stores its key outside dev mode.
  have hcrc1 : (s.saved (.privateKey priv)).nvs.keypairCrc = none := by
    unfold Node.saved
    split <;> exact hcrc
  have hcrc2 : ((s.saved (.privateKey priv)).saved (.publicKey pub)).nvs.keypairCrc = none := by
    rw [Node.saved]
    split <;> exact hcrc1
  unfold saveKeypair
  rw [wp_bind]
  refine wp_mono _ ?_ (fun _ _ h => h.2) (wp_nvsSave_through (.inl hcrc) fun _ => .inl hcrc)
  rintro _ _ ⟨rfl, h1⟩
  rw [wp_bind]
  refine wp_mono _ ?_ (fun _ _ h => h1.trans h.2)
    (wp_nvsSave_through (.inl hcrc1) fun _ => .inl hcrc1)
  rintro _ _ ⟨rfl, h2⟩
  refine wp_mono _ (fun _ _ h => (h1.trans h2).trans h.2) (fun _ _ h => (h1.trans h2).trans h.2)
    (wp_nvsSave_through (.inl hcrc2) fun hd => .inr ?_)
  rw [Node.saved_isDevMode, Node.saved_isDevMode] at hd
  simp only [Node.saved_nvs, Node.saved_isDevMode, hd]
  exact loadKeypair_saved

/-- After a loss of power at any point of a save, the new keypair is loaded or none. -/
theorem loadKeypair_crashFlash (hcrc : s.nvs.keypairCrc = none) (k : ℕ) :
    (crashFlash (saveKeypair w priv pub) s k).loadKeypair = none ∨
      (crashFlash (saveKeypair w priv pub) s k).loadKeypair = some (priv, pub) := by
  have hthrough : Through (fun _ => True) (SavesKeypair priv pub) s
      (Calls.final (saveKeypair w priv pub s)) :=
    Calls.wp_final (wp_saveKeypair_through hcrc)
  obtain ⟨es, htrace, -, -, hall⟩ := hthrough
  exact (hall _ (crashEvents_suffix k htrace)).imp_left loadKeypair_of_unset

/-! ### The stored keypair as a whole -/

/-- **Keypair integrity.**  Outside dev mode, which stores no keypair, a keypair that was saved is
loaded again; a burst of up to sixteen corrupted bits is noticed; and a loss of power while the
first keypair is saved leaves that keypair, or none. -/
theorem keypair_integrity :
    (∀ (w : World) (s : Node) (priv pub : Key), s.eeprom.isDevMode = false →
      wp (saveKeypair w priv pub) (fun _ t => t.nvs.loadKeypair = some (priv, pub))
        (fun _ _ => ∃ op, w.nvsOk op = false) s) ∧
    (∀ (v : Nvs) (priv pub priv' pub' : Key), v.loadKeypair = some (priv, pub) →
      Crc.Burst 16 (bitsOf (priv.toList ++ pub.toList)) (bitsOf (priv'.toList ++ pub'.toList)) →
        Nvs.loadKeypair { v with privateKey := some priv', publicKey := some pub' } = none) ∧
    ∀ (w : World) (s : Node) (priv pub : Key) (k : ℕ), s.nvs.keypairCrc = none →
      (crashFlash (saveKeypair w priv pub) s k).loadKeypair = none ∨
        (crashFlash (saveKeypair w priv pub) s k).loadKeypair = some (priv, pub) :=
  ⟨fun _ _ _ _ => wp_saveKeypair_loads, fun _ _ _ _ _ h hb => loadKeypair_burst h hb,
    fun _ _ _ _ k hcrc => loadKeypair_crashFlash hcrc k⟩

/-- A board in dev mode, fresh from the factory. -/
def Sample.devModeNode : Node :=
  { (Device.blank {}).node with deviceMac := Sample.mac 1, eeprom := { isDevMode := true } }

/-- In dev mode a save returns and stores nothing. -/
theorem not_keypair_loads_devMode :
    ¬ ∀ (w : World) (s : Node) (priv pub : Key),
      wp (saveKeypair w priv pub) (fun _ t => t.nvs.loadKeypair = some (priv, pub))
        (fun _ _ => ∃ op, w.nvsOk op = false) s := by
  intro h
  have hload : Sample.devModeNode.nvs.loadKeypair = some (Sample.key 1, Sample.key 2) :=
    h (Sample.board.world (Sample.env 1 100)) Sample.devModeNode (Sample.key 1) (Sample.key 2)
  exact nomatch hload

end LatticeMesh
