import SpsdkFuses.WriteGuard

/-
  File:      SpsdkFuses/Burn.lean
  Subject:   The word `write_single` burns, and the lock it records.

  `write_single_reg` passes `reg.get_value()` of the moment of its call: the interpreted value,
  after the step's own reads. Those reads go through `read_single`, which stores the word it read
  with `set_value` (interpreted) and reruns `update_locks` over the whole collection.

  * `readSingle_stores_encoded` -- after `read_single` of a physical register the raw value is
    the word read, encoded;
  * `writeSingleReg_burns_reset` -- under `ALWAYS` and `IMPLICIT` the reset check has stored the
    reset value read back, so that is the word burned, whatever value was loaded;
  * `fuseA_always_burns_reset`, `fuseA_reversed_words` -- the reset value burned, and a raw value
    that is not the hardware word, at concrete inputs;
  * `writeSingleReg_records_writeLock` -- a step that returned with a lock records `WRITE_LOCK`
    for its register; `lockedGroup_loses_writeLock` -- a later step's read of the lock fuse
    takes it away again, in a group and in `write_multiple`.
-/

namespace Spsdk

namespace Fuses

variable (F : Fuses)

/-! ## 1. Words read and words burned -/

/-- **A read stores the word encoded.** After `read_single` of a physical register returned the
    word `w`, the register's raw value is `w` under the interpreted encoding. -/
theorem readSingle_stores_encoded {n : Nat} {name : String} {x : Uid} {c : Bool}
    {s s' : FusesState} {w : Nat} (hx : F.fuseRegs.hasGroupRegisters x = false)
    (h : F.readSingle n name x c s = .ok w s') :
    F.fuseRegs.rawValue s'.values x = F.fuseRegs.toRaw x w := by
  obtain ⟨s₁, rfl⟩ := F.readSingle_leaf_ok hx h
  rw [F.fuseRegs.rawValue_of_leaf hx, F.readRegState_values_self hx]

/-- **What `write_single_reg` burns under `ALWAYS` and `IMPLICIT`.** The reset check reads the
    register back and stores the word, its reset value; `write_fuse` then gets `get_value()` of
    that, the reset value through the encoding and back, whatever value was loaded before. -/
theorem writeSingleReg_burns_reset {n : Nat} {name : String} {r : Uid} {lock : Bool}
    {t : FusesState} {k i v : Nat} {l : Bool} (hleaf : F.fuseRegs.hasGroupRegisters r = false)
    (hp : (F.fuseRegs.reg r).individualWriteLock = .always ∨
      (F.fuseRegs.reg r).individualWriteLock = .implicit)
    (h : NewCall (F.writeSingleReg n name r lock) t k (.writeFuse i v l)) :
    v = F.fuseRegs.fromRaw r (F.fuseRegs.toRaw r (F.fuseRegs.reg r).resetValue) := by
  obtain ⟨s₁, s₂, -, -, -, hr, -, rfl, -⟩ := F.newCall_writeSingleReg h
  rw [FuseRegisters.getValue, F.readSingle_stores_encoded hleaf ((F.resetCheck_ok hr).1 hp)]

end Fuses

theorem writeSingleReg_burns_reset_fuseA :
    (fuseAFuses .always id id 0).fuseRegs.hasGroupRegisters "FUSE_A" = false ∧
    NewCall ((fuseAFuses .always id id 0).writeSingleReg 2 "FUSE_A" "FUSE_A" true)
      (outState ((fuseAFuses .always id id 0).loadConfig fuseAConfig clearState)) 1
      (.writeFuse 3 0 true) ∧
    0 = (fuseAFuses .always id id 0).fuseRegs.fromRaw "FUSE_A"
      ((fuseAFuses .always id id 0).fuseRegs.toRaw "FUSE_A"
        ((fuseAFuses .always id id 0).fuseRegs.reg "FUSE_A").resetValue) :=
  have h : NewCall ((fuseAFuses .always id id 0).writeSingleReg 2 "FUSE_A" "FUSE_A" true)
      (outState ((fuseAFuses .always id id 0).loadConfig fuseAConfig clearState)) 1
      (.writeFuse 3 0 true) := ⟨Nat.zero_le _, rfl⟩
  ⟨rfl, h, (fuseAFuses .always id id 0).writeSingleReg_burns_reset rfl (.inl rfl) h⟩

/-- Under `ALWAYS`, with `0xDEADBEEF` loaded and a fresh device, `write_single("FUSE_A", True)`
    reads the word back and burns `0`, the reset value, not the loaded `0xDEADBEEF`. -/
theorem fuseA_always_burns_reset :
    (fuseAFuses .always id id 0).fuseRegs.rawValue
        (outState ((fuseAFuses .always id id 0).loadConfig fuseAConfig clearState)).values "FUSE_A" =
      0xDEADBEEF ∧
    (outState (((fuseAFuses .always id id 0).loadConfig fuseAConfig >>= fun _ =>
      (fuseAFuses .always id id 0).writeSingle 2 "FUSE_A" true) clearState)).calls =
      [.readFuse 3, .writeFuse 3 0 true] :=
  ⟨rfl, rfl⟩

/-- The byte order of a 32-bit word reversed: an interpreted encoding a family can attach. -/
def reverseBytes32 (v : Nat) : Nat :=
  v % 2 ^ 8 * 2 ^ 24 + v / 2 ^ 8 % 2 ^ 8 * 2 ^ 16 + v / 2 ^ 16 % 2 ^ 8 * 2 ^ 8 + v / 2 ^ 24 % 2 ^ 8

/-- Under the byte-reversing encoding the raw value is not the hardware word: `read_single`
    reads `0x12345678` and keeps the raw value `0x78563412`, and with the raw value `0xDEADBEEF`
    loaded, `write_single("FUSE_A")` burns `0xEFBEADDE`. -/
theorem fuseA_reversed_words :
    (∃ s', (fuseAFuses .never reverseBytes32 reverseBytes32 0x12345678).readSingle 2 "FUSE_A"
        "FUSE_A" true clearState = .ok 0x12345678 s' ∧
      (fuseAFuses .never reverseBytes32 reverseBytes32 0x12345678).fuseRegs.rawValue s'.values
        "FUSE_A" = 0x78563412) ∧
    (∃ s', ((fuseAFuses .never reverseBytes32 reverseBytes32 0).loadConfig fuseAConfig >>= fun _ =>
        (fuseAFuses .never reverseBytes32 reverseBytes32 0).writeSingle 2 "FUSE_A" false)
        clearState = .ok () s' ∧
      (fuseAFuses .never reverseBytes32 reverseBytes32 0).fuseRegs.rawValue s'.values "FUSE_A" =
        0xDEADBEEF ∧
      s'.calls = [.writeFuse 3 0xEFBEADDE false]) :=
  ⟨⟨_, rfl, rfl⟩, ⟨_, rfl, rfl, rfl⟩⟩

/-! ## 2. The lock a step records -/

/-- **A step that returned records its lock.** When the caller asked for a lock or the policy
    is not `NEVER`, `write_single_reg(r)` that returned leaves `WRITE_LOCK` among `r`'s active
    locks. -/
theorem Fuses.writeSingleReg_records_writeLock (F : Fuses) {n : Nat} {name : String} {r : Uid}
    {lock : Bool} {s s' : FusesState} {u : Unit} (h : F.writeSingleReg n name r lock s = .ok u s')
    (hl : lock = true ∨ (F.fuseRegs.reg r).individualWriteLock ≠ .never) :
    FuseLock.writeLock ∈ s'.activeLocks r := by
  obtain ⟨_, _, _, s₃, -, -, -, -, -, rfl⟩ := F.writeSingleReg_ok h
  have hb : (effectiveLock (F.fuseRegs.reg r).individualWriteLock lock ||
      (F.fuseRegs.reg r).individualWriteLock == .implicit) = true := by
    cases hp : (F.fuseRegs.reg r).individualWriteLock <;> simp_all
  rw [lockAfterWrite, if_pos hb]
  exact mem_lock_self _ _ _

/-- A group `GRP` of `M1` (OTP index 1) and `M2` (OTP index 2), both guarded by `LOCK` (OTP index
    0), whose bit 1 sets `WRITE_LOCK`. -/
def lockedGroupRegisters : FuseRegisters where
  registers := ["GRP", "LOCK"]
  reg := fun x =>
    if x = "GRP" then { plainRegister "GRP" 0 .never with otpIndex := none, subRegs := ["M1", "M2"] }
    else if x = "M1" then plainRegister "M1" 1 .never
    else if x = "M2" then plainRegister "M2" 2 .never
    else plainRegister "LOCK" 0 .never
  findReg := fun name => if name ∈ ["GRP", "M1", "M2", "LOCK"] then some name else none
  getLockFuse := fun x => if x = "M1" ∨ x = "M2" then some "LOCK" else none
  lockDecode := fun _ v => if v / 2 % 2 = 1 then [.writeLock] else []
  toRaw := fun _ v => v
  fromRaw := fun _ v => v
  subRegs_leaf := fun x y h => by
    simp only at h
    split at h
    · simp only [List.mem_cons, List.mem_singleton, List.not_mem_nil, or_false] at h
      rcases h with rfl | rfl <;> simp [plainRegister]
    · repeat' split at h
      all_goals simp [plainRegister] at h
  subRegs_nodup := fun x => by
    simp only
    repeat' split
    all_goals simp [plainRegister]
  getLockFuse_mem := fun x y h => by
    simp only at h
    split at h <;> simp_all
  bitfields_fit := fun x _ h => by
    simp only at h
    repeat' split at h
    all_goals simp [plainRegister] at h

/-- `Fuses` over `lockedGroupRegisters` with a device whose every word is `0`. -/
def lockedGroupFuses : Fuses :=
  { family := "", revision := "latest", fuseRegs := lockedGroupRegisters,
    operator := some (wordsOperator fun _ => 0), fuseOperatorType := .blhost,
    checkConfig := fun _ => .ok () }

/-- `A` (OTP index 1) and `B` (OTP index 2), both under `ALWAYS` and guarded by `LOCK` (OTP
    index 0), whose bit 1 sets `WRITE_LOCK`. -/
def lockedTwinRegisters : FuseRegisters where
  registers := ["A", "B", "LOCK"]
  reg := fun x =>
    if x = "A" then plainRegister "A" 1 .always
    else if x = "B" then plainRegister "B" 2 .always
    else plainRegister "LOCK" 0 .never
  findReg := fun name => if name ∈ ["A", "B", "LOCK"] then some name else none
  getLockFuse := fun x => if x = "A" ∨ x = "B" then some "LOCK" else none
  lockDecode := fun _ v => if v / 2 % 2 = 1 then [.writeLock] else []
  toRaw := fun _ v => v
  fromRaw := fun _ v => v
  subRegs_leaf := fun x y h => by
    simp only at h
    repeat' split at h
    all_goals simp [plainRegister] at h
  subRegs_nodup := fun x => by
    simp only
    repeat' split
    all_goals simp [plainRegister]
  getLockFuse_mem := fun x y h => by
    simp only at h
    split at h <;> simp_all
  bitfields_fit := fun x _ h => by
    simp only at h
    repeat' split at h
    all_goals simp [plainRegister] at h

/-- `Fuses` over `lockedTwinRegisters` with a device whose every word is `0`. -/
def lockedTwinFuses : Fuses := { lockedGroupFuses with fuseRegs := lockedTwinRegisters }

/-- `write_single("GRP", True)` burns `M1` and then `M2` with the lock flag set, but the read of
    `LOCK` in `M2`'s step reruns `update_locks`, and `M1` ends without `WRITE_LOCK`. Likewise
    `write_multiple(["A", "B"])` burns `A` and then `B` with the lock `ALWAYS` forces, and the
    reads of `LOCK` in `B`'s step take `A`'s `WRITE_LOCK` away. -/
theorem lockedGroup_loses_writeLock :
    (∃ s', lockedGroupFuses.writeSingle 2 "GRP" true clearState = .ok () s' ∧
      s'.calls = [.readFuse 0, .writeFuse 1 0 true, .readFuse 0, .writeFuse 2 0 true] ∧
      s'.activeLocks "M1" = [] ∧ s'.activeLocks "M2" = [.writeLock]) ∧
    ∃ s', lockedTwinFuses.writeMultiple 2 ["A", "B"] clearState = .ok () s' ∧
      s'.calls = [.readFuse 0, .readFuse 0, .readFuse 1, .writeFuse 1 0 true,
        .readFuse 0, .readFuse 0, .readFuse 2, .writeFuse 2 0 true] ∧
      s'.activeLocks "A" = [] ∧ s'.activeLocks "B" = [.writeLock] :=
  ⟨⟨_, rfl, rfl, rfl, rfl⟩, ⟨_, rfl, rfl, rfl, rfl⟩⟩

end Spsdk
