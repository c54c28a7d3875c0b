import SpsdkFuses.Operator

/-
  File:      SpsdkFuses/Fuses.lean
  Subject:   The operations of the `Fuses` class of `fuses.py`: `read_single`, `write_single`
             with its inner `write_single_reg`, `write_multiple`, `read_all` and `load_config`.

  `read_single` recurses into lock fuses and group members. Python bounds that recursion only by
  its recursion limit; the model bounds it by a fuel argument and raises `recursionError` when
  the fuel runs out (`readSingle`). The recursive calls `self.read_single(lock_fuse.uid, ...)` and
  `self.read_single(sub_reg.uid)` resolve the uid back to the same register (uids are unique keys
  of the collection, specification 3), so the model calls `readSingle` on that register with the
  uid as the name. Every operation is cut at the points the source branches, one definition each,
  so that the lemmas of the later modules never unfold `readSingle` itself:

  * `checkReadable`, `checkLockFuse`, `readLockCheck`, `readReg` -- the parts of `read_single`;
  * `checkWritable`, `writeLockCheck`, `resetCheck`, `effectiveLock` -- the parts of
    `write_single_reg`;
  * `readAllFrom` -- the `try`/`except SPSDKFuseOperationFailure` loop of `read_all`;
  * `loadYmlEntry`, `loadYmlConfig` -- `FuseRegisters.load_yml_config`, modelled from the
    specification (4.1, 4.4).
-/

namespace Spsdk

/-- One register's entry of the `registers` mapping of a configuration. -/
inductive RegisterConfig where
  | value (v : Nat)
  | bitfields (values : List (String × Nat))
  deriving DecidableEq, Repr

/-- The declarative configuration of specification 6. -/
structure FusesConfig where
  family : String
  revision : String
  registers : List (String × RegisterConfig)
  deriving DecidableEq, Repr

/-- The fixed part of a `Fuses` object. `checkConfig` is the schema validation `load_config`
    runs first (`check_config`, an external collaborator). -/
structure Fuses where
  family : String
  revision : String
  fuseRegs : FuseRegisters
  /-- `_operator`, `None` until an operator is set -/
  operator : Option FuseOperator
  /-- `fuse_operator_type`: the operator the family database names -/
  fuseOperatorType : FuseOperatorType
  checkConfig : FusesConfig → Except FuseError Unit

/-- `self.fuse_context = ctx`. -/
def setFuseContext (ctx : List Uid) : FuseM Unit := modify fun s => { s with fuseContext := ctx }

namespace Fuses

variable (F : Fuses)

/-! ## 1. Reading -/

/-- `find_reg(name, include_group_regs=True)`. -/
def findRegM (name : String) : FuseM Uid :=
  match F.fuseRegs.findReg name with
  | some x => pure x
  | none => throw (.notFound name)

/-- The access check of `read_single`. -/
def checkReadable (name : String) (x : Uid) : FuseM Unit :=
  if (F.fuseRegs.reg x).access.isReadable then pure ()
  else throw (.fuseOperationFailure
    ("Unable to read fuse " ++ name ++ ". Fuse access: " ++ (F.fuseRegs.reg x).access.description))

/-- Reads the lock fuse `l` of `x` (with no lock check when `x` locks itself) and raises when
    `kind` is then an active lock of `x`: the check `read_single` makes for `READ_LOCK` and
    `write_single_reg` for `WRITE_LOCK`. `rd` is the `read_single` it reads with. -/
def checkLockFuse (rd : Uid → Bool → FuseM Nat) (kind : FuseLock) (operation : String)
    (x l : Uid) : FuseM Unit := do
  let _ ← rd l (l != x)
  if kind ∈ (← get).activeLocks x then
    throw (.fuseOperationFailure ("Fuse " ++ (F.fuseRegs.reg x).name ++ " " ++ operation ++
      " operation is locked by lock fuse " ++ (F.fuseRegs.reg l).name ++ "."))

/-- `if lock_fuse and check_locks:` of `read_single`. -/
def readLockCheck (rd : Uid → Bool → FuseM Nat) (x : Uid) (checkLocks : Bool) : FuseM Unit :=
  match F.fuseRegs.getLockFuse x with
  | some l => if checkLocks then F.checkLockFuse rd .readLock "read" x l else pure ()
  | none => pure ()

/-- The physical-register branch of `read_single`: one `read_fuse`, then `set_value`,
    `update_locks` and the context. -/
def readReg (x : Uid) : FuseM Nat :=
  match (F.fuseRegs.reg x).otpIndex with
  | none => throw (.fuseConfigurationError "OTP index is not defined")
  | some i => do
    let value ← readFuse F.operator i
    modify fun s => { s with values := F.fuseRegs.setValue s.values x value }
    modify fun s => { s with activeLocks := F.fuseRegs.updateLocks s.values s.activeLocks }
    setFuseContext [x]
    return value

/-- The group branch of `read_single`: `read_single` on every member (`rd` is `read_single` one
    level down), then the group's value. -/
def readGroup (rd : Uid → Bool → FuseM Nat) (x : Uid) : FuseM Nat := do
  (F.fuseRegs.reg x).subRegs.forM fun y => do let _ ← rd y true; pure ()
  setFuseContext [x]
  return F.fuseRegs.getValue (← get).values x

/-- `read_single(name, check_locks)` once `find_reg(name)` has returned `x`, with `n` levels of
    recursion left. -/
def readSingle : Nat → String → Uid → Bool → FuseM Nat
  | 0, _, _, _ => throw .recursionError
  | n + 1, name, x, checkLocks => do
    F.checkReadable name x
    F.readLockCheck (fun y c => readSingle n y y c) x checkLocks
    if F.fuseRegs.hasGroupRegisters x then F.readGroup (fun y c => readSingle n y y c) x
    else F.readReg x

/-- `Fuses.read_single(name, check_locks)`. -/
def readSingleByName (n : Nat) (name : String) (checkLocks : Bool) : FuseM Nat := do
  let x ← F.findRegM name
  F.readSingle n name x checkLocks

theorem readSingle_zero (name : String) (x : Uid) (c : Bool) :
    F.readSingle 0 name x c = throw .recursionError := rfl

theorem readSingle_succ (n : Nat) (name : String) (x : Uid) (c : Bool) :
    F.readSingle (n + 1) name x c = (do
      F.checkReadable name x
      F.readLockCheck (fun y c => F.readSingle n y y c) x c
      if F.fuseRegs.hasGroupRegisters x then F.readGroup (fun y c => F.readSingle n y y c) x
      else F.readReg x) := rfl

/-- The scan of `read_all`: a register whose `read_single` raises `SPSDKFuseOperationFailure`
    is left out of the context, any other exception ends the scan. -/
def readAllFrom (n : Nat) (ctx : List Uid) : List Uid → FuseM (List Uid)
  | [] => pure ctx
  | x :: xs => fun s =>
    match F.readSingle n x x true s with
    | .ok _ s' => readAllFrom n (ctx ++ [x]) xs s'
    | .error e s' => if e.isFuseOperationFailure then readAllFrom n ctx xs s' else .error e s'

/-- `Fuses.read_all()`. -/
def readAll (n : Nat) : FuseM Unit := do
  let ctx ← F.readAllFrom n [] F.fuseRegs.registers
  setFuseContext ctx

/-! ## 2. Writing -/

/-- The lock flag `write_single_reg` passes to `write_fuse`: `IMPLICIT` drops the caller's lock,
    `ALWAYS` forces one. -/
def effectiveLock (policy : IndividualWriteLock) (lock : Bool) : Bool :=
  let lock := if lock && policy == .implicit then false else lock
  if !lock && policy == .always then true else lock

/-- The access check of `write_single_reg`; `name` is the name `write_single` was called with. -/
def checkWritable (name : String) (x : Uid) : FuseM Unit :=
  if (F.fuseRegs.reg x).access.isWritable then pure ()
  else throw (.fuseOperationFailure
    ("Unable to write fuse " ++ name ++ ". Fuse access: " ++ (F.fuseRegs.reg x).access.description))

/-- `if lock_reg:` of `write_single_reg`. -/
def writeLockCheck (n : Nat) (x : Uid) : FuseM Unit :=
  match F.fuseRegs.getLockFuse x with
  | some l => F.checkLockFuse (fun y c => F.readSingle n y y c) .writeLock "write" x l
  | none => pure ()

/-- The reset-value check of `write_single_reg` for the policies `ALWAYS` and `IMPLICIT`. -/
def resetCheck (n : Nat) (x : Uid) : FuseM Unit :=
  let reg := F.fuseRegs.reg x
  if reg.individualWriteLock = .always ∨ reg.individualWriteLock = .implicit then do
    let reset := reg.resetValue
    if (← F.readSingle n x x true) != reset then
      throw (.fuseOperationFailure
        ("Fuse " ++ reg.name ++ " has non reset value " ++ toString reset ++ " and is write-locked."))
  else pure ()

/-- `write_single_reg(reg, lock)` of `write_single(name, lock)`. -/
def writeSingleReg (n : Nat) (name : String) (x : Uid) (lock : Bool) : FuseM Unit :=
  let reg := F.fuseRegs.reg x
  match reg.otpIndex with
  | none => throw (.error ("OTP index for fuse " ++ reg.name ++ " is not set."))
  | some otpIndex => do
    F.checkWritable name x
    F.writeLockCheck n x
    F.resetCheck n x
    let lock := effectiveLock reg.individualWriteLock lock
    writeFuse F.operator otpIndex (F.fuseRegs.getValue (← get).values x) lock
    if lock || reg.individualWriteLock == .implicit then
      modify fun s => { s with activeLocks := Spsdk.lock s.activeLocks x .writeLock }

/-- `write_single(name, lock)` once `find_reg(name)` has returned `x`. -/
def writeReg (n : Nat) (name : String) (x : Uid) (lock : Bool) : FuseM Unit :=
  if F.fuseRegs.hasGroupRegisters x then
    (F.fuseRegs.reg x).subRegs.forM fun y => F.writeSingleReg n name y lock
  else F.writeSingleReg n name x lock

/-- `Fuses.write_single(name, lock)`. -/
def writeSingle (n : Nat) (name : String) (lock : Bool) : FuseM Unit := do
  let x ← F.findRegM name
  F.writeReg n name x lock

/-- `Fuses.write_multiple(names)`: `write_single(reg.uid)` for each name in turn. -/
def writeMultiple (n : Nat) (names : List String) : FuseM Unit :=
  names.forM fun name => do
    let x ← F.findRegM name
    F.writeReg n x x false

/-! ## 3. Loading a configuration -/

/-- `reg.get_bitfield(name)`. -/
def getBitfield (x : Uid) (name : String) : FuseM Bitfield :=
  match F.fuseRegs.findBitfield x name with
  | some b => pure b
  | none => throw (.notFound name)

/-- Modelled from the spec: one entry of `FuseRegisters.load_yml_config`, the named register's
    raw value, or the named bitfields of it, in order (specification 4.4). -/
def loadYmlEntry : String × RegisterConfig → FuseM Unit
  | (name, rc) => do
    let x ← F.findRegM name
    match rc with
    | .value v => modify fun s => { s with values := F.fuseRegs.setRawValue s.values x v }
    | .bitfields bfs =>
      bfs.forM fun (bfName, v) => do
        let b ← F.getBitfield x bfName
        modify fun s => { s with values := F.fuseRegs.setBitfieldValue s.values x b v }

/-- Modelled from the spec: `FuseRegisters.load_yml_config(registers)` sets the entries in
    order and then reruns `update_locks()`, since a loaded value may be a lock fuse's
    (specification 4.1, 4.4). -/
def loadYmlConfig (registers : List (String × RegisterConfig)) : FuseM Unit := do
  registers.forM F.loadYmlEntry
  modify fun s => { s with activeLocks := F.fuseRegs.updateLocks s.values s.activeLocks }

/-- `Fuses.load_config(config)`. -/
def loadConfig (config : FusesConfig) : FuseM Unit := do
  match F.checkConfig config with
  | .error e => throw e
  | .ok () => pure ()
  F.loadYmlConfig config.registers
  let ctx ← config.registers.mapM fun p => F.findRegM p.1
  setFuseContext ctx

end Fuses

end Spsdk
