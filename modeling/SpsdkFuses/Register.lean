import Mathlib.Tactic.Ring
import Mathlib.Logic.Function.Basic
import Mathlib.Data.List.Nodup
import Mathlib.Algebra.BigOperators.Group.List

/-
  File:      SpsdkFuses/Register.lean
  Subject:   The register map `Fuses` works on: fuse registers, their lock kinds and write-lock
             policy, and the value and lock operations of `FuseRegister` / `FuseRegisters`.

  `fuses.py` imports `FuseLock`, `FuseRegister`, `FuseRegisters` and `IndividualWriteLock` from
  `spsdk/fuses/fuse_registers.py`, which is not among the sources. What `fuses.py` uses of them is
  modelled from the specification (sections 3, 4.1 and 4.2):

  * `FuseRegister` -- a register's structural definition: name, `otp_index`, width, access, reset
    value, individual write lock, `sub_regs` and `reverse_subregs_order`, bitfields;
  * `FuseRegisters` -- the collection: its iteration order, `find_reg`, `get_lock_fuse`, the lock
    decoding `update_locks` applies, and the family's interpreted encoding. The structural facts
    of section 3 are fields: group members are physical registers and are listed once, a lock
    fuse is a register of the collection, and a bitfield lies within its register;
  * `rawValue`, `getValue`, `setValue`, `setRawValue` -- `get_value(raw=True)`, `get_value()`,
    `set_value(v)`, `set_value(v, raw=True)`; a group's raw value is the concatenation of its
    members' raw values, computed on demand and never cached;
  * `updateLocks`, `lock` -- the active-lock sets;
  * `setRawValue_congr`, `setRawValue_of_not_mem`, `rawValue_congr` -- a raw write overwrites
    every register holding `x` (`leaves`) and no other, and a raw read reads no other;
    `rawValue_setRawValue` -- reading back what was written gives it again, cut to the members'
    widths for a group;
  * `ValuesFit`, `valuesFit_setRawValue` -- the cached values within their registers' widths,
    which a raw write of a value that fits keeps.
-/

namespace Spsdk

/-- A register's uid. `find_reg` resolves names and uids to it. -/
abbrev Uid := String

/-- `FuseLock`: the lock kinds `fuses.py` checks. -/
inductive FuseLock where
  | readLock
  | writeLock
  deriving DecidableEq, Repr

/-- `IndividualWriteLock`: the write-lock policy of a register (specification 4.2). -/
inductive IndividualWriteLock where
  | never
  | always
  | implicit
  deriving DecidableEq, Repr

/-- `reg.access`: the readable and writable flags and the text the error messages quote. -/
structure Access where
  isReadable : Bool
  isWritable : Bool
  description : String
  deriving DecidableEq, Repr

/-- A bitfield: the bits `offset .. offset + width - 1` of its register. -/
structure Bitfield where
  name : String
  description : String
  offset : Nat
  width : Nat
  deriving DecidableEq, Repr

/-- Modelled from the spec: `FuseRegister`, the structural definition, loaded once from the family database. -/
structure FuseRegister where
  name : String
  description : String
  otpIndex : Option Nat
  width : Nat
  access : Access
  resetValue : Nat
  individualWriteLock : IndividualWriteLock
  subRegs : List Uid
  reverseSubregsOrder : Bool
  bitfields : List Bitfield
  deriving DecidableEq, Repr

/-- Modelled from the spec: `FuseRegisters` as `Fuses` sees it. `lockDecode`, `toRaw` and `fromRaw` are the family
    database's: which lock kinds a lock-fuse value sets for a register, and the interpreted
    encoding `set_value(v)` and `get_value()` apply (specification 4.1 leaves both external). -/
structure FuseRegisters where
  /-- `for reg in self.fuse_regs`: the registers of the collection in iteration order. -/
  registers : List Uid
  reg : Uid → FuseRegister
  /-- `find_reg(name, include_group_regs=True)`. -/
  findReg : String → Option Uid
  /-- `get_lock_fuse(reg)`. -/
  getLockFuse : Uid → Option Uid
  lockDecode : Uid → Nat → List FuseLock
  toRaw : Uid → Nat → Nat
  fromRaw : Uid → Nat → Nat
  /-- A group register is composed of physical registers. -/
  subRegs_leaf : ∀ x y, y ∈ (reg x).subRegs → (reg y).subRegs = []
  /-- A group lists each member once. -/
  subRegs_nodup : ∀ x, (reg x).subRegs.Nodup
  /-- A lock fuse is a register of the collection or a member of one of its groups. -/
  getLockFuse_mem : ∀ x y, getLockFuse x = some y →
    y ∈ registers ++ registers.flatMap fun g => (reg g).subRegs
  /-- A bitfield lies within its register: `offset + width ≤ register.width`. -/
  bitfields_fit : ∀ x, ∀ b ∈ (reg x).bitfields, b.offset + b.width ≤ (reg x).width

namespace FuseRegisters

variable (M : FuseRegisters)

/-- Modelled from the spec: `reg.has_group_registers()`. -/
def hasGroupRegisters (x : Uid) : Bool := !(M.reg x).subRegs.isEmpty

/-- A group's members in concatenation order: as declared, or reversed under
    `reverse_subregs_order`. -/
def subRegsOrdered (x : Uid) : List Uid :=
  if (M.reg x).reverseSubregsOrder then (M.reg x).subRegs.reverse else (M.reg x).subRegs

/-- Big-endian concatenation of `(width, value)` pieces after `acc`: `b1 || b2`. -/
def concatValues (acc : Nat) : List (Nat × Nat) → Nat
  | [] => acc
  | (w, v) :: ps => concatValues (acc * 2 ^ w + v) ps

/-- Modelled from the spec: `get_value(raw=True)`. -/
def rawValue (values : Uid → Nat) (x : Uid) : Nat :=
  if M.hasGroupRegisters x then
    concatValues 0 ((M.subRegsOrdered x).map fun y => ((M.reg y).width, values y))
  else values x

/-- Modelled from the spec: `get_value()`, the raw value under the interpreted encoding. -/
def getValue (values : Uid → Nat) (x : Uid) : Nat := M.fromRaw x (M.rawValue values x)

/-- Splits `v` over `(uid, width)` pieces, the first piece least significant. -/
def distribute (values : Uid → Nat) : List (Uid × Nat) → Nat → Uid → Nat
  | [], _ => values
  | (y, w) :: ps, v => distribute (Function.update values y (v % 2 ^ w)) ps (v / 2 ^ w)

/-- Modelled from the spec: `set_value(v, raw=True)`; a group's value is split over its members. -/
def setRawValue (values : Uid → Nat) (x : Uid) (v : Nat) : Uid → Nat :=
  if M.hasGroupRegisters x then
    distribute values ((M.subRegsOrdered x).reverse.map fun y => (y, (M.reg y).width)) v
  else Function.update values x v

/-- Modelled from the spec: `set_value(v)`, the raw value the interpreted `v` encodes. -/
def setValue (values : Uid → Nat) (x : Uid) (v : Nat) : Uid → Nat :=
  M.setRawValue values x (M.toRaw x v)

/-- Writes `v` into the bits `offset .. offset + width - 1` of `old`. -/
def insertBits (old offset width v : Nat) : Nat :=
  old / 2 ^ (offset + width) * 2 ^ (offset + width) + v % 2 ^ width * 2 ^ offset + old % 2 ^ offset

/-- Modelled from the spec: `bitfield.set_value(v, raw=True)`, the register's raw value with the bitfield's bits
    replaced. -/
def setBitfieldValue (values : Uid → Nat) (x : Uid) (b : Bitfield) (v : Nat) : Uid → Nat :=
  M.setRawValue values x (insertBits (M.rawValue values x) b.offset b.width v)

/-- The physical registers that hold the value of `x`: its members, or `x` itself. -/
def leaves (x : Uid) : List Uid := if M.hasGroupRegisters x then (M.reg x).subRegs else [x]

/-- Modelled from the spec: `reg.get_bitfield(name)`, when the register has a bitfield of that name. -/
def findBitfield (x : Uid) (name : String) : Option Bitfield :=
  (M.reg x).bitfields.find? (·.name == name)

/-- Modelled from the spec: `bitfield.get_value()`, the bits of the register's raw value the bitfield covers. -/
def bitfieldValue (values : Uid → Nat) (x : Uid) (b : Bitfield) : Nat :=
  M.rawValue values x / 2 ^ b.offset % 2 ^ b.width

/-- Modelled from the spec: `update_locks()`; every register with a lock fuse gets the lock set its lock fuse's value
    decodes to; the others keep theirs. -/
def updateLocks (values : Uid → Nat) (locks : Uid → List FuseLock) : Uid → List FuseLock :=
  fun y => match M.getLockFuse y with
    | some l => M.lockDecode y (M.rawValue values l)
    | none => locks y

theorem hasGroupRegisters_iff (x : Uid) : M.hasGroupRegisters x = true ↔ (M.reg x).subRegs ≠ [] := by
  simp [hasGroupRegisters, List.isEmpty_iff]

theorem rawValue_of_leaf {values : Uid → Nat} {x : Uid} (h : M.hasGroupRegisters x = false) :
    M.rawValue values x = values x := by
  simp [rawValue, h]

theorem setValue_self {values : Uid → Nat} {x : Uid} (h : M.hasGroupRegisters x = false)
    (v : Nat) : M.setValue values x v x = M.toRaw x v := by
  simp [setValue, setRawValue, h]

theorem setValue_of_ne {values : Uid → Nat} {x : Uid} (h : M.hasGroupRegisters x = false)
    {y : Uid} (v : Nat) (hy : y ≠ x) : M.setValue values x v y = values y := by
  simp [setValue, setRawValue, h, hy]

theorem updateLocks_of_none (values : Uid → Nat) (locks : Uid → List FuseLock) {y : Uid}
    (h : M.getLockFuse y = none) : M.updateLocks values locks y = locks y := by
  simp [updateLocks, h]

theorem updateLocks_of_some (values : Uid → Nat) (locks : Uid → List FuseLock) {y l : Uid}
    (h : M.getLockFuse y = some l) :
    M.updateLocks values locks y = M.lockDecode y (M.rawValue values l) := by
  simp [updateLocks, h]

theorem mem_subRegsOrdered {x y : Uid} : y ∈ M.subRegsOrdered x ↔ y ∈ (M.reg x).subRegs := by
  unfold subRegsOrdered
  split <;> simp

theorem distribute_of_not_mem {y : Uid} : ∀ (values : Uid → Nat) (ps : List (Uid × Nat)) (v : Nat),
    y ∉ ps.map Prod.fst → distribute values ps v y = values y
  | _, [], _, _ => rfl
  | values, (z, w) :: ps, v, h => by
    simp only [List.map_cons, List.mem_cons, not_or] at h
    rw [distribute, distribute_of_not_mem _ ps _ h.2, Function.update_noteq h.1]

/-- On the registers it writes, `distribute` does not read the values before. -/
theorem distribute_congr {y : Uid} : ∀ (values values' : Uid → Nat) (ps : List (Uid × Nat)) (v : Nat),
    y ∈ ps.map Prod.fst → distribute values ps v y = distribute values' ps v y
  | _, _, [], _, h => nomatch h
  | values, values', (z, w) :: ps, v, h => by
    rw [distribute, distribute]
    by_cases hy : y ∈ ps.map Prod.fst
    · exact distribute_congr _ _ ps _ hy
    · have hz : y = z := by simpa [hy] using h
      rw [distribute_of_not_mem _ ps _ hy, distribute_of_not_mem _ ps _ hy, hz,
        Function.update_same, Function.update_same]

/-- **`set_value(v, raw=True)` overwrites all of `x`**: on the registers holding `x`, the values
    after it do not depend on those before. -/
theorem setRawValue_congr (values values' : Uid → Nat) (x : Uid) (v : Nat) {y : Uid}
    (hy : y ∈ M.leaves x) : M.setRawValue values x v y = M.setRawValue values' x v y := by
  unfold leaves at hy
  unfold setRawValue
  split
  · rw [if_pos ‹_›] at hy
    exact distribute_congr _ _ _ _ (by simpa [Function.comp_def, M.mem_subRegsOrdered] using hy)
  · rw [if_neg ‹_›] at hy
    rw [List.mem_singleton.mp hy, Function.update_same, Function.update_same]

/-- `get_value(raw=True)` reads only the registers holding `x`. -/
theorem rawValue_congr {values values' : Uid → Nat} {x : Uid}
    (h : ∀ y ∈ M.leaves x, values y = values' y) : M.rawValue values x = M.rawValue values' x := by
  unfold leaves at h
  unfold rawValue
  split
  · rw [if_pos ‹_›] at h
    congr 1
    exact List.map_congr_left fun y hy => by rw [h y (M.mem_subRegsOrdered.mp hy)]
  · rw [if_neg ‹_›] at h
    exact h x (List.mem_singleton_self x)

theorem concatValues_append_single (acc w v : Nat) : ∀ ps : List (Nat × Nat),
    concatValues acc (ps ++ [(w, v)]) = concatValues acc ps * 2 ^ w + v := by
  intro ps
  induction ps generalizing acc with
  | nil => rfl
  | cons p ps ih => exact ih _

/-- `distribute` followed by the concatenation in the opposite order gives the value back, cut
    to the pieces' widths. -/
theorem concatValues_distribute (width : Uid → Nat) : ∀ (rs : List Uid) (values : Uid → Nat) (v : Nat),
    rs.Nodup → concatValues 0 (rs.reverse.map fun y =>
        (width y, distribute values (rs.map fun y => (y, width y)) v y)) =
      v % 2 ^ (rs.map width).sum
  | [], _, _, _ => by simp [concatValues, Nat.mod_one]
  | z :: rs, values, v, hnd => by
    obtain ⟨hz, hnd⟩ := List.nodup_cons.mp hnd
    have hz' : z ∉ (rs.map fun y => (y, width y)).map Prod.fst := by
      simpa [List.map_map, Function.comp_def] using hz
    simp only [List.reverse_cons, List.map_append, List.map_cons, List.map_nil,
      concatValues_append_single, distribute, distribute_of_not_mem _ _ _ hz', Function.update_same]
    rw [concatValues_distribute width rs _ _ hnd, List.sum_cons, pow_add, Nat.mod_mul]
    ring

theorem rawValue_setRawValue_leaf (values : Uid → Nat) {x : Uid} (hx : M.hasGroupRegisters x = false)
    (v : Nat) : M.rawValue (M.setRawValue values x v) x = v := by
  simp [rawValue, setRawValue, hx]

theorem rawValue_setRawValue_group (values : Uid → Nat) {x : Uid} (hx : M.hasGroupRegisters x = true)
    (v : Nat) : M.rawValue (M.setRawValue values x v) x =
      v % 2 ^ ((M.reg x).subRegs.map fun y => (M.reg y).width).sum := by
  have hnd : (M.subRegsOrdered x).reverse.Nodup := by
    unfold subRegsOrdered
    split <;> simp [M.subRegs_nodup x]
  have hsum : (((M.subRegsOrdered x).reverse).map fun y => (M.reg y).width).sum =
      ((M.reg x).subRegs.map fun y => (M.reg y).width).sum := by
    unfold subRegsOrdered
    split <;> simp [List.sum_reverse]
  rw [← hsum, ← concatValues_distribute _ _ values v hnd, List.reverse_reverse, rawValue, if_pos hx,
    setRawValue, if_pos hx]

/-- **`set_value(v, raw=True)` then `get_value(raw=True)` gives `v` back**: exactly for a physical
    register, and cut to the members' widths for a group. -/
theorem rawValue_setRawValue (values : Uid → Nat) (x : Uid) (v : Nat) :
    M.rawValue (M.setRawValue values x v) x = if M.hasGroupRegisters x then
      v % 2 ^ ((M.reg x).subRegs.map fun y => (M.reg y).width).sum else v := by
  cases hx : M.hasGroupRegisters x
  · exact M.rawValue_setRawValue_leaf values hx v
  · exact M.rawValue_setRawValue_group values hx v

/-- `set_value(v, raw=True)` writes only the registers holding `x`. -/
theorem setRawValue_of_not_mem {values : Uid → Nat} {x y : Uid} (v : Nat) (hy : y ∉ M.leaves x) :
    M.setRawValue values x v y = values y := by
  unfold leaves at hy
  unfold setRawValue
  split
  · rw [if_pos ‹_›] at hy
    exact distribute_of_not_mem _ _ _ (by simpa [Function.comp_def, M.mem_subRegsOrdered] using hy)
  · rw [if_neg ‹_›, List.mem_singleton] at hy
    exact Function.update_noteq hy _ _

/-- A member of a group is no group itself. -/
theorem hasGroupRegisters_of_mem {x y : Uid} (h : y ∈ (M.reg x).subRegs) :
    M.hasGroupRegisters y = false := by
  simp [hasGroupRegisters, M.subRegs_leaf x y h]

/-- Every physical register's cached raw value fits its width. -/
def ValuesFit (values : Uid → Nat) : Prop :=
  ∀ y, M.hasGroupRegisters y = false → values y < 2 ^ (M.reg y).width

/-- `distribute` leaves a register's value, or cuts it to the width of a piece for it. -/
theorem distribute_cases {y : Uid} : ∀ (values : Uid → Nat) (ps : List (Uid × Nat)) (v : Nat),
    distribute values ps v y = values y ∨ ∃ w, (y, w) ∈ ps ∧ distribute values ps v y < 2 ^ w
  | _, [], _ => .inl rfl
  | values, (z, w) :: ps, v => by
    rw [distribute]
    rcases distribute_cases (Function.update values z (v % 2 ^ w)) ps (v / 2 ^ w) with
      h | ⟨w', hw', h⟩
    · rw [h]
      by_cases hy : y = z
      · subst hy
        rw [Function.update_same]
        exact .inr ⟨w, List.mem_cons_self _ _, Nat.mod_lt _ (Nat.two_pow_pos w)⟩
      · exact .inl (Function.update_noteq hy _ _)
    · exact .inr ⟨w', List.mem_cons_of_mem _ hw', h⟩

/-- **`set_value(v, raw=True)` keeps the values within their widths** when `v` fits a physical
    `x`: a group's value is cut to its members' widths. -/
theorem valuesFit_setRawValue {values : Uid → Nat} (h : M.ValuesFit values) {x : Uid} {v : Nat}
    (hv : M.hasGroupRegisters x = false → v < 2 ^ (M.reg x).width) :
    M.ValuesFit (M.setRawValue values x v) := fun y hy => by
  unfold setRawValue
  cases hx : M.hasGroupRegisters x
  · by_cases hyx : y = x
    · subst hyx
      simpa using hv hx
    · simpa [hyx] using h y hy
  · rw [if_pos rfl]
    rcases distribute_cases (y := y) values _ v with he | ⟨w, hw, hlt⟩
    · rw [he]
      exact h y hy
    · obtain ⟨z, -, hz⟩ := List.mem_map.mp hw
      cases hz
      exact hlt

end FuseRegisters

/-- Modelled from the spec: `reg.lock(l)` adds `l` to the active locks of `x`. -/
def lock (locks : Uid → List FuseLock) (x : Uid) (l : FuseLock) : Uid → List FuseLock :=
  Function.update locks x ((locks x).insert l)

@[simp] theorem lock_self (locks : Uid → List FuseLock) (x : Uid) (l : FuseLock) :
    lock locks x l x = (locks x).insert l := by
  simp [lock]

theorem mem_lock_self (locks : Uid → List FuseLock) (x : Uid) (l : FuseLock) :
    l ∈ lock locks x l x := by
  simp

end Spsdk
