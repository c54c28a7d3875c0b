import SpsdkFuses.Fuses

/-
  File:      SpsdkFuses/Spec.lean
  Subject:   One lemma per part of the `Fuses` operations, so that the proofs of the later
             modules cite these and never unfold an operation.

  * `raisesOnly_readSingle_succ`, `raisesOnly_writeSingleReg`, ... -- what each part can raise,
    for any property `P` of the exceptions;
  * `grows_readSingle`, `grows_writeReg`, ... -- every operation only appends operator calls;
  * `noCalls_*` -- the checks between the calls make none themselves;
  * `checkReadable_ok`, `checkLockFuse_ok`, `readLockCheck_ok`, `readReg_ok`, ... -- what a part
    that returned has checked and done.
-/

namespace Spsdk

namespace Fuses

variable (F : Fuses)

/-! ## 1. What each part can raise -/

section Raises

variable {P : FuseError → Prop}

theorem raisesOnly_findRegM_bind {β : Type} {name : String} {f : Uid → FuseM β}
    (hP : P (.notFound name)) (h : ∀ x, F.fuseRegs.findReg name = some x → RaisesOnly P (f x)) :
    RaisesOnly P (F.findRegM name >>= f) := by
  intro s e s' h'
  unfold findRegM at h'
  split at h'
  · rename_i x hx
    rw [bind_ok (pure_apply x s)] at h'
    exact h x hx s e s' h'
  · rw [bind_error (throw_apply _ s)] at h'
    cases h'
    exact hP

theorem raisesOnly_checkReadable (hP : ∀ d, P (.fuseOperationFailure d)) (name : String)
    (x : Uid) : RaisesOnly P (F.checkReadable name x) := by
  unfold checkReadable
  split
  exacts [raisesOnly_pure _, raisesOnly_throw (hP _)]

theorem raisesOnly_checkLockFuse (hP : ∀ d, P (.fuseOperationFailure d))
    {rd : Uid → Bool → FuseM Nat} {kind : FuseLock} {op : String} {x l : Uid}
    (h : RaisesOnly P (rd l (l != x))) : RaisesOnly P (F.checkLockFuse rd kind op x l) :=
  raisesOnly_bind h fun _ => raisesOnly_bind raisesOnly_get fun _ => by
    split
    exacts [raisesOnly_throw (hP _), raisesOnly_pure _]

theorem raisesOnly_readReg {x : Uid}
    (hotp : (F.fuseRegs.reg x).otpIndex = none → P (.fuseConfigurationError "OTP index is not defined"))
    (hread : ∀ i, RaisesOnly P (readFuse F.operator i)) : RaisesOnly P (F.readReg x) := by
  unfold readReg
  split
  · exact raisesOnly_throw (hotp ‹_›)
  · exact raisesOnly_bind (hread _) fun _ => raisesOnly_bind (raisesOnly_modify _) fun _ =>
      raisesOnly_bind (raisesOnly_modify _) fun _ => raisesOnly_bind (raisesOnly_modify _) fun _ =>
      raisesOnly_pure _

theorem raisesOnly_readGroup {rd : Uid → Bool → FuseM Nat} {x : Uid}
    (h : ∀ y ∈ (F.fuseRegs.reg x).subRegs, RaisesOnly P (rd y true)) :
    RaisesOnly P (F.readGroup rd x) :=
  raisesOnly_bind (raisesOnly_forM fun y hy => raisesOnly_bind (h y hy) fun _ => raisesOnly_pure _)
    fun _ => raisesOnly_bind (raisesOnly_modify _) fun _ => raisesOnly_bind raisesOnly_get fun _ =>
    raisesOnly_pure _

/-- **What one level of `read_single` raises**: its own `SPSDKFuseOperationFailure`s, what the
    calls one level down raise, and, for a physical register, what `readReg` raises. -/
theorem raisesOnly_readSingle_succ (hP : ∀ d, P (.fuseOperationFailure d)) {m : Nat}
    {name : String} {x : Uid} {c : Bool}
    (hlock : ∀ l, F.fuseRegs.getLockFuse x = some l → c = true →
      RaisesOnly P (F.readSingle m l l (l != x)))
    (hsub : ∀ y ∈ (F.fuseRegs.reg x).subRegs, RaisesOnly P (F.readSingle m y y true))
    (hleaf : F.fuseRegs.hasGroupRegisters x = false → RaisesOnly P (F.readReg x)) :
    RaisesOnly P (F.readSingle (m + 1) name x c) := by
  rw [readSingle_succ]
  refine raisesOnly_bind (F.raisesOnly_checkReadable hP name x) fun _ => raisesOnly_bind ?_ fun _ => ?_
  · unfold readLockCheck
    split
    · split
      · exact F.raisesOnly_checkLockFuse hP (hlock _ ‹_› ‹_›)
      · exact raisesOnly_pure _
    · exact raisesOnly_pure _
  · split
    · exact F.raisesOnly_readGroup hsub
    · rename_i hg
      exact hleaf (by simpa using hg)

theorem raisesOnly_writeLockCheck (hP : ∀ d, P (.fuseOperationFailure d)) {n : Nat} {x : Uid}
    (h : ∀ l, F.fuseRegs.getLockFuse x = some l → RaisesOnly P (F.readSingle n l l (l != x))) :
    RaisesOnly P (F.writeLockCheck n x) := by
  unfold writeLockCheck
  split
  · exact F.raisesOnly_checkLockFuse hP (h _ ‹_›)
  · exact raisesOnly_pure _

theorem raisesOnly_resetCheck (hP : ∀ d, P (.fuseOperationFailure d)) {n : Nat} {x : Uid}
    (h : RaisesOnly P (F.readSingle n x x true)) : RaisesOnly P (F.resetCheck n x) := by
  unfold resetCheck
  dsimp only
  split
  · exact raisesOnly_bind h fun _ => by split; exacts [raisesOnly_throw (hP _), raisesOnly_pure _]
  · exact raisesOnly_pure _

/-- What `write_single_reg` raises: its own exceptions, what its reads and its `write_fuse`
    raise. -/
theorem raisesOnly_writeSingleReg (hP : ∀ d, P (.fuseOperationFailure d)) {n : Nat} {x : Uid}
    {name : String}
    (hotp : (F.fuseRegs.reg x).otpIndex = none →
      P (.error ("OTP index for fuse " ++ (F.fuseRegs.reg x).name ++ " is not set.")))
    (hl : ∀ l, F.fuseRegs.getLockFuse x = some l → RaisesOnly P (F.readSingle n l l (l != x)))
    (hx : RaisesOnly P (F.readSingle n x x true))
    (hwrite : ∀ i v l, RaisesOnly P (writeFuse F.operator i v l)) (lock : Bool) :
    RaisesOnly P (F.writeSingleReg n name x lock) := by
  unfold writeSingleReg
  dsimp only
  split
  · exact raisesOnly_throw (hotp ‹_›)
  · refine raisesOnly_bind ?_ fun _ => raisesOnly_bind (F.raisesOnly_writeLockCheck hP hl) fun _ =>
      raisesOnly_bind (F.raisesOnly_resetCheck hP hx) fun _ => raisesOnly_bind raisesOnly_get
      fun _ => raisesOnly_bind (hwrite _ _ _) fun _ => by
        split
        exacts [raisesOnly_modify _, raisesOnly_pure _]
    unfold checkWritable
    split
    exacts [raisesOnly_pure _, raisesOnly_throw (hP _)]

/-- The registers `write_single` writes for `x`: its members, or `x` itself. -/
def targets (x : Uid) : List Uid := F.fuseRegs.leaves x

theorem raisesOnly_writeReg {n : Nat} {x : Uid} {name : String} {lock : Bool}
    (h : ∀ y ∈ F.targets x, RaisesOnly P (F.writeSingleReg n name y lock)) :
    RaisesOnly P (F.writeReg n name x lock) := by
  unfold writeReg
  unfold targets FuseRegisters.leaves at h
  split
  · exact raisesOnly_forM fun y hy => h y (by simp_all)
  · exact h x (by simp_all)

theorem raisesOnly_readAllFrom {n : Nat} {xs : List Uid}
    (h : ∀ x ∈ xs, RaisesOnly P (F.readSingle n x x true)) (ctx : List Uid) :
    RaisesOnly P (F.readAllFrom n ctx xs) := by
  induction xs generalizing ctx with
  | nil => exact raisesOnly_pure _
  | cons x xs ih =>
    intro s e s' hs
    simp only [readAllFrom] at hs
    split at hs
    · exact ih (fun y hy => h y (List.mem_cons_of_mem _ hy)) _ _ _ _ hs
    · split at hs
      · exact ih (fun y hy => h y (List.mem_cons_of_mem _ hy)) _ _ _ _ hs
      · cases hs
        exact h x (List.mem_cons_self _ _) s _ _ ‹_›

end Raises

/-! ## 2. Operator calls are only appended -/

section Grows

theorem noCalls_findRegM (name : String) : NoCalls (F.findRegM name) := by
  unfold findRegM
  split
  exacts [noCalls_pure _, noCalls_throw _]

theorem noCalls_setFuseContext (ctx : List Uid) : NoCalls (setFuseContext ctx) :=
  noCalls_modify fun _ => rfl

theorem noCalls_checkReadable (name : String) (x : Uid) : NoCalls (F.checkReadable name x) :=
  noCalls_ite (noCalls_pure _) (noCalls_throw _)

theorem noCalls_checkWritable (name : String) (x : Uid) : NoCalls (F.checkWritable name x) :=
  noCalls_ite (noCalls_pure _) (noCalls_throw _)

/-- After the lock fuse is read, `checkLockFuse` makes no call. -/
theorem noCalls_lockTest (kind : FuseLock) (op : String) (x l : Uid) :
    NoCalls (get >>= fun st => if kind ∈ st.activeLocks x then
      throw (.fuseOperationFailure ("Fuse " ++ (F.fuseRegs.reg x).name ++ " " ++ op ++
        " operation is locked by lock fuse " ++ (F.fuseRegs.reg l).name ++ "."))
      else (pure () : FuseM Unit)) :=
  noCalls_bind noCalls_get fun _ => noCalls_ite (noCalls_throw _) (noCalls_pure _)

theorem grows_checkLockFuse {rd : Uid → Bool → FuseM Nat} {kind : FuseLock} {op : String}
    {x l : Uid} (h : Grows (rd l (l != x))) : Grows (F.checkLockFuse rd kind op x l) :=
  grows_bind h fun _ => (F.noCalls_lockTest kind op x l).grows

theorem grows_readLockCheck {rd : Uid → Bool → FuseM Nat} (h : ∀ y c, Grows (rd y c)) (x : Uid)
    (c : Bool) : Grows (F.readLockCheck rd x c) := by
  unfold readLockCheck
  split
  · split
    exacts [F.grows_checkLockFuse (h _ _), grows_pure _]
  · exact grows_pure _

/-- After its `read_fuse`, `readReg` makes no call. -/
theorem noCalls_readRegTail (x : Uid) (value : Nat) :
    NoCalls (do
      modify fun s => { s with values := F.fuseRegs.setValue s.values x value }
      modify fun s => { s with activeLocks := F.fuseRegs.updateLocks s.values s.activeLocks }
      setFuseContext [x]
      return value : FuseM Nat) :=
  noCalls_bind (noCalls_modify fun _ => rfl) fun _ => noCalls_bind (noCalls_modify fun _ => rfl)
    fun _ => noCalls_bind (noCalls_setFuseContext _) fun _ => noCalls_pure _

theorem grows_readReg (x : Uid) : Grows (F.readReg x) := by
  unfold readReg
  split
  · exact grows_throw _
  · exact grows_bind (grows_readFuse _ _) fun v => (F.noCalls_readRegTail x v).grows

/-- After its members are read, a group's `read_single` makes no call. -/
theorem noCalls_groupTail (x : Uid) :
    NoCalls (do
      setFuseContext [x]
      return F.fuseRegs.getValue (← get).values x : FuseM Nat) :=
  noCalls_bind (noCalls_setFuseContext _) fun _ => noCalls_bind noCalls_get fun _ => noCalls_pure _

theorem grows_readGroup {rd : Uid → Bool → FuseM Nat} (h : ∀ y c, Grows (rd y c)) (x : Uid) :
    Grows (F.readGroup rd x) :=
  grows_bind (grows_forM fun y _ => grows_bind (h y true) fun _ => grows_pure _) fun _ =>
    (F.noCalls_groupTail x).grows

/-- The branch of `read_single` after the lock check. -/
theorem grows_readBranch {rd : Uid → Bool → FuseM Nat} (h : ∀ y c, Grows (rd y c)) (x : Uid) :
    Grows (if F.fuseRegs.hasGroupRegisters x then F.readGroup rd x else F.readReg x) := by
  split
  exacts [F.grows_readGroup h x, F.grows_readReg x]

theorem grows_readSingle (n : Nat) : ∀ name x c, Grows (F.readSingle n name x c) := by
  induction n with
  | zero => exact fun _ _ _ => grows_throw _
  | succ n ih =>
    intro name x c
    rw [readSingle_succ]
    exact grows_bind (F.noCalls_checkReadable name x).grows fun _ =>
      grows_bind (F.grows_readLockCheck (fun y c => ih y y c) x c) fun _ =>
      F.grows_readBranch (fun y c => ih y y c) x

theorem grows_writeLockCheck (n : Nat) (x : Uid) : Grows (F.writeLockCheck n x) := by
  unfold writeLockCheck
  split
  · exact F.grows_checkLockFuse (F.grows_readSingle n _ _ _)
  · exact grows_pure _

theorem grows_resetCheck (n : Nat) (x : Uid) : Grows (F.resetCheck n x) := by
  unfold resetCheck
  dsimp only
  split
  · exact grows_bind (F.grows_readSingle n _ _ _) fun _ => by
      split
      exacts [grows_throw _, grows_pure _]
  · exact grows_pure _

/-- After its `write_fuse`, `write_single_reg` makes no call. -/
theorem noCalls_lockAfterWrite (x : Uid) (b : Bool) :
    NoCalls (if b then modify fun s => { s with activeLocks := lock s.activeLocks x .writeLock }
      else (pure () : FuseM Unit)) :=
  noCalls_ite (noCalls_modify fun _ => rfl) (noCalls_pure _)

theorem grows_writeSingleReg (n : Nat) (name : String) (x : Uid) (lock : Bool) :
    Grows (F.writeSingleReg n name x lock) := by
  unfold writeSingleReg
  dsimp only
  split
  · exact grows_throw _
  · exact grows_bind (F.noCalls_checkWritable name x).grows fun _ =>
      grows_bind (F.grows_writeLockCheck n x) fun _ => grows_bind (F.grows_resetCheck n x) fun _ =>
      grows_bind grows_get fun _ => grows_bind (grows_writeFuse _ _ _ _) fun _ =>
      (noCalls_lockAfterWrite x _).grows

theorem grows_writeReg (n : Nat) (name : String) (x : Uid) (lock : Bool) :
    Grows (F.writeReg n name x lock) := by
  unfold writeReg
  split
  · exact grows_forM fun y _ => F.grows_writeSingleReg n name y lock
  · exact F.grows_writeSingleReg n name x lock

theorem grows_readAllFrom (n : Nat) (xs : List Uid) :
    ∀ ctx, Grows (F.readAllFrom n ctx xs) := by
  induction xs with
  | nil => exact fun _ => grows_pure _
  | cons x xs ih =>
    intro ctx s
    have hx := F.grows_readSingle n x x true s
    simp only [readAllFrom]
    split
    · rename_i hr
      rw [hr] at hx
      exact hx.trans (ih _ _)
    · rename_i hr
      rw [hr] at hx
      split
      · exact hx.trans (ih _ _)
      · exact hx

end Grows

/-! ## 3. What a part that returned has checked and done -/

section Inversion

variable {s s' : FusesState}

theorem findRegM_ok {name : String} {x : Uid} (h : F.findRegM name s = .ok x s') :
    F.fuseRegs.findReg name = some x ∧ s' = s := by
  unfold findRegM at h
  cases hf : F.fuseRegs.findReg name with
  | none => simp only [hf, throw_apply] at h; cases h
  | some y => simp only [hf, pure_apply] at h; cases h; exact ⟨rfl, rfl⟩

theorem checkReadable_ok {name : String} {x : Uid} {u : Unit}
    (h : F.checkReadable name x s = .ok u s') :
    (F.fuseRegs.reg x).access.isReadable = true ∧ s' = s := by
  unfold checkReadable at h
  split at h
  · cases h; exact ⟨‹_›, rfl⟩
  · cases h

theorem checkWritable_ok {name : String} {x : Uid} {u : Unit}
    (h : F.checkWritable name x s = .ok u s') :
    (F.fuseRegs.reg x).access.isWritable = true ∧ s' = s := by
  unfold checkWritable at h
  split at h
  · cases h; exact ⟨‹_›, rfl⟩
  · cases h

/-- **A lock check that passed** read the lock fuse, and `kind` was no active lock of `x` right
    after that read. -/
theorem checkLockFuse_ok {rd : Uid → Bool → FuseM Nat} {kind : FuseLock} {op : String} {x l : Uid}
    {u : Unit} (h : F.checkLockFuse rd kind op x l s = .ok u s') :
    ∃ v, rd l (l != x) s = .ok v s' ∧ kind ∉ s'.activeLocks x := by
  obtain ⟨v, s₁, hv, h⟩ := bind_eq_ok h
  obtain ⟨_, s₂, hg, h⟩ := bind_eq_ok h
  rw [get_apply] at hg
  cases hg
  split at h
  · cases h
  · cases h; exact ⟨v, hv, ‹_›⟩

theorem readLockCheck_ok {rd : Uid → Bool → FuseM Nat} {x : Uid} {c : Bool} {u : Unit}
    (h : F.readLockCheck rd x c s = .ok u s') :
    (∀ l, F.fuseRegs.getLockFuse x = some l → c = true →
      ∃ v, rd l (l != x) s = .ok v s' ∧ FuseLock.readLock ∉ s'.activeLocks x) ∧
    ((∀ l, F.fuseRegs.getLockFuse x = some l → c = false) → s' = s) := by
  unfold readLockCheck at h
  cases hl : F.fuseRegs.getLockFuse x with
  | none =>
    simp only [hl, pure_apply] at h
    cases h
    exact ⟨fun _ hl' => by simp_all, fun _ => rfl⟩
  | some l =>
    simp only [hl, Option.some.injEq, forall_eq'] at h ⊢
    cases c with
    | true =>
      obtain ⟨v, hv, hlock⟩ := F.checkLockFuse_ok h
      exact ⟨fun _ => ⟨v, hv, hlock⟩, fun hc => absurd hc (by simp)⟩
    | false =>
      simp only [Bool.false_eq_true, ite_false, pure_apply] at h
      cases h
      exact ⟨fun hc => absurd hc (by simp), fun _ => rfl⟩

/-- The state `read_single` leaves after reading the word `w` of the physical register `x`. -/
def readRegState (x : Uid) (w : Nat) (s : FusesState) : FusesState :=
  let values := F.fuseRegs.setValue s.values x w
  { s with values := values, activeLocks := F.fuseRegs.updateLocks values s.activeLocks,
           fuseContext := [x] }

/-- **A physical register's read that returned** made one `read_fuse` of its OTP index and
    stored the word through `set_value`. -/
theorem readReg_ok {x : Uid} {w : Nat} (h : F.readReg x s = .ok w s') :
    ∃ i s₁, (F.fuseRegs.reg x).otpIndex = some i ∧ readFuse F.operator i s = .ok w s₁ ∧
      s' = F.readRegState x w s₁ := by
  unfold readReg at h
  cases hi : (F.fuseRegs.reg x).otpIndex with
  | none => simp only [hi, throw_apply] at h; cases h
  | some i =>
    simp only [hi] at h
    obtain ⟨v, s₁, hv, h⟩ := bind_eq_ok h
    simp only [bind_ok (modify_apply _ _), setFuseContext, modify_apply, pure_apply] at h
    cases h
    exact ⟨i, s₁, rfl, hv, rfl⟩

/-- The read of a physical register leaves its value in the register. -/
theorem readSingle_leaf_ok {n : Nat} {name : String} {x : Uid} {c : Bool} {v : Nat}
    (hx : F.fuseRegs.hasGroupRegisters x = false) (h : F.readSingle n name x c s = .ok v s') :
    ∃ s₁, s' = F.readRegState x v s₁ := by
  cases n with
  | zero => cases h
  | succ n =>
    rw [readSingle_succ] at h
    obtain ⟨_, _, -, h⟩ := bind_eq_ok h
    obtain ⟨_, _, -, h⟩ := bind_eq_ok h
    rw [hx, if_neg Bool.false_ne_true] at h
    obtain ⟨_, s₁, -, -, rfl⟩ := F.readReg_ok h
    exact ⟨s₁, rfl⟩

theorem readRegState_values_self {x : Uid} (hx : F.fuseRegs.hasGroupRegisters x = false) (w : Nat)
    (s : FusesState) : (F.readRegState x w s).values x = F.fuseRegs.toRaw x w :=
  F.fuseRegs.setValue_self hx w

theorem writeLockCheck_ok {n : Nat} {x : Uid} {u : Unit} (h : F.writeLockCheck n x s = .ok u s') :
    (∀ l, F.fuseRegs.getLockFuse x = some l →
      ∃ v, F.readSingle n l l (l != x) s = .ok v s' ∧ FuseLock.writeLock ∉ s'.activeLocks x) ∧
    (F.fuseRegs.getLockFuse x = none → s' = s) := by
  unfold writeLockCheck at h
  cases hl : F.fuseRegs.getLockFuse x with
  | none =>
    simp only [hl, pure_apply] at h
    cases h
    exact ⟨nofun, fun _ => rfl⟩
  | some l =>
    simp only [hl] at h
    obtain ⟨v, hv, hlock⟩ := F.checkLockFuse_ok h
    exact ⟨fun l' hl' => by cases hl'; exact ⟨v, hv, hlock⟩, nofun⟩

/-- **A reset check that passed** read the register itself, and the word read was its reset
    value. -/
theorem resetCheck_ok {n : Nat} {x : Uid} {u : Unit} (h : F.resetCheck n x s = .ok u s') :
    ((F.fuseRegs.reg x).individualWriteLock = .always ∨
        (F.fuseRegs.reg x).individualWriteLock = .implicit →
      F.readSingle n x x true s = .ok (F.fuseRegs.reg x).resetValue s') ∧
    ((F.fuseRegs.reg x).individualWriteLock = .never → s' = s) := by
  unfold resetCheck at h
  by_cases hp : (F.fuseRegs.reg x).individualWriteLock = .always ∨
      (F.fuseRegs.reg x).individualWriteLock = .implicit
  · rw [if_pos hp] at h
    obtain ⟨v, s₁, hv, h⟩ := bind_eq_ok h
    by_cases hr : v = (F.fuseRegs.reg x).resetValue
    · subst hr
      simp only [bne_self_eq_false, Bool.false_eq_true, ite_false, pure_apply] at h
      cases h
      exact ⟨fun _ => hv, fun hn => by rcases hp with hp | hp <;> simp_all⟩
    · simp only [bne_iff_ne, ne_eq, hr, not_false_eq_true, ite_true, throw_apply] at h
      cases h
  · rw [if_neg hp] at h
    cases h
    exact ⟨fun h => absurd h hp, fun _ => rfl⟩

/-- The state after `write_fuse` when the register is to be recorded as write-locked. -/
def lockAfterWrite (x : Uid) (b : Bool) (s : FusesState) : FusesState :=
  if b then { s with activeLocks := lock s.activeLocks x .writeLock } else s

/-- **A `write_single_reg` step that returned** passed its checks, made its `write_fuse` with the
    register's value after them and the effective lock flag, and then recorded the lock. -/
theorem writeSingleReg_ok {n : Nat} {name : String} {x : Uid} {lock : Bool} {u : Unit}
    (h : F.writeSingleReg n name x lock s = .ok u s') :
    ∃ i s₁ s₂ s₃, (F.fuseRegs.reg x).otpIndex = some i ∧
      (F.fuseRegs.reg x).access.isWritable = true ∧
      F.writeLockCheck n x s = .ok () s₁ ∧ F.resetCheck n x s₁ = .ok () s₂ ∧
      writeFuse F.operator i (F.fuseRegs.getValue s₂.values x)
        (effectiveLock (F.fuseRegs.reg x).individualWriteLock lock) s₂ = .ok () s₃ ∧
      s' = lockAfterWrite x (effectiveLock (F.fuseRegs.reg x).individualWriteLock lock ||
        (F.fuseRegs.reg x).individualWriteLock == .implicit) s₃ := by
  unfold writeSingleReg at h
  dsimp only at h
  cases hi : (F.fuseRegs.reg x).otpIndex with
  | none => simp only [hi, throw_apply] at h; cases h
  | some i =>
    simp only [hi] at h
    obtain ⟨_, s₀, hw, h⟩ := bind_eq_ok h
    obtain ⟨hwr, hs⟩ := F.checkWritable_ok hw
    rw [hs] at h
    obtain ⟨_, s₁, hl, h⟩ := bind_eq_ok h
    obtain ⟨_, s₂, hr, h⟩ := bind_eq_ok h
    obtain ⟨_, _, hg, h⟩ := bind_eq_ok h
    cases hg
    obtain ⟨_, s₃, hf, h⟩ := bind_eq_ok h
    refine ⟨i, s₁, s₂, s₃, rfl, hwr, hl, hr, hf, ?_⟩
    unfold lockAfterWrite
    split at h <;> simp only [modify_apply, pure_apply] at h <;> cases h <;> simp_all

end Inversion

/-! ## 4. Where a call of an operation comes from -/

section Origin

variable {s : FusesState} {k : Nat} {call : OperatorCall}

/-- The call of an operation on a name is one of the operation on the register found. -/
theorem newCall_findRegM_bind {β : Type} {name : String} {f : Uid → FuseM β}
    (hf : ∀ x, Grows (f x)) (hc : NewCall (F.findRegM name >>= f) s k call) :
    ∃ x, F.fuseRegs.findReg name = some x ∧ NewCall (f x) s k call := by
  obtain ⟨x, s', hx, hc₁⟩ := newCall_bind_right hf (F.noCalls_findRegM name).not_newCall hc
  obtain ⟨hx, hs⟩ := F.findRegM_ok hx
  exact ⟨x, hx, hs ▸ hc₁⟩

/-- The call of a lock check is one of the lock fuse's read. -/
theorem newCall_readLockCheck {rd : Uid → Bool → FuseM Nat} {x : Uid} {c : Bool} (hc : NewCall (F.readLockCheck rd x c) s k call) :
    ∃ l, F.fuseRegs.getLockFuse x = some l ∧ c = true ∧ NewCall (rd l (l != x)) s k call := by
  unfold readLockCheck at hc
  split at hc
  · split at hc
    · exact ⟨_, ‹_›, ‹_›, newCall_bind_left (fun _ => F.noCalls_lockTest _ _ x _) hc⟩
    · exact absurd hc (noCalls_pure _).not_newCall
  · exact absurd hc (noCalls_pure _).not_newCall

/-- The call of a group's read is one of a member's read, after the members before it. -/
theorem newCall_readGroup {rd : Uid → Bool → FuseM Nat} (h : ∀ y c, Grows (rd y c)) {x : Uid}
    (hc : NewCall (F.readGroup rd x) s k call) :
    ∃ pre y post s', (F.fuseRegs.reg x).subRegs = pre ++ y :: post ∧
      (pre.forM fun z => (do let _ ← rd z true; pure () : FuseM PUnit)) s = .ok ⟨⟩ s' ∧
      NewCall (rd y true) s' k call := by
  obtain ⟨pre, y, post, s', hsub, hpre, hc⟩ := newCall_forM
    (fun y _ => grows_bind (h y true) fun _ => grows_pure _)
    (newCall_bind_left (fun _ => F.noCalls_groupTail x) hc)
  exact ⟨pre, y, post, s', hsub, hpre, newCall_bind_left (fun _ => noCalls_pure _) hc⟩

/-- The call of a physical register's read is the `read_fuse` of its OTP index. -/
theorem newCall_readReg {x : Uid} (hc : NewCall (F.readReg x) s k call) :
    ∃ i, (F.fuseRegs.reg x).otpIndex = some i ∧ call = .readFuse i ∧ k = s.calls.length := by
  unfold readReg at hc
  split at hc
  · exact absurd hc (noCalls_throw _).not_newCall
  · exact ⟨_, ‹_›, newCall_readFuse (newCall_bind_left (F.noCalls_readRegTail x) hc)⟩

end Origin

end Fuses

end Spsdk
