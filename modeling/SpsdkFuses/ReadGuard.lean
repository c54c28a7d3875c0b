import SpsdkFuses.Termination

/-
  File:      SpsdkFuses/ReadGuard.lean
  Subject:   What `read_single` has checked before each of its `read_fuse` calls, and what
             `read_all` returns.

  `ReadVisit` is the call tree of `read_single`: `read_single(x, c)` reaches the nested
  `read_single` of the lock fuse of `x` once the access check of `x` passed, and the nested
  `read_single` of a member of a group `x` once the access and lock checks of `x` passed and the
  members before it returned. `ScanRun` is the loop of `read_all`, one register at a time.

  * `newCall_readSingle` -- every call `read_single` makes is the `read_fuse` of the OTP index of
    a physical register it reaches, made right after that register's access and lock checks;
  * `readSingle_readFuse_guarded` -- with `check_locks`, the lock fuse of that register, when it
    is another register, was read first and left `READ_LOCK` inactive;
  * `readAll_scan` -- on a device whose failed reads are `SPSDKFuseOperationFailure`s, `read_all`
    returns, and its context is the registers whose `read_single` returned, in scan order.
-/

namespace Spsdk

namespace Fuses

variable (F : Fuses)

/-! ## 1. The call tree of `read_single` -/

/-- `ReadVisit n x c s m y c' t`: `read_single(x, c)` with fuel `n`, run from `s`, reaches the
    nested `read_single(y, c')` with fuel `m`, which starts in `t`. -/
inductive ReadVisit : Nat → Uid → Bool → FusesState → Nat → Uid → Bool → FusesState → Prop
  | refl (n : Nat) (x : Uid) (c : Bool) (s : FusesState) : ReadVisit n x c s n x c s
  /-- the read of the lock fuse, after the access check -/
  | lockFuse {n : Nat} {x l : Uid} {s : FusesState} {m : Nat} {y : Uid} {c' : Bool}
      {t : FusesState} (hread : (F.fuseRegs.reg x).access.isReadable = true)
      (hl : F.fuseRegs.getLockFuse x = some l) :
      ReadVisit n l (l != x) s m y c' t → ReadVisit (n + 1) x true s m y c' t
  /-- the read of a member, after the group's access and lock checks and the members before it -/
  | subReg {n : Nat} {x : Uid} {c : Bool} {s s₁ s₂ : FusesState} {pre post : List Uid} {y₀ : Uid}
      {m : Nat} {y : Uid} {c' : Bool} {t : FusesState}
      (hread : (F.fuseRegs.reg x).access.isReadable = true)
      (hlock : F.readLockCheck (fun z c => F.readSingle n z z c) x c s = .ok () s₁)
      (hg : F.fuseRegs.hasGroupRegisters x = true)
      (hsub : (F.fuseRegs.reg x).subRegs = pre ++ y₀ :: post)
      (hpre : (pre.forM fun z => (do let _ ← F.readSingle n z z true; pure () : FuseM PUnit)) s₁ =
        .ok ⟨⟩ s₂) :
      ReadVisit n y₀ true s₂ m y c' t → ReadVisit (n + 1) x c s m y c' t

/-- Below a call with lock checks, a register read without them is its own lock fuse. -/
theorem ReadVisit.checks {n m : Nat} {x y : Uid} {c c' : Bool} {s t : FusesState}
    (h : F.ReadVisit n x c s m y c' t) (hc : c = true ∨ F.fuseRegs.getLockFuse x = some x) :
    c' = true ∨ F.fuseRegs.getLockFuse y = some y := by
  induction h with
  | refl => exact hc
  | @lockFuse n x l _ _ _ _ _ _ hl _ ih =>
    refine ih ?_
    by_cases hlx : l = x
    · subst hlx
      exact .inr hl
    · exact .inl (bne_iff_ne.mpr hlx)
  | subReg _ _ _ _ _ _ ih => exact ih (.inl rfl)

/-! ## 2. Where the calls of `read_single` come from -/

/-- **Every call `read_single` makes** is the `read_fuse` of the OTP index of a physical
    register `y` it reaches, and it is made right after the access and lock checks of `y`
    passed. -/
theorem newCall_readSingle {n : Nat} {name : String} {x : Uid} {c : Bool} {s : FusesState}
    {k : Nat} {call : OperatorCall} (h : NewCall (F.readSingle n name x c) s k call) :
    ∃ m y c' t t₁ i, F.ReadVisit n x c s (m + 1) y c' t ∧
      F.fuseRegs.hasGroupRegisters y = false ∧ (F.fuseRegs.reg y).access.isReadable = true ∧
      F.readLockCheck (fun z c => F.readSingle m z z c) y c' t = .ok () t₁ ∧
      (F.fuseRegs.reg y).otpIndex = some i ∧ call = .readFuse i ∧ k = t₁.calls.length := by
  induction n generalizing name x c s with
  | zero => exact absurd h (noCalls_throw _).not_newCall
  | succ n ih =>
    have hrd : ∀ y c, Grows (F.readSingle n y y c) := fun y c => F.grows_readSingle n y y c
    rw [readSingle_succ] at h
    obtain ⟨_, s₁, hr, h₁⟩ := newCall_bind_right (fun _ => grows_bind
      (F.grows_readLockCheck hrd x c) fun _ => F.grows_readBranch hrd x)
      (F.noCalls_checkReadable name x).not_newCall h
    obtain ⟨hread, hs⟩ := F.checkReadable_ok hr
    rw [hs] at h₁
    rcases newCall_bind (fun _ => F.grows_readBranch hrd x) h₁ with h₂ | ⟨_, s₂, hl, h₂⟩
    · -- the call is one of the lock fuse's read
      obtain ⟨l, hl, rfl, h₃⟩ := F.newCall_readLockCheck h₂
      obtain ⟨m, y, c', t, t₁, i, hv, hy⟩ := ih h₃
      exact ⟨m, y, c', t, t₁, i, .lockFuse hread hl hv, hy⟩
    split at h₂
    · -- the call is one of a member's read
      obtain ⟨pre, y₀, post, s₃, hsub, hpre, h₃⟩ := F.newCall_readGroup hrd h₂
      obtain ⟨m, y, c', t, t₁, i, hv, hy⟩ := ih h₃
      exact ⟨m, y, c', t, t₁, i, .subReg hread hl ‹_› hsub hpre hv, hy⟩
    · -- the call is the register's own `read_fuse`
      rename_i hg
      obtain ⟨i, hi, rfl, rfl⟩ := F.newCall_readReg h₂
      exact ⟨n, x, c, s, s₂, i, .refl .., by simpa using hg, hread, hl, hi, rfl, rfl⟩

/-- **The read guard of `read_single`.** Every `read_fuse(i)` that `read_single(x, True)` makes
    reads a physical register `y` that the call reaches through lock fuses and group members
    (each group's access and lock checks passing before its members are read), with
    `i = y.otp_index` and `y` readable; when the lock fuse `l` of `y` is another register, the
    read of `l` returned right before the call and `READ_LOCK` was then no active lock of `y`. -/
theorem readSingle_readFuse_guarded {n : Nat} {name : String} {x : Uid} {s : FusesState}
    {k i : Nat} (h : NewCall (F.readSingle n name x true) s k (.readFuse i)) :
    ∃ m y c t t₁, F.ReadVisit n x true s (m + 1) y c t ∧
      F.fuseRegs.hasGroupRegisters y = false ∧ (F.fuseRegs.reg y).otpIndex = some i ∧
      (F.fuseRegs.reg y).access.isReadable = true ∧ t₁.calls.length = k ∧
      ∀ l, F.fuseRegs.getLockFuse y = some l → l ≠ y →
        ∃ v, F.readSingle m l l true t = .ok v t₁ ∧ FuseLock.readLock ∉ t₁.activeLocks y := by
  obtain ⟨m, y, c, t, t₁, j, hv, hleaf, hread, hlock, hj, hcall, rfl⟩ := F.newCall_readSingle h
  cases hcall
  refine ⟨m, y, c, t, t₁, hv, hleaf, hj, hread, rfl, fun l hl hne => ?_⟩
  have hc : c = true := (ReadVisit.checks F hv (.inl rfl)).resolve_right fun hy =>
    hne (Option.some.inj (hl.symm.trans hy))
  obtain ⟨v, hv', hlk⟩ := (F.readLockCheck_ok hlock).1 l hl hc
  rw [show (l != y) = true from bne_iff_ne.mpr hne] at hv'
  exact ⟨v, hv', hlk⟩

end Fuses

/-- A device that answers every read with `words index` and accepts every write. -/
def wordsOperator (words : Nat → Nat) : FuseOperator where
  readFuse := fun _ index => .ok (words index)
  writeFuse := fun _ _ _ _ => .ok ()

/-- A register of width 32 at OTP index `index`, readable and writable, reset value 0. -/
def plainRegister (name : String) (index : Nat) (policy : IndividualWriteLock) : FuseRegister :=
  { name := name, description := "", otpIndex := some index, width := 32,
    access := ⟨true, true, "RW"⟩, resetValue := 0, individualWriteLock := policy, subRegs := [],
    reverseSubregsOrder := false, bitfields := [] }

/-- `FUSE` (OTP index 3) guarded by `LOCK` (OTP index 0), which guards itself: bit 0 of `LOCK`
    sets `READ_LOCK`, bit 1 `WRITE_LOCK`. -/
def lockedPairRegisters : FuseRegisters where
  registers := ["FUSE", "LOCK"]
  reg := fun x => if x = "LOCK" then plainRegister "LOCK" 0 .never else plainRegister "FUSE" 3 .never
  findReg := fun name => if name = "FUSE" ∨ name = "LOCK" then some name else none
  getLockFuse := fun x => if x = "FUSE" ∨ x = "LOCK" then some "LOCK" else none
  lockDecode := fun _ v =>
    (if v % 2 = 1 then [.readLock] else []) ++ (if v / 2 % 2 = 1 then [.writeLock] else [])
  toRaw := fun _ v => v
  fromRaw := fun _ v => v
  subRegs_leaf := fun x _ h => by
    simp only at h
    split at h <;> simp [plainRegister] at h
  subRegs_nodup := fun x => by simp only; split <;> simp [plainRegister]
  getLockFuse_mem := fun x y h => by
    simp only at h
    split at h <;> simp_all
  bitfields_fit := fun x _ h => by
    simp only at h
    split at h <;> simp [plainRegister] at h

/-- `Fuses` over `lockedPairRegisters` with a device whose every word is `0`. -/
def lockedPairFuses : Fuses :=
  { family := "", revision := "latest", fuseRegs := lockedPairRegisters,
    operator := some (wordsOperator fun _ => 0), fuseOperatorType := .blhost,
    checkConfig := fun _ => .ok () }

/-- A state with every value and lock cleared and no call made. -/
def clearState : FusesState :=
  { values := fun _ => 0, activeLocks := fun _ => [], fuseContext := [], calls := [] }

theorem readSingle_readFuse_guarded_lockedPair :
    NewCall (lockedPairFuses.readSingle 3 "FUSE" "FUSE" true) clearState 2 (.readFuse 3) ∧
    ∃ m y c t t₁, lockedPairFuses.ReadVisit 3 "FUSE" true clearState (m + 1) y c t ∧
      lockedPairFuses.fuseRegs.hasGroupRegisters y = false ∧
      (lockedPairFuses.fuseRegs.reg y).otpIndex = some 3 ∧
      (lockedPairFuses.fuseRegs.reg y).access.isReadable = true ∧ t₁.calls.length = 2 ∧
      ∀ l, lockedPairFuses.fuseRegs.getLockFuse y = some l → l ≠ y →
        ∃ v, lockedPairFuses.readSingle m l l true t = .ok v t₁ ∧
          FuseLock.readLock ∉ t₁.activeLocks y :=
  have h : NewCall (lockedPairFuses.readSingle 3 "FUSE" "FUSE" true) clearState 2 (.readFuse 3) :=
    ⟨Nat.zero_le _, rfl⟩
  ⟨h, lockedPairFuses.readSingle_readFuse_guarded h⟩

/-- The register `FUSE_A` of the specification's example (width 32, OTP index 3, reset value 0),
    alone, with no lock fuse, under the policy `policy` and the encoding `toRaw` / `fromRaw`. -/
def fuseARegisters (policy : IndividualWriteLock) (toRaw fromRaw : Nat → Nat) : FuseRegisters where
  registers := ["FUSE_A"]
  reg := fun _ => plainRegister "FUSE_A" 3 policy
  findReg := fun name => if name = "FUSE_A" then some "FUSE_A" else none
  getLockFuse := fun _ => none
  lockDecode := fun _ _ => []
  toRaw := fun _ => toRaw
  fromRaw := fun _ => fromRaw
  subRegs_leaf := fun _ _ h => by simp [plainRegister] at h
  subRegs_nodup := fun _ => List.nodup_nil
  getLockFuse_mem := fun _ _ h => nomatch h
  bitfields_fit := fun _ _ h => nomatch h

/-- `Fuses` over `fuseARegisters` with a device whose every word is `word`. -/
def fuseAFuses (policy : IndividualWriteLock) (toRaw fromRaw : Nat → Nat) (word : Nat) : Fuses :=
  { family := "", revision := "latest", fuseRegs := fuseARegisters policy toRaw fromRaw,
    operator := some (wordsOperator fun _ => word), fuseOperatorType := .blhost,
    checkConfig := fun _ => .ok () }

/-- The configuration that loads `0xDEADBEEF` into `FUSE_A`. -/
def fuseAConfig : FusesConfig :=
  { family := "", revision := "latest", registers := [("FUSE_A", .value 0xDEADBEEF)] }

namespace Fuses

variable (F : Fuses)

/-! ## 3. `read_all` -/

/-- What `read_all` needs to scan every register: an operator is set, the device reports every
    failed read as `SPSDKFuseOperationFailure`, every physical register has an OTP index, and the
    dependencies have no cycle. -/
structure ReadsFailSoftly : Prop where
  operator_set : F.operator.isSome = true
  device_fails_softly : ∀ op, F.operator = some op → ∀ cs index d,
    op.readFuse cs index = .error d → d.toFuseError.isFuseOperationFailure = true
  otp_set : ∀ y ∈ F.fuseRegs.allRegs, F.fuseRegs.hasGroupRegisters y = false →
    (F.fuseRegs.reg y).otpIndex.isSome = true
  noCycle : F.fuseRegs.NoCycle

/-- `ScanRun n xs s ctx s'`: the loop of `read_all` over `xs` from `s` calls `read_single` on each
    register in turn, each returning or raising `SPSDKFuseOperationFailure`, ends in `s'`, and
    `ctx` lists the registers whose `read_single` returned. -/
inductive ScanRun (n : Nat) : List Uid → FusesState → List Uid → FusesState → Prop
  | nil (s : FusesState) : ScanRun n [] s [] s
  | ok {x : Uid} {xs : List Uid} {s s₁ s' : FusesState} {v : Nat} {ctx : List Uid}
      (hx : F.readSingle n x x true s = .ok v s₁) :
      ScanRun n xs s₁ ctx s' → ScanRun n (x :: xs) s (x :: ctx) s'
  | fail {x : Uid} {xs : List Uid} {s s₁ s' : FusesState} {e : FuseError} {ctx : List Uid}
      (hx : F.readSingle n x x true s = .error e s₁) (he : e.isFuseOperationFailure = true) :
      ScanRun n xs s₁ ctx s' → ScanRun n (x :: xs) s ctx s'

/-- With enough fuel `read_single` on a register of the collection raises nothing but
    `SPSDKFuseOperationFailure`s and the recursion bound. -/
theorem raisesOnly_readSingle_soft (h : F.ReadsFailSoftly) (n : Nat) :
    ∀ x ∈ F.fuseRegs.allRegs, ∀ name c, RaisesOnly
      (fun e => e = .recursionError ∨ e.isFuseOperationFailure = true) (F.readSingle n name x c) := by
  induction n with
  | zero => exact fun _ _ _ _ => raisesOnly_throw (.inl rfl)
  | succ n ih =>
    intro x hx name c
    refine F.raisesOnly_readSingle_succ (fun _ => .inr rfl)
      (fun l hl _ => ih l (F.fuseRegs.getLockFuse_mem x l hl) _ _)
      (fun y hy => ih y (F.fuseRegs.dep_mem_allRegs hx (.inr hy)) _ _) fun hg => ?_
    refine F.raisesOnly_readReg (fun hi => ?_) (raisesOnly_readFuse (fun hop => ?_) fun op hop _ _ d hd =>
      .inr (h.device_fails_softly op hop _ _ d hd))
    · have := h.otp_set x hx hg
      simp_all
    · have := h.operator_set
      simp_all

/-- The loop of `read_all` runs as `ScanRun` says when no `read_single` of it can raise anything
    but `SPSDKFuseOperationFailure`. -/
theorem readAllFrom_scan {n : Nat} {xs : List Uid}
    (h : ∀ x ∈ xs, RaisesOnly (fun e => e.isFuseOperationFailure = true) (F.readSingle n x x true))
    (ctx : List Uid) (s : FusesState) :
    ∃ ctx' s', F.ScanRun n xs s ctx' s' ∧ F.readAllFrom n ctx xs s = .ok (ctx ++ ctx') s' := by
  induction xs generalizing ctx s with
  | nil => exact ⟨[], s, .nil s, by simp [readAllFrom]⟩
  | cons x xs ih =>
    have hxs := fun y hy => h y (List.mem_cons_of_mem x hy)
    cases hr : F.readSingle n x x true s with
    | ok v s₁ =>
      obtain ⟨ctx', s', hrun, he⟩ := ih hxs (ctx ++ [x]) s₁
      refine ⟨x :: ctx', s', .ok hr hrun, ?_⟩
      simp only [readAllFrom, hr, he, List.append_assoc, List.singleton_append]
    | error e s₁ =>
      have hf := h x (List.mem_cons_self x xs) s e s₁ hr
      obtain ⟨ctx', s', hrun, he⟩ := ih hxs ctx s₁
      exact ⟨ctx', s', .fail hr hf hrun, by simp only [readAllFrom, hr, hf, if_true, he]⟩

/-- **`read_all` finishes and keeps what it could read.** On a device whose failed reads are
    `SPSDKFuseOperationFailure`s, from some fuel on, `read_all` returns from every state, having
    called `read_single` on every register of the collection in iteration order, and sets the
    context to exactly the registers whose `read_single` returned. -/
theorem readAll_scan (h : F.ReadsFailSoftly) :
    ∃ N, ∀ n ≥ N, ∀ s, ∃ ctx s', F.ScanRun n F.fuseRegs.registers s ctx s' ∧
      F.readAll n s = .ok () { s' with fuseContext := ctx } := by
  obtain ⟨N, hN⟩ := exists_bound_list F.readBound_mono
    fun x (_ : x ∈ F.fuseRegs.registers) => F.readBound_exists h.noCycle x
  refine ⟨N, fun n hn s => ?_⟩
  have hfail : ∀ x ∈ F.fuseRegs.registers,
      RaisesOnly (fun e => e.isFuseOperationFailure = true) (F.readSingle n x x true) :=
    fun x hx s e s' he => (F.raisesOnly_readSingle_soft h n x (List.mem_append_left _ hx) x true
      s e s' he).resolve_left (hN x hx n hn x true s e s' he)
  obtain ⟨ctx, s', hrun, he⟩ := F.readAllFrom_scan hfail [] s
  exact ⟨ctx, s', hrun, by rw [readAll, bind_ok he]; rfl⟩

end Fuses

theorem lockedPairFuses_readsFailSoftly : lockedPairFuses.ReadsFailSoftly where
  operator_set := rfl
  device_fails_softly := fun _ hop _ _ _ hd => by cases hop; cases hd
  otp_set := by decide
  noCycle := lockedPairRegisters.noCycle_of_rank (fun x => if x = "LOCK" then 0 else 1)
    fun x y hd => by
      rcases hd with ⟨hl, hne⟩ | hy
      · simp only [lockedPairFuses, lockedPairRegisters] at hl
        split at hl
        · cases hl
          simp [Ne.symm hne]
        · cases hl
      · simp only [lockedPairFuses, lockedPairRegisters] at hy
        split at hy <;> simp [plainRegister] at hy

/-- `lockedPairFuses` with a device whose every word is `1`: `LOCK` then sets `READ_LOCK`. -/
def readLockedPairFuses : Fuses :=
  { lockedPairFuses with operator := some (wordsOperator fun _ => 1) }

theorem readLockedPairFuses_readsFailSoftly : readLockedPairFuses.ReadsFailSoftly where
  operator_set := rfl
  device_fails_softly := fun _ hop _ _ _ hd => by cases hop; cases hd
  otp_set := by decide
  noCycle := lockedPairFuses_readsFailSoftly.noCycle

/-- On the device whose every word is `1`, the read of `LOCK` sets `READ_LOCK` for both
    registers, so both `read_single`s of the scan raise and `read_all` returns with the empty
    context. -/
theorem readAll_scan_readLocked :
    readLockedPairFuses.ReadsFailSoftly ∧
    (∃ N, ∀ n ≥ N, ∀ s, ∃ ctx s',
      readLockedPairFuses.ScanRun n readLockedPairFuses.fuseRegs.registers s ctx s' ∧
      readLockedPairFuses.readAll n s = .ok () { s' with fuseContext := ctx }) ∧
    ∃ s', readLockedPairFuses.ScanRun 4 readLockedPairFuses.fuseRegs.registers clearState [] s' ∧
      readLockedPairFuses.readAll 4 clearState = .ok () { s' with fuseContext := [] } :=
  ⟨readLockedPairFuses_readsFailSoftly,
    readLockedPairFuses.readAll_scan readLockedPairFuses_readsFailSoftly,
    _, .fail rfl rfl (.fail rfl rfl (.nil _)), rfl⟩

end Spsdk
