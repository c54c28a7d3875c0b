import SpsdkFuses.ReadGuard

/-
  File:      SpsdkFuses/WriteGuard.lean
  Subject:   What `write_single` has checked before each of its `write_fuse` calls, and what it
             passes to them.

  A `write_single` on `x` runs one `write_single_reg` step per target (`targets`: the members of
  a group, or `x` itself). A step reads the lock fuse, runs the reset check, and then makes its
  one `write_fuse`; the reads make only `read_fuse` calls (`readsOnly_readSingle`).

  * `newCall_writeSingleReg` -- the `write_fuse` of a step comes right after its checks, with the
    register's OTP index, its value of that moment and the effective lock flag;
  * `WriteGuard` -- what holds at that moment, one field per check of the step;
  * `stepStart`, `writeSingle_writeFuse_guarded` -- every `write_fuse` of `write_single` and of
    `write_multiple` is guarded so, for a target, by the checks of that target's own step.
-/

namespace Spsdk

namespace Fuses

variable (F : Fuses)

/-! ## 1. The reads of a step call `read_fuse` only -/

theorem readsOnly_readSingle (n : Nat) (name : String) (x : Uid) (c : Bool) :
    ReadsOnly (F.readSingle n name x c) := fun _ _ _ h => by
  obtain ⟨_, _, _, _, _, i, -, -, -, -, -, hc, -⟩ := F.newCall_readSingle h
  exact ⟨i, hc⟩

theorem readsOnly_writeLockCheck (n : Nat) (x : Uid) : ReadsOnly (F.writeLockCheck n x) :=
  fun s k c h => by
    unfold writeLockCheck at h
    split at h
    · exact F.readsOnly_readSingle n _ _ _ s k c
        (newCall_bind_left (fun _ => F.noCalls_lockTest _ _ x _) h)
    · exact absurd h (noCalls_pure _).not_newCall

/-- After the read of the register, the reset check makes no call. -/
theorem noCalls_resetTest (x : Uid) (v : Nat) :
    NoCalls (if (v != (F.fuseRegs.reg x).resetValue) = true then
      throw (.fuseOperationFailure ("Fuse " ++ (F.fuseRegs.reg x).name ++ " has non reset value " ++
        toString (F.fuseRegs.reg x).resetValue ++ " and is write-locked."))
      else (pure () : FuseM Unit)) :=
  noCalls_ite (noCalls_throw _) (noCalls_pure _)

theorem readsOnly_resetCheck (n : Nat) (x : Uid) : ReadsOnly (F.resetCheck n x) :=
  fun s k c h => by
    unfold resetCheck at h
    dsimp only at h
    split at h
    · exact F.readsOnly_readSingle n _ _ _ s k c (newCall_bind_left (F.noCalls_resetTest x) h)
    · exact absurd h (noCalls_pure _).not_newCall

/-! ## 2. The `write_fuse` of a step -/

/-- **The `write_fuse` of a `write_single_reg` step** comes right after the access check, the
    lock-fuse check and the reset check passed, for the register's OTP index, with its value of
    that moment and the effective lock flag. -/
theorem newCall_writeSingleReg {n : Nat} {name : String} {x : Uid} {lock : Bool} {s : FusesState}
    {k i v : Nat} {l : Bool} (h : NewCall (F.writeSingleReg n name x lock) s k (.writeFuse i v l)) :
    ∃ s₁ s₂, (F.fuseRegs.reg x).otpIndex = some i ∧ (F.fuseRegs.reg x).access.isWritable = true ∧
      F.writeLockCheck n x s = .ok () s₁ ∧ F.resetCheck n x s₁ = .ok () s₂ ∧
      k = s₂.calls.length ∧ v = F.fuseRegs.getValue s₂.values x ∧
      l = effectiveLock (F.fuseRegs.reg x).individualWriteLock lock := by
  unfold writeSingleReg at h
  dsimp only at h
  split at h
  · exact absurd h (noCalls_throw _).not_newCall
  rename_i j hj
  have hburn : ∀ st : FusesState, Grows (do
      writeFuse F.operator j (F.fuseRegs.getValue st.values x)
        (effectiveLock (F.fuseRegs.reg x).individualWriteLock lock)
      if (effectiveLock (F.fuseRegs.reg x).individualWriteLock lock ||
          (F.fuseRegs.reg x).individualWriteLock == .implicit) = true then
        modify fun s => { s with activeLocks := Spsdk.lock s.activeLocks x .writeLock }
      else (pure () : FuseM Unit)) := fun st =>
    grows_bind (grows_writeFuse _ _ _ _) fun _ => (noCalls_lockAfterWrite x _).grows
  obtain ⟨_, s₀, hw, h₁⟩ := newCall_bind_right (fun _ => grows_bind (F.grows_writeLockCheck n x)
    fun _ => grows_bind (F.grows_resetCheck n x) fun _ => grows_bind grows_get hburn)
    (F.noCalls_checkWritable name x).not_newCall h
  obtain ⟨hwr, hs⟩ := F.checkWritable_ok hw
  rw [hs] at h₁
  obtain ⟨_, s₁, hl, h₂⟩ := newCall_bind_right (fun _ => grows_bind (F.grows_resetCheck n x)
    fun _ => grows_bind grows_get hburn) (F.readsOnly_writeLockCheck n x).not_newCall_write h₁
  obtain ⟨_, s₂, hr, h₃⟩ := newCall_bind_right (fun _ => grows_bind grows_get hburn)
    (F.readsOnly_resetCheck n x).not_newCall_write h₂
  obtain ⟨_, _, hg, h₄⟩ := newCall_bind_right hburn noCalls_get.not_newCall h₃
  cases hg
  obtain ⟨hc, rfl⟩ := newCall_writeFuse (newCall_bind_left (fun _ => noCalls_lockAfterWrite x _) h₄)
  cases hc
  exact ⟨s₁, s₂, hj, hwr, hl, hr, rfl, rfl, rfl⟩

/-! ## 3. The guard of a `write_fuse` -/

@[simp] theorem effectiveLock_always (lock : Bool) : effectiveLock .always lock = true := by
  cases lock <;> rfl

@[simp] theorem effectiveLock_implicit (lock : Bool) : effectiveLock .implicit lock = false := by
  cases lock <;> rfl

@[simp] theorem effectiveLock_never (lock : Bool) : effectiveLock .never lock = lock := by
  cases lock <;> rfl

/-- What holds when the step of `write_single_reg` on `r`, started in `t` with the caller's lock
    flag `lock`, calls `write_fuse(i, v, l)` at position `k` of the log. -/
structure WriteGuard (n : Nat) (lock : Bool) (r : Uid) (t : FusesState) (k i : Nat) (l : Bool) :
    Prop where
  leaf : F.fuseRegs.hasGroupRegisters r = false
  otp : (F.fuseRegs.reg r).otpIndex = some i
  writable : (F.fuseRegs.reg r).access.isWritable = true
  /-- the lock fuse was read first in the step, and `WRITE_LOCK` was then no active lock of `r` -/
  lockFuse : ∀ L, F.fuseRegs.getLockFuse r = some L → ∃ v t₁,
    F.readSingle n L L (L != r) t = .ok v t₁ ∧ FuseLock.writeLock ∉ t₁.activeLocks r
  /-- under `ALWAYS` and `IMPLICIT`, `r` was read where the lock check ended, and the word was
      its reset value -/
  reset : (F.fuseRegs.reg r).individualWriteLock = .always ∨
      (F.fuseRegs.reg r).individualWriteLock = .implicit →
    ∃ t₂, F.readSingle n r r true (outState (F.writeLockCheck n r t)) =
      .ok (F.fuseRegs.reg r).resetValue t₂ ∧ t₂.calls.length = k
  /-- the `write_fuse` is the call right after the checks -/
  pos : k = (outState ((F.writeLockCheck n r >>= fun _ => F.resetCheck n r) t)).calls.length
  lockFlag : ((F.fuseRegs.reg r).individualWriteLock = .always → l = true) ∧
    ((F.fuseRegs.reg r).individualWriteLock = .implicit → l = false) ∧
    ((F.fuseRegs.reg r).individualWriteLock = .never → l = lock)

theorem writeGuard_of_newCall {n : Nat} {name : String} {r : Uid} {lock : Bool} {t : FusesState}
    {k i v : Nat} {l : Bool} (hleaf : F.fuseRegs.hasGroupRegisters r = false)
    (h : NewCall (F.writeSingleReg n name r lock) t k (.writeFuse i v l)) :
    F.WriteGuard n lock r t k i l := by
  obtain ⟨s₁, s₂, hi, hw, hl, hr, rfl, -, rfl⟩ := F.newCall_writeSingleReg h
  refine ⟨hleaf, hi, hw, fun L hL => ?_, fun hp => ?_, ?_, ?_⟩
  · obtain ⟨v, hv, hlk⟩ := (F.writeLockCheck_ok hl).1 L hL
    exact ⟨v, s₁, hv, hlk⟩
  · exact ⟨s₂, by rw [hl, outState_ok]; exact (F.resetCheck_ok hr).1 hp, rfl⟩
  · rw [bind_ok hl, hr, outState_ok]
  · refine ⟨fun hp => ?_, fun hp => ?_, fun hp => ?_⟩ <;> simp [hp]

/-! ## 4. The targets of `write_single` -/

theorem targets_nodup (x : Uid) : (F.targets x).Nodup := by
  unfold targets FuseRegisters.leaves
  split
  exacts [F.fuseRegs.subRegs_nodup x, List.nodup_singleton x]

theorem hasGroupRegisters_of_mem_targets {x y : Uid} (hy : y ∈ F.targets x) :
    F.fuseRegs.hasGroupRegisters y = false := by
  unfold targets FuseRegisters.leaves at hy
  split at hy
  · exact F.fuseRegs.hasGroupRegisters_of_mem hy
  · rename_i hg
    rw [List.mem_singleton.mp hy]
    simpa using hg

/-- The call of `write_single` on `x` is one of the step on a target, after the steps before it. -/
theorem newCall_writeReg {n : Nat} {name : String} {x : Uid} {lock : Bool} {s : FusesState}
    {k : Nat} {call : OperatorCall} (h : NewCall (F.writeReg n name x lock) s k call) :
    ∃ pre r post t, F.targets x = pre ++ r :: post ∧
      (pre.forM fun y => F.writeSingleReg n name y lock) s = .ok ⟨⟩ t ∧
      NewCall (F.writeSingleReg n name r lock) t k call := by
  unfold writeReg at h
  unfold targets FuseRegisters.leaves
  split at h
  · rw [if_pos ‹_›]
    exact newCall_forM (fun y _ => F.grows_writeSingleReg n name y lock) h
  · rw [if_neg ‹_›]
    exact ⟨[], x, [], s, rfl, rfl, h⟩

/-- The state the step on the target `r` starts in when `write_single` on `x` runs from `s`:
    where the steps of the targets before `r` left it. -/
def stepStart (n : Nat) (name : String) (x : Uid) (lock : Bool) (s : FusesState) (r : Uid) :
    FusesState :=
  outState ((((F.targets x).takeWhile (· != r)).forM fun y => F.writeSingleReg n name y lock) s)

theorem writeReg_writeFuse_guarded {n : Nat} {name : String} {x : Uid} {lock : Bool}
    {s : FusesState} {k i v : Nat} {l : Bool}
    (h : NewCall (F.writeReg n name x lock) s k (.writeFuse i v l)) :
    ∃ r, r ∈ F.targets x ∧ F.WriteGuard n lock r (F.stepStart n name x lock s r) k i l := by
  obtain ⟨pre, r, post, t, hsplit, hpre, h⟩ := F.newCall_writeReg h
  have hmem : r ∈ F.targets x := hsplit ▸ List.mem_append_right pre (List.mem_cons_self r post)
  have hr : r ∉ pre := fun hm =>
    List.disjoint_of_nodup_append (hsplit ▸ F.targets_nodup x) hm (List.mem_cons_self r post)
  have hstart : F.stepStart n name x lock s r = t := by
    rw [stepStart, hsplit, List.takeWhile_append_of_pos
      fun a ha => bne_iff_ne.mpr (by rintro rfl; exact hr ha),
      List.takeWhile_cons_of_neg (by simp), List.append_nil, hpre, outState_ok]
  exact ⟨r, hmem, hstart ▸ F.writeGuard_of_newCall (F.hasGroupRegisters_of_mem_targets hmem) h⟩

/-- **The write guard of `write_single`.** Every `write_fuse(i, v, l)` that
    `write_single(name, lock)` makes is for a target `r` of `name`'s register, and the checks of
    `WriteGuard` passed in `r`'s own step, from the state that step started in (where the steps
    of the targets before `r` left it): `r` is physical, at OTP index `i` and writable; its lock
    fuse was read first and left `WRITE_LOCK` inactive; under `ALWAYS` and `IMPLICIT` it was read
    back at its reset value right after; the call comes right after these checks, so once per
    target; and `l` is the effective lock flag. The same holds of the `write_single` of each
    name of `write_multiple`, from where the names before it left the state. -/
theorem writeSingle_writeFuse_guarded (n : Nat) (s : FusesState) :
    (∀ name lock k i v l, NewCall (F.writeSingle n name lock) s k (.writeFuse i v l) →
      ∃ x r, F.fuseRegs.findReg name = some x ∧ r ∈ F.targets x ∧
        F.WriteGuard n lock r (F.stepStart n name x lock s r) k i l) ∧
    (∀ names k i v l, NewCall (F.writeMultiple n names) s k (.writeFuse i v l) →
      ∃ j name x r, names[j]? = some name ∧ F.fuseRegs.findReg name = some x ∧
        r ∈ F.targets x ∧
        F.WriteGuard n false r
          (F.stepStart n x x false (outState (F.writeMultiple n (names.take j) s)) r) k i l) := by
  have hw : ∀ name x lock, Grows (F.writeReg n name x lock) := F.grows_writeReg n
  refine ⟨fun name lock k i v l h => ?_, fun names k i v l h => ?_⟩
  · obtain ⟨x, hx, h⟩ := F.newCall_findRegM_bind (fun x => hw name x lock) h
    obtain ⟨r, hr, hg⟩ := F.writeReg_writeFuse_guarded h
    exact ⟨x, r, hx, hr, hg⟩
  · obtain ⟨pre, name, post, t, rfl, hpre, h⟩ := newCall_forM
      (fun name _ => grows_bind (F.noCalls_findRegM name).grows fun x => hw x x false) h
    obtain ⟨x, hx, h⟩ := F.newCall_findRegM_bind (fun x => hw x x false) h
    obtain ⟨r, hr, hg⟩ := F.writeReg_writeFuse_guarded h
    have hj : (pre ++ name :: post)[pre.length]? = some name := by
      rw [List.getElem?_append_right (le_refl _), Nat.sub_self, List.getElem?_cons_zero]
    have ht : outState (F.writeMultiple n ((pre ++ name :: post).take pre.length) s) = t := by
      rw [List.take_left' rfl]
      exact congrArg outState hpre
    exact ⟨pre.length, name, x, r, hj, hx, hr, ht ▸ hg⟩

end Fuses

end Spsdk
