import SpsdkFuses.Backup

/-
  File:      SpsdkFuses/BurnRun.lean
  Subject:   The words a run of operations burns: the cached value it started with, or the
             device's answer to the last read of the word.

  `write_single_reg` burns `reg.get_value()` of the moment of its `write_fuse`, after its
  lock-fuse read and its reset check. Over a run the cache follows the device (Coherence.lean), so
  the word burned is the value the register held when the run began, unless its OTP word was read
  in the run before the burn; then it is the word that read returned.

  * `StepBurn`, `BurnsAfterChecks` -- every `write_fuse` of a computation is the one of a
    `write_single_reg` step whose checks passed; `burnsAfterChecks_writeReg` and
    `runOps_stepBurn` lift this from a step to whole runs;
  * `BurnedWord`, `runOps_burns` -- the word each `write_fuse` of a run burns;
  * `runOps_burns_selfLocking` -- a register that is its own lock fuse is read by each of its
    write steps, so it is only ever burned with a word the device answered in the run.
-/

namespace Spsdk

namespace Fuses

variable (F : Fuses)

/-! ## 1. Every burn is a step's, after its checks -/

/-- The call `write_fuse(i, v)` at position `k` of the log `u` of a run from `s` is the one of a
    `write_single_reg` step on a physical register `r` of `K` with OTP index `i`: the step's
    lock-fuse check and reset check passed from a state `t₀` that `R` relates to `s`, and `v` is
    `get_value()` of `r` in the state `t` they left, whose log is `u` up to the call. -/
def StepBurn (n : Nat) (K : Uid → Prop) (R : FusesState → FusesState → Prop) (s : FusesState)
    (u : List OperatorCall) (k i v : Nat) : Prop :=
  ∃ r t₀ t₁ t, K r ∧ F.fuseRegs.hasGroupRegisters r = false ∧
    (F.fuseRegs.reg r).otpIndex = some i ∧ R s t₀ ∧ F.writeLockCheck n r t₀ = .ok () t₁ ∧
    F.resetCheck n r t₁ = .ok () t ∧ t.calls <+: u ∧ t.calls.length = k ∧
    v = F.fuseRegs.getValue t.values r

/-- Every `write_fuse` that `p` makes, run from any state, is a `StepBurn`. -/
def BurnsAfterChecks {α : Type} (n : Nat) (K : Uid → Prop) (R : FusesState → FusesState → Prop)
    (p : FuseM α) : Prop :=
  ∀ s k i v l, NewCall p s k (.writeFuse i v l) → F.StepBurn n K R s (outState (p s)).calls k i v

/-- After its checks passed, a `write_single_reg` step makes its calls after those of the checks. -/
theorem writeSingleReg_calls_after_checks {n : Nat} {name : String} {x : Uid} {lock : Bool}
    {s s₁ s₂ : FusesState} {i : Nat} (hi : (F.fuseRegs.reg x).otpIndex = some i)
    (hw : (F.fuseRegs.reg x).access.isWritable = true) (hl : F.writeLockCheck n x s = .ok () s₁)
    (hr : F.resetCheck n x s₁ = .ok () s₂) :
    s₂.calls <+: (outState (F.writeSingleReg n name x lock s)).calls := by
  have hc : F.checkWritable name x s = .ok () s := by simp [checkWritable, hw]
  simp only [writeSingleReg, hi, bind_ok hc, bind_ok hl, bind_ok hr, bind_ok (get_apply s₂)]
  exact grows_bind (grows_writeFuse _ _ _ _) (fun _ => (noCalls_lockAfterWrite x _).grows) s₂

section Lift

variable {F} {n : Nat} {K : Uid → Prop} {R : FusesState → FusesState → Prop} {α β : Type}

theorem outState_bind_calls {x : FuseM α} {f : α → FuseM β} (hf : ∀ a, Grows (f a))
    (s : FusesState) : (outState (x s)).calls <+: (outState ((x >>= f) s)).calls := by
  cases hx : x s with
  | ok a s' => rw [bind_ok hx]; exact hf a s'
  | error e s' => rw [bind_error hx]; exact List.prefix_refl _

theorem burnsAfterChecks_of_noCalls {p : FuseM α} (h : NoCalls p) : F.BurnsAfterChecks n K R p :=
  fun _ _ _ _ _ hc => absurd hc h.not_newCall

theorem burnsAfterChecks_findRegM_bind {name : String} {f : Uid → FuseM β}
    (h : ∀ x, F.fuseRegs.findReg name = some x → F.BurnsAfterChecks n K R (f x)) :
    F.BurnsAfterChecks n K R (F.findRegM name >>= f) := by
  unfold findRegM
  split
  · exact h _ ‹_›
  · exact fun _ _ _ _ _ hc => absurd hc (noCalls_throw _).not_newCall

/-- A reading operation burns nothing: the calls it adds are `read_fuse` calls. -/
theorem opAfter_not_write {s : FusesState} {o : FusesOp} {k i v : Nat} {l : Bool}
    (hk : s.calls.length ≤ k) (hc : (F.opAfter n s o).calls[k]? = some (.writeFuse i v l))
    (ho : o.isRead = true) : False := by
  obtain ⟨t, ht, hr⟩ := keeps_readOps (R := ReadsOnlyFrom) F.reach_true (fun _ _ _ => trivial)
    F.readsOnly_steps n [o] (fun _ h => by rw [List.mem_singleton.mp h]; exact ho) s
  rw [show F.runOps n s [o] = F.opAfter n s o from rfl] at ht
  rw [ht, List.getElem?_append_right hk] at hc
  cases (hr _ (List.getElem?_mem hc)).choose_spec

variable [IsPreorder FusesState R]

theorem StepBurn.mono {s s' : FusesState} {u u' : List OperatorCall} {k i v : Nat}
    (hR : R s s') (hp : u <+: u') (h : F.StepBurn n K R s' u k i v) : F.StepBurn n K R s u' k i v :=
  let ⟨r, t₀, t₁, t, hr, hleaf, hi, hR', hl, hc, hp', hk, hv⟩ := h
  ⟨r, t₀, t₁, t, hr, hleaf, hi, trans_of R hR hR', hl, hc, hp'.trans hp, hk, hv⟩

theorem burnsAfterChecks_bind {x : FuseM α} {f : α → FuseM β} (hx : F.BurnsAfterChecks n K R x)
    (hkx : Keeps R x) (hf : ∀ a, F.BurnsAfterChecks n K R (f a)) (hg : ∀ a, Grows (f a)) :
    F.BurnsAfterChecks n K R (x >>= f) := fun s k i v l h => by
  rcases newCall_bind hg h with h | ⟨a, s', hs', h⟩
  · exact (hx s k i v l h).mono (refl_of R s) (outState_bind_calls hg s)
  · refine (hf a s' k i v l h).mono (hkx.of_ok hs') ?_
    rw [bind_ok hs']

theorem burnsAfterChecks_forM {l : List α} {f : α → FuseM PUnit}
    (hf : ∀ a ∈ l, F.BurnsAfterChecks n K R (f a)) (hk : ∀ a ∈ l, Keeps R (f a))
    (hg : ∀ a ∈ l, Grows (f a)) : F.BurnsAfterChecks n K R (l.forM f) := by
  induction l with
  | nil => exact burnsAfterChecks_of_noCalls (noCalls_pure _)
  | cons a l ih =>
    have hl : ∀ P : α → Prop, (∀ b ∈ a :: l, P b) → ∀ b ∈ l, P b :=
      fun _ h b hb => h b (List.mem_cons_of_mem a hb)
    exact burnsAfterChecks_bind (hf a (List.mem_cons_self a l)) (hk a (List.mem_cons_self a l))
      (fun _ => ih (hl _ hf) (hl _ hk) (hl _ hg)) fun _ => grows_forM (hl _ hg)

/-- The `write_fuse` of a step is a `StepBurn` from the state the step started in. -/
theorem burnsAfterChecks_writeSingleReg {name : String} {x : Uid} (hx : K x)
    (hleaf : F.fuseRegs.hasGroupRegisters x = false) (lock : Bool) :
    F.BurnsAfterChecks n K R (F.writeSingleReg n name x lock) := fun s _ _ _ _ hc => by
  obtain ⟨s₁, s₂, hi, hw, hl, hr, rfl, rfl, -⟩ := F.newCall_writeSingleReg hc
  exact ⟨x, s, s₁, s₂, hx, hleaf, hi, refl_of R s, hl, hr,
    F.writeSingleReg_calls_after_checks hi hw hl hr, rfl, rfl⟩

theorem burnsAfterChecks_writeReg (hK : Reach F K) (h : WriteSteps F K R) {name : String}
    {x : Uid} (hx : K x) (lock : Bool) : F.BurnsAfterChecks n K R (F.writeReg n name x lock) := by
  unfold writeReg
  split
  · exact burnsAfterChecks_forM
      (fun y hy => burnsAfterChecks_writeSingleReg (hK.subReg x y hx hy)
        (F.fuseRegs.hasGroupRegisters_of_mem hy) lock)
      (fun y hy => keeps_writeSingleReg hK h n name (hK.subReg x y hx hy) lock)
      fun y _ => F.grows_writeSingleReg n name y lock
  · exact burnsAfterChecks_writeSingleReg hx (Bool.eq_false_iff.mpr ‹_›) lock

theorem opAfter_stepBurn (hK : Reach F K) (hfind : ∀ name x, F.fuseRegs.findReg name = some x → K x)
    (h : WriteSteps F K R) (s : FusesState) {k i v : Nat} {l : Bool} :
    ∀ o, s.calls.length ≤ k → (F.opAfter n s o).calls[k]? = some (.writeFuse i v l) →
      F.StepBurn n K R s (F.opAfter n s o).calls k i v
  | .writeSingle name lock, hk, hc => burnsAfterChecks_findRegM_bind (fun x hx =>
      burnsAfterChecks_writeReg hK h (hfind name x hx) lock) s k i v l ⟨hk, hc⟩
  | .writeMultiple _, hk, hc => burnsAfterChecks_forM
      (fun name _ => burnsAfterChecks_findRegM_bind fun x hx =>
        burnsAfterChecks_writeReg hK h (hfind name x hx) false)
      (fun name _ => keeps_findRegM_bind fun x hx => keeps_writeReg hK h n x (hfind name x hx) false)
      (fun name _ => grows_bind (F.noCalls_findRegM name).grows fun x => F.grows_writeReg n x x false)
      s k i v l ⟨hk, hc⟩
  | .readSingle _ _, hk, hc | .readAll, hk, hc => (opAfter_not_write hk hc rfl).elim

/-- **Every burn of a run is a step's.** Each `write_fuse` a run of operations makes, each
    returned or raised, is the one of a `write_single_reg` step whose checks passed from a state
    that every preorder the steps keep relates to the start. -/
theorem runOps_stepBurn (hK : Reach F K) (hfind : ∀ name x, F.fuseRegs.findReg name = some x → K x)
    (h : WriteSteps F K R) (hR : ∀ s t, R s t → s.calls <+: t.calls) :
    ∀ ops s k i v l, s.calls.length ≤ k → (F.runOps n s ops).calls[k]? = some (.writeFuse i v l) →
      F.StepBurn n K R s (F.runOps n s ops).calls k i v
  | [], s, k, _, _, _, hk, hc => by
    rw [show F.runOps n s [] = s from rfl, List.getElem?_eq_none hk] at hc
    cases hc
  | o :: ops, s, k, i, v, l, hk, hc => by
    have hrest := hR _ _ (keeps_runOps hK hfind h n ops (F.opAfter n s o))
    by_cases hlt : k < (F.opAfter n s o).calls.length
    · have hc' : (F.opAfter n s o).calls[k]? = some (.writeFuse i v l) := by
        rwa [← calls_getElem?_of_lt hrest hlt]
      exact (opAfter_stepBurn hK hfind h s o hk hc').mono (refl_of R s) hrest
    · exact (runOps_stepBurn hK hfind h hR ops _ k i v l (Nat.le_of_not_lt hlt) hc).mono
        (keeps_opAfter hK hfind h n s o) (List.prefix_refl _)

end Lift

/-! ## 2. The word burned -/

/-- The word `v` burned into the OTP word `i` at position `k` of the log `calls` of a run from `s`
    is `get_value()` of a physical register `r` of the collection with OTP index `i`: of the raw
    value `r` held in `s` when no `read_fuse(i)` returned in the run before `k`, and otherwise of
    `to_raw(w)`, `w` the answer to the last `read_fuse(i)` that returned before `k`. -/
def BurnedWord (s : FusesState) (calls : List OperatorCall) (k i v : Nat) : Prop :=
  ∃ r ∈ F.fuseRegs.allRegs, F.fuseRegs.hasGroupRegisters r = false ∧
    (F.fuseRegs.reg r).otpIndex = some i ∧
    ((∀ k' w, s.calls.length ≤ k' → k' < k → ¬ F.ReadAt calls k' i w) ∧
        v = F.fuseRegs.fromRaw r (s.values r) ∨
      ∃ k' w, s.calls.length ≤ k' ∧ k' < k ∧ F.ReadAt calls k' i w ∧
        (∀ k'' w', k' < k'' → k'' < k → ¬ F.ReadAt calls k'' i w') ∧
        v = F.fuseRegs.fromRaw r (F.fuseRegs.toRaw r w))

variable {F}

/-- `lockedPairFuses` with `5` loaded into `FUSE` and the lock word `2` (`WRITE_LOCK` for both
    registers) into `LOCK`. -/
def lockLoadedState : FusesState :=
  { clearState with values := fun x => if x = "LOCK" then 2 else 5 }

/-- **What a run burns.** When `find_reg` finds only registers of the collection and its
    physical registers have distinct OTP indices, every `write_fuse(i, v, l)` of any run of
    `read_single`, `read_all`, `write_single` and `write_multiple` calls, each returned or raised,
    on any device, burns a `BurnedWord`: the value the register held when the run began, or the
    word the device answered to the last read of `i` before the burn. -/
theorem runOps_burns (hf : ∀ name x, F.fuseRegs.findReg name = some x → x ∈ F.fuseRegs.allRegs)
    (hu : F.fuseRegs.OtpDistinct) (n : Nat) (s : FusesState) (ops : List FusesOp) {k i v : Nat}
    {l : Bool} (hk : s.calls.length ≤ k)
    (hc : (F.runOps n s ops).calls[k]? = some (.writeFuse i v l)) :
    F.BurnedWord s (F.runOps n s ops).calls k i v := by
  have hsteps := coherent_steps hu
  obtain ⟨r, t₀, t₁, t, hr, hleaf, hi, hR, hl, hrc, hp, rfl, rfl⟩ :=
    runOps_stepBurn reach_allRegs hf hsteps (fun _ _ h => h.1) ops s k i v l hk hc
  have hcoh : F.Coherent s t := coherent_trans (coherent_trans hR
    ((keeps_writeLockCheck reach_allRegs hsteps.toReadSteps n hr).of_ok hl))
    ((keeps_resetCheck reach_allRegs hsteps.toReadSteps n hr).of_ok hrc)
  refine ⟨r, hr, hleaf, hi, ?_⟩
  rw [FuseRegisters.getValue, F.fuseRegs.rawValue_of_leaf hleaf]
  rcases hcoh.2 r hr hleaf with ⟨hv, hno⟩ | ⟨j, k', w, hj, hk', hra, hno, hv⟩
  · exact .inl ⟨fun k' w h₁ h₂ hra => hno i hi k' w h₁ (hra.of_prefix hp h₂), by rw [hv]⟩
  · cases hi.symm.trans hj
    exact .inr ⟨k', w, hk', hra.lt_length, hra.prefix hp,
      fun k'' w' h₁ h₂ hr'' => hno k'' w' h₁ (hr''.of_prefix hp h₂), by rw [hv]⟩

theorem runOps_burns_lockLoaded :
    (∀ name x, lockedPairFuses.fuseRegs.findReg name = some x →
      x ∈ lockedPairFuses.fuseRegs.allRegs) ∧ lockedPairFuses.fuseRegs.OtpDistinct ∧
    lockLoadedState.calls.length ≤ 2 ∧
    (lockedPairFuses.runOps 4 lockLoadedState [.writeMultiple ["FUSE", "LOCK"]]).calls[2]? =
      some (.writeFuse 3 5 false) ∧
    lockedPairFuses.BurnedWord lockLoadedState
      (lockedPairFuses.runOps 4 lockLoadedState [.writeMultiple ["FUSE", "LOCK"]]).calls 2 3 5 :=
  have hc : (lockedPairFuses.runOps 4 lockLoadedState [.writeMultiple ["FUSE", "LOCK"]]).calls[2]? =
      some (.writeFuse 3 5 false) := rfl
  ⟨lockedPairFuses_findReg_mem, lockedPairRegisters_otpDistinct, Nat.zero_le _, hc,
    runOps_burns lockedPairFuses_findReg_mem lockedPairRegisters_otpDistinct 4 _ _ (Nat.zero_le _) hc⟩

/-- The checks of a step on a register that is its own lock fuse read its OTP word, last among
    their reads, and leave the word read as its raw value. -/
theorem checks_read_selfLocking {n : Nat} {r : Uid} {t₀ t₁ t : FusesState} {i : Nat}
    (hleaf : F.fuseRegs.hasGroupRegisters r = false) (hi : (F.fuseRegs.reg r).otpIndex = some i)
    (hself : F.fuseRegs.getLockFuse r = some r) (hl : F.writeLockCheck n r t₀ = .ok () t₁)
    (hr : F.resetCheck n r t₁ = .ok () t) :
    ∃ k w, t₀.calls.length ≤ k ∧ F.ReadAt t.calls k i w ∧
      F.fuseRegs.rawValue t.values r = F.fuseRegs.toRaw r w := by
  have hread : ∀ {c : Bool} {u u' : FusesState} {w : Nat}, F.readSingle n r r c u = .ok w u' →
      ∃ k, u.calls.length ≤ k ∧ F.ReadAt u'.calls k i w ∧
        F.fuseRegs.rawValue u'.values r = F.fuseRegs.toRaw r w := fun h => by
    obtain ⟨j, k, hj, hk, hra⟩ := readSingle_leaf_readAt hleaf h
    cases hi.symm.trans hj
    exact ⟨k, hk, hra, F.readSingle_stores_encoded hleaf h⟩
  obtain ⟨w₁, hw₁, -⟩ := (F.writeLockCheck_ok hl).1 r hself
  by_cases hp : (F.fuseRegs.reg r).individualWriteLock = .always ∨
      (F.fuseRegs.reg r).individualWriteLock = .implicit
  · -- the reset check read the word again
    obtain ⟨k, hk, hra, hv⟩ := hread ((F.resetCheck_ok hr).1 hp)
    exact ⟨k, _, ((F.grows_readSingle n r r _).length_le hw₁).trans hk, hra, hv⟩
  · -- under `NEVER` the lock-fuse read was the last
    obtain rfl : t = t₁ := (F.resetCheck_ok hr).2 (by
      cases hq : (F.fuseRegs.reg r).individualWriteLock <;> simp [hq] at hp ⊢)
    obtain ⟨k, hk, hra, hv⟩ := hread hw₁
    exact ⟨k, _, hk, hra, hv⟩

/-- **A self-locking fuse is burned only with a word just read.** Under the assumptions of
    `runOps_burns`, when a `write_fuse(i, v, l)` of a run burns a physical register `r` that is
    its own lock fuse, the step read `r`'s OTP word `i` in the run before the burn, and `v` is
    `get_value()` of `to_raw(w)` for the word `w` the device answered: the value `r` held before,
    from `load_config` or set by a caller, is never burned. -/
theorem runOps_burns_selfLocking
    (hf : ∀ name x, F.fuseRegs.findReg name = some x → x ∈ F.fuseRegs.allRegs)
    (hu : F.fuseRegs.OtpDistinct) (n : Nat) (s : FusesState) (ops : List FusesOp) {k i v : Nat}
    {l : Bool} (hk : s.calls.length ≤ k)
    (hc : (F.runOps n s ops).calls[k]? = some (.writeFuse i v l)) {r : Uid}
    (hr : r ∈ F.fuseRegs.allRegs) (hleaf : F.fuseRegs.hasGroupRegisters r = false)
    (hi : (F.fuseRegs.reg r).otpIndex = some i) (hself : F.fuseRegs.getLockFuse r = some r) :
    ∃ k' w, s.calls.length ≤ k' ∧ k' < k ∧ F.ReadAt (F.runOps n s ops).calls k' i w ∧
      v = F.fuseRegs.fromRaw r (F.fuseRegs.toRaw r w) := by
  obtain ⟨r', t₀, t₁, t, hr', hleaf', hi', hR, hl, hrc, hp, rfl, rfl⟩ :=
    runOps_stepBurn reach_allRegs hf (coherent_steps hu) (fun _ _ h => h.1) ops s k i v l hk hc
  cases hu r hr r' hr' hleaf hleaf' i hi hi'
  obtain ⟨k', w, hk', hra, hv⟩ := F.checks_read_selfLocking hleaf hi hself hl hrc
  exact ⟨k', w, hR.1.length_le.trans hk', hra.lt_length, hra.prefix hp,
    by rw [FuseRegisters.getValue, hv]⟩

theorem runOps_burns_selfLocking_lockLoaded :
    (∀ name x, lockedPairFuses.fuseRegs.findReg name = some x →
      x ∈ lockedPairFuses.fuseRegs.allRegs) ∧ lockedPairFuses.fuseRegs.OtpDistinct ∧
    lockLoadedState.calls.length ≤ 4 ∧
    (lockedPairFuses.runOps 4 lockLoadedState [.writeMultiple ["FUSE", "LOCK"]]).calls[4]? =
      some (.writeFuse 0 0 false) ∧
    "LOCK" ∈ lockedPairFuses.fuseRegs.allRegs ∧
    lockedPairFuses.fuseRegs.hasGroupRegisters "LOCK" = false ∧
    (lockedPairFuses.fuseRegs.reg "LOCK").otpIndex = some 0 ∧
    lockedPairFuses.fuseRegs.getLockFuse "LOCK" = some "LOCK" ∧
    ∃ k' w, lockLoadedState.calls.length ≤ k' ∧ k' < 4 ∧ lockedPairFuses.ReadAt
      (lockedPairFuses.runOps 4 lockLoadedState [.writeMultiple ["FUSE", "LOCK"]]).calls k' 0 w ∧
      0 = lockedPairFuses.fuseRegs.fromRaw "LOCK" (lockedPairFuses.fuseRegs.toRaw "LOCK" w) :=
  have hc : (lockedPairFuses.runOps 4 lockLoadedState [.writeMultiple ["FUSE", "LOCK"]]).calls[4]? =
      some (.writeFuse 0 0 false) := rfl
  have hmem : "LOCK" ∈ lockedPairFuses.fuseRegs.allRegs := by
    rw [show lockedPairFuses.fuseRegs = lockedPairRegisters from rfl, lockedPairRegisters_allRegs]
    simp
  ⟨lockedPairFuses_findReg_mem, lockedPairRegisters_otpDistinct, Nat.zero_le _, hc, hmem, rfl, rfl,
    rfl, runOps_burns_selfLocking lockedPairFuses_findReg_mem lockedPairRegisters_otpDistinct 4 _ _
      (Nat.zero_le _) hc hmem rfl rfl rfl⟩

end Fuses

end Spsdk
