import SpsdkFuses.Coherence
import SpsdkFuses.Context
import SpsdkFuses.Script

/-
  File:      SpsdkFuses/Backup.lean
  Subject:   `read_all` followed by `create_fuse_script`: the script dumps the device and burns
             back the words it answered.

  `read_all` reads every register it can and keeps those it could as the context;
  `create_fuse_script` then renders one block per physical register of the context. The word a
  block burns is `to_raw` of the device's answer to the last read of its OTP index that returned
  during `read_all`, as `set_value` stored it.

  * `readReg_readAt`, `readSingle_leaf_readAt`, `readSingle_readAt` -- a `read_single` that
    returned read the OTP word of every physical register of its register, and the device
    answered;
  * `forM_ok_mem`, `ScanRun.calls_grow`, `scanRun_readAt` -- so did the loop of `read_all` for
    every register it kept;
  * `BurnsBack`, `readAll_fuseScript` -- the script after `read_all`: the header and one block per
    physical register of the context, whose command burns back the word read.
-/

namespace Spsdk

namespace Fuses

variable (F : Fuses)

/-! ## 1. What a read that returned read -/

/-- From position `a` of `calls` on, a `read_fuse` of the OTP index of `z` returned. -/
def ReadSince (calls : List OperatorCall) (a : Nat) (z : Uid) : Prop :=
  ∃ i k w, (F.fuseRegs.reg z).otpIndex = some i ∧ a ≤ k ∧ F.ReadAt calls k i w

section Reads

variable {F} {s s' : FusesState}

theorem ReadSince.mono {calls calls' : List OperatorCall} {a a' : Nat} {z : Uid}
    (hp : calls <+: calls') (ha : a ≤ a') (h : F.ReadSince calls a' z) : F.ReadSince calls' a z :=
  let ⟨i, k, w, hi, hk, hr⟩ := h
  ⟨i, k, w, hi, ha.trans hk, hr.prefix hp⟩

/-- Each element's step of a `forM` that returned ran between the loop's start and its end. -/
theorem forM_ok_mem {α : Type} {l : List α} {f : α → FuseM PUnit} (hf : ∀ a ∈ l, Grows (f a))
    (h : l.forM f s = .ok ⟨⟩ s') :
    ∀ a ∈ l, ∃ t t', f a t = .ok ⟨⟩ t' ∧ s.calls <+: t.calls ∧ t'.calls <+: s'.calls := by
  induction l generalizing s with
  | nil => nofun
  | cons b l ih =>
    obtain ⟨⟨⟩, s₁, hb, hl⟩ := bind_eq_ok h
    have hl' := fun a ha => hf a (List.mem_cons_of_mem b ha)
    intro a ha
    rcases List.mem_cons.mp ha with rfl | ha
    · exact ⟨s, s₁, hb, List.prefix_refl _, (grows_forM hl').calls_grow hl⟩
    · obtain ⟨t, t', ht, hst, ht'⟩ := ih hl' hl a ha
      exact ⟨t, t', ht, ((hf b (List.mem_cons_self b l)).calls_grow hb).trans hst, ht'⟩

/-- The read of a physical register made its `read_fuse` as the next call, and answered what the
    device answered. -/
theorem readReg_readAt {x : Uid} {w : Nat} (h : F.readReg x s = .ok w s') :
    ∃ i, (F.fuseRegs.reg x).otpIndex = some i ∧ F.ReadAt s'.calls s.calls.length i w := by
  obtain ⟨i, s₁, hi, hr, rfl⟩ := F.readReg_ok h
  rcases readFuse_cases hr with ⟨-, h'⟩ | ⟨op, hop, hout, hok, -⟩
  · cases h'
  · refine ⟨i, hi, ?_⟩
    change F.ReadAt s₁.calls _ i w
    rw [show s₁.calls = s.calls ++ [.readFuse i] from congrArg FusesState.calls hout]
    exact readAt_append_single.mpr ⟨rfl, op, hop, hok w s₁ rfl⟩

/-- A `read_single` that returned had fuel left, passed its checks, which only read, and then
    read its register as a group or as a physical register. -/
theorem readSingle_ok_branch {n : Nat} {name : String} {x : Uid} {c : Bool} {v : Nat}
    (h : F.readSingle n name x c s = .ok v s') :
    ∃ m s₂, n = m + 1 ∧ s.calls.length ≤ s₂.calls.length ∧
      (if F.fuseRegs.hasGroupRegisters x then F.readGroup (fun y c => F.readSingle m y y c) x
        else F.readReg x) s₂ = .ok v s' := by
  cases n with
  | zero => cases h
  | succ m =>
    rw [readSingle_succ] at h
    obtain ⟨_, s₁, h₁, h⟩ := bind_eq_ok h
    obtain ⟨_, s₂, h₂, h⟩ := bind_eq_ok h
    exact ⟨m, s₂, rfl, ((F.noCalls_checkReadable name x).grows.length_le h₁).trans
      ((F.grows_readLockCheck (fun y c => F.grows_readSingle m y y c) x c).length_le h₂), h⟩

theorem readSingle_leaf_readAt {n : Nat} {name : String} {x : Uid} {c : Bool} {v : Nat}
    (hx : F.fuseRegs.hasGroupRegisters x = false) (h : F.readSingle n name x c s = .ok v s') :
    ∃ i k, (F.fuseRegs.reg x).otpIndex = some i ∧ s.calls.length ≤ k ∧ F.ReadAt s'.calls k i v := by
  obtain ⟨_, s₂, -, hs₂, h⟩ := readSingle_ok_branch h
  rw [hx, if_neg Bool.false_ne_true] at h
  obtain ⟨i, hi, hr⟩ := readReg_readAt h
  exact ⟨i, _, hi, hs₂, hr⟩

/-- **A `read_single` that returned read its register in full**: the OTP word of each of its
    physical registers (the register itself, or the members of a group) was read since the call
    began, and the device answered. -/
theorem readSingle_readAt {n : Nat} {name : String} {x : Uid} {c : Bool} {v : Nat}
    (h : F.readSingle n name x c s = .ok v s') :
    ∀ z ∈ F.fuseRegs.leaves x, F.ReadSince s'.calls s.calls.length z := by
  intro z hz
  unfold FuseRegisters.leaves at hz
  split at hz
  · -- a group: each member's `read_single` ran inside the loop over the members
    obtain ⟨m, s₂, rfl, hs₂, h⟩ := readSingle_ok_branch h
    rw [if_pos ‹_›] at h
    obtain ⟨⟨⟩, s₃, h₃, h⟩ := bind_eq_ok h
    obtain ⟨t, t', ht, hst, ht'⟩ := forM_ok_mem
      (fun y _ => grows_bind (F.grows_readSingle m y y true) fun _ => grows_pure _) h₃ z hz
    obtain ⟨w, t₁, hw, ht₁⟩ := bind_eq_ok ht
    cases ht₁
    obtain ⟨i, k, hi, hk, hr⟩ := readSingle_leaf_readAt (F.fuseRegs.hasGroupRegisters_of_mem hz) hw
    exact ReadSince.mono (ht'.trans (Grows.calls_grow (F.noCalls_groupTail x).grows h))
      (hs₂.trans hst.length_le) ⟨i, k, w, hi, hk, hr⟩
  · -- a physical register: its own read
    obtain rfl := List.mem_singleton.mp hz
    obtain ⟨i, k, hi, hk, hr⟩ := readSingle_leaf_readAt (Bool.eq_false_iff.mpr ‹_›) h
    exact ⟨i, k, v, hi, hk, hr⟩

theorem ScanRun.calls_grow {n : Nat} {xs ctx : List Uid} (h : F.ScanRun n xs s ctx s') :
    s.calls <+: s'.calls := by
  induction h with
  | nil => exact List.prefix_refl _
  | ok hx _ ih => exact ((F.grows_readSingle _ _ _ _).calls_grow hx).trans ih
  | fail hx _ _ ih => exact ((F.grows_readSingle _ _ _ _).calls_grow_error hx).trans ih

/-- Every register the loop of `read_all` kept was read in full during the loop. -/
theorem scanRun_readAt {n : Nat} {xs ctx : List Uid} (h : F.ScanRun n xs s ctx s') :
    ∀ x ∈ ctx, ∀ z ∈ F.fuseRegs.leaves x, F.ReadSince s'.calls s.calls.length z := by
  induction h with
  | nil => nofun
  | ok hx hrun ih =>
    intro y hy z hz
    rcases List.mem_cons.mp hy with rfl | hy
    · exact (readSingle_readAt hx z hz).mono hrun.calls_grow (le_refl _)
    · exact (ih y hy z hz).mono (List.prefix_refl _) ((F.grows_readSingle _ _ _ _).length_le hx)
  | fail hx _ _ ih =>
    exact fun y hy z hz => (ih y hy z hz).mono (List.prefix_refl _)
      ((F.grows_readSingle _ _ _ _).calls_grow_error hx).length_le

end Reads

/-! ## 2. The script after `read_all` -/

/-- The block `block` of the script for the physical register `y` burns back what the device
    answered between `s` and `s'`: `w` answered the last read of `y`'s OTP word `i` that returned
    since `s`, and the block's command burns `to_raw(w)` into word `i`, with no lock and no
    verify flag, and reads back as that. -/
def BurnsBack (s s' : FusesState) (y : Uid) (block : String) : Prop :=
  ∃ i k w, (F.fuseRegs.reg y).otpIndex = some i ∧ s.calls.length ≤ k ∧ F.ReadAt s'.calls k i w ∧
    F.NoReadFrom s'.calls (k + 1) i ∧
    block = "# Fuse " ++ (F.fuseRegs.reg y).name ++ ", index " ++ toString i ++ " and value: " ++
      ("0x" ++ bytesHex (toBytesBE (((F.fuseRegs.reg y).width + 7) / 8) (F.fuseRegs.toRaw y w))) ++
      ".\n" ++ F.fuseOperatorType.getFuseWriteCmd i (F.fuseRegs.toRaw y w) false false ++ "\n\n" ∧
    F.fuseOperatorType.parseWriteCmd
        (F.fuseOperatorType.getFuseWriteCmd i (F.fuseRegs.toRaw y w) false false).toList =
      some (i, F.fuseRegs.toRaw y w, false)

variable {F}

theorem mem_expandContext {M : FuseRegisters} {ctx : List Uid} {y : Uid}
    (h : y ∈ M.expandContext ctx) : ∃ x ∈ ctx, y ∈ M.leaves x := by
  obtain ⟨x, hx, hy⟩ := List.mem_flatMap.mp h
  refine ⟨x, hx, ?_⟩
  unfold FuseRegisters.leaves
  split at hy
  · rwa [if_pos ‹_›, ← M.mem_subRegsOrdered]
  · rwa [if_neg ‹_›]

/-- The registers `create_fuse_script` renders are physical. -/
theorem hasGroupRegisters_of_mem_expandContext {M : FuseRegisters} {ctx : List Uid} {y : Uid}
    (h : y ∈ M.expandContext ctx) : M.hasGroupRegisters y = false := by
  obtain ⟨x, -, hy⟩ := List.mem_flatMap.mp h
  split at hy
  · exact M.hasGroupRegisters_of_mem (M.mem_subRegsOrdered.mp hy)
  · rw [List.mem_singleton.mp hy]
    exact Bool.eq_false_iff.mpr ‹_›

/-- A physical register of a register of the collection is a physical register of `allRegs`. -/
theorem leaves_mem_allRegs {M : FuseRegisters} {x y : Uid} (hx : x ∈ M.registers)
    (hy : y ∈ M.leaves x) : y ∈ M.allRegs ∧ M.hasGroupRegisters y = false := by
  unfold FuseRegisters.leaves at hy
  split at hy
  · exact ⟨List.mem_append_right _ (List.mem_flatMap.mpr ⟨x, hx, hy⟩), M.hasGroupRegisters_of_mem hy⟩
  · rw [List.mem_singleton.mp hy]
    exact ⟨List.mem_append_left _ hx, Bool.eq_false_iff.mpr ‹_›⟩

theorem ScanRun.mem {n : Nat} {xs ctx : List Uid} {s s' : FusesState}
    (h : F.ScanRun n xs s ctx s') : ∀ x ∈ ctx, x ∈ xs := by
  induction h with
  | nil => nofun
  | ok _ _ ih =>
    intro y hy
    rcases List.mem_cons.mp hy with rfl | hy
    exacts [List.mem_cons_self _ _, List.mem_cons_of_mem _ (ih y hy)]
  | fail _ _ _ ih => exact fun y hy => List.mem_cons_of_mem _ (ih y hy)

/-- **A dump of the device burns back what the device answered.** When no two physical
    registers of the collection share an OTP index, after `read_all` returned,
    `create_fuse_script` that returned renders the operator's header and one block per physical
    register of the context, in order, and each block's command burns into the register's OTP
    word `to_raw` of the device's answer to the last read of that word during `read_all`. -/
theorem readAll_fuseScript (hu : F.fuseRegs.OtpDistinct) {n : Nat} {s s' : FusesState}
    (h : F.readAll n s = .ok () s') {version text : String}
    (ht : F.createFuseScript version s' = .ok text) :
    ∃ blocks, text = scriptHeader F.fuseOperatorType.title version F.family F.revision ++
        String.join blocks ∧
      List.Forall₂ (F.BurnsBack s s') (F.fuseRegs.expandContext s'.fuseContext) blocks := by
  have hcoh : F.Coherent s s' := by
    simpa [h] using keeps_readAll reach_allRegs (coherent_steps hu).toReadSteps n s
  obtain ⟨ctx, s₁, hscan, hset⟩ := bind_eq_ok h
  simp only [setFuseContext, modify_apply] at hset
  cases hset
  obtain ⟨c, rfl, hrun⟩ := F.readAllFrom_ok_scan hscan
  simp only [Fuses.createFuseScript, FuseOperatorType.getFuseScript_eq, fuseScript] at ht
  obtain ⟨blocks, hm, ht⟩ := except_bind_eq_ok.mp ht
  cases ht
  refine ⟨blocks, rfl, ((List.forall₂_and_left _ _).mpr
    ⟨fun y hy => hy, mapM_except_ok hm⟩).imp fun y b ⟨hy, hb⟩ => ?_⟩
  obtain ⟨x, hx, hyx⟩ := mem_expandContext hy
  obtain ⟨hyA, hyg⟩ := leaves_mem_allRegs (hrun.mem x hx) hyx
  obtain ⟨i, hi, -, rfl⟩ := fuseBlock_ok hb
  rcases hcoh.2 y hyA hyg with ⟨-, hno⟩ | ⟨j, k, w, hj, hk, hr, hno, hv⟩
  · obtain ⟨j, k, w, hj, hk, hr⟩ := scanRun_readAt hrun x hx y hyx
    exact absurd hr (hno j hj k w hk)
  · cases hi.symm.trans hj
    refine ⟨i, k, w, hi, hk, hr, hno, ?_, parseWriteCmd_getFuseWriteCmd _ _ _ _ _⟩
    rw [F.fuseRegs.rawValue_of_leaf hyg, hv]

/-- `lockedPairFuses` on a device whose word 3 is `0xCAFEF00D` and every other word `0`. -/
def dumpFuses : Fuses :=
  { lockedPairFuses with operator := some (wordsOperator fun i => if i = 3 then 0xCAFEF00D else 0) }

/-- The state `read_all` leaves on `dumpFuses`. -/
def dumpState : FusesState := outState (dumpFuses.readAll 4 clearState)

/-- The script `create_fuse_script` renders from `dumpState`. -/
def dumpScript : String :=
  "# BLHOST fuses programming script\n# Generated by SPSDK 2.3.0\n# Chip:  rev:latest\n\n\n" ++
  "# Fuse FUSE, index 3 and value: 0xcafef00d.\nefuse-program-once 3 0xCAFEF00D --no-verify\n\n" ++
  "# Fuse LOCK, index 0 and value: 0x00000000.\nefuse-program-once 0 0x0 --no-verify\n\n"

theorem readAll_fuseScript_dump :
    dumpFuses.fuseRegs.OtpDistinct ∧ dumpFuses.readAll 4 clearState = .ok () dumpState ∧
    dumpFuses.createFuseScript "2.3.0" dumpState = .ok dumpScript ∧
    ∃ blocks, dumpScript = scriptHeader dumpFuses.fuseOperatorType.title "2.3.0" dumpFuses.family
        dumpFuses.revision ++ String.join blocks ∧
      List.Forall₂ (dumpFuses.BurnsBack clearState dumpState)
        (dumpFuses.fuseRegs.expandContext dumpState.fuseContext) blocks :=
  ⟨lockedPairRegisters_otpDistinct, rfl, rfl,
    dumpFuses.readAll_fuseScript lockedPairRegisters_otpDistinct
      (rfl : dumpFuses.readAll 4 clearState = .ok () dumpState) rfl⟩

end Fuses

end Spsdk
