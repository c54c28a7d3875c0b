import SpsdkFuses.ReadGuard

/-
  File:      SpsdkFuses/Context.lean
  Subject:   `fuse_context`, the registers the last operation touched.

  `load_config`, `read_single` and `read_all` set `fuse_context` as their last step; `write_single`
  and `write_multiple` never set it, and their nested `read_single`s (of a lock fuse, or of the
  register itself for the reset check) each set it to the register they read.

  * `readSingle_context`, `loadConfig_context`, `readAllFrom_ok_scan` -- the context after each
    setting operation returned;
  * `contextAfterWrite`, `writeSingleReg_context` -- the context a write step leaves: that of its
    last nested read, or the one it found;
  * `fuseContext_of_ok` -- the five operations together;
  * `lockedPair_context` -- `write_single` leaves the context of its lock-fuse read, and a
    `read_single` that raised leaves the context of the read before.
-/

namespace Spsdk

namespace Fuses

variable (F : Fuses)

/-! ## 1. The context each operation sets -/

section Context

variable {s s' : FusesState}

theorem readGroup_ok {rd : Uid → Bool → FuseM Nat} {x : Uid} {v : Nat}
    (h : F.readGroup rd x s = .ok v s') :
    s'.fuseContext = [x] ∧ v = F.fuseRegs.getValue s'.values x := by
  obtain ⟨_, s₁, -, h⟩ := bind_eq_ok h
  obtain ⟨_, s₂, hc, h⟩ := bind_eq_ok h
  obtain ⟨_, _, hg, h⟩ := bind_eq_ok h
  simp only [setFuseContext, modify_apply, get_apply] at hc hg
  cases hc
  cases hg
  cases h
  exact ⟨rfl, rfl⟩

/-- **`read_single` that returned leaves its register as the context**, whatever its nested reads
    of lock fuses and members set before. -/
theorem readSingle_context {n : Nat} {name : String} {x : Uid} {c : Bool} {v : Nat}
    (h : F.readSingle n name x c s = .ok v s') : s'.fuseContext = [x] := by
  cases n with
  | zero => cases h
  | succ n =>
    rw [readSingle_succ] at h
    obtain ⟨_, _, -, h⟩ := bind_eq_ok h
    obtain ⟨_, _, -, h⟩ := bind_eq_ok h
    by_cases hg : F.fuseRegs.hasGroupRegisters x = true
    · rw [if_pos hg] at h
      exact (F.readGroup_ok h).1
    · rw [if_neg hg] at h
      obtain ⟨_, _, -, -, rfl⟩ := F.readReg_ok h
      rfl

theorem mapM_findRegM_ok {ps : List (String × RegisterConfig)} {xs : List Uid}
    (h : (ps.mapM fun p => F.findRegM p.1) s = .ok xs s') :
    xs.map some = ps.map (fun p => F.fuseRegs.findReg p.1) ∧ s' = s := by
  induction ps generalizing xs s with
  | nil => cases h; exact ⟨rfl, rfl⟩
  | cons p ps ih =>
    rw [List.mapM_cons] at h
    obtain ⟨x, s₁, hx, h⟩ := bind_eq_ok h
    obtain ⟨xs', s₂, hxs, h⟩ := bind_eq_ok h
    cases h
    obtain ⟨hfx, rfl⟩ := F.findRegM_ok hx
    obtain ⟨hfxs, rfl⟩ := ih hxs
    exact ⟨by simp [hfx, hfxs], rfl⟩

/-- `load_config` that returned leaves the registers of the configuration, in order, as the
    context. -/
theorem loadConfig_context {cfg : FusesConfig} {u : Unit} (h : F.loadConfig cfg s = .ok u s') :
    s'.fuseContext.map some = cfg.registers.map fun p => F.fuseRegs.findReg p.1 := by
  unfold loadConfig at h
  cases hc : F.checkConfig cfg with
  | error e => simp only [hc, bind_error (throw_apply e s)] at h; cases h
  | ok u =>
  simp only [hc] at h
  obtain ⟨_, _, -, h⟩ := bind_eq_ok h
  obtain ⟨_, _, -, h⟩ := bind_eq_ok h
  obtain ⟨xs, _, hm, h⟩ := bind_eq_ok h
  simp only [setFuseContext, modify_apply] at h
  cases h
  exact (F.mapM_findRegM_ok hm).1

/-- The loop of `read_all` that returned ran as `ScanRun` says. -/
theorem readAllFrom_ok_scan {n : Nat} {ctx ctx' : List Uid} {xs : List Uid}
    (h : F.readAllFrom n ctx xs s = .ok ctx' s') : ∃ c, ctx' = ctx ++ c ∧ F.ScanRun n xs s c s' := by
  induction xs generalizing ctx s with
  | nil => cases h; exact ⟨[], by simp, .nil _⟩
  | cons x xs ih =>
    simp only [readAllFrom] at h
    cases hr : F.readSingle n x x true s with
    | ok v s₁ =>
      simp only [hr] at h
      obtain ⟨c, rfl, hrun⟩ := ih h
      exact ⟨x :: c, by simp, .ok hr hrun⟩
    | error e s₁ =>
      simp only [hr] at h
      by_cases he : e.isFuseOperationFailure = true
      · rw [if_pos he] at h
        obtain ⟨c, rfl, hrun⟩ := ih h
        exact ⟨c, rfl, .fail hr he hrun⟩
      · rw [if_neg he] at h
        cases h

end Context

/-! ## 2. The context a write leaves -/

/-- The context after `write_single_reg(r)` returned, from the context `ctx` it found: that of
    its last nested `read_single`, the reset check's read of `r` under `ALWAYS` and `IMPLICIT`,
    else the read of `r`'s lock fuse, and `ctx` itself when the step read nothing. -/
def contextAfterWrite (r : Uid) (ctx : List Uid) : List Uid :=
  match (F.fuseRegs.reg r).individualWriteLock, F.fuseRegs.getLockFuse r with
  | .never, some l => [l]
  | .never, none => ctx
  | _, _ => [r]

section Write

variable {s s' : FusesState}

theorem writeFuse_ok_context {op : Option FuseOperator} {i v : Nat} {l : Bool} {u : Unit}
    (h : writeFuse op i v l s = .ok u s') : s'.fuseContext = s.fuseContext := by
  rcases writeFuse_cases h with ⟨-, h⟩ | ⟨_, -, h, -⟩
  · cases h
  · rw [outState_ok] at h
    rw [h]

/-- A loop whose every iteration that returned moves the context by `g` moves it by the fold. -/
theorem forM_context {α : Type} {l : List α} {f : α → FuseM PUnit} {g : α → List Uid → List Uid}
    (hf : ∀ a ∈ l, ∀ {s u s'}, f a s = .ok u s' → s'.fuseContext = g a s.fuseContext) :
    ∀ {s u s'}, l.forM f s = .ok u s' → s'.fuseContext = l.foldl (fun ctx a => g a ctx) s.fuseContext := by
  induction l with
  | nil => intro s u s' h; cases h; rfl
  | cons a l ih =>
    intro s u s' h
    obtain ⟨_, s₁, h₁, h⟩ := bind_eq_ok h
    rw [ih (fun b hb => hf b (List.mem_cons_of_mem a hb)) h, hf a (List.mem_cons_self a l) h₁]
    rfl

/-- **A `write_single_reg` step that returned** leaves the context of its last nested
    `read_single`, not its register's. -/
theorem writeSingleReg_context {n : Nat} {name : String} {r : Uid} {lock : Bool} {u : Unit}
    (h : F.writeSingleReg n name r lock s = .ok u s') :
    s'.fuseContext = F.contextAfterWrite r s.fuseContext := by
  obtain ⟨i, s₁, s₂, s₃, -, -, hl, hr, hf, rfl⟩ := F.writeSingleReg_ok h
  have hlock (b : Bool) : (lockAfterWrite r b s₃).fuseContext = s₂.fuseContext := by
    rw [← writeFuse_ok_context hf, lockAfterWrite]
    split <;> rfl
  obtain ⟨hp, hn⟩ := F.resetCheck_ok hr
  obtain ⟨hsome, hnone⟩ := F.writeLockCheck_ok hl
  rw [hlock]
  cases hpol : (F.fuseRegs.reg r).individualWriteLock with
  | always => simpa [contextAfterWrite, hpol] using F.readSingle_context (hp (.inl hpol))
  | implicit => simpa [contextAfterWrite, hpol] using F.readSingle_context (hp (.inr hpol))
  | never =>
    rw [hn hpol]
    cases hlf : F.fuseRegs.getLockFuse r with
    | none => simp [contextAfterWrite, hpol, hlf, hnone hlf]
    | some l =>
      obtain ⟨_, hv, -⟩ := hsome l hlf
      simpa [contextAfterWrite, hpol, hlf] using F.readSingle_context hv

theorem writeReg_context {n : Nat} {name : String} {x : Uid} {lock : Bool} {u : Unit}
    (h : F.writeReg n name x lock s = .ok u s') :
    s'.fuseContext = (F.targets x).foldl (fun ctx r => F.contextAfterWrite r ctx) s.fuseContext := by
  unfold writeReg at h
  unfold targets FuseRegisters.leaves
  split at h
  · rw [if_pos ‹_›]
    exact forM_context (fun r _ _ _ _ h => F.writeSingleReg_context h) h
  · rw [if_neg ‹_›]
    exact F.writeSingleReg_context h

theorem writeMultiple_context {n : Nat} {names : List String} {u : Unit}
    (h : F.writeMultiple n names s = .ok u s') :
    s'.fuseContext = ((names.flatMap F.found).flatMap F.targets).foldl
      (fun ctx r => F.contextAfterWrite r ctx) s.fuseContext := by
  induction names generalizing s with
  | nil => cases h; rfl
  | cons name names ih =>
    obtain ⟨_, s₁, h₁, h₂⟩ := bind_eq_ok h
    obtain ⟨x, _, hx, h₃⟩ := bind_eq_ok h₁
    obtain ⟨hfx, hs⟩ := F.findRegM_ok hx
    rw [hs] at h₃
    rw [ih h₂, F.writeReg_context h₃]
    simp [found, hfx, List.foldl_append]

end Write

/-- **The context after each operation that returned.** After `load_config(cfg)`, the context
    is the registers named in `cfg['registers']`, in order; after `read_single(name)`, it is
    `[name's register]`; after `read_all()`, it is the registers of the scan whose `read_single`
    returned, in scan order. `write_single` and `write_multiple` never set it: each step on a
    target `r` leaves the context of its last nested `read_single` (`contextAfterWrite`), and a
    step that read nothing leaves the context it found. -/
theorem fuseContext_of_ok (n : Nat) (s s' : FusesState) :
    (∀ cfg u, F.loadConfig cfg s = .ok u s' →
      s'.fuseContext.map some = cfg.registers.map fun p => F.fuseRegs.findReg p.1) ∧
    (∀ name c v, F.readSingleByName n name c s = .ok v s' →
      ∃ x, F.fuseRegs.findReg name = some x ∧ s'.fuseContext = [x]) ∧
    (∀ u, F.readAll n s = .ok u s' → ∃ s₁, F.ScanRun n F.fuseRegs.registers s s'.fuseContext s₁) ∧
    (∀ name lock u, F.writeSingle n name lock s = .ok u s' → ∃ x, F.fuseRegs.findReg name = some x ∧
      s'.fuseContext = (F.targets x).foldl (fun ctx r => F.contextAfterWrite r ctx) s.fuseContext) ∧
    (∀ names u, F.writeMultiple n names s = .ok u s' →
      s'.fuseContext = ((names.flatMap F.found).flatMap F.targets).foldl
        (fun ctx r => F.contextAfterWrite r ctx) s.fuseContext) := by
  refine ⟨fun cfg u h => F.loadConfig_context h, fun name c v h => ?_, fun u h => ?_,
    fun name lock u h => ?_, fun names u h => F.writeMultiple_context h⟩
  · obtain ⟨x, s₁, hx, hr⟩ := bind_eq_ok h
    exact ⟨x, (F.findRegM_ok hx).1, F.readSingle_context hr⟩
  · obtain ⟨ctx, s₁, hr, h⟩ := bind_eq_ok h
    simp only [setFuseContext, modify_apply] at h
    cases h
    obtain ⟨c, rfl, hrun⟩ := F.readAllFrom_ok_scan hr
    exact ⟨s₁, hrun⟩
  · obtain ⟨x, s₁, hx, hw⟩ := bind_eq_ok h
    obtain ⟨hfx, rfl⟩ := F.findRegM_ok hx
    exact ⟨x, hfx, F.writeReg_context hw⟩

end Fuses

/-- `write_single("FUSE")` returns with the context `["LOCK"]`, which its read of the lock fuse
    set, not `["FUSE"]`; and `read_single("FUSE")` under `READ_LOCK` raises with the context
    `["LOCK"]` of its lock-fuse read, not the context from before the call. -/
theorem lockedPair_context :
    (∃ s', lockedPairFuses.writeSingle 3 "FUSE" false clearState = .ok () s' ∧
      s'.fuseContext = ["LOCK"]) ∧
    (∃ e s', readLockedPairFuses.readSingleByName 3 "FUSE" true clearState = .error e s' ∧
      clearState.fuseContext = [] ∧ s'.fuseContext = ["LOCK"]) :=
  ⟨⟨_, rfl, rfl⟩, ⟨_, _, rfl, rfl, rfl⟩⟩

end Spsdk
