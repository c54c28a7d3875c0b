import SpsdkFuses.Spec
import Mathlib.Data.Fintype.Card

/-
  File:      SpsdkFuses/Termination.lean
  Subject:   `read_single` terminates on every register map whose lock-fuse and group-member
             dependencies have no cycle, and so do `write_single`, `write_multiple` and
             `read_all`.

  * `NoRec p` -- `p` never reaches the recursion bound, from any state. It composes over binds
    and loops; a device exception is never the bound;
  * `Extends p q` -- `q` answers as `p` wherever `p` does not reach the bound;
    `readSingle_extends`: one more level of fuel extends `readSingle`, and the other operations
    follow;
  * `Dep`, `NoCycle` -- the relation "`read_single` on `x` calls `read_single` on `y`" and its
    acyclicity (a register may be its own lock fuse); `acc_dep`: without a cycle every register
    is accessible, the registers of the collection being a finite set closed under `Dep`;
  * **`fuses_terminate`** -- from some fuel on, each of the four operations neither reaches the
    bound nor depends on the fuel.
-/

namespace Spsdk

/-! ## 1. Never reaching the bound -/

/-- The computation never reaches the recursion bound, from any state. -/
abbrev NoRec {α : Type} (p : FuseM α) : Prop := RaisesOnly (· ≠ .recursionError) p

theorem noRec_readFuse (operator : Option FuseOperator) (index : Nat) :
    NoRec (readFuse operator index) :=
  raisesOnly_readFuse (fun _ => by simp) (fun _ _ _ _ d _ => d.toFuseError_ne_recursionError) _

theorem noRec_writeFuse (operator : Option FuseOperator) (index value : Nat) (lock : Bool) :
    NoRec (writeFuse operator index value lock) :=
  raisesOnly_writeFuse (fun _ => by simp)
    (fun _ _ _ _ _ _ d _ => d.toFuseError_ne_recursionError) _ _ _

/-! ## 2. More fuel answers the same -/

section Extends

variable {α β : Type}

/-- `q` answers as `p` from every state from which `p` does not reach the recursion bound. -/
def Extends (p q : FuseM α) : Prop :=
  ∀ s, (∀ s', p s ≠ .error .recursionError s') → q s = p s

theorem extends_refl (p : FuseM α) : Extends p p := fun _ _ => rfl

theorem Extends.trans {p q r : FuseM α} (hpq : Extends p q) (hqr : Extends q r) :
    Extends p r := fun s h => by
  rw [hqr s (by rw [hpq s h]; exact h), hpq s h]

theorem extends_bind {x x' : FuseM α} {f f' : α → FuseM β} (hx : Extends x x')
    (hf : ∀ a, Extends (f a) (f' a)) : Extends (x >>= f) (x' >>= f') := by
  intro s h
  cases hs : x s with
  | ok a s₁ =>
    have hx' : x' s = x s := hx s fun _ => by rw [hs]; exact fun h => by cases h
    rw [bind_ok (hx'.trans hs), bind_ok hs]
    exact hf a s₁ fun s' => by rw [← bind_ok (f := f) hs]; exact h s'
  | error e s₁ =>
    have he : e ≠ .recursionError := fun he => h s₁ (by rw [bind_error hs, he])
    have hx' : x' s = x s := hx s fun _ => by rw [hs]; exact fun h => by cases h; exact he rfl
    rw [bind_error (hx'.trans hs), bind_error hs]

theorem extends_forM {l : List α} {f f' : α → FuseM PUnit} (hf : ∀ a, Extends (f a) (f' a)) :
    Extends (l.forM f) (l.forM f') := by
  induction l with
  | nil => exact extends_refl _
  | cons a l ih => exact extends_bind (hf a) fun _ => ih

/-- Extending step by step extends over any distance. -/
theorem extends_of_le {p : Nat → FuseM α} (hstep : ∀ n, Extends (p n) (p (n + 1))) {n m : Nat}
    (h : n ≤ m) : Extends (p n) (p m) := by
  induction h with
  | refl => exact extends_refl _
  | step _ ih => exact ih.trans (hstep _)

/-- From some fuel on, `p` neither reaches the recursion bound nor depends on the fuel. -/
def Terminates (p : Nat → FuseM α) : Prop := ∃ N, NoRec (p N) ∧ ∀ n ≥ N, p n = p N

theorem terminates_of {p : Nat → FuseM α} (hstep : ∀ n, Extends (p n) (p (n + 1))) {N : Nat}
    (hN : NoRec (p N)) : Terminates p :=
  ⟨N, hN, fun _ hn => funext fun s => extends_of_le hstep hn s fun _ h => hN s _ _ h rfl⟩

end Extends

/-! ## 3. The operations, level by level -/

namespace Fuses

variable (F : Fuses)

/-- One level of `read_single` never reaches the bound when the calls it makes one level down
    never do. -/
theorem noRec_readSingle_succ {m : Nat} {name : String} {x : Uid} {c : Bool}
    (hlock : ∀ l, F.fuseRegs.getLockFuse x = some l → c = true →
      NoRec (F.readSingle m l l (l != x)))
    (hsub : ∀ y ∈ (F.fuseRegs.reg x).subRegs, NoRec (F.readSingle m y y true)) :
    NoRec (F.readSingle (m + 1) name x c) :=
  F.raisesOnly_readSingle_succ (fun _ => by simp) hlock hsub fun _ =>
    F.raisesOnly_readReg (fun _ => by simp) (noRec_readFuse _)

theorem extends_checkLockFuse {rd rd' : Uid → Bool → FuseM Nat}
    (h : ∀ y c, Extends (rd y c) (rd' y c)) (kind : FuseLock) (op : String) (x l : Uid) :
    Extends (F.checkLockFuse rd kind op x l) (F.checkLockFuse rd' kind op x l) :=
  extends_bind (h _ _) fun _ => extends_refl _

theorem extends_readGroup {rd rd' : Uid → Bool → FuseM Nat}
    (h : ∀ y c, Extends (rd y c) (rd' y c)) (x : Uid) :
    Extends (F.readGroup rd x) (F.readGroup rd' x) :=
  extends_bind (extends_forM fun y => extends_bind (h y true) fun _ => extends_refl _) fun _ =>
    extends_refl _

/-- **One more level of fuel extends `read_single`.** -/
theorem readSingle_extends (n : Nat) :
    ∀ name x c, Extends (F.readSingle n name x c) (F.readSingle (n + 1) name x c) := by
  induction n with
  | zero => intro name x c s h; exact absurd rfl (h s)
  | succ n ih =>
    intro name x c
    rw [readSingle_succ, readSingle_succ]
    refine extends_bind (extends_refl _) fun _ => extends_bind ?_ fun _ => ?_
    · unfold readLockCheck
      split
      · split
        · exact F.extends_checkLockFuse (fun y c => ih y y c) _ _ _ _
        · exact extends_refl _
      · exact extends_refl _
    · split
      · exact F.extends_readGroup (fun y c => ih y y c) x
      · exact extends_refl _

theorem noRec_writeReg {n : Nat} {x : Uid}
    (h : ∀ y ∈ F.targets x, (∀ l, F.fuseRegs.getLockFuse y = some l →
      NoRec (F.readSingle n l l (l != y))) ∧ NoRec (F.readSingle n y y true))
    (name : String) (lock : Bool) : NoRec (F.writeReg n name x lock) :=
  F.raisesOnly_writeReg fun y hy => F.raisesOnly_writeSingleReg (fun _ => by simp)
    (fun _ => by simp) (h y hy).1 (h y hy).2 (noRec_writeFuse _) lock

theorem writeLockCheck_extends (n : Nat) (x : Uid) :
    Extends (F.writeLockCheck n x) (F.writeLockCheck (n + 1) x) := by
  unfold writeLockCheck
  split
  · exact F.extends_checkLockFuse (fun y c => F.readSingle_extends n y y c) _ _ _ _
  · exact extends_refl _

theorem resetCheck_extends (n : Nat) (x : Uid) :
    Extends (F.resetCheck n x) (F.resetCheck (n + 1) x) := by
  unfold resetCheck
  dsimp only
  split
  · exact extends_bind (F.readSingle_extends n _ _ _) fun _ => extends_refl _
  · exact extends_refl _

theorem writeSingleReg_extends (n : Nat) (name : String) (x : Uid) (lock : Bool) :
    Extends (F.writeSingleReg n name x lock) (F.writeSingleReg (n + 1) name x lock) := by
  unfold writeSingleReg
  dsimp only
  split
  · exact extends_refl _
  · exact extends_bind (extends_refl _) fun _ => extends_bind (F.writeLockCheck_extends n x)
      fun _ => extends_bind (F.resetCheck_extends n x) fun _ => extends_refl _

theorem writeReg_extends (n : Nat) (name : String) (x : Uid) (lock : Bool) :
    Extends (F.writeReg n name x lock) (F.writeReg (n + 1) name x lock) := by
  unfold writeReg
  split
  · exact extends_forM fun y => F.writeSingleReg_extends n name y lock
  · exact F.writeSingleReg_extends n name x lock

theorem readAllFrom_extends (n : Nat) (xs : List Uid) :
    ∀ ctx, Extends (F.readAllFrom n ctx xs) (F.readAllFrom (n + 1) ctx xs) := by
  induction xs with
  | nil => intro ctx; exact extends_refl _
  | cons x xs ih =>
    intro ctx s h
    have hx := F.readSingle_extends n x x true s
    simp only [readAllFrom] at h ⊢
    cases hr : F.readSingle n x x true s with
    | ok v s₁ =>
      rw [hx (by rw [hr]; exact fun _ h => by cases h), hr]
      exact ih _ s₁ (by rw [hr] at h; exact h)
    | error e s₁ =>
      rw [hr] at h
      by_cases he : e.isFuseOperationFailure = true
      · rw [hx (by rw [hr]; exact fun _ h => by cases h; simp [FuseError.isFuseOperationFailure] at he),
          hr]
        simp only [he, if_true] at h ⊢
        exact ih _ s₁ h
      · have hrec : e ≠ .recursionError := fun he' => by
          subst he'
          exact h s₁ (by simp [FuseError.isFuseOperationFailure])
        rw [hx (by rw [hr]; exact fun _ h => by cases h; exact hrec rfl), hr]
        simp [he]

end Fuses

/-! ## 4. Registers without a dependency cycle -/

namespace FuseRegisters

variable (M : FuseRegisters)

/-- Every register `find_reg(..., include_group_regs=True)` knows: the collection and the
    members of its groups. -/
def allRegs : List Uid := M.registers ++ M.registers.flatMap fun g => (M.reg g).subRegs

/-- `Dep x y`: `read_single` on `x` calls `read_single` on `y`, the lock fuse of `x` when it is
    another register, or a member of `x`. -/
def Dep (x y : Uid) : Prop := (M.getLockFuse x = some y ∧ y ≠ x) ∨ y ∈ (M.reg x).subRegs

/-- The dependencies have no cycle; a register may still be its own lock fuse. -/
def NoCycle : Prop := ∀ x, ¬ Relation.TransGen M.Dep x x

/-- The registers of the collection are closed under `Dep`. -/
theorem dep_mem_allRegs {x y : Uid} (hx : x ∈ M.allRegs) (h : M.Dep x y) : y ∈ M.allRegs := by
  rcases h with ⟨hl, -⟩ | hy
  · exact M.getLockFuse_mem x y hl
  · rcases List.mem_append.mp hx with hx | hx
    · exact List.mem_append_right _ (List.mem_flatMap.mpr ⟨x, hx, hy⟩)
    · obtain ⟨g, -, hg⟩ := List.mem_flatMap.mp hx
      rw [M.subRegs_leaf g x hg] at hy
      cases hy

/-- On the finite set of registers an acyclic `Dep` is well founded. -/
theorem acc_dep_of_mem (h : M.NoCycle) {x : Uid} (hx : x ∈ M.allRegs) :
    Acc (fun y x => M.Dep x y) x := by
  let r : {x // x ∈ M.allRegs} → {x // x ∈ M.allRegs} → Prop :=
    fun a b => Relation.TransGen (fun y x => M.Dep x y) a.1 b.1
  haveI : IsTrans _ r := ⟨fun _ _ _ => Relation.TransGen.trans⟩
  haveI : IsIrrefl _ r := ⟨fun a ha => h a.1 ha.swap⟩
  refine (Finite.wellFounded_of_trans_of_irrefl r).induction
    (C := fun a => Acc (fun y x => M.Dep x y) a.1) ⟨x, hx⟩ fun a ih => ?_
  exact ⟨_, fun y hy => ih ⟨y, M.dep_mem_allRegs a.2 hy⟩ (.single hy)⟩

/-- **Without a cycle every register is accessible**: a register outside the collection reaches
    it in at most two steps (a lock fuse is a register of the collection, and a member has no
    members). -/
theorem acc_dep (h : M.NoCycle) (x : Uid) : Acc (fun y x => M.Dep x y) x := by
  refine ⟨_, fun y hy => ?_⟩
  rcases hy with ⟨hl, -⟩ | hy
  · exact M.acc_dep_of_mem h (M.getLockFuse_mem x y hl)
  · refine ⟨_, fun z hz => ?_⟩
    rcases hz with ⟨hl, -⟩ | hz
    · exact M.acc_dep_of_mem h (M.getLockFuse_mem y z hl)
    · rw [M.subRegs_leaf x y hy] at hz
      cases hz

/-- A rank that every dependency lowers rules out a cycle. -/
theorem noCycle_of_rank (rank : Uid → Nat) (h : ∀ x y, M.Dep x y → rank y < rank x) :
    M.NoCycle := by
  have hlt : ∀ {x y}, Relation.TransGen M.Dep x y → rank y < rank x := fun hxy => by
    induction hxy with
    | single hd => exact h _ _ hd
    | tail _ hd ih => exact lt_trans (h _ _ hd) ih
  exact fun x hx => lt_irrefl _ (hlt hx)

end FuseRegisters

/-! ## 5. Enough fuel -/

/-- One bound for finitely many indices, of a bound that stays a bound when raised. -/
theorem exists_bound_list {ι : Type} {P : ι → Nat → Prop}
    (hmono : ∀ i N N', P i N → N ≤ N' → P i N') :
    ∀ {l : List ι}, (∀ i ∈ l, ∃ N, P i N) → ∃ N, ∀ i ∈ l, P i N
  | [], _ => ⟨0, by simp⟩
  | i :: l, h => by
    obtain ⟨N₁, h₁⟩ := h i (List.mem_cons_self _ _)
    obtain ⟨N₂, h₂⟩ := exists_bound_list hmono fun j hj => h j (List.mem_cons_of_mem _ hj)
    refine ⟨max N₁ N₂, fun j hj => ?_⟩
    rcases List.mem_cons.mp hj with rfl | hj
    · exact hmono _ _ _ h₁ (le_max_left _ _)
    · exact hmono _ _ _ (h₂ j hj) (le_max_right _ _)

namespace Fuses

variable (F : Fuses)

/-- Every fuel from `N` on suffices for `read_single` on `x`, with any name and lock check. -/
def ReadBound (x : Uid) (N : Nat) : Prop := ∀ n ≥ N, ∀ name c, NoRec (F.readSingle n name x c)

theorem readBound_mono (x : Uid) (N N' : Nat) (h : F.ReadBound x N) (hle : N ≤ N') :
    F.ReadBound x N' := fun n hn => h n (le_trans hle hn)

/-- **`read_single` on any register needs bounded fuel** when the dependencies have no cycle:
    by induction along `Dep`, the self-locking case reading `x` again with no lock check. -/
theorem readBound_exists (h : F.fuseRegs.NoCycle) (x : Uid) : ∃ N, F.ReadBound x N := by
  induction F.fuseRegs.acc_dep h x with
  | intro x _ ih =>
    obtain ⟨Nm, hm⟩ := exists_bound_list F.readBound_mono fun y hy => ih y (.inr hy)
    obtain ⟨Nl, hl⟩ : ∃ N, ∀ l, F.fuseRegs.getLockFuse x = some l → l ≠ x → F.ReadBound l N := by
      cases hx : F.fuseRegs.getLockFuse x with
      | none => exact ⟨0, fun l hl => by cases hl⟩
      | some l =>
        by_cases hlx : l = x
        · exact ⟨0, fun l' hl' hne => by cases hl'; exact absurd hlx hne⟩
        · obtain ⟨N, hN⟩ := ih l (.inl ⟨hx, hlx⟩)
          exact ⟨N, fun l' hl' _ => by cases hl'; exact hN⟩
    refine ⟨max Nm Nl + 2, fun n hn name c => ?_⟩
    obtain ⟨m, rfl⟩ : ∃ m, n = m + 1 := ⟨n - 1, by omega⟩
    refine F.noRec_readSingle_succ (fun l hlf _ => ?_) fun y hy => hm y hy m (by omega) _ _
    by_cases hlx : l = x
    · subst hlx
      obtain ⟨m', rfl⟩ : ∃ m', m = m' + 1 := ⟨m - 1, by omega⟩
      exact F.noRec_readSingle_succ (fun _ _ hc => by simp at hc)
        fun y hy => hm y hy m' (by omega) _ _
    · exact hl l hlf hlx m (by omega) _ _

/-- Every fuel from `N` on suffices for `write_single` on `x`. -/
def WriteBound (x : Uid) (N : Nat) : Prop :=
  ∀ n ≥ N, ∀ name lock, NoRec (F.writeReg n name x lock)

theorem writeBound_mono (x : Uid) (N N' : Nat) (h : F.WriteBound x N) (hle : N ≤ N') :
    F.WriteBound x N' := fun n hn => h n (le_trans hle hn)

theorem writeBound_exists (h : F.fuseRegs.NoCycle) (x : Uid) : ∃ N, F.WriteBound x N := by
  obtain ⟨N, hN⟩ := exists_bound_list F.readBound_mono
    (l := F.targets x ++ (F.targets x).filterMap F.fuseRegs.getLockFuse)
    fun y _ => F.readBound_exists h y
  refine ⟨N, fun n hn name lock => F.noRec_writeReg (fun y hy => ⟨fun l hl => ?_, ?_⟩) _ _⟩
  · exact hN l (List.mem_append_right _ (List.mem_filterMap.mpr ⟨y, hy, hl⟩)) n hn _ _
  · exact hN y (List.mem_append_left _ hy) n hn _ _

theorem writeSingle_extends (n : Nat) (name : String) (lock : Bool) :
    Extends (F.writeSingle n name lock) (F.writeSingle (n + 1) name lock) :=
  extends_bind (extends_refl _) fun x => F.writeReg_extends n name x lock

theorem writeMultiple_extends (n : Nat) (names : List String) :
    Extends (F.writeMultiple n names) (F.writeMultiple (n + 1) names) :=
  extends_forM fun _ => extends_bind (extends_refl _) fun x => F.writeReg_extends n x x false

theorem readAll_extends (n : Nat) : Extends (F.readAll n) (F.readAll (n + 1)) :=
  extends_bind (F.readAllFrom_extends n _ []) fun _ => extends_refl _

/-- The register `find_reg` resolves `name` to, as a list of at most one. -/
def found (name : String) : List Uid := (F.fuseRegs.findReg name).toList

theorem noRec_findRegM_bind {β : Type} {name : String} {f : Uid → FuseM β}
    (h : ∀ x ∈ F.found name, NoRec (f x)) : NoRec (F.findRegM name >>= f) :=
  F.raisesOnly_findRegM_bind (by simp) fun x hx => h x (by simp [found, hx])

/-- **Every operation terminates.** On a register map whose lock-fuse and group-member
    dependencies have no cycle, from some fuel on `read_single` (on every register, with every
    name and lock check), `write_single`, `write_multiple` and `read_all` never reach the
    recursion bound and answer the same for every larger fuel: each call returns or raises. -/
theorem fuses_terminate (h : F.fuseRegs.NoCycle) :
    (∀ name x c, Terminates fun n => F.readSingle n name x c) ∧
    (∀ name lock, Terminates fun n => F.writeSingle n name lock) ∧
    (∀ names, Terminates fun n => F.writeMultiple n names) ∧
    Terminates F.readAll := by
  refine ⟨fun name x c => ?_, fun name lock => ?_, fun names => ?_, ?_⟩
  · obtain ⟨N, hN⟩ := F.readBound_exists h x
    exact terminates_of (fun n => F.readSingle_extends n name x c) (hN N le_rfl name c)
  · obtain ⟨N, hN⟩ := exists_bound_list F.writeBound_mono fun x (_ : x ∈ F.found name) =>
      F.writeBound_exists h x
    exact terminates_of (fun n => F.writeSingle_extends n name lock)
      (F.noRec_findRegM_bind fun x hx => hN x hx N le_rfl _ _)
  · obtain ⟨N, hN⟩ := exists_bound_list F.writeBound_mono
      fun x (_ : x ∈ names.flatMap F.found) => F.writeBound_exists h x
    exact terminates_of (fun n => F.writeMultiple_extends n names)
      (raisesOnly_forM fun name hname => F.noRec_findRegM_bind fun x hx =>
        hN x (List.mem_flatMap.mpr ⟨name, hname, hx⟩) N le_rfl _ _)
  · obtain ⟨N, hN⟩ := exists_bound_list F.readBound_mono
      fun x (_ : x ∈ F.fuseRegs.registers) => F.readBound_exists h x
    exact terminates_of F.readAll_extends
      (raisesOnly_bind (F.raisesOnly_readAllFrom (fun x hx => hN x hx N le_rfl _ _) _)
        fun _ => raisesOnly_modify _)

end Fuses

/-- A collection of one fuse that is its own lock fuse. -/
def selfLockingRegisters : FuseRegisters where
  registers := ["LOCK"]
  reg := fun _ =>
    { name := "LOCK", description := "", otpIndex := some 0, width := 32,
      access := ⟨true, true, "RW"⟩, resetValue := 0, individualWriteLock := .never, subRegs := [],
      reverseSubregsOrder := false, bitfields := [] }
  findReg := fun name => if name = "LOCK" then some "LOCK" else none
  getLockFuse := fun x => if x = "LOCK" then some "LOCK" else none
  lockDecode := fun _ _ => []
  toRaw := fun _ v => v
  fromRaw := fun _ v => v
  subRegs_leaf := fun _ _ h => by simp at h
  subRegs_nodup := fun _ => List.nodup_nil
  getLockFuse_mem := fun x y h => by
    simp only at h
    split at h <;> simp_all
  bitfields_fit := fun _ _ h => nomatch h

/-- `Fuses` over `selfLockingRegisters`, with no operator set. -/
def selfLockingFuses : Fuses :=
  { family := "", revision := "latest", fuseRegs := selfLockingRegisters, operator := none,
    fuseOperatorType := .blhost, checkConfig := fun _ => .ok () }

theorem selfLockingRegisters_noCycle : selfLockingRegisters.NoCycle :=
  selfLockingRegisters.noCycle_of_rank (fun _ => 0) fun x y hd => by
    rcases hd with ⟨hl, hne⟩ | hy
    · simp only [selfLockingRegisters] at hl
      split at hl <;> simp_all
    · simp [selfLockingRegisters] at hy

theorem fuses_terminate_selfLocking :
    selfLockingFuses.fuseRegs.NoCycle ∧
    ((∀ name x c, Terminates fun n => selfLockingFuses.readSingle n name x c) ∧
      (∀ name lock, Terminates fun n => selfLockingFuses.writeSingle n name lock) ∧
      (∀ names, Terminates fun n => selfLockingFuses.writeMultiple n names) ∧
      Terminates selfLockingFuses.readAll) :=
  ⟨selfLockingRegisters_noCycle, selfLockingFuses.fuses_terminate selfLockingRegisters_noCycle⟩

end Spsdk
