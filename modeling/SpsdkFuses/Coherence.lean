import SpsdkFuses.ReadGuard

/-
  File:      SpsdkFuses/Coherence.lean
  Subject:   What holds across every run of a `Fuses` object's device operations: the cached
             register values follow the device.

  `Fuses` caches the value of each register. `read_single` stores the word the device answered
  (`reg.set_value(value)`), and no other step of `read_single`, `read_all`, `write_single` or
  `write_multiple` changes a cached value: `write_single` burns the cached value and keeps it. So
  over any sequence of these operations, each returned or raised, the cached raw value of a
  physical register is what it was before, and then no read of its OTP word has returned since,
  or `set_value` of the word the device answered to the last read of its OTP word that
  returned. This needs the physical registers of the collection to have distinct OTP indices,
  since the call log records indices only.

  * `Keeps R p` -- `p` moves every state to one related to it by `R`; `ReadSteps`, `WriteSteps`
    -- the atomic steps the operations are made of, each keeping `R`: a change of the context,
    `readReg` on a register `find_reg` can reach (`Reach`), and for the writing operations a
    `write_fuse` and `reg.lock(WRITE_LOCK)`;
  * `readReg_cases` -- what one `readReg` can do; `keeps_readSingle`, `keeps_readAll`,
    `keeps_writeReg`, `keeps_opAfter` -- every operation keeps a preorder its steps keep, and
    `keeps_runOps` -- so does every sequence of operations (`runOps`);
  * `ReadAt`, `NoReadFrom`, `Agrees`, `Coherent` -- the device's answers in the call log, and the
    relation "from `s` to `s'`, the cache followed the device"; it is a preorder;
  * `runOps_coherent` -- the cache follows the device over every run;
  * `readOps_readsOnly` -- a run of `read_single` and `read_all` calls only `read_fuse`;
  * `LocksFollow`, `runOps_locksFollow` -- the active locks of every register with a lock fuse
    follow the lock fuse's cached value over every run, up to the `WRITE_LOCK` a write records;
  * `AnswersFit`, `runOps_valuesFit` -- on a device whose answers fit the registers' widths, the
    cached values stay within them over every run.
-/

namespace Spsdk

/-! ## 1. Relations a computation keeps -/

/-- `p`, run from any state, ends in a state related to it by `R`, returned or raised. -/
def Keeps {α : Type} (R : FusesState → FusesState → Prop) (p : FuseM α) : Prop :=
  ∀ s, R s (outState (p s))

section Keeps

variable {α β : Type} {R : FusesState → FusesState → Prop}

theorem keeps_ite {c : Prop} [Decidable c] {p q : FuseM α} (hp : Keeps R p) (hq : Keeps R q) :
    Keeps R (if c then p else q) := by
  split
  exacts [hp, hq]

theorem Keeps.of_ok {p : FuseM α} (h : Keeps R p) {s s' : FusesState} {a : α}
    (hp : p s = .ok a s') : R s s' := by
  simpa [hp] using h s

variable [IsPreorder FusesState R]

theorem keeps_of_outState {p : FuseM α} (h : ∀ s, outState (p s) = s) : Keeps R p := fun s => by
  rw [h]
  exact refl_of R s

theorem keeps_pure (a : α) : Keeps R (pure a : FuseM α) := keeps_of_outState fun _ => rfl

theorem keeps_throw (e : FuseError) : Keeps R (throw e : FuseM α) := keeps_of_outState fun _ => rfl

theorem keeps_get : Keeps R (get : FuseM FusesState) := keeps_of_outState fun _ => rfl

theorem keeps_bind {x : FuseM α} {f : α → FuseM β} (hx : Keeps R x) (hf : ∀ a, Keeps R (f a)) :
    Keeps R (x >>= f) := fun s => by
  cases h : x s with
  | ok a s' =>
    rw [bind_ok h]
    exact trans_of R (by simpa [h] using hx s) (hf a s')
  | error e s' => rw [bind_error h]; simpa [h] using hx s

theorem keeps_forM {l : List α} {f : α → FuseM PUnit} (hf : ∀ a ∈ l, Keeps R (f a)) :
    Keeps R (l.forM f) := by
  induction l with
  | nil => exact keeps_pure _
  | cons a l ih =>
    exact keeps_bind (hf a (List.mem_cons_self _ _))
      fun _ => ih fun b hb => hf b (List.mem_cons_of_mem _ hb)

theorem keeps_mapM {l : List α} {f : α → FuseM β} (hf : ∀ a ∈ l, Keeps R (f a)) :
    Keeps R (l.mapM f) := by
  induction l with
  | nil => exact keeps_pure _
  | cons a l ih =>
    rw [List.mapM_cons]
    exact keeps_bind (hf a (List.mem_cons_self _ _)) fun _ =>
      keeps_bind (ih fun b hb => hf b (List.mem_cons_of_mem _ hb)) fun _ => keeps_pure _

end Keeps

/-! ## 2. The steps of the operations -/

/-- A set `K` of registers closed under what `read_single`, `read_all` and `write_single` reach
    from a register: it holds the collection, and with a register its lock fuse and its members. -/
structure Reach (F : Fuses) (K : Uid → Prop) : Prop where
  registers : ∀ x ∈ F.fuseRegs.registers, K x
  lockFuse : ∀ x l, K x → F.fuseRegs.getLockFuse x = some l → K l
  subReg : ∀ x y, K x → y ∈ (F.fuseRegs.reg x).subRegs → K y

/-- The steps the reading operations are made of, each keeping `R`: a change of the context, and
    `readReg` on a physical register of `K`. -/
structure ReadSteps (F : Fuses) (K : Uid → Prop) (R : FusesState → FusesState → Prop) : Prop where
  setFuseContext : ∀ ctx, Keeps R (setFuseContext ctx)
  readReg : ∀ x, K x → F.fuseRegs.hasGroupRegisters x = false → Keeps R (F.readReg x)

/-- The steps the writing operations add, each keeping `R`: a `write_fuse`, and
    `reg.lock(WRITE_LOCK)`. -/
structure WriteSteps (F : Fuses) (K : Uid → Prop) (R : FusesState → FusesState → Prop)
    extends ReadSteps F K R : Prop where
  writeFuse : ∀ i v l, Keeps R (writeFuse F.operator i v l)
  lockWrite : ∀ x, Keeps R
    (modify fun s => { s with activeLocks := lock s.activeLocks x .writeLock } : FuseM Unit)

/-- The operations of a `Fuses` object that talk to the device. -/
inductive FusesOp where
  /-- `read_single(name, check_locks)` -/
  | readSingle (name : String) (checkLocks : Bool)
  /-- `read_all()` -/
  | readAll
  /-- `write_single(name, lock)` -/
  | writeSingle (name : String) (lock : Bool)
  /-- `write_multiple(names)` -/
  | writeMultiple (names : List String)
  deriving DecidableEq, Repr

/-- `read_single` and `read_all`. -/
def FusesOp.isRead : FusesOp → Bool
  | .readSingle _ _ | .readAll => true
  | .writeSingle _ _ | .writeMultiple _ => false

/-- The physical registers of the collection have pairwise distinct OTP indices. -/
def FuseRegisters.OtpDistinct (M : FuseRegisters) : Prop :=
  ∀ x ∈ M.allRegs, ∀ y ∈ M.allRegs, M.hasGroupRegisters x = false → M.hasGroupRegisters y = false →
    ∀ i, (M.reg x).otpIndex = some i → (M.reg y).otpIndex = some i → x = y

namespace Fuses

variable (F : Fuses)

/-- The state one operation leaves, returned or raised. -/
def opAfter (n : Nat) (s : FusesState) : FusesOp → FusesState
  | .readSingle name c => outState (F.readSingleByName n name c s)
  | .readAll => outState (F.readAll n s)
  | .writeSingle name lock => outState (F.writeSingle n name lock s)
  | .writeMultiple names => outState (F.writeMultiple n names s)

/-- The state a sequence of operations leaves, each run from where the one before stopped. -/
def runOps (n : Nat) (s : FusesState) (ops : List FusesOp) : FusesState :=
  ops.foldl (F.opAfter n) s

/-- What `readReg x` does: it raises and changes nothing (no OTP index, or no operator set), or
    it makes one `read_fuse(i)`, which raised, or returned `w`, stored with `set_value(w)`. -/
theorem readReg_cases (x : Uid) (s : FusesState) :
    outState (F.readReg x s) = s ∨
    ∃ i op, (F.fuseRegs.reg x).otpIndex = some i ∧ F.operator = some op ∧
      ((∃ d, op.readFuse s.calls i = .error d ∧
          outState (F.readReg x s) = { s with calls := s.calls ++ [.readFuse i] }) ∨
        ∃ w, op.readFuse s.calls i = .ok w ∧
          outState (F.readReg x s) =
            { s with calls := s.calls ++ [.readFuse i], values := F.fuseRegs.setValue s.values x w,
                     activeLocks := F.fuseRegs.updateLocks (F.fuseRegs.setValue s.values x w) s.activeLocks,
                     fuseContext := [x] }) := by
  unfold readReg
  cases (F.fuseRegs.reg x).otpIndex with
  | none => exact .inl rfl
  | some i =>
    dsimp only
    cases hr : readFuse F.operator i s with
    | error e s₁ =>
      rw [bind_error hr]
      rcases readFuse_cases hr with ⟨-, he⟩ | ⟨op, hop, hout, -, herr⟩
      · cases he
        exact .inl rfl
      · obtain ⟨d, hd, -⟩ := herr e s₁ rfl
        exact .inr ⟨i, op, rfl, hop, .inl ⟨d, hd, hout⟩⟩
    | ok v s₁ =>
      rw [bind_ok hr]
      rcases readFuse_cases hr with ⟨-, he⟩ | ⟨op, hop, hout, hok, -⟩
      · cases he
      rw [outState_ok] at hout
      subst hout
      exact .inr ⟨i, op, rfl, hop, .inr ⟨v, hok v _ rfl, rfl⟩⟩

section Operations

variable {F} {K : Uid → Prop} {R : FusesState → FusesState → Prop} [IsPreorder FusesState R]

theorem keeps_findRegM_bind {β : Type} {name : String} {f : Uid → FuseM β}
    (h : ∀ x, F.fuseRegs.findReg name = some x → Keeps R (f x)) :
    Keeps R (F.findRegM name >>= f) := fun s => by
  unfold findRegM
  split
  · rw [bind_ok (pure_apply _ s)]
    exact h _ ‹_› s
  · rw [bind_error (throw_apply _ s)]
    exact refl_of R s

theorem keeps_checkLockFuse {rd : Uid → Bool → FuseM Nat} {kind : FuseLock} {op : String}
    {x l : Uid} (h : Keeps R (rd l (l != x))) : Keeps R (F.checkLockFuse rd kind op x l) :=
  keeps_bind h fun _ => keeps_bind keeps_get fun _ => keeps_ite (keeps_throw _) (keeps_pure _)

theorem keeps_readLockCheck {rd : Uid → Bool → FuseM Nat} {x : Uid} {c : Bool}
    (h : ∀ l, F.fuseRegs.getLockFuse x = some l → Keeps R (rd l (l != x))) :
    Keeps R (F.readLockCheck rd x c) := by
  unfold readLockCheck
  split
  · exact keeps_ite (keeps_checkLockFuse (h _ ‹_›)) (keeps_pure _)
  · exact keeps_pure _

theorem keeps_readSingle (hK : Reach F K) (h : ReadSteps F K R) (n : Nat) :
    ∀ name x c, K x → Keeps R (F.readSingle n name x c) := by
  induction n with
  | zero => exact fun _ _ _ _ => keeps_throw _
  | succ n ih =>
    intro name x c hx
    rw [readSingle_succ]
    refine keeps_bind (keeps_ite (keeps_pure _) (keeps_throw _)) fun _ =>
      keeps_bind (keeps_readLockCheck fun l hl => ih _ _ _ (hK.lockFuse x l hx hl)) fun _ => ?_
    split
    · exact keeps_bind (keeps_forM fun y hy => keeps_bind (ih _ _ _ (hK.subReg x y hx hy))
        fun _ => keeps_pure _) fun _ => keeps_bind (h.setFuseContext _) fun _ =>
        keeps_bind keeps_get fun _ => keeps_pure _
    · exact h.readReg x hx (Bool.eq_false_iff.mpr ‹_›)

theorem keeps_readAllFrom (hK : Reach F K) (h : ReadSteps F K R) (n : Nat) :
    ∀ xs : List Uid, (∀ x ∈ xs, K x) → ∀ ctx, Keeps R (F.readAllFrom n ctx xs)
  | [], _, _ => keeps_pure _
  | x :: xs, hxs, ctx => fun s => by
    have hx := keeps_readSingle hK h n x x true (hxs x (List.mem_cons_self _ _)) s
    have ih := keeps_readAllFrom hK h n xs fun y hy => hxs y (List.mem_cons_of_mem _ hy)
    simp only [readAllFrom]
    split
    · rename_i hr
      rw [hr] at hx
      exact trans_of R hx (ih _ _)
    · rename_i hr
      rw [hr] at hx
      split
      · exact trans_of R hx (ih _ _)
      · exact hx

theorem keeps_readAll (hK : Reach F K) (h : ReadSteps F K R) (n : Nat) : Keeps R (F.readAll n) :=
  keeps_bind (keeps_readAllFrom hK h n _ hK.registers []) fun _ => h.setFuseContext _

theorem keeps_writeLockCheck (hK : Reach F K) (h : ReadSteps F K R) (n : Nat) {x : Uid}
    (hx : K x) : Keeps R (F.writeLockCheck n x) := by
  unfold writeLockCheck
  split
  · exact keeps_checkLockFuse (keeps_readSingle hK h n _ _ _ (hK.lockFuse x _ hx ‹_›))
  · exact keeps_pure _

theorem keeps_resetCheck (hK : Reach F K) (h : ReadSteps F K R) (n : Nat) {x : Uid} (hx : K x) :
    Keeps R (F.resetCheck n x) := by
  unfold resetCheck
  exact keeps_ite (keeps_bind (keeps_readSingle hK h n _ _ _ hx) fun _ =>
    keeps_ite (keeps_throw _) (keeps_pure _)) (keeps_pure _)

theorem keeps_writeSingleReg (hK : Reach F K) (h : WriteSteps F K R) (n : Nat) (name : String)
    {x : Uid} (hx : K x) (lock : Bool) : Keeps R (F.writeSingleReg n name x lock) := by
  unfold writeSingleReg
  dsimp only
  split
  · exact keeps_throw _
  · exact keeps_bind (keeps_ite (keeps_pure _) (keeps_throw _)) fun _ =>
      keeps_bind (keeps_writeLockCheck hK h.toReadSteps n hx) fun _ =>
      keeps_bind (keeps_resetCheck hK h.toReadSteps n hx) fun _ => keeps_bind keeps_get fun _ =>
      keeps_bind (h.writeFuse _ _ _) fun _ => keeps_ite (h.lockWrite x) (keeps_pure _)

theorem keeps_writeReg (hK : Reach F K) (h : WriteSteps F K R) (n : Nat) (name : String) {x : Uid}
    (hx : K x) (lock : Bool) : Keeps R (F.writeReg n name x lock) := by
  unfold writeReg
  exact keeps_ite (keeps_forM fun y hy => keeps_writeSingleReg hK h n name (hK.subReg x y hx hy) lock)
    (keeps_writeSingleReg hK h n name hx lock)

theorem keeps_opAfter (hK : Reach F K) (hfind : ∀ name x, F.fuseRegs.findReg name = some x → K x)
    (h : WriteSteps F K R) (n : Nat) (s : FusesState) : ∀ o, R s (F.opAfter n s o)
  | .readSingle name c => keeps_findRegM_bind (fun x hx => keeps_readSingle hK h.toReadSteps n name x c
      (hfind name x hx)) s
  | .readAll => keeps_readAll hK h.toReadSteps n s
  | .writeSingle name lock => keeps_findRegM_bind (fun x hx => keeps_writeReg hK h n name
      (hfind name x hx) lock) s
  | .writeMultiple _ => keeps_forM (fun name _ => keeps_findRegM_bind fun x hx =>
      keeps_writeReg hK h n x (hfind name x hx) false) s

/-- **Every run keeps what every step keeps.** A preorder that the atomic steps keep relates the
    state before any sequence of device operations to the state after it. -/
theorem keeps_runOps (hK : Reach F K) (hfind : ∀ name x, F.fuseRegs.findReg name = some x → K x)
    (h : WriteSteps F K R) (n : Nat) : ∀ ops s, R s (F.runOps n s ops)
  | [], s => refl_of R s
  | o :: ops, s => trans_of R (keeps_opAfter hK hfind h n s o) (keeps_runOps hK hfind h n ops _)

/-- A run of reading operations keeps what the reading steps keep. -/
theorem keeps_readOps (hK : Reach F K) (hfind : ∀ name x, F.fuseRegs.findReg name = some x → K x)
    (h : ReadSteps F K R) (n : Nat) :
    ∀ ops, (∀ o ∈ ops, o.isRead = true) → ∀ s, R s (F.runOps n s ops)
  | [], _, s => refl_of R s
  | o :: ops, hops, s => by
    have hrest := keeps_readOps hK hfind h n ops fun o' ho' => hops o' (List.mem_cons_of_mem _ ho')
    refine trans_of R ?_ (hrest _)
    cases o with
    | readSingle name c =>
      exact keeps_findRegM_bind (fun x hx => keeps_readSingle hK h n name x c (hfind name x hx)) s
    | readAll => exact keeps_readAll hK h n s
    | writeSingle => cases hops _ (List.mem_cons_self _ _)
    | writeMultiple => cases hops _ (List.mem_cons_self _ _)

end Operations

/-! ## 3. The cache follows the device -/

/-- The call at position `k` of `calls` is `read_fuse(i)`, and the device answered `w`. -/
def ReadAt (calls : List OperatorCall) (k i w : Nat) : Prop :=
  calls[k]? = some (.readFuse i) ∧ ∃ op, F.operator = some op ∧ op.readFuse (calls.take k) i = .ok w

/-- No `read_fuse(i)` at position `a` of `calls` or later returned. -/
def NoReadFrom (calls : List OperatorCall) (a i : Nat) : Prop := ∀ k w, a ≤ k → ¬ F.ReadAt calls k i w

/-- From `s` to `s'` the cached raw value of the physical register `y` followed the device: it
    is unchanged and no read of its OTP word returned, or it is `set_value` of the word the device
    answered to the last read of its OTP word that returned. -/
def Agrees (s s' : FusesState) (y : Uid) : Prop :=
  (s'.values y = s.values y ∧
    ∀ i, (F.fuseRegs.reg y).otpIndex = some i → F.NoReadFrom s'.calls s.calls.length i) ∨
  ∃ i k w, (F.fuseRegs.reg y).otpIndex = some i ∧ s.calls.length ≤ k ∧ F.ReadAt s'.calls k i w ∧
    F.NoReadFrom s'.calls (k + 1) i ∧ s'.values y = F.fuseRegs.toRaw y w

/-- From `s` to `s'` the cache followed the device: `s'` extends `s`'s call log, and the cached
    value of every physical register of the collection followed the device. -/
def Coherent (s s' : FusesState) : Prop :=
  s.calls <+: s'.calls ∧
    ∀ y ∈ F.fuseRegs.allRegs, F.fuseRegs.hasGroupRegisters y = false → F.Agrees s s' y

section Coherent

variable {F} {calls calls' : List OperatorCall} {k i w : Nat}

theorem ReadAt.lt_length (h : F.ReadAt calls k i w) : k < calls.length := by
  by_contra hk
  have h₁ := h.1
  rw [List.getElem?_eq_none (Nat.le_of_not_lt hk)] at h₁
  cases h₁

theorem ReadAt.prefix (hp : calls <+: calls') (h : F.ReadAt calls k i w) : F.ReadAt calls' k i w := by
  obtain ⟨t, rfl⟩ := hp
  rw [ReadAt, List.getElem?_append_left h.lt_length,
    List.take_append_of_le_length (Nat.le_of_lt h.lt_length)]
  exact h

theorem ReadAt.of_prefix (hp : calls <+: calls') (hk : k < calls.length)
    (h : F.ReadAt calls' k i w) : F.ReadAt calls k i w := by
  obtain ⟨t, rfl⟩ := hp
  rwa [ReadAt, List.getElem?_append_left hk, List.take_append_of_le_length (Nat.le_of_lt hk)] at h

theorem noReadFrom_of_le {a : Nat} (ha : calls.length ≤ a) (i : Nat) : F.NoReadFrom calls a i :=
  fun _ _ hk h => Nat.not_le_of_lt h.lt_length (le_trans ha hk)

theorem noReadFrom_length (i : Nat) : F.NoReadFrom calls calls.length i :=
  noReadFrom_of_le (le_refl _) i

/-- Two stretches with no returned read make one. -/
theorem NoReadFrom.extend {a : Nat} (hp : calls <+: calls') (h : F.NoReadFrom calls a i)
    (h' : F.NoReadFrom calls' calls.length i) : F.NoReadFrom calls' a i := fun k w ha hr => by
  by_cases hk : k < calls.length
  · exact h k w ha (hr.of_prefix hp hk)
  · exact h' k w (Nat.le_of_not_lt hk) hr

/-- After one call more, no read of `i` returned from the old length on, unless that call did. -/
theorem noReadFrom_append_single {c : OperatorCall}
    (h : ∀ w, ¬ F.ReadAt (calls ++ [c]) calls.length i w) :
    F.NoReadFrom (calls ++ [c]) calls.length i := fun k w hk hr => by
  have : k = calls.length := by
    have := hr.lt_length
    rw [List.length_append, List.length_singleton] at this
    omega
  subst this
  exact h w hr

theorem readAt_append_single {c : OperatorCall} :
    F.ReadAt (calls ++ [c]) calls.length i w ↔
      c = .readFuse i ∧ ∃ op, F.operator = some op ∧ op.readFuse calls i = .ok w := by
  rw [ReadAt, List.getElem?_concat_length, List.take_left' rfl, Option.some_inj]

theorem coherent_refl (s : FusesState) : F.Coherent s s :=
  ⟨List.prefix_refl _, fun _ _ _ => .inl ⟨rfl, fun _ _ => noReadFrom_length _⟩⟩

theorem coherent_trans {s₁ s₂ s₃ : FusesState} (h₁ : F.Coherent s₁ s₂) (h₂ : F.Coherent s₂ s₃) :
    F.Coherent s₁ s₃ := by
  refine ⟨h₁.1.trans h₂.1, fun y hy hg => ?_⟩
  rcases h₂.2 y hy hg with ⟨hv₂, hn₂⟩ | hr₂
  · rcases h₁.2 y hy hg with ⟨hv₁, hn₁⟩ | ⟨i, k, w, hi, hk, hr, hn, hv⟩
    · exact .inl ⟨hv₂.trans hv₁, fun i hi => (hn₁ i hi).extend h₂.1 (hn₂ i hi)⟩
    · exact .inr ⟨i, k, w, hi, hk, hr.prefix h₂.1, hn.extend h₂.1 (hn₂ i hi), hv₂.trans hv⟩
  · obtain ⟨i, k, w, hi, hk, hr, hn, hv⟩ := hr₂
    exact .inr ⟨i, k, w, hi, le_trans (h₁.1.length_le) hk, hr, hn, hv⟩

instance : IsPreorder FusesState F.Coherent where
  refl := coherent_refl
  trans _ _ _ := coherent_trans

/-- A step that changes neither the values nor the call log. -/
theorem coherent_of_frame {s s' : FusesState} (hv : s'.values = s.values) (hc : s'.calls = s.calls) :
    F.Coherent s s' :=
  ⟨by rw [hc], fun _ _ _ => .inl ⟨by rw [hv], fun _ _ => by rw [hc]; exact noReadFrom_length _⟩⟩

/-- A call that is no read of `i`, or a read of it that raised, leaves `y` agreeing with the
    device when its value did not change. -/
theorem agrees_append_single {s s' : FusesState} {c : OperatorCall} {y : Uid}
    (hc : s'.calls = s.calls ++ [c]) (hv : s'.values y = s.values y)
    (h : ∀ i, (F.fuseRegs.reg y).otpIndex = some i → ∀ w, ¬ F.ReadAt (s.calls ++ [c]) s.calls.length i w) :
    F.Agrees s s' y :=
  .inl ⟨hv, fun i hi => by rw [hc]; exact noReadFrom_append_single (h i hi)⟩

theorem coherent_writeFuse (index value : Nat) (lock : Bool) :
    Keeps F.Coherent (writeFuse F.operator index value lock) := fun s => by
  rcases writeFuse_cases (rfl : writeFuse F.operator index value lock s = _) with
    ⟨-, ho⟩ | ⟨op, -, hout, -⟩
  · rw [ho]
    exact coherent_refl s
  · rw [hout]
    refine ⟨List.prefix_append _ _, fun y _ _ => agrees_append_single rfl rfl fun i _ w hr => ?_⟩
    cases (readAt_append_single.mp hr).1

/-- `readReg` stores the word the device answered in the register it read, and only there. -/
theorem coherent_readReg (hu : F.fuseRegs.OtpDistinct) {x : Uid} (hx : x ∈ F.fuseRegs.allRegs)
    (hg : F.fuseRegs.hasGroupRegisters x = false) : Keeps F.Coherent (F.readReg x) := fun s => by
  rcases F.readReg_cases x s with h | ⟨i, op, hi, hop, ⟨d, hd, h⟩ | ⟨v, hv, h⟩⟩ <;> rw [h]
  · exact coherent_refl s
  · refine ⟨List.prefix_append _ _, fun y _ _ => agrees_append_single rfl rfl fun j _ w h => ?_⟩
    obtain ⟨hc, op', hop', hw⟩ := readAt_append_single.mp h
    cases hc
    cases hop.symm.trans hop'
    cases hd.symm.trans hw
  · refine ⟨List.prefix_append _ _, fun y hy hgy => ?_⟩
    by_cases hxy : y = x
    · subst hxy
      exact .inr ⟨i, s.calls.length, v, hi, le_refl _, readAt_append_single.mpr ⟨rfl, op, hop, hv⟩,
        noReadFrom_of_le (by simp) i, F.fuseRegs.setValue_self hg v⟩
    · refine agrees_append_single rfl (F.fuseRegs.setValue_of_ne hg v hxy) fun j hj w h => ?_
      obtain ⟨hc, -⟩ := readAt_append_single.mp h
      cases hc
      exact hxy (hu y hy x hx hgy hg i hj hi)

/-- `Coherent` is kept by every step of the operations. -/
theorem coherent_steps (hu : F.fuseRegs.OtpDistinct) :
    WriteSteps F (· ∈ F.fuseRegs.allRegs) F.Coherent where
  setFuseContext _ _ := coherent_of_frame rfl rfl
  readReg _ hx hg := coherent_readReg hu hx hg
  writeFuse := coherent_writeFuse
  lockWrite _ _ := coherent_of_frame rfl rfl

/-- The registers of the collection and the members of its groups. -/
theorem reach_allRegs : Reach F (· ∈ F.fuseRegs.allRegs) where
  registers _ hx := List.mem_append_left _ hx
  lockFuse x l _ hl := F.fuseRegs.getLockFuse_mem x l hl
  subReg _ _ hx hy := F.fuseRegs.dep_mem_allRegs hx (.inr hy)

end Coherent

/-- **The cache follows the device.** When `find_reg` finds only registers of the collection and
    its physical registers have distinct OTP indices, then after any sequence of `read_single`,
    `read_all`, `write_single` and `write_multiple` calls, each returned or raised, with any
    device: the call log extends the one before, and every physical register's cached raw value
    is either what it was before, and then no `read_fuse` of its OTP index returned since, or
    `set_value` of the word the device answered to the last `read_fuse` of its OTP index that
    returned. -/
theorem runOps_coherent (hf : ∀ name x, F.fuseRegs.findReg name = some x → x ∈ F.fuseRegs.allRegs)
    (hu : F.fuseRegs.OtpDistinct) (n : Nat) (s : FusesState) (ops : List FusesOp) :
    F.Coherent s (F.runOps n s ops) :=
  keeps_runOps reach_allRegs hf (coherent_steps hu) n ops s

theorem lockedPairRegisters_allRegs : lockedPairRegisters.allRegs = ["FUSE", "LOCK"] := by
  simp [FuseRegisters.allRegs, lockedPairRegisters, plainRegister]

theorem lockedPairRegisters_otpDistinct : lockedPairRegisters.OtpDistinct :=
  fun x hx y hy _ _ i hxi hyi => by
    rw [lockedPairRegisters_allRegs] at hx hy
    simp only [List.mem_cons, List.mem_singleton, List.not_mem_nil, or_false] at hx hy
    have h3 : (lockedPairRegisters.reg "FUSE").otpIndex = some 3 := rfl
    have h0 : (lockedPairRegisters.reg "LOCK").otpIndex = some 0 := rfl
    rcases hx with rfl | rfl <;> rcases hy with rfl | rfl
    · rfl
    · exact absurd ((h3.symm.trans hxi).trans (h0.symm.trans hyi).symm) (by decide)
    · exact absurd ((h0.symm.trans hxi).trans (h3.symm.trans hyi).symm) (by decide)
    · rfl

theorem lockedPairFuses_findReg_mem (name x : String)
    (h : lockedPairFuses.fuseRegs.findReg name = some x) : x ∈ lockedPairFuses.fuseRegs.allRegs := by
  simp only [lockedPairFuses, lockedPairRegisters, Option.ite_none_right_eq_some,
    Option.some.injEq] at h
  obtain ⟨hn, rfl⟩ := h
  rw [show lockedPairFuses.fuseRegs = lockedPairRegisters from rfl, lockedPairRegisters_allRegs]
  rcases hn with rfl | rfl <;> simp

theorem runOps_coherent_lockedPair :
    (∀ name x, lockedPairFuses.fuseRegs.findReg name = some x →
      x ∈ lockedPairFuses.fuseRegs.allRegs) ∧ lockedPairFuses.fuseRegs.OtpDistinct ∧
    lockedPairFuses.Coherent clearState (lockedPairFuses.runOps 4 clearState
      [.readAll, .writeSingle "FUSE" true, .readSingle "FUSE" true]) :=
  ⟨lockedPairFuses_findReg_mem, lockedPairRegisters_otpDistinct,
    lockedPairFuses.runOps_coherent lockedPairFuses_findReg_mem lockedPairRegisters_otpDistinct 4
      clearState _⟩

/-! ## 4. Reading never burns -/

/-- Every register is reachable, for the relations that hold of every register. -/
theorem reach_true : Reach F fun _ => True :=
  ⟨fun _ _ => trivial, fun _ _ _ _ => trivial, fun _ _ _ _ => trivial⟩

/-- From `s` to `s'` the call log grew by `read_fuse` calls only. -/
def ReadsOnlyFrom (s s' : FusesState) : Prop :=
  ∃ t, s'.calls = s.calls ++ t ∧ ∀ c ∈ t, ∃ i, c = .readFuse i

instance : IsPreorder FusesState ReadsOnlyFrom where
  refl s := ⟨[], (List.append_nil _).symm, nofun⟩
  trans _ _ _ := fun ⟨t₁, h₁, r₁⟩ ⟨t₂, h₂, r₂⟩ => ⟨t₁ ++ t₂, by rw [h₂, h₁, List.append_assoc],
    fun c hc => (List.mem_append.mp hc).elim (r₁ c) (r₂ c)⟩

theorem readsOnly_steps : ReadSteps F (fun _ => True) ReadsOnlyFrom where
  setFuseContext _ _ := ⟨[], (List.append_nil _).symm, nofun⟩
  readReg x _ _ s := by
    rcases F.readReg_cases x s with h | ⟨i, _, _, _, ⟨_, _, h⟩ | ⟨_, _, h⟩⟩ <;> rw [h]
    · exact refl_of ReadsOnlyFrom s
    all_goals exact ⟨[.readFuse i], rfl, fun c hc => ⟨i, List.mem_singleton.mp hc⟩⟩

/-- **Reading never burns.** After any sequence of `read_single` and `read_all` calls, each
    returned or raised, on any register map and device, every operator call added is a
    `read_fuse`. -/
theorem readOps_readsOnly (n : Nat) (s : FusesState) (ops : List FusesOp)
    (hops : ∀ o ∈ ops, o.isRead = true) :
    ∃ t, (F.runOps n s ops).calls = s.calls ++ t ∧ ∀ c ∈ t, ∃ i, c = .readFuse i :=
  keeps_readOps (R := ReadsOnlyFrom) F.reach_true (fun _ _ _ => trivial) F.readsOnly_steps n ops
    hops s

/-! ## 5. The locks follow the lock fuses -/

/-- From `s` to `s'`, `P` is kept: it holds of `s'` when it holds of `s`. -/
def StaysIn (P : FusesState → Prop) (s s' : FusesState) : Prop := P s → P s'

instance (P : FusesState → Prop) : IsPreorder FusesState (StaysIn P) where
  refl _ := id
  trans _ _ _ h₁ h₂ := h₂ ∘ h₁

/-- The active locks of every register `y` with a lock fuse `l` follow `l`'s cached value: they
    hold every lock kind `update_locks` decodes from it, and besides those at most `WRITE_LOCK`,
    which a write records. -/
def LocksFollow (s : FusesState) : Prop :=
  ∀ y l, F.fuseRegs.getLockFuse y = some l →
    (∀ k ∈ F.fuseRegs.lockDecode y (F.fuseRegs.rawValue s.values l), k ∈ s.activeLocks y) ∧
    ∀ k ∈ s.activeLocks y, k ∈ F.fuseRegs.lockDecode y (F.fuseRegs.rawValue s.values l) ∨
      k = .writeLock

/-- `update_locks` makes the locks follow the values, whatever they were before. -/
theorem locksFollow_of_updateLocks {t : FusesState} {locks : Uid → List FuseLock}
    (h : t.activeLocks = F.fuseRegs.updateLocks t.values locks) : F.LocksFollow t :=
  fun y l hl => by
    rw [h, F.fuseRegs.updateLocks_of_some _ _ hl]
    exact ⟨fun _ hk => hk, fun _ hk => .inl hk⟩

theorem locksFollow_steps : WriteSteps F (fun _ => True) (StaysIn F.LocksFollow) where
  setFuseContext _ _ h := h
  readReg x _ _ s h := by
    rcases F.readReg_cases x s with h' | ⟨i, _, _, _, ⟨_, _, h'⟩ | ⟨w, _, h'⟩⟩ <;> rw [h']
    · exact h
    · exact h
    · exact F.locksFollow_of_updateLocks rfl
  writeFuse i v l s h := by
    rcases writeFuse_cases (rfl : writeFuse F.operator i v l s = _) with ⟨-, ho⟩ | ⟨_, -, hout, -⟩
    · rw [ho]; exact h
    · rw [hout]; exact h
  lockWrite x s h y l hl := by
    obtain ⟨h₁, h₂⟩ := h y l hl
    by_cases hy : y = x
    · subst hy
      simp only [modify_apply, outState_ok, lock_self, List.mem_insert_iff]
      exact ⟨fun k hk => .inr (h₁ k hk), fun k hk => hk.elim .inr (h₂ k)⟩
    · simp only [modify_apply, outState_ok, lock, Function.update_noteq hy]
      exact ⟨h₁, h₂⟩

/-- **The lock cache follows the lock fuses.** When the active locks of every register with a
    lock fuse follow its lock fuse's cached value, they still do after any sequence of
    `read_single`, `read_all`, `write_single` and `write_multiple` calls, each returned or
    raised, on any register map and device: a read reruns `update_locks` after the value it
    stores, and a write adds only `WRITE_LOCK`. -/
theorem runOps_locksFollow (n : Nat) (s : FusesState) (ops : List FusesOp)
    (h : F.LocksFollow s) : F.LocksFollow (F.runOps n s ops) :=
  keeps_runOps F.reach_true (fun _ _ _ => trivial) F.locksFollow_steps n ops s h

theorem runOps_locksFollow_lockedPair :
    lockedPairFuses.LocksFollow clearState ∧ lockedPairFuses.LocksFollow
      (lockedPairFuses.runOps 4 clearState [.readAll, .writeSingle "FUSE" true]) :=
  have h₀ : lockedPairFuses.LocksFollow clearState := fun y l hl => by
    simp only [lockedPairFuses, lockedPairRegisters, Option.ite_none_right_eq_some,
      Option.some.injEq] at hl
    obtain ⟨-, rfl⟩ := hl
    have hd : lockedPairFuses.fuseRegs.lockDecode y
        (lockedPairFuses.fuseRegs.rawValue clearState.values "LOCK") = [] := rfl
    rw [hd]
    exact ⟨nofun, nofun⟩
  ⟨h₀, lockedPairFuses.runOps_locksFollow 4 clearState _ h₀⟩

/-! ## 6. The cached values fit their widths -/

/-- Every word the device answers for the OTP index of a physical register fits the register's
    width once `set_value` has encoded it. -/
def AnswersFit : Prop :=
  ∀ op, F.operator = some op → ∀ y i calls w, F.fuseRegs.hasGroupRegisters y = false →
    (F.fuseRegs.reg y).otpIndex = some i → op.readFuse calls i = .ok w →
    F.fuseRegs.toRaw y w < 2 ^ (F.fuseRegs.reg y).width

theorem valuesFit_steps (hdev : F.AnswersFit) :
    WriteSteps F (fun _ => True) (StaysIn fun s => F.fuseRegs.ValuesFit s.values) where
  setFuseContext _ _ h := h
  readReg x _ hx s h := by
    rcases F.readReg_cases x s with h' | ⟨i, op, hi, hop, ⟨_, _, h'⟩ | ⟨w, hw, h'⟩⟩ <;>
      simp only [h']
    · exact h
    · exact h
    · exact F.fuseRegs.valuesFit_setRawValue h fun _ => hdev op hop x i s.calls w hx hi hw
  writeFuse i v l s h := by
    rcases writeFuse_cases (rfl : writeFuse F.operator i v l s = _) with ⟨-, ho⟩ | ⟨_, -, hout, -⟩
    · simp only [ho]; exact h
    · simp only [hout]; exact h
  lockWrite _ _ h := h

/-- A run of the device operations keeps the cached values within their widths on a device whose
    answers fit: only `read_single` stores a value, the word it read. -/
theorem runOps_valuesFit (hdev : F.AnswersFit) (n : Nat) (s : FusesState) (ops : List FusesOp)
    (h : F.fuseRegs.ValuesFit s.values) : F.fuseRegs.ValuesFit (F.runOps n s ops).values :=
  keeps_runOps F.reach_true (fun _ _ _ => trivial) (F.valuesFit_steps hdev) n ops s h

end Fuses

end Spsdk
