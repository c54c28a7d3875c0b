import SpsdkFuses.Register

/-
  File:      SpsdkFuses/Operator.lean
  Subject:   The exceptions, the fuse operator as `Fuses` calls it, and the state a `Fuses` object
             threads through its operations.

  * `FuseError` -- the exception classes `fuses.py` raises or lets through, with their texts;
  * `OperatorCall`, `FuseOperator` -- a call of `read_fuse` / `write_fuse`, and a device: it
    answers each call from the calls made before it, so every device, an adaptive one included,
    is a `FuseOperator`;
  * `FusesState`, `FuseM` -- the registers' values and active locks, `fuse_context`, and the
    operator calls made so far; the operations run in `EStateM`, so an exception keeps the state
    it was raised in, as Python's do;
  * `readFuse`, `writeFuse` -- `self.fuse_operator.read_fuse(i)` and `...write_fuse(i, v, l)`,
    which raise when no operator is set.
-/

namespace Spsdk

/-- The exceptions of `fuses.py` and of the collaborators it calls. -/
inductive FuseError where
  /-- `SPSDKFuseOperationFailure` -/
  | fuseOperationFailure (description : String)
  /-- `SPSDKFuseConfigurationError` -/
  | fuseConfigurationError (description : String)
  /-- `SPSDKError` -/
  | error (description : String)
  /-- `SPSDKAttributeError` -/
  | attributeError (description : String)
  /-- `SPSDKValueError` -/
  | valueError (description : String)
  /-- raised by `find_reg` and `get_bitfield` for an unknown name -/
  | notFound (name : String)
  /-- Python's `RecursionError`: the recursion bound of the model is reached -/
  | recursionError
  /-- any other exception of an external collaborator (transport, schema validation) -/
  | other (description : String)
  deriving DecidableEq, Repr

/-- Whether `except SPSDKFuseOperationFailure` catches the exception. -/
def FuseError.isFuseOperationFailure : FuseError → Bool
  | .fuseOperationFailure _ => true
  | _ => false

/-- The exceptions a device raises through `read_fuse` / `write_fuse`: the operators' own
    `SPSDKFuseOperationFailure`, and the errors of the transport below them. -/
inductive DeviceError where
  | fuseOperationFailure (description : String)
  | error (description : String)
  | other (description : String)
  deriving DecidableEq, Repr

/-- A device exception as `fuses.py` sees it. -/
def DeviceError.toFuseError : DeviceError → FuseError
  | .fuseOperationFailure d => .fuseOperationFailure d
  | .error d => .error d
  | .other d => .other d

theorem DeviceError.toFuseError_ne_recursionError (e : DeviceError) :
    e.toFuseError ≠ .recursionError := by
  cases e <;> simp [toFuseError]

/-- A call `Fuses` makes on its fuse operator. -/
inductive OperatorCall where
  | readFuse (index : Nat)
  | writeFuse (index value : Nat) (lock : Bool)
  deriving DecidableEq, Repr

/-- `FuseOperator.read_fuse` / `write_fuse` of one device, answering from the calls before. -/
structure FuseOperator where
  readFuse : List OperatorCall → Nat → Except DeviceError Nat
  writeFuse : List OperatorCall → Nat → Nat → Bool → Except DeviceError Unit

/-- The concrete fuse operators `FuseOperator.get_operator_type` resolves a family's tool name
    to. -/
inductive FuseOperatorType where
  | blhost
  | nxpele
  deriving DecidableEq, Repr

/-- The mutable part of a `Fuses` object and of its registers, and the operator calls so far
    (oldest first). -/
structure FusesState where
  values : Uid → Nat
  activeLocks : Uid → List FuseLock
  fuseContext : List Uid
  calls : List OperatorCall

/-- The operations of `Fuses`: an exception keeps the state it was raised in. -/
abbrev FuseM := EStateM FuseError FusesState

/-! ## 1. The monad, unfolded -/

section Monad

variable {ε α β σ : Type}

/-- The state an outcome ends in, returned or raised. -/
def outState : EStateM.Result ε σ α → σ
  | .ok _ s => s
  | .error _ s => s

@[simp] theorem outState_ok (a : α) (s : σ) :
    outState (.ok a s : EStateM.Result ε σ α) = s := rfl

@[simp] theorem outState_error (e : ε) (s : σ) :
    outState (.error e s : EStateM.Result ε σ α) = s := rfl

theorem bind_ok {x : EStateM ε σ α} {f : α → EStateM ε σ β} {s s' : σ} {a : α}
    (h : x s = .ok a s') : (x >>= f) s = f a s' := by
  show EStateM.bind x f s = _
  simp only [EStateM.bind, h]

theorem bind_error {x : EStateM ε σ α} {f : α → EStateM ε σ β} {s s' : σ}
    {e : ε} (h : x s = .error e s') : (x >>= f) s = .error e s' := by
  show EStateM.bind x f s = _
  simp only [EStateM.bind, h]

@[simp] theorem pure_apply (a : α) (s : σ) : (pure a : EStateM ε σ α) s = .ok a s := rfl

@[simp] theorem throw_apply (e : ε) (s : σ) :
    (throw e : EStateM ε σ α) s = .error e s := rfl

@[simp] theorem get_apply (s : σ) : (get : EStateM ε σ σ) s = .ok s s := rfl

@[simp] theorem modify_apply (f : σ → σ) (s : σ) :
    (modify f : EStateM ε σ Unit) s = .ok () (f s) := rfl

/-- The outcomes of a bind: the first part raised, or it returned and the rest ran. -/
theorem bind_cases {x : EStateM ε σ α} {f : α → EStateM ε σ β} {s : σ}
    {o : EStateM.Result ε σ β} (h : (x >>= f) s = o) :
    (∃ e s', x s = .error e s' ∧ o = .error e s') ∨ ∃ a s', x s = .ok a s' ∧ f a s' = o := by
  cases hx : x s with
  | ok a s' => exact .inr ⟨a, s', rfl, by rw [← h, bind_ok hx]⟩
  | error e s' => exact .inl ⟨e, s', rfl, by rw [← h, bind_error hx]⟩

/-- A bind that returned: both parts returned. -/
theorem bind_eq_ok {x : EStateM ε σ α} {f : α → EStateM ε σ β} {s s' : σ} {b : β}
    (h : (x >>= f) s = .ok b s') : ∃ a s₁, x s = .ok a s₁ ∧ f a s₁ = .ok b s' := by
  rcases bind_cases h with ⟨_, _, _, h⟩ | h
  · cases h
  · exact h

end Monad

/-! ## 2. The operator calls -/

/-- `self.fuse_operator.read_fuse(index)`. -/
def readFuse (operator : Option FuseOperator) (index : Nat) : FuseM Nat := fun s =>
  match operator with
  | none => .error (.error "Fuse operator is not defined.") s
  | some op =>
    let s' := { s with calls := s.calls ++ [.readFuse index] }
    match op.readFuse s.calls index with
    | .ok v => .ok v s'
    | .error e => .error e.toFuseError s'

/-- `self.fuse_operator.write_fuse(index, value, lock)`. -/
def writeFuse (operator : Option FuseOperator) (index value : Nat) (lock : Bool) : FuseM Unit :=
  fun s =>
  match operator with
  | none => .error (.error "Fuse operator is not defined.") s
  | some op =>
    let s' := { s with calls := s.calls ++ [.writeFuse index value lock] }
    match op.writeFuse s.calls index value lock with
    | .ok () => .ok () s'
    | .error e => .error e.toFuseError s'

/-- What `readFuse` does: it raises without a call when no operator is set, and otherwise
    makes one call and answers what the device answers. -/
theorem readFuse_cases {operator : Option FuseOperator} {index : Nat} {s : FusesState}
    {o : EStateM.Result FuseError FusesState Nat} (h : readFuse operator index s = o) :
    (operator = none ∧ o = .error (.error "Fuse operator is not defined.") s) ∨
    ∃ op, operator = some op ∧
      outState o = { s with calls := s.calls ++ [.readFuse index] } ∧
      (∀ v s', o = .ok v s' → op.readFuse s.calls index = .ok v) ∧
      (∀ e s', o = .error e s' → ∃ d, op.readFuse s.calls index = .error d ∧ e = d.toFuseError) := by
  subst h
  cases operator with
  | none => exact .inl ⟨rfl, rfl⟩
  | some op =>
    refine .inr ⟨op, rfl, ?_⟩
    simp only [readFuse]
    cases op.readFuse s.calls index <;> simp

theorem writeFuse_cases {operator : Option FuseOperator} {index value : Nat} {lock : Bool}
    {s : FusesState} {o : EStateM.Result FuseError FusesState Unit}
    (h : writeFuse operator index value lock s = o) :
    (operator = none ∧ o = .error (.error "Fuse operator is not defined.") s) ∨
    ∃ op, operator = some op ∧
      outState o = { s with calls := s.calls ++ [.writeFuse index value lock] } ∧
      (∀ e s', o = .error e s' →
        ∃ d, op.writeFuse s.calls index value lock = .error d ∧ e = d.toFuseError) := by
  subst h
  cases operator with
  | none => exact .inl ⟨rfl, rfl⟩
  | some op =>
    refine .inr ⟨op, rfl, ?_⟩
    simp only [writeFuse]
    cases op.writeFuse s.calls index value lock <;> simp

/-! ## 3. What a computation does to the call log

`Grows p`: `p` only appends operator calls. `NewCall p s k c`: run from `s`, `p` makes the call
`c`, which lands at position `k` of the log. A call of a bind is a call of its first part, or
one of its second part from a state the first part returned in (`newCall_bind`); a call of a
loop is a call of one iteration from the state the earlier iterations left (`newCall_forM`).
-/

section Calls

variable {α β : Type}

/-- The computation only appends to the operator calls. -/
def Grows (p : FuseM α) : Prop := ∀ s, s.calls <+: (outState (p s)).calls

/-- Run from `s`, the computation makes the call `c` at position `k` of the log. -/
def NewCall (p : FuseM α) (s : FusesState) (k : Nat) (c : OperatorCall) : Prop :=
  s.calls.length ≤ k ∧ (outState (p s)).calls[k]? = some c

theorem grows_pure (a : α) : Grows (pure a : FuseM α) := fun _ => List.prefix_refl _

theorem grows_throw (e : FuseError) : Grows (throw e : FuseM α) := fun _ => List.prefix_refl _

theorem grows_get : Grows (get : FuseM FusesState) := fun _ => List.prefix_refl _

theorem grows_modify {f : FusesState → FusesState} (h : ∀ s, (f s).calls = s.calls) :
    Grows (modify f) := fun s => by simp [h]

theorem grows_bind {x : FuseM α} {f : α → FuseM β} (hx : Grows x) (hf : ∀ a, Grows (f a)) :
    Grows (x >>= f) := fun s => by
  cases h : x s with
  | ok a s' =>
    rw [bind_ok h]
    exact (by simpa [h] using hx s : s.calls <+: s'.calls).trans (hf a s')
  | error e s' => rw [bind_error h]; simpa [h] using hx s

theorem grows_forM {l : List α} {f : α → FuseM PUnit} (hf : ∀ a ∈ l, Grows (f a)) :
    Grows (l.forM f) := by
  induction l with
  | nil => exact grows_pure _
  | cons a l ih =>
    exact grows_bind (hf a (List.mem_cons_self _ _))
      fun _ => ih fun b hb => hf b (List.mem_cons_of_mem _ hb)

theorem grows_readFuse (operator : Option FuseOperator) (index : Nat) :
    Grows (readFuse operator index) := fun s => by
  rcases readFuse_cases (rfl : readFuse operator index s = _) with ⟨-, h⟩ | ⟨op, -, h, -⟩
  · rw [h]; exact List.prefix_refl _
  · rw [h]; exact List.prefix_append _ _

theorem grows_writeFuse (operator : Option FuseOperator) (index value : Nat) (lock : Bool) :
    Grows (writeFuse operator index value lock) := fun s => by
  rcases writeFuse_cases (rfl : writeFuse operator index value lock s = _) with
    ⟨-, h⟩ | ⟨op, -, h, -⟩
  · rw [h]; exact List.prefix_refl _
  · rw [h]; exact List.prefix_append _ _

theorem calls_getElem?_of_lt {l₁ l₂ : List OperatorCall} (h : l₁ <+: l₂) {k : Nat}
    (hk : k < l₁.length) : l₂[k]? = l₁[k]? := by
  obtain ⟨d, rfl⟩ := h
  exact List.getElem?_append_left hk

theorem Grows.calls_grow {p : FuseM α} (hp : Grows p) {s s' : FusesState} {a : α}
    (h : p s = .ok a s') : s.calls <+: s'.calls := by
  simpa [h] using hp s

theorem Grows.calls_grow_error {p : FuseM α} (hp : Grows p) {s s' : FusesState} {e : FuseError}
    (h : p s = .error e s') : s.calls <+: s'.calls := by
  simpa [h] using hp s

theorem Grows.length_le {p : FuseM α} (hp : Grows p) {s s' : FusesState} {a : α}
    (h : p s = .ok a s') : s.calls.length ≤ s'.calls.length := by
  have := hp s
  rw [h, outState_ok] at this
  exact this.length_le

/-- **A call of a bind** is a call of its first part, or of its second part run from the state
    the first part returned in. -/
theorem newCall_bind {x : FuseM α} {f : α → FuseM β} (hf : ∀ a, Grows (f a)) {s : FusesState}
    {k : Nat} {c : OperatorCall} (h : NewCall (x >>= f) s k c) :
    NewCall x s k c ∨ ∃ a s', x s = .ok a s' ∧ NewCall (f a) s' k c := by
  obtain ⟨hk, hc⟩ := h
  cases hx : x s with
  | error e s' => rw [bind_error hx] at hc; exact .inl ⟨hk, by rw [hx]; exact hc⟩
  | ok a s' =>
    rw [bind_ok hx] at hc
    by_cases hlt : k < s'.calls.length
    · exact .inl ⟨hk, by rw [hx, outState_ok, ← calls_getElem?_of_lt (hf a s') hlt]; exact hc⟩
    · exact .inr ⟨a, s', rfl, Nat.le_of_not_lt hlt, hc⟩

/-- A call of a bind that its first part cannot make is a call of its second part. -/
theorem newCall_bind_right {x : FuseM α} {f : α → FuseM β} (hf : ∀ a, Grows (f a))
    {s : FusesState} {k : Nat} {c : OperatorCall} (hx : ¬ NewCall x s k c)
    (h : NewCall (x >>= f) s k c) : ∃ a s', x s = .ok a s' ∧ NewCall (f a) s' k c :=
  (newCall_bind hf h).resolve_left hx

/-- **A call of a loop** is a call of one iteration, run from the state the iterations before it
    returned in. -/
theorem newCall_forM {l : List α} {f : α → FuseM PUnit} (hf : ∀ a ∈ l, Grows (f a))
    {s : FusesState} {k : Nat} {c : OperatorCall} (h : NewCall (l.forM f) s k c) :
    ∃ pre a post s', l = pre ++ a :: post ∧ pre.forM f s = .ok ⟨⟩ s' ∧ NewCall (f a) s' k c := by
  induction l generalizing s with
  | nil =>
    obtain ⟨hk, hc⟩ := h
    simp [List.getElem?_eq_none hk] at hc
  | cons a l ih =>
    rcases newCall_bind (fun _ => grows_forM fun b hb => hf b (List.mem_cons_of_mem _ hb)) h with
      h | ⟨⟨⟩, s', hs', h⟩
    · exact ⟨[], a, l, s, rfl, rfl, h⟩
    · obtain ⟨pre, b, post, s'', rfl, hpre, hb⟩ :=
        ih (fun b hb => hf b (List.mem_cons_of_mem _ hb)) h
      refine ⟨a :: pre, b, post, s'', rfl, ?_, hb⟩
      show (do f a; pre.forM f) s = _
      rw [bind_ok hs']
      exact hpre

/-- The computation makes no operator call. -/
def NoCalls (p : FuseM α) : Prop := ∀ s, (outState (p s)).calls = s.calls

theorem NoCalls.grows {p : FuseM α} (h : NoCalls p) : Grows p := fun s => by
  rw [h s]

theorem NoCalls.not_newCall {p : FuseM α} (h : NoCalls p) {s : FusesState} {k : Nat}
    {c : OperatorCall} : ¬ NewCall p s k c := fun ⟨hk, hc⟩ => by
  simp [h s, List.getElem?_eq_none hk] at hc

/-- A call of a bind whose second part makes no call is a call of its first part. -/
theorem newCall_bind_left {x : FuseM α} {f : α → FuseM β} (hf : ∀ a, NoCalls (f a))
    {s : FusesState} {k : Nat} {c : OperatorCall} (h : NewCall (x >>= f) s k c) :
    NewCall x s k c :=
  (newCall_bind (fun a => (hf a).grows) h).elim id fun ⟨_, _, _, h'⟩ => absurd h' (hf _).not_newCall

theorem noCalls_pure (a : α) : NoCalls (pure a : FuseM α) := fun _ => rfl

theorem noCalls_throw (e : FuseError) : NoCalls (throw e : FuseM α) := fun _ => rfl

theorem noCalls_get : NoCalls (get : FuseM FusesState) := fun _ => rfl

theorem noCalls_modify {f : FusesState → FusesState} (h : ∀ s, (f s).calls = s.calls) :
    NoCalls (modify f) := h

theorem noCalls_bind {x : FuseM α} {f : α → FuseM β} (hx : NoCalls x) (hf : ∀ a, NoCalls (f a)) :
    NoCalls (x >>= f) := fun s => by
  cases h : x s with
  | ok a s' => rw [bind_ok h, hf a s']; simpa [h] using hx s
  | error e s' => rw [bind_error h]; simpa [h] using hx s

/-- A computation that appends at most the call `c₀` makes no other call. -/
theorem newCall_of_calls {p : FuseM α} {s : FusesState} {c₀ : OperatorCall}
    (hp : (outState (p s)).calls = s.calls ∨ (outState (p s)).calls = s.calls ++ [c₀]) {k : Nat}
    {c : OperatorCall} (h : NewCall p s k c) : c = c₀ ∧ k = s.calls.length := by
  obtain ⟨hk, hc⟩ := h
  rcases hp with hp | hp <;> rw [hp] at hc
  · rw [List.getElem?_eq_none hk] at hc; cases hc
  · obtain ⟨hlt, hc⟩ := List.getElem?_eq_some_iff.mp hc
    have hk' : k = s.calls.length := by simp at hlt; omega
    subst hk'
    simp at hc
    exact ⟨hc.symm, rfl⟩

theorem noCalls_ite {c : Prop} [Decidable c] {p q : FuseM α} (hp : NoCalls p) (hq : NoCalls q) :
    NoCalls (if c then p else q) := by
  split
  exacts [hp, hq]

/-- The call `readFuse` makes is the read of its index, at the end of the log. -/
theorem newCall_readFuse {operator : Option FuseOperator} {index : Nat} {s : FusesState}
    {k : Nat} {c : OperatorCall} (h : NewCall (readFuse operator index) s k c) :
    c = .readFuse index ∧ k = s.calls.length := by
  refine newCall_of_calls ?_ h
  rcases readFuse_cases (rfl : readFuse operator index s = _) with ⟨-, h⟩ | ⟨op, -, h, -⟩
  · exact .inl (by rw [h]; rfl)
  · exact .inr (by rw [h])

/-- The call `writeFuse` makes is the write of its arguments, at the end of the log. -/
theorem newCall_writeFuse {operator : Option FuseOperator} {index value : Nat} {lock : Bool}
    {s : FusesState} {k : Nat} {c : OperatorCall}
    (h : NewCall (writeFuse operator index value lock) s k c) :
    c = .writeFuse index value lock ∧ k = s.calls.length := by
  refine newCall_of_calls ?_ h
  rcases writeFuse_cases (rfl : writeFuse operator index value lock s = _) with ⟨-, h⟩ | ⟨op, -, h, -⟩
  · exact .inl (by rw [h]; rfl)
  · exact .inr (by rw [h])

/-- The computation calls `read_fuse` only. -/
def ReadsOnly (p : FuseM α) : Prop := ∀ s k c, NewCall p s k c → ∃ i, c = .readFuse i

theorem ReadsOnly.not_newCall_write {p : FuseM α} (h : ReadsOnly p) {s : FusesState} {k i v : Nat}
    {l : Bool} : ¬ NewCall p s k (.writeFuse i v l) := fun hc => by
  obtain ⟨_, hi⟩ := h s k _ hc
  cases hi

end Calls

/-! ## 4. What a computation raises

`RaisesOnly P p`: every exception `p` raises, from any state, satisfies `P`. It composes over
binds and loops; "never reaches the recursion bound" and "raises only
`SPSDKFuseOperationFailure`" are two instances.
-/

section Raises

variable {α β : Type} {P : FuseError → Prop}

/-- Every exception the computation raises, from any state, satisfies `P`. -/
def RaisesOnly (P : FuseError → Prop) (p : FuseM α) : Prop := ∀ s e s', p s = .error e s' → P e

theorem raisesOnly_pure (a : α) : RaisesOnly P (pure a : FuseM α) := fun _ _ _ h => by cases h

theorem raisesOnly_get : RaisesOnly P (get : FuseM FusesState) := fun _ _ _ h => by cases h

theorem raisesOnly_modify (f : FusesState → FusesState) : RaisesOnly P (modify f) :=
  fun _ _ _ h => by cases h

theorem raisesOnly_throw {e : FuseError} (he : P e) : RaisesOnly P (throw e : FuseM α) :=
  fun _ _ _ h => by cases h; exact he

theorem raisesOnly_bind {x : FuseM α} {f : α → FuseM β} (hx : RaisesOnly P x)
    (hf : ∀ a, RaisesOnly P (f a)) : RaisesOnly P (x >>= f) := by
  intro s e s' h
  cases hs : x s with
  | ok a s₁ => rw [bind_ok hs] at h; exact hf a s₁ e s' h
  | error e₁ s₁ => rw [bind_error hs] at h; cases h; exact hx s _ _ hs

theorem raisesOnly_forM {l : List α} {f : α → FuseM PUnit} (hf : ∀ a ∈ l, RaisesOnly P (f a)) :
    RaisesOnly P (l.forM f) := by
  induction l with
  | nil => exact raisesOnly_pure _
  | cons a l ih =>
    exact raisesOnly_bind (hf a (List.mem_cons_self _ _))
      fun _ => ih fun b hb => hf b (List.mem_cons_of_mem _ hb)

theorem raisesOnly_readFuse {operator : Option FuseOperator}
    (hnone : operator = none → P (.error "Fuse operator is not defined."))
    (hdev : ∀ op, operator = some op → ∀ cs index d, op.readFuse cs index = .error d →
      P d.toFuseError) (index : Nat) :
    RaisesOnly P (readFuse operator index) := fun s e s' h => by
  rcases readFuse_cases h with ⟨hop, h⟩ | ⟨op, hop, -, -, he⟩
  · cases h; exact hnone hop
  · obtain ⟨d, hd, rfl⟩ := he _ _ rfl
    exact hdev op hop _ _ _ hd

theorem raisesOnly_writeFuse {operator : Option FuseOperator}
    (hnone : operator = none → P (.error "Fuse operator is not defined."))
    (hdev : ∀ op, operator = some op → ∀ cs index value lock d,
      op.writeFuse cs index value lock = .error d → P d.toFuseError) (index value : Nat)
    (lock : Bool) : RaisesOnly P (writeFuse operator index value lock) := fun s e s' h => by
  rcases writeFuse_cases h with ⟨hop, h⟩ | ⟨op, hop, -, he⟩
  · cases h; exact hnone hop
  · obtain ⟨d, hd, rfl⟩ := he _ _ rfl
    exact hdev op hop _ _ _ _ _ hd

end Raises

end Spsdk
