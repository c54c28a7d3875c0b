import SpsdkFuses.Operator

/-
  File:      SpsdkFuses/Transport.lean
  Subject:   The two fuse operators over their transports: `BlhostFuseOperator` over `McuBoot`
             with `mboot_operation_decorator`, and `NxpeleFuseOperator` over `EleMessageHandler`.

  `Fuses` sees an operator only through `read_fuse` / `write_fuse` (`FuseOperator`, Operator.lean).
  Below that each operator runs its transport in a session: blhost opens `McuBoot` unless it is
  open and closes it in a `finally`, nxpele sends its message inside `with ele_handler:`. The
  transport answers each call from the calls before it, as the device does one level up, and a
  `finally` runs as Python's does: after the body, also when the body raised, and its own
  exception replaces the body's.

  * `TransportCall`, `Transport`, `TransportM` -- the calls, a transport, and the runs over it;
  * `mbootOperation`, `eleSession` -- the two sessions; `outState_tryFinally` -- a `finally`
    runs from wherever its body stopped;
  * `mbootOperation_log`, `eleSession_log` -- once the session is entered, the operator's
    calls are those of its body followed by the release, on every path; a blhost call that
    returned leaves `McuBoot` closed, also when the caller had opened it;
  * `blhostWriteFuse_log`, `nxpeleWriteFuse_log` -- what each operator's `write_fuse` sends, and
    `blhostIndex_decode` -- the lock flag travels in bit 24 of the blhost index;
  * `TransportOperator.toFuseOperator` -- the operator as the device `Fuses` talks to, each call
    run from where the earlier calls left the transport (`replay`, `steps`);
    `readFuse_toFuseOperator`, `writeFuse_toFuseOperator` -- `Fuses` gets what the operator's run
    returns or raises;
  * `blhost_replay_log`, `nxpele_replay_log` -- over any calls of a `Fuses` object, the transport
    sees the call log in order, each call in its own session, whose shape the state the call
    started in and whether it raised fix.
-/

namespace Spsdk

/-! ## 1. Transports -/

/-- A message `NxpeleFuseOperator` sends through `EleMessageHandler`. -/
inductive EleMessage where
  /-- `EleMessageReadCommonFuse(index)` -/
  | readCommonFuse (index : Nat)
  /-- `EleMessageWriteFuse(bit_position, bit_length, lock, value)` -/
  | writeFuse (bitPosition bitLength : Nat) (lock : Bool) (value : Nat)
  deriving DecidableEq, Repr

/-- A call a fuse operator makes on its transport. -/
inductive TransportCall where
  /-- `McuBoot.open()` -/
  | mbootOpen
  /-- `McuBoot.close()` -/
  | mbootClose
  /-- `McuBoot.efuse_read_once(index)` -/
  | efuseReadOnce (index : Nat)
  /-- `McuBoot.efuse_program_once(index, value)` -/
  | efuseProgramOnce (index value : Nat)
  /-- entering `with ele_handler:` -/
  | handlerEnter
  /-- leaving it -/
  | handlerExit
  /-- `ele_handler.send_message(msg)` -/
  | sendMessage (msg : EleMessage)
  deriving DecidableEq, Repr

/-- A transport: it answers each call from the calls made before it. `efuseReadOnce` answers
    `None` for a failed read, `efuseProgramOnce` whether the write took, and `sendMessage` the
    `fuse_value` the message carries back. -/
structure Transport where
  mbootOpen : List TransportCall → Except DeviceError Unit
  mbootClose : List TransportCall → Except DeviceError Unit
  efuseReadOnce : List TransportCall → Nat → Except DeviceError (Option Nat)
  efuseProgramOnce : List TransportCall → Nat → Nat → Except DeviceError Bool
  handlerEnter : List TransportCall → Except DeviceError Unit
  handlerExit : List TransportCall → Except DeviceError Unit
  sendMessage : List TransportCall → EleMessage → Except DeviceError Nat

/-- `mboot.is_opened`, and the transport calls so far (oldest first). -/
structure TransportState where
  isOpened : Bool
  log : List TransportCall

/-- The operators' methods: an exception keeps the state it was raised in. -/
abbrev TransportM := EStateM DeviceError TransportState

/-- One transport call: it is logged, then answered; a transport error raises. -/
def transportCall {α : Type} (c : TransportCall) (answer : List TransportCall → Except DeviceError α) :
    TransportM α := fun s =>
  let s' := { s with log := s.log ++ [c] }
  match answer s.log with
  | .ok a => .ok a s'
  | .error d => .error d s'

/-- A transport call returns or raises, in the state with the call logged. -/
theorem transportCall_cases {α : Type} (c : TransportCall)
    (answer : List TransportCall → Except DeviceError α) (s : TransportState) :
    (∃ a, transportCall c answer s = .ok a { s with log := s.log ++ [c] }) ∨
      ∃ d, transportCall c answer s = .error d { s with log := s.log ++ [c] } := by
  unfold transportCall
  cases answer s.log with
  | ok a => exact .inl ⟨a, rfl⟩
  | error d => exact .inr ⟨d, rfl⟩

theorem outState_transportCall {α : Type} (c : TransportCall)
    (answer : List TransportCall → Except DeviceError α) (s : TransportState) :
    outState (transportCall c answer s) = { s with log := s.log ++ [c] } := by
  rcases transportCall_cases c answer s with ⟨_, h⟩ | ⟨_, h⟩ <;> rw [h] <;> rfl

/-- A `finally` runs from wherever its body stopped, returned or raised. -/
theorem outState_tryFinally {α β : Type} (x : TransportM α) (r : TransportM β) (s : TransportState) :
    outState (tryFinally x r s) = outState (r (outState (x s))) := by
  simp only [tryFinally, tryFinally', Functor.map, EStateM.map]
  cases x s <;> simp only [outState] <;> cases r _ <;> rfl

theorem tryFinally_eq_ok {α β : Type} {x : TransportM α} {r : TransportM β} {s s' : TransportState}
    {a : α} (h : tryFinally x r s = .ok a s') : ∃ s₁ b, x s = .ok a s₁ ∧ r s₁ = .ok b s' := by
  simp only [tryFinally, tryFinally', Functor.map, EStateM.map] at h
  cases hx : x s with
  | ok a₁ s₁ =>
    cases hr : r s₁ <;> simp only [hx, hr, EStateM.Result.ok.injEq, reduceCtorEq] at h
    obtain ⟨rfl, rfl⟩ := h
    exact ⟨s₁, _, rfl, hr⟩
  | error e s₁ => cases hr : r s₁ <;> simp only [hx, hr, reduceCtorEq] at h

/-- The computation appends `l` to the transport log, returned or raised, and keeps
    `is_opened`. -/
def AppendsLog {α : Type} (p : TransportM α) (l : List TransportCall) : Prop :=
  ∀ s, outState (p s) = { s with log := s.log ++ l }

/-! ## 2. The two sessions -/

namespace Transport

variable (T : Transport)

/-- `self.mboot.open()`. -/
def openMboot : TransportM Unit := do
  transportCall .mbootOpen T.mbootOpen
  modify fun s => { s with isOpened := true }

/-- `self.mboot.close()`. -/
def closeMboot : TransportM Unit := do
  transportCall .mbootClose T.mbootClose
  modify fun s => { s with isOpened := false }

/-- `mboot_operation_decorator`: `McuBoot` is opened unless it is open, the operation runs, and
    `McuBoot` is closed in a `finally`. -/
def mbootOperation {α : Type} (op : TransportM α) : TransportM α := do
  if !(← get).isOpened then T.openMboot
  tryFinally op T.closeMboot

/-- `with self.ele_handler:` around `body`; the handler's `__exit__` does not swallow the
    body's exception. -/
def eleSession {α : Type} (body : TransportM α) : TransportM α := do
  transportCall .handlerEnter T.handlerEnter
  tryFinally body (transportCall .handlerExit T.handlerExit)

theorem outState_closeMboot (s : TransportState) :
    (outState (T.closeMboot s)).log = s.log ++ [.mbootClose] := by
  rcases transportCall_cases .mbootClose T.mbootClose s with ⟨_, h⟩ | ⟨_, h⟩
  · rw [closeMboot, bind_ok h, modify_apply]; rfl
  · rw [closeMboot, bind_error h]; rfl

theorem closeMboot_ok {s s' : TransportState} {u : Unit} (h : T.closeMboot s = .ok u s') :
    s'.isOpened = false := by
  obtain ⟨_, _, -, h⟩ := bind_eq_ok h
  rw [modify_apply] at h
  cases h
  rfl

/-- **`McuBoot` is released on every exit path.** Unless `open()` raised, a call through
    `mboot_operation_decorator` makes `open()` when `McuBoot` was closed, then the operation's
    calls, then `close()`, whether the operation returned or raised; and a call that returned
    leaves `McuBoot` closed, also when it was open before. -/
theorem mbootOperation_log {α : Type} {op : TransportM α} {l : List TransportCall}
    (hop : AppendsLog op l) (s : TransportState) :
    (s.isOpened = false ∧ ∃ e, T.mbootOperation op s = .error e { s with log := s.log ++ [.mbootOpen] }) ∨
    ((outState (T.mbootOperation op s)).log =
        s.log ++ (if s.isOpened then [] else [.mbootOpen]) ++ l ++ [.mbootClose] ∧
      ∀ a s', T.mbootOperation op s = .ok a s' → s'.isOpened = false) := by
  have hfin : ∀ t, (outState (tryFinally op T.closeMboot t)).log = t.log ++ l ++ [.mbootClose] ∧
      ∀ a s', tryFinally op T.closeMboot t = .ok a s' → s'.isOpened = false := fun t =>
    ⟨by rw [outState_tryFinally, outState_closeMboot, hop], fun a s' h =>
      let ⟨_, _, _, hr⟩ := tryFinally_eq_ok h; T.closeMboot_ok hr⟩
  unfold mbootOperation
  rw [bind_ok (get_apply s)]
  cases hs : s.isOpened with
  | true =>
    rw [Bool.not_true, if_neg Bool.false_ne_true, bind_ok (pure_apply () s), if_pos rfl,
      List.append_nil]
    exact .inr (hfin s)
  | false =>
    rw [Bool.not_false, if_pos rfl, if_neg Bool.false_ne_true]
    rcases transportCall_cases .mbootOpen T.mbootOpen s with ⟨_, h⟩ | ⟨e, h⟩
    · have hopen : T.openMboot s = .ok () { s with isOpened := true, log := s.log ++ [.mbootOpen] } :=
        by rw [openMboot, bind_ok h, modify_apply]
      rw [bind_ok hopen]
      exact .inr (hfin _)
    · exact .inl ⟨rfl, e, by rw [openMboot, bind_error (bind_error h), hs]⟩

/-- **The handler is left on every exit path.** Unless entering it raised, a call inside
    `with ele_handler:` makes the body's calls and then leaves the handler, whether the body
    returned or raised. -/
theorem eleSession_log {α : Type} {body : TransportM α} {l : List TransportCall}
    (hbody : AppendsLog body l) (s : TransportState) :
    (∃ e, T.eleSession body s = .error e { s with log := s.log ++ [.handlerEnter] }) ∨
    (outState (T.eleSession body s)).log = s.log ++ [.handlerEnter] ++ l ++ [.handlerExit] := by
  unfold eleSession
  rcases transportCall_cases .handlerEnter T.handlerEnter s with ⟨_, h⟩ | ⟨e, h⟩
  · rw [bind_ok h, outState_tryFinally, outState_transportCall, hbody]
    exact .inr rfl
  · exact .inl ⟨e, bind_error h⟩

end Transport

/-! ## 3. The operators -/

/-- The index `BlhostFuseOperator.write_fuse` hands to `efuse_program_once`:
    `index | (1 << 24)` for a lock. -/
def blhostIndex (index : Nat) (lock : Bool) : Nat := if lock then index ||| 1 <<< 24 else index

/-- `BlhostFuseOperator.read_fuse(index)`. -/
def BlhostFuseOperator.readFuse (T : Transport) (index : Nat) : TransportM Nat :=
  T.mbootOperation do
    match ← transportCall (.efuseReadOnce index) fun log => T.efuseReadOnce log index with
    | none => throw (.fuseOperationFailure "Reading of fuse failed.")
    | some v => pure v

/-- `BlhostFuseOperator.write_fuse(index, value, lock)`. -/
def BlhostFuseOperator.writeFuse (T : Transport) (index value : Nat) (lock : Bool) :
    TransportM Unit :=
  T.mbootOperation do
    let index := blhostIndex index lock
    let ret ← transportCall (.efuseProgramOnce index value) fun log =>
      T.efuseProgramOnce log index value
    if !ret then throw (.fuseOperationFailure "Writing of fuse failed.")

/-- `NxpeleFuseOperator.read_fuse(index)`: the value the read message carries back. -/
def NxpeleFuseOperator.readFuse (T : Transport) (index : Nat) : TransportM Nat :=
  T.eleSession (transportCall (.sendMessage (.readCommonFuse index)) fun log =>
    T.sendMessage log (.readCommonFuse index))

/-- `NxpeleFuseOperator.write_fuse(index, value, lock)`: 32 bits at bit `32 * index`. -/
def NxpeleFuseOperator.writeFuse (T : Transport) (index value : Nat) (lock : Bool) :
    TransportM Unit :=
  let bitPosition := index * 32
  let bitLength := 32
  T.eleSession do
    let _ ← transportCall (.sendMessage (.writeFuse bitPosition bitLength lock value)) fun log =>
      T.sendMessage log (.writeFuse bitPosition bitLength lock value)

/-- A transport call followed by a check that may raise appends the call alone. -/
theorem appendsLog_transportCall_bind {α β : Type} (c : TransportCall)
    (answer : List TransportCall → Except DeviceError α) {f : α → TransportM β}
    (hf : ∀ a s, outState (f a s) = s) : AppendsLog (transportCall c answer >>= f) [c] := fun s => by
  rcases transportCall_cases c answer s with ⟨_, h⟩ | ⟨_, h⟩
  · rw [bind_ok h, hf]
  · rw [bind_error h]; rfl

/-- **What blhost's `write_fuse` sends.** Unless `open()` raised: `open()` when `McuBoot` was
    closed, one `efuse_program_once` with the index carrying the lock flag, and `close()`, on
    every path. -/
theorem blhostWriteFuse_log (T : Transport) (index value : Nat) (lock : Bool) (s : TransportState) :
    (s.isOpened = false ∧ ∃ e, BlhostFuseOperator.writeFuse T index value lock s =
      .error e { s with log := s.log ++ [.mbootOpen] }) ∨
    ((outState (BlhostFuseOperator.writeFuse T index value lock s)).log =
        s.log ++ (if s.isOpened then [] else [.mbootOpen]) ++
          [.efuseProgramOnce (blhostIndex index lock) value] ++ [.mbootClose] ∧
      ∀ a s', BlhostFuseOperator.writeFuse T index value lock s = .ok a s' →
        s'.isOpened = false) := by
  apply T.mbootOperation_log
  exact appendsLog_transportCall_bind _ _ fun b t => by cases b <;> rfl

theorem blhostReadFuse_log (T : Transport) (index : Nat) (s : TransportState) :
    (s.isOpened = false ∧ ∃ e, BlhostFuseOperator.readFuse T index s =
      .error e { s with log := s.log ++ [.mbootOpen] }) ∨
    ((outState (BlhostFuseOperator.readFuse T index s)).log =
        s.log ++ (if s.isOpened then [] else [.mbootOpen]) ++ [.efuseReadOnce index] ++
          [.mbootClose] ∧
      ∀ a s', BlhostFuseOperator.readFuse T index s = .ok a s' → s'.isOpened = false) := by
  apply T.mbootOperation_log
  exact appendsLog_transportCall_bind _ _ fun r t => by cases r <;> rfl

/-- **What nxpele's `write_fuse` sends.** Unless entering the handler raised: one
    `EleMessageWriteFuse` of the 32 bits at bit `32 * index`, with the lock flag and the value,
    and the handler is left, on every path. -/
theorem nxpeleWriteFuse_log (T : Transport) (index value : Nat) (lock : Bool) (s : TransportState) :
    (∃ e, NxpeleFuseOperator.writeFuse T index value lock s =
      .error e { s with log := s.log ++ [.handlerEnter] }) ∨
    (outState (NxpeleFuseOperator.writeFuse T index value lock s)).log =
      s.log ++ [.handlerEnter] ++ [.sendMessage (.writeFuse (index * 32) 32 lock value)] ++
        [.handlerExit] := by
  apply T.eleSession_log
  exact appendsLog_transportCall_bind _ _ fun _ _ => rfl

theorem or_two_pow_eq_add {index : Nat} (h : index < 2 ^ 24) : index ||| 1 <<< 24 = index + 2 ^ 24 := by
  rw [Nat.one_shiftLeft, Nat.add_comm]
  refine Nat.eq_of_testBit_eq fun i => ?_
  rw [Nat.testBit_or]
  rcases Nat.lt_trichotomy i 24 with hi | rfl | hi
  · rw [Nat.testBit_two_pow_add_gt hi, Nat.testBit_two_pow_of_ne (by omega), Bool.or_false]
  · rw [Nat.testBit_two_pow_add_eq, Nat.testBit_two_pow_self, Nat.testBit_lt_two_pow h]; rfl
  · have : 2 ^ 25 ≤ 2 ^ i := Nat.pow_le_pow_right (by decide) hi
    rw [Nat.testBit_lt_two_pow (by omega : index < 2 ^ i), Nat.testBit_two_pow_of_ne (by omega),
      Nat.testBit_lt_two_pow (by omega : 2 ^ 24 + index < 2 ^ i)]
    rfl

/-- **The lock flag in bit 24.** For an index below `2 ^ 24`, the index blhost hands to
    `efuse_program_once` is the index plus `2 ^ 24` for a lock, so the bootloader reads both back
    from it. -/
theorem blhostIndex_decode {index : Nat} (h : index < 2 ^ 24) (lock : Bool) :
    blhostIndex index lock = index + (if lock then 2 ^ 24 else 0) ∧
      blhostIndex index lock % 2 ^ 24 = index ∧ blhostIndex index lock / 2 ^ 24 = lock.toNat := by
  have hadd : blhostIndex index lock = index + (if lock then 2 ^ 24 else 0) := by
    cases lock
    · rfl
    · exact or_two_pow_eq_add h
  refine ⟨hadd, ?_⟩
  rw [hadd]
  cases lock
  · exact ⟨Nat.mod_eq_of_lt h, Nat.div_eq_of_lt h⟩
  · rw [if_pos rfl, Bool.toNat_true]
    omega

/-! ## 4. The operators as `Fuses` sees them

`Fuses` talks to a `FuseOperator` (Operator.lean): a device that answers each call from the
calls before it. A transport-level operator is one: each call runs from where the calls before
it left the transport (`replay`). The transport's own log is then the `Fuses` call log, each
call expanded into its session.
-/

/-- A fuse operator at the transport level: its `read_fuse` and `write_fuse`. -/
structure TransportOperator where
  readFuse : Nat → TransportM Nat
  writeFuse : Nat → Nat → Bool → TransportM Unit

/-- `BlhostFuseOperator(mboot)`. -/
def blhostOperator (T : Transport) : TransportOperator :=
  ⟨BlhostFuseOperator.readFuse T, BlhostFuseOperator.writeFuse T⟩

/-- `NxpeleFuseOperator(ele_handler)`. -/
def nxpeleOperator (T : Transport) : TransportOperator :=
  ⟨NxpeleFuseOperator.readFuse T, NxpeleFuseOperator.writeFuse T⟩

/-- The results of a `Fuses` call and of the operator's run agree: the same value, or the
    device's exception as `fuses.py` sees it. -/
def Corresponds {α : Type} : EStateM.Result FuseError FusesState α →
    EStateM.Result DeviceError TransportState α → Prop
  | .ok a _, .ok b _ => a = b
  | .error e _, .error d _ => e = d.toFuseError
  | _, _ => False

namespace TransportOperator

variable (op : TransportOperator)

/-- Where one call of `Fuses` leaves the transport, returned or raised. -/
def after (t : TransportState) : OperatorCall → TransportState
  | .readFuse i => outState (op.readFuse i t)
  | .writeFuse i v l => outState (op.writeFuse i v l t)

/-- Where the calls of `Fuses`, made in turn from `t₀`, leave the transport. -/
def replay (t₀ : TransportState) (calls : List OperatorCall) : TransportState :=
  calls.foldl op.after t₀

/-- Each call of `calls`, made in turn from `t₀`, with the transport state it starts in. -/
def steps (t₀ : TransportState) : List OperatorCall → List (TransportState × OperatorCall)
  | [] => []
  | c :: cs => (t₀, c) :: steps (op.after t₀ c) cs

/-- The call `c` of `Fuses`, run on the transport from `t`, raised. -/
def Raises (t : TransportState) : OperatorCall → Prop
  | .readFuse i => ∃ e t', op.readFuse i t = .error e t'
  | .writeFuse i v l => ∃ e t', op.writeFuse i v l t = .error e t'

/-- The device `Fuses` talks to: each call runs from where the earlier calls left the
    transport. -/
def toFuseOperator (t₀ : TransportState) : FuseOperator where
  readFuse calls i :=
    match op.readFuse i (op.replay t₀ calls) with
    | .ok v _ => .ok v
    | .error d _ => .error d
  writeFuse calls i v l :=
    match op.writeFuse i v l (op.replay t₀ calls) with
    | .ok () _ => .ok ()
    | .error d _ => .error d

theorem replay_append_single (t₀ : TransportState) (calls : List OperatorCall) (c : OperatorCall) :
    op.replay t₀ (calls ++ [c]) = op.after (op.replay t₀ calls) c :=
  List.foldl_append _ _ _ _

/-- The `k`-th step is the `k`-th call, started where the calls before it left the transport. -/
theorem getElem?_steps (t₀ : TransportState) (calls : List OperatorCall) (k : Nat) :
    (op.steps t₀ calls)[k]? = calls[k]?.map fun c => (op.replay t₀ (calls.take k), c) := by
  induction calls generalizing t₀ k with
  | nil => rfl
  | cons c cs ih =>
    cases k with
    | zero => simp only [steps, List.getElem?_cons_zero, List.take_zero, Option.map_some']; rfl
    | succ k =>
      simp only [steps, List.getElem?_cons_succ, List.take_succ_cons, ih]
      rfl

/-- **`Fuses` over a transport-level operator, one call.** A `read_fuse` returns, or raises, what
    the operator's `read_fuse` does from where the earlier calls left the transport, and the
    extended call log replays to where that run left it. -/
theorem readFuse_toFuseOperator (t₀ : TransportState) (i : Nat) (s : FusesState) :
    Corresponds (Spsdk.readFuse (some (op.toFuseOperator t₀)) i s) (op.readFuse i (op.replay t₀ s.calls)) ∧
      op.replay t₀ (outState (Spsdk.readFuse (some (op.toFuseOperator t₀)) i s)).calls =
        outState (op.readFuse i (op.replay t₀ s.calls)) := by
  have hreplay := op.replay_append_single t₀ s.calls (.readFuse i)
  simp only [Spsdk.readFuse, toFuseOperator]
  cases h : op.readFuse i (op.replay t₀ s.calls) <;> rw [after, h] at hreplay <;> exact ⟨rfl, hreplay⟩

theorem writeFuse_toFuseOperator (t₀ : TransportState) (i v : Nat) (l : Bool) (s : FusesState) :
    Corresponds (Spsdk.writeFuse (some (op.toFuseOperator t₀)) i v l s)
        (op.writeFuse i v l (op.replay t₀ s.calls)) ∧
      op.replay t₀ (outState (Spsdk.writeFuse (some (op.toFuseOperator t₀)) i v l s)).calls =
        outState (op.writeFuse i v l (op.replay t₀ s.calls)) := by
  have hreplay := op.replay_append_single t₀ s.calls (.writeFuse i v l)
  simp only [Spsdk.writeFuse, toFuseOperator]
  cases h : op.writeFuse i v l (op.replay t₀ s.calls) <;> rw [after, h] at hreplay <;>
    exact ⟨rfl, hreplay⟩

/-- A log shape per call gives the log of a run: one block per call, in order, each of the
    shape its call has from the state it starts in. -/
theorem replay_log {R : TransportState → OperatorCall → List TransportCall → Prop}
    (hstep : ∀ t c, ∃ b, R t c b ∧ (op.after t c).log = t.log ++ b) (t₀ : TransportState)
    (calls : List OperatorCall) :
    ∃ blocks, List.Forall₂ (fun p b => R p.1 p.2 b) (op.steps t₀ calls) blocks ∧
      (op.replay t₀ calls).log = t₀.log ++ blocks.flatten := by
  induction calls generalizing t₀ with
  | nil => exact ⟨[], .nil, (List.append_nil _).symm⟩
  | cons c cs ih =>
    obtain ⟨b, hb, hlog⟩ := hstep t₀ c
    obtain ⟨blocks, hblocks, hrest⟩ := ih (op.after t₀ c)
    refine ⟨b :: blocks, .cons hb hblocks, ?_⟩
    rw [replay, List.foldl_cons, ← replay, hrest, hlog, List.flatten_cons, List.append_assoc]

end TransportOperator

/-- The calls blhost makes on `McuBoot` for one `Fuses` call. -/
def blhostCalls : OperatorCall → List TransportCall
  | .readFuse i => [.efuseReadOnce i]
  | .writeFuse i v l => [.efuseProgramOnce (blhostIndex i l) v]

/-- The block on `McuBoot` of the call `c` started in `t`: when `McuBoot` was closed, an
    `open()` that raised, and the call with it, or `open()`, the call, and `close()`; when it was
    open, the call and `close()`. -/
def BlhostBlock (T : Transport) (t : TransportState) (c : OperatorCall) (b : List TransportCall) :
    Prop :=
  (t.isOpened = false ∧ (blhostOperator T).Raises t c ∧ b = [.mbootOpen]) ∨
    (t.isOpened = false ∧ b = [.mbootOpen] ++ blhostCalls c ++ [.mbootClose]) ∨
    (t.isOpened = true ∧ b = blhostCalls c ++ [.mbootClose])

/-- The calls nxpele sends through the handler for one `Fuses` call. -/
def nxpeleCalls : OperatorCall → List TransportCall
  | .readFuse i => [.sendMessage (.readCommonFuse i)]
  | .writeFuse i v l => [.sendMessage (.writeFuse (i * 32) 32 l v)]

/-- The block on the handler of the call `c` started in `t`: an entry that raised, and the call
    with it, or entry, the message, and exit. -/
def NxpeleBlock (T : Transport) (t : TransportState) (c : OperatorCall) (b : List TransportCall) :
    Prop :=
  ((nxpeleOperator T).Raises t c ∧ b = [.handlerEnter]) ∨
    b = [.handlerEnter] ++ nxpeleCalls c ++ [.handlerExit]

theorem blhostBlock_of_log {α : Type} {T : Transport} {c : OperatorCall} {t : TransportState}
    {r : EStateM.Result DeviceError TransportState α}
    (hr : (∃ e t', r = .error e t') → (blhostOperator T).Raises t c)
    (h : (t.isOpened = false ∧ ∃ e, r = .error e { t with log := t.log ++ [.mbootOpen] }) ∨
      ((outState r).log =
          t.log ++ (if t.isOpened then [] else [.mbootOpen]) ++ blhostCalls c ++ [.mbootClose] ∧
        ∀ a s', r = .ok a s' → s'.isOpened = false)) :
    ∃ b, BlhostBlock T t c b ∧ (outState r).log = t.log ++ b := by
  rcases h with ⟨ho, e, rfl⟩ | ⟨h, -⟩
  · exact ⟨_, .inl ⟨ho, hr ⟨e, _, rfl⟩, rfl⟩, rfl⟩
  · cases ho : t.isOpened
    · rw [ho, if_neg Bool.false_ne_true] at h
      exact ⟨_, .inr (.inl ⟨ho, rfl⟩), by simpa only [List.append_assoc] using h⟩
    · rw [ho, if_pos rfl, List.append_nil] at h
      exact ⟨_, .inr (.inr ⟨ho, rfl⟩), by simpa only [List.append_assoc] using h⟩

theorem blhost_after_log (T : Transport) (t : TransportState) (c : OperatorCall) :
    ∃ b, BlhostBlock T t c b ∧ ((blhostOperator T).after t c).log = t.log ++ b := by
  cases c with
  | readFuse i => exact blhostBlock_of_log id (blhostReadFuse_log T i t)
  | writeFuse i v l => exact blhostBlock_of_log id (blhostWriteFuse_log T i v l t)

theorem nxpele_after_log (T : Transport) (t : TransportState) (c : OperatorCall) :
    ∃ b, NxpeleBlock T t c b ∧ ((nxpeleOperator T).after t c).log = t.log ++ b := by
  have block : ∀ {α} {r : EStateM.Result DeviceError TransportState α},
      ((∃ e t', r = .error e t') → (nxpeleOperator T).Raises t c) →
      (∃ e, r = .error e { t with log := t.log ++ [.handlerEnter] }) ∨
        (outState r).log = t.log ++ [.handlerEnter] ++ nxpeleCalls c ++ [.handlerExit] →
      ∃ b, NxpeleBlock T t c b ∧ (outState r).log = t.log ++ b := fun hr h => by
    rcases h with ⟨e, rfl⟩ | h
    · exact ⟨_, .inl ⟨hr ⟨e, _, rfl⟩, rfl⟩, rfl⟩
    · exact ⟨_, .inr rfl, by simpa only [List.append_assoc] using h⟩
  cases c with
  | readFuse i => exact block id (T.eleSession_log (outState_transportCall _ _) t)
  | writeFuse i v l => exact block id (nxpeleWriteFuse_log T i v l t)

end Spsdk
