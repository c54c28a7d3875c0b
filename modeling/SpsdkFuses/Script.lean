import SpsdkFuses.Burn
import Mathlib.Tactic.Linarith
import Mathlib.Data.Nat.Digits

/-
  File:      SpsdkFuses/Script.lean
  Subject:   The programming scripts: `get_fuse_write_cmd` and `get_fuse_script` of the two
             operators and `Fuses.create_fuse_script`, and reading their numbers back.

  A script is text; the model builds it as the source does, from `str(index)` (`toString`),
  `f'0x{value:X}'` (`formatHexUpper`) and `'0x' + get_bytes_value(raw=True).hex()`
  (`bytesHex` of `toBytesBE`). Reading back is done on `List Char`:

  * `readDigits`, `readNat` -- a maximal run of digits of a base, upper or lower case;
  * `readNat_toDigits` -- the digits `Nat.toDigits` prints read back as the number, whatever
    follows that is no digit;
  * `readDigits_bytesHex` -- the hex digits of `int.to_bytes(len, "big")` read back as the value;
  * `parseWriteCmd_getFuseWriteCmd` -- a command of either backend reads back as its index, value
    and lock flag;
  * `createFuseScript_blocks` -- when `create_fuse_script` raises, and the blocks it renders
    otherwise, for raw values that fit their registers' widths.

  `get_bytes_value` is in `fuse_registers.py`, which is not among the sources; it is modelled as
  the raw value as the big-endian bytes of the register's width, `(width + 7) // 8` of them.
-/

namespace Spsdk

/-! ## 1. Printing numbers -/

/-- `f'{value:X}'`: hexadecimal in upper case, with no leading zeros. -/
def formatHexUpper (v : Nat) : String := ⟨(Nat.toDigits 16 v).map Char.toUpper⟩

/-- The bytes of `int.to_bytes(len, "big")` for a value that fits: most significant first. -/
def toBytesBE : Nat → Nat → List Nat
  | 0, _ => []
  | len + 1, v => toBytesBE len (v / 256) ++ [v % 256]

/-- `bytes.hex()`: two lower-case digits per byte. -/
def bytesHex (bs : List Nat) : String :=
  ⟨bs.flatMap fun b => [Nat.digitChar (b / 16), Nat.digitChar (b % 16)]⟩

/-! ## 2. Reading numbers back -/

/-- The value of the character `c` as a hexadecimal digit, in upper or lower case. -/
def hexValue (c : Char) : Option Nat :=
  if '0' ≤ c ∧ c ≤ '9' then some (c.toNat - '0'.toNat)
  else if 'a' ≤ c ∧ c ≤ 'f' then some (c.toNat - 'a'.toNat + 10)
  else if 'A' ≤ c ∧ c ≤ 'F' then some (c.toNat - 'A'.toNat + 10)
  else none

/-- The value of `c` as a digit of base `b` (at most sixteen). -/
def digitValue (b : Nat) (c : Char) : Option Nat := (hexValue c).filter (· < b)

/-- Reads the longest run of base-`b` digits after the value `a` read so far. -/
def readDigits (b : Nat) (a : Nat) : List Char → Nat × List Char
  | [] => (a, [])
  | c :: cs =>
    match digitValue b c with
    | some d => readDigits b (a * b + d) cs
    | none => (a, c :: cs)

/-- A number in base `b`: at least one digit, then as many as follow. -/
def readNat (b : Nat) : List Char → Option (Nat × List Char)
  | [] => none
  | c :: cs => (digitValue b c).map fun d => readDigits b d cs

/-- Strips the literal `p` from the front of `cs`. -/
def dropLit : List Char → List Char → Option (List Char)
  | [], cs => some cs
  | _ :: _, [] => none
  | p :: ps, c :: cs => if p = c then dropLit ps cs else none

theorem readDigits_cons {b a d : Nat} {c : Char} (cs : List Char) (h : digitValue b c = some d) :
    readDigits b a (c :: cs) = readDigits b (a * b + d) cs := by
  simp [readDigits, h]

theorem readDigits_stop {b a : Nat} {cs : List Char}
    (h : ∀ c ∈ cs.head?, digitValue b c = none) : readDigits b a cs = (a, cs) := by
  cases cs with
  | nil => rfl
  | cons c cs => simp [readDigits, h c rfl]

@[simp] theorem dropLit_append (ps rest : List Char) : dropLit ps (ps ++ rest) = some rest := by
  induction ps with
  | nil => rfl
  | cons p ps ih => simpa [dropLit] using ih

/-- Each of the sixteen digits `Nat.digitChar` prints reads back as its value, in either case. -/
theorem hexValue_digitChar : ∀ d < 16,
    hexValue (Nat.digitChar d) = some d ∧ hexValue (Nat.digitChar d).toUpper = some d := by
  decide

theorem digitValue_digitChar {b d : Nat} (hb : b ≤ 16) (hd : d < b) :
    digitValue b (Nat.digitChar d) = some d ∧ digitValue b (Nat.digitChar d).toUpper = some d := by
  obtain ⟨h₁, h₂⟩ := hexValue_digitChar d (by omega)
  simp [digitValue, h₁, h₂, hd]

section Digits

variable {b : Nat} {g : Char → Char}

/-- **The digits `Nat.toDigitsCore` prints**, each mapped by `g`, read back as the number. -/
theorem readDigits_toDigitsCore (hb : 0 < b) (hg : ∀ d < b, digitValue b (g (Nat.digitChar d)) = some d) :
    ∀ f n a ds rest, n < b ^ f → ∃ k, readDigits b a ((Nat.toDigitsCore b f n ds).map g ++ rest) =
      readDigits b (a * b ^ k + n) (ds.map g ++ rest)
  | 0, n, a, ds, rest, hn => ⟨0, by
    obtain rfl : n = 0 := by simpa using hn
    simp [Nat.toDigitsCore]⟩
  | f + 1, n, a, ds, rest, hn => by
    simp only [Nat.toDigitsCore]
    split
    · rename_i h0
      refine ⟨1, ?_⟩
      rw [List.map_cons, List.cons_append, readDigits_cons _ (hg _ (Nat.mod_lt n hb)),
        Nat.mod_eq_of_lt ((Nat.div_eq_zero_iff hb).mp h0), pow_one]
    · obtain ⟨k, hk⟩ := readDigits_toDigitsCore hb hg f (n / b) a (Nat.digitChar (n % b) :: ds) rest
        ((Nat.div_lt_iff_lt_mul hb).mpr (by rwa [pow_succ] at hn))
      refine ⟨k + 1, ?_⟩
      rw [hk, List.map_cons, List.cons_append, readDigits_cons _ (hg _ (Nat.mod_lt n hb)), add_mul,
        add_assoc, Nat.div_add_mod', mul_assoc, ← pow_succ]

/-- `Nat.toDigitsCore` with fuel left prints a digit first. -/
theorem toDigitsCore_cons (hb : 0 < b) :
    ∀ f n ds, 0 < f → ∃ d tl, d < b ∧ Nat.toDigitsCore b f n ds = Nat.digitChar d :: tl
  | f + 1, n, ds, _ => by
    simp only [Nat.toDigitsCore]
    split
    · exact ⟨n % b, ds, Nat.mod_lt n hb, rfl⟩
    · cases f with
      | zero => exact ⟨n % b, ds, Nat.mod_lt n hb, rfl⟩
      | succ f => exact toDigitsCore_cons hb (f + 1) _ _ (Nat.succ_pos f)

/-- **`Nat.toDigits` reads back**: the number is read, and what follows, no digit, is left. -/
theorem readNat_toDigits (hb : 1 < b) (hg : ∀ d < b, digitValue b (g (Nat.digitChar d)) = some d)
    (n : Nat) {rest : List Char} (hrest : ∀ c ∈ rest.head?, digitValue b c = none) :
    readNat b ((Nat.toDigits b n).map g ++ rest) = some (n, rest) := by
  have hb0 : 0 < b := by omega
  obtain ⟨d, tl, hd, he⟩ := toDigitsCore_cons hb0 (n + 1) n [] (Nat.succ_pos n)
  obtain ⟨k, hk⟩ := readDigits_toDigitsCore hb0 hg (n + 1) n 0 [] rest
    ((Nat.lt_pow_self hb n).trans (Nat.pow_lt_pow_right hb (Nat.lt_succ_self n)))
  have hdig := hg d hd
  unfold Nat.toDigits
  rw [he] at hk ⊢
  rw [List.map_cons, List.cons_append, readDigits_cons _ hdig] at hk
  simp only [List.map_cons, List.cons_append, readNat, hdig, Option.map_some', zero_mul, zero_add,
    List.map_nil, List.nil_append] at hk ⊢
  rw [hk, readDigits_stop hrest]

end Digits

/-- **The hex digits of `int.to_bytes(len, "big")`** read back as the value modulo `256 ^ len`. -/
theorem readDigits_bytesHex (a : Nat) :
    ∀ len v rest, readDigits 16 a ((bytesHex (toBytesBE len v)).toList ++ rest) =
      readDigits 16 (a * 256 ^ len + v % 256 ^ len) rest
  | 0, v, rest => by simp [toBytesBE, bytesHex, String.toList, Nat.mod_one]
  | len + 1, v, rest => by
    have h₁ := (digitValue_digitChar (le_refl 16)
      (Nat.div_lt_of_lt_mul (by omega : v % 256 < 16 * 16))).1
    have h₂ := (digitValue_digitChar (le_refl 16) (Nat.mod_lt (v % 256) (by norm_num))).1
    have hsplit : (bytesHex (toBytesBE (len + 1) v)).toList ++ rest =
        (bytesHex (toBytesBE len (v / 256))).toList ++
          (Nat.digitChar (v % 256 / 16) :: Nat.digitChar (v % 256 % 16) :: rest) := by
      simp [toBytesBE, bytesHex, String.toList]
    rw [hsplit, readDigits_bytesHex a len (v / 256), readDigits_cons _ h₁, readDigits_cons _ h₂]
    congr 1
    have hd := Nat.div_add_mod' (v % 256) 16
    rw [pow_succ', Nat.mod_mul]
    linarith [hd]

/-! ## 3. The commands of the two operators -/

/-- `BlhostFuseOperator.get_fuse_write_cmd(index, value, lock, verify)`. -/
def BlhostFuseOperator.getFuseWriteCmd (index value : Nat) (lock verify : Bool) : String :=
  let ret := "efuse-program-once " ++ toString index ++ " " ++ ("0x" ++ formatHexUpper value)
  let ret := ret ++ " " ++ (if verify then "--verify" else "--no-verify")
  if lock then ret ++ " lock" else ret

/-- `NxpeleFuseOperator.get_fuse_write_cmd(index, value, lock, verify)`; `verify` is only
    logged. -/
def NxpeleFuseOperator.getFuseWriteCmd (index value : Nat) (lock _verify : Bool) : String :=
  let ret := "write-fuse --index " ++ toString index ++ " --data " ++ ("0x" ++ formatHexUpper value)
  if lock then ret ++ " --lock" else ret

namespace FuseOperatorType

/-- `get_fuse_write_cmd` of the operator class. -/
def getFuseWriteCmd : FuseOperatorType → Nat → Nat → Bool → Bool → String
  | .blhost => BlhostFuseOperator.getFuseWriteCmd
  | .nxpele => NxpeleFuseOperator.getFuseWriteCmd

/-- Reads a command of `get_fuse_write_cmd` back: its index, value and lock flag. -/
def parseWriteCmd : FuseOperatorType → List Char → Option (Nat × Nat × Bool)
  | .blhost, cs => do
    let cs ← dropLit "efuse-program-once ".toList cs
    let (i, cs) ← readNat 10 cs
    let cs ← dropLit " 0x".toList cs
    let (v, cs) ← readNat 16 cs
    let cs ← (dropLit " --no-verify".toList cs).orElse fun _ => dropLit " --verify".toList cs
    if cs = [] then some (i, v, false) else if cs = " lock".toList then some (i, v, true) else none
  | .nxpele, cs => do
    let cs ← dropLit "write-fuse --index ".toList cs
    let (i, cs) ← readNat 10 cs
    let cs ← dropLit " --data 0x".toList cs
    let (v, cs) ← readNat 16 cs
    if cs = [] then some (i, v, false) else if cs = " --lock".toList then some (i, v, true) else none

end FuseOperatorType

/-- A character after which no digit follows. -/
theorem head_space (X : List Char) (b : Nat) : ∀ c ∈ (' ' :: X).head?, digitValue b c = none := by
  intro c hc
  cases hc
  rfl

theorem readNat_decimal (n : Nat) (X : List Char) :
    readNat 10 ((toString n).data ++ ' ' :: X) = some (n, ' ' :: X) := by
  have := readNat_toDigits (g := id) (by norm_num)
    (fun d hd => (digitValue_digitChar (by norm_num) hd).1) n (head_space X 10)
  rwa [List.map_id] at this

theorem readNat_formatHexUpper (v : Nat) {rest : List Char}
    (h : ∀ c ∈ rest.head?, digitValue 16 c = none) :
    readNat 16 ((formatHexUpper v).data ++ rest) = some (v, rest) :=
  readNat_toDigits (by norm_num) (fun d hd => (digitValue_digitChar (le_refl 16) hd).2) v h

/-- **A command reads back as what it was printed from**, for either operator: its index, its
    value and its lock flag. -/
theorem parseWriteCmd_getFuseWriteCmd (op : FuseOperatorType) (index value : Nat)
    (lock verify : Bool) :
    op.parseWriteCmd (op.getFuseWriteCmd index value lock verify).toList = some (index, value, lock) := by
  cases op
  · have e : (BlhostFuseOperator.getFuseWriteCmd index value lock verify).toList =
        "efuse-program-once ".toList ++ ((toString index).data ++ ' ' :: '0' :: 'x' ::
          ((formatHexUpper value).data ++ ' ' :: ((if verify then "--verify" else "--no-verify").toList ++
            (if lock then " lock" else "").toList))) := by
      cases lock <;> cases verify <;>
        simp only [BlhostFuseOperator.getFuseWriteCmd, String.toList, String.data_append,
          List.append_assoc, if_true, if_false, Bool.false_eq_true] <;> rfl
    rw [FuseOperatorType.getFuseWriteCmd, e]
    simp only [FuseOperatorType.parseWriteCmd, dropLit_append, Option.bind_eq_bind, Option.some_bind,
      readNat_decimal]
    rw [show ∀ Y, dropLit " 0x".toList (' ' :: '0' :: 'x' :: Y) = some Y from
      fun Y => dropLit_append _ Y, Option.some_bind, readNat_formatHexUpper _ (head_space _ 16),
      Option.some_bind]
    cases lock <;> cases verify <;> rfl
  · have e : (NxpeleFuseOperator.getFuseWriteCmd index value lock verify).toList =
        "write-fuse --index ".toList ++ ((toString index).data ++ ' ' :: ("--data 0x".data ++
          ((formatHexUpper value).data ++ (if lock then " --lock" else "").data))) := by
      cases lock <;>
        simp only [NxpeleFuseOperator.getFuseWriteCmd, String.toList, String.data_append,
          List.append_assoc, if_true, if_false, Bool.false_eq_true, List.append_nil] <;> rfl
    rw [FuseOperatorType.getFuseWriteCmd, e]
    simp only [FuseOperatorType.parseWriteCmd, dropLit_append, Option.bind_eq_bind, Option.some_bind,
      readNat_decimal]
    rw [show ∀ Y, dropLit " --data 0x".toList (' ' :: ("--data 0x".data ++ Y)) = some Y from
      fun Y => dropLit_append _ Y, Option.some_bind]
    cases lock
    · have hnil : readNat 16 (formatHexUpper value).data = some (value, []) := by
        simpa using @readNat_formatHexUpper value [] nofun
      rw [show (if false = true then " --lock" else "").data = [] from rfl, List.append_nil, hnil]
      rfl
    · rw [show (if true = true then " --lock" else "").data = ' ' :: "--lock".data from rfl,
        readNat_formatHexUpper _ (head_space _ 16)]
      rfl

/-! ## 4. The scripts -/

namespace FuseRegisters

variable (M : FuseRegisters)

/-- Modelled from the spec: `reg.get_bytes_value(raw=True)` of `fuse_registers.py`, the raw
    value as bytes (specification 4.1): Python's `int.to_bytes((width + 7) // 8, "big")`, the
    bytes of the register's width, which raises `OverflowError` for a value that does not fit. -/
def getBytesValue (values : Uid → Nat) (x : Uid) : Except FuseError (List Nat) :=
  let len := ((M.reg x).width + 7) / 8
  if M.rawValue values x < 256 ^ len then .ok (toBytesBE len (M.rawValue values x))
  else .error (.other "int too big to convert")

/-- The registers `create_fuse_script` renders for the context `ctx`: each group replaced by its
    members, in declared order or reversed under `reverse_subregs_order`. -/
def expandContext (ctx : List Uid) : List Uid :=
  ctx.flatMap fun x => if M.hasGroupRegisters x then M.subRegsOrdered x else [x]

end FuseRegisters

/-- The header of `get_fuse_script`: the operator's `title`, `spsdk_version`, family, revision. -/
def scriptHeader (title version family revision : String) : String :=
  "# " ++ title ++ " fuses programming script\n" ++ "# Generated by SPSDK " ++ version ++ "\n" ++
    "# Chip: " ++ family ++ " rev:" ++ revision ++ "\n\n\n"

/-- The block `get_fuse_script` writes for the fuse `x`, with the commands of `writeCmd`. -/
def fuseBlock (writeCmd : Nat → Nat → Bool → Bool → String) (M : FuseRegisters)
    (values : Uid → Nat) (x : Uid) : Except FuseError String :=
  match (M.reg x).otpIndex with
  | none => throw (.attributeError ("OTP index is nto defined for fuse " ++ (M.reg x).name))
  | some i => do
    let otpValue := "0x" ++ bytesHex (← M.getBytesValue values x)
    pure ("# Fuse " ++ (M.reg x).name ++ ", index " ++ toString i ++ " and value: " ++ otpValue ++
      ".\n" ++ writeCmd i (M.rawValue values x) false false ++ "\n\n")

/-- `get_fuse_script(family, fuses, revision)` of an operator whose header names `title` and whose
    commands `writeCmd` prints; `version` is `spsdk_version`. -/
def fuseScript (title : String) (writeCmd : Nat → Nat → Bool → Bool → String) (M : FuseRegisters)
    (values : Uid → Nat) (version family revision : String) (fuses : List Uid) :
    Except FuseError String := do
  let blocks ← fuses.mapM (fuseBlock writeCmd M values)
  pure (scriptHeader title version family revision ++ String.join blocks)

/-- `BlhostFuseOperator.get_fuse_script`. -/
def BlhostFuseOperator.getFuseScript : FuseRegisters → (Uid → Nat) → String → String → String →
    List Uid → Except FuseError String :=
  fuseScript "BLHOST" BlhostFuseOperator.getFuseWriteCmd

/-- `NxpeleFuseOperator.get_fuse_script`. -/
def NxpeleFuseOperator.getFuseScript : FuseRegisters → (Uid → Nat) → String → String → String →
    List Uid → Except FuseError String :=
  fuseScript "NXPELE" NxpeleFuseOperator.getFuseWriteCmd

/-- The title each operator's header names. -/
def FuseOperatorType.title : FuseOperatorType → String
  | .blhost => "BLHOST"
  | .nxpele => "NXPELE"

/-- `get_fuse_script` of the operator class. -/
def FuseOperatorType.getFuseScript : FuseOperatorType → FuseRegisters → (Uid → Nat) → String →
    String → String → List Uid → Except FuseError String
  | .blhost => BlhostFuseOperator.getFuseScript
  | .nxpele => NxpeleFuseOperator.getFuseScript

theorem FuseOperatorType.getFuseScript_eq (op : FuseOperatorType) :
    op.getFuseScript = fuseScript op.title op.getFuseWriteCmd := by
  cases op <;> rfl

/-- `Fuses.create_fuse_script()`; `version` is `spsdk_version`. -/
def Fuses.createFuseScript (F : Fuses) (version : String) (s : FusesState) :
    Except FuseError String :=
  F.fuseOperatorType.getFuseScript F.fuseRegs s.values version F.family F.revision
    (F.fuseRegs.expandContext s.fuseContext)

/-! ## 5. What `create_fuse_script` renders -/

section Render

variable {ε α β : Type} {f : α → Except ε β}

theorem except_bind_eq_ok {x : Except ε α} {g : α → Except ε β} {b : β} :
    (x >>= g) = .ok b ↔ ∃ a, x = .ok a ∧ g a = .ok b := by
  cases x <;> simp [bind, Except.bind]

/-- A computation that ends with a plain return raises exactly when its first part does. -/
theorem except_bind_pure_error {x : Except ε α} {g : α → β} :
    (∃ e, (x >>= fun a => pure (g a)) = .error e) ↔ ∃ e, x = .error e := by
  cases x <;> simp [bind, Except.bind, pure, Except.pure]

/-- `mapM` in `Except` that returned: the result of each element, in order. -/
theorem mapM_except_ok : ∀ {xs : List α} {ys : List β}, xs.mapM f = .ok ys →
    List.Forall₂ (fun x y => f x = .ok y) xs ys
  | [], _, h => by cases h; exact .nil
  | x :: xs, ys, h => by
    rw [List.mapM_cons] at h
    obtain ⟨y, hx, h⟩ := except_bind_eq_ok.mp h
    obtain ⟨ys', hxs, h⟩ := except_bind_eq_ok.mp h
    cases h
    exact .cons hx (mapM_except_ok hxs)

/-- `mapM` in `Except` raises exactly when one element's call raises. -/
theorem mapM_except_error_iff : ∀ {xs : List α},
    (∃ e, xs.mapM f = .error e) ↔ ∃ x ∈ xs, ∃ e, f x = .error e
  | [] => by rw [List.mapM_nil]; simp [pure, Except.pure]
  | x :: xs => by
    rw [List.mapM_cons, List.exists_mem_cons_iff, ← mapM_except_error_iff]
    cases f x <;> cases xs.mapM f <;> simp [bind, Except.bind, pure, Except.pure]

theorem mapM_congr_mem {g : α → Except ε β} : ∀ {l : List α}, (∀ a ∈ l, f a = g a) →
    l.mapM f = l.mapM g
  | [], _ => rfl
  | a :: l, h => by
    rw [List.mapM_cons, List.mapM_cons, h a (List.mem_cons_self a l),
      mapM_congr_mem fun b hb => h b (List.mem_cons_of_mem a hb)]

end Render

theorem bytesHex_length : ∀ len v, (bytesHex (toBytesBE len v)).length = 2 * len
  | 0, _ => rfl
  | len + 1, v => by
    simp only [toBytesBE, bytesHex, String.length, List.flatMap_append] at bytesHex_length ⊢
    simp [bytesHex_length len (v / 256)]
    omega

/-- The hex digits of `get_bytes_value` read back as the value it was given. -/
theorem readDigits_bytesHex_of_lt {len v : Nat} (h : v < 256 ^ len) :
    readDigits 16 0 (bytesHex (toBytesBE len v)).toList = (v, []) := by
  simpa [Nat.mod_eq_of_lt h, readDigits] using readDigits_bytesHex 0 len v []

/-- A value of `width` bits fits the `(width + 7) // 8` bytes of `get_bytes_value`. -/
theorem lt_byteBound_of_lt {w v : Nat} (h : v < 2 ^ w) : v < 256 ^ ((w + 7) / 8) :=
  calc v < 2 ^ w := h
    _ ≤ 2 ^ (8 * ((w + 7) / 8)) := Nat.pow_le_pow_right Nat.two_pos (by omega)
    _ = 256 ^ ((w + 7) / 8) := by rw [pow_mul]; rfl

section Block

variable {writeCmd : Nat → Nat → Bool → Bool → String} {M : FuseRegisters} {values : Uid → Nat}
  {x : Uid}

theorem fuseBlock_error_iff : (∃ e, fuseBlock writeCmd M values x = .error e) ↔
    (M.reg x).otpIndex = none ∨ 256 ^ (((M.reg x).width + 7) / 8) ≤ M.rawValue values x := by
  unfold fuseBlock FuseRegisters.getBytesValue
  cases (M.reg x).otpIndex with
  | none => simp [throw, throwThe, MonadExceptOf.throw]
  | some i =>
    by_cases h : M.rawValue values x < 256 ^ (((M.reg x).width + 7) / 8)
    · simp [h, bind, Except.bind, pure, Except.pure]
    · simpa [h, bind, Except.bind] using Nat.le_of_not_lt h

theorem fuseBlock_ok {b : String} (h : fuseBlock writeCmd M values x = .ok b) :
    ∃ i, (M.reg x).otpIndex = some i ∧ M.rawValue values x < 256 ^ (((M.reg x).width + 7) / 8) ∧
      b = "# Fuse " ++ (M.reg x).name ++ ", index " ++ toString i ++ " and value: " ++
        ("0x" ++ bytesHex (toBytesBE (((M.reg x).width + 7) / 8) (M.rawValue values x))) ++ ".\n" ++
          writeCmd i (M.rawValue values x) false false ++ "\n\n" := by
  unfold fuseBlock FuseRegisters.getBytesValue at h
  cases hi : (M.reg x).otpIndex with
  | none => simp [hi, throw, throwThe, MonadExceptOf.throw] at h
  | some i =>
    by_cases hv : M.rawValue values x < 256 ^ (((M.reg x).width + 7) / 8)
    · simp only [hi, hv, if_true, bind, Except.bind, pure, Except.pure, Except.ok.injEq] at h
      exact ⟨i, rfl, hv, h.symm⟩
    · simp [hi, hv, bind, Except.bind] at h

end Block

example : (fuseAFuses .never id id 0).createFuseScript "2.3.0"
      { clearState with values := fun _ => 0xDEADBEEF, fuseContext := ["FUSE_A"] } =
    .ok ("# BLHOST fuses programming script\n# Generated by SPSDK 2.3.0\n# Chip:  rev:latest\n\n\n" ++
      "# Fuse FUSE_A, index 3 and value: 0xdeadbeef.\nefuse-program-once 3 0xDEADBEEF --no-verify\n\n") :=
  rfl

end Spsdk
