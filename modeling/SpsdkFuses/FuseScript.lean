import SpsdkFuses.Script

/-
  File:      SpsdkFuses/FuseScript.lean
  Subject:   `FuseScript.generate_script`: a programming script from the value specification of
             the family database and an attributes object.

  `generate_script` sets the registers of the object's own `self.fuses` from the specification
  and renders each from there; the registers keep their values from one call to the next, and a
  call that raises keeps what it set before. The model passes the register values as the state
  of `ScriptM`, an `EStateM` like `FuseM`.

  * `FuseDbValue`, `FuseDbField`, `AttrValue` -- the values of the database entry and of the
    attributes object, with Python's truth value;
  * `getObjectValue`, `setBitfield`, `setReg`, `otpLines`, `regBlock`, `generateFrom`,
    `generateScript` -- the method, cut where the source branches;
  * `generateScript_congr` -- when every entry sets its whole register (a literal, or an
    attribute whose value is truthy), the result does not depend on the values the registers
    held before the call;
  * `fuseAScript_stale_value` -- a falsy attribute keeps the value an earlier call set.
-/

namespace Spsdk

/-! ## 1. The database entry and the attributes object -/

/-- A value of the bitfield mapping of a register in the database entry. -/
inductive FuseDbField where
  /-- an `int`, or a `bool` as `0` / `1` (`value_to_int`) -/
  | int (v : Nat)
  /-- a `str`: the name of an attribute after the `__` marker -/
  | str (s : String)
  /-- any other value: the bitfield is described but not set -/
  | other
  deriving DecidableEq, Repr

/-- The value of a register's key in the database entry. -/
inductive FuseDbValue where
  /-- an `int`, or a `bool` as `0` / `1` (`value_to_int`) -/
  | int (v : Nat)
  /-- a `dict` of bitfield names to values -/
  | bitfields (fields : List (String × FuseDbField))
  /-- a `str`: the name of an attribute after the `__` marker -/
  | str (s : String)
  /-- any other value: the register is rendered but not set -/
  | other
  deriving DecidableEq, Repr

/-- A value `getattr(attributes_object, name)` returns, as far as `generate_script` looks. -/
inductive AttrValue where
  | none
  | int (v : Nat)
  | bytes (bs : List Nat)
  deriving DecidableEq, Repr

/-- Python's truth value: `None`, `0` and `b""` are false. -/
def AttrValue.truthy : AttrValue → Bool
  | .none => false
  | .int v => v != 0
  | .bytes bs => !bs.isEmpty

/-- `NAME` of the operator class. -/
def FuseOperatorType.operatorName : FuseOperatorType → String
  | .blhost => "blhost"
  | .nxpele => "nxpele"

/-- Python's `s.startswith(p)`. -/
def pyStartsWith (s p : String) : Bool := p.toList.isPrefixOf s.toList

/-- Python's `hex(v)`. -/
def pyHex (v : Nat) : String := "0x" ++ ⟨Nat.toDigits 16 v⟩

/-- A `FuseScript` object: what `__init__` read from the family database. The values of the
    registers of `self.fuses` are the state `generate_script` runs in. -/
structure FuseScript where
  family : String
  revision : String
  /-- `self.operator`: the operator class the database's `tool` names -/
  operator : FuseOperatorType
  /-- `self.fuses`: the family's register map -/
  fuses : FuseRegisters
  /-- `self.fuses_db`: the entry `fuses` (or `fuses_<index>`) of the feature, in order -/
  fusesDb : List (String × FuseDbValue)
  /-- `self.no_verify`: `_no_verify` of the entry, `False` when absent -/
  noVerify : Bool
  /-- `self.name`: `_name` of the entry, `"Fuse Script"` when absent -/
  name : String
  /-- the integer `set_value` stores for a value of the object (`fuse_registers.py`) -/
  attrInt : AttrValue → Nat
  /-- `bitfield.get_hex_value()` of a bitfield holding a value (`fuse_registers.py`) -/
  getHexValue : Bitfield → Nat → String

/-- The methods of `FuseScript`: an exception keeps the register values it was raised with. -/
abbrev ScriptM := EStateM FuseError (Uid → Nat)

namespace FuseScript

/-! ## 2. `generate_script` -/

/-- `get_object_value(value, attributes_object)`: the attribute a `__`-marked name names. -/
def getObjectValue (value : String) (attrs : String → Option AttrValue) :
    Except FuseError AttrValue :=
  if pyStartsWith value "__" then
    match attrs ⟨value.toList.drop 2⟩ with
    | some a => .ok a
    | none => .error (.valueError ("Fuses: Object does not contain " ++ ⟨value.toList.drop 2⟩))
  else .error (.valueError ("Fuses: Object does not contain " ++ value))

/-- An `Except` result raised or returned in `ScriptM`. -/
def ofExcept {α : Type} : Except FuseError α → ScriptM α
  | .ok a => pure a
  | .error e => throw e

variable (S : FuseScript) (attrs : String → Option AttrValue)

/-- A new object: every register at its reset value. -/
def freshValues : Uid → Nat := fun x => (S.fuses.reg x).resetValue

/-- `generate_file_header()`; `version` is `spsdk_version`. -/
def generateFileHeader (version : String) : String :=
  "# " ++ S.operator.operatorName ++ " " ++ S.name ++ " fuses programming script\n" ++
    "# Generated by SPSDK " ++ version ++ "\n" ++
    "# Family: " ++ S.family ++ " Revision: " ++ S.revision

/-- `self.fuses.get_reg(key)`. -/
def getReg (key : String) : ScriptM Uid :=
  match S.fuses.findReg key with
  | some x => pure x
  | none => throw (.notFound key)

/-- `reg.get_bitfield(sub_key)`. -/
def getBitfield (x : Uid) (name : String) : ScriptM Bitfield :=
  match S.fuses.findBitfield x name with
  | some b => pure b
  | none => throw (.notFound name)

/-- One `sub_key: sub_value` of a register's bitfield mapping: the bitfield is set (from the
    object only when the attribute's value is truthy) and described in `extra_info`. -/
def setBitfield (x : Uid) (subKey : String) (subValue : FuseDbField) : ScriptM String := do
  let b ← S.getBitfield x subKey
  match subValue with
  | .int v => modify fun vals => S.fuses.setBitfieldValue vals x b v
  | .str s =>
    let a ← ofExcept (getObjectValue s attrs)
    if a.truthy then modify fun vals => S.fuses.setBitfieldValue vals x b (S.attrInt a)
  | .other => pure ()
  let vals ← get
  return "# Bitfield: " ++ b.name ++ ", Description: " ++ b.description ++ ", Value: " ++
    S.getHexValue b (S.fuses.bitfieldValue vals x b) ++ "\n"

/-- The assignment of `generate_script` for the key of register `x`; returns `extra_info`. A
    literal is set raw, an attribute only when its value is truthy. -/
def setReg (x : Uid) : FuseDbValue → ScriptM String
  | .int v => do
    modify fun vals => S.fuses.setRawValue vals x v
    pure ""
  | .bitfields fields =>
    fields.foldlM (fun extra kv => do return extra ++ (← S.setBitfield attrs x kv.1 kv.2)) ""
  | .str s => do
    let a ← ofExcept (getObjectValue s attrs)
    if a.truthy then modify fun vals => S.fuses.setValue vals x (S.attrInt a)
    pure ""
  | .other => pure ""

/-- The lines of the physical register `y`, to the script and to the info: its `# OTP ID`
    comment (for a group's `member`, with its value), its write command, its info line. -/
def otpLines (vals : Uid → Nat) (member : Bool) (y : Uid) : Except FuseError (String × String) :=
  let reg := S.fuses.reg y
  match reg.otpIndex with
  | none => .error (.error ("OTP index is not defined for " ++ reg.name))
  | some i =>
    let comment := if member then
        "# OTP ID: " ++ reg.name ++ ", Value: " ++ pyHex (S.fuses.getValue vals y) ++ "\n"
      else "# OTP ID: " ++ reg.name ++ "\n\n"
    .ok (comment ++ S.operator.getFuseWriteCmd i (S.fuses.rawValue vals y) false (!S.noVerify) ++
        "\n",
      "OTP ID: " ++ toString i ++ ", Value: " ++ pyHex (S.fuses.rawValue vals y) ++ "\n")

/-- What `generate_script` adds for register `x`, set to `vals`, to the script and to the info. -/
def regBlock (vals : Uid → Nat) (x : Uid) (extraInfo : String) :
    Except FuseError (String × String) := do
  let reg := S.fuses.reg x
  let head := "\n# Value: " ++ pyHex (S.fuses.getValue vals x) ++ "\n" ++
    "# Description: " ++ reg.description ++ "\n" ++ extraInfo ++
    (if extraInfo ≠ "" then "# WARNING! Partially set register, check all bitfields before writing\n"
      else "")
  if S.fuses.hasGroupRegisters x then
    let lines ← reg.subRegs.mapM (S.otpLines vals true)
    pure (head ++ "# Grouped register name: " ++ reg.name ++ "\n\n" ++ String.join (lines.map (·.1)),
      "\n --== Grouped register name: " ++ reg.name ++ " ==-- \n" ++ String.join (lines.map (·.2)))
  else
    let (sc, inf) ← S.otpLines vals false x
    pure (head ++ sc, inf)

/-- The loop of `generate_script` over the keys of the entry; private keys are skipped. -/
def generateFrom : List (String × FuseDbValue) → String → String → ScriptM (String × String)
  | [], script, info => pure (script, info)
  | (key, value) :: rest, script, info =>
    if pyStartsWith key "_" then generateFrom rest script info
    else do
      let x ← S.getReg key
      let extra ← S.setReg attrs x value
      let (sc, inf) ← ofExcept (S.regBlock (← get) x extra)
      generateFrom rest (script ++ sc) (info ++ inf)

/-- `generate_script(attributes_object, info_only)`; `version` is `spsdk_version`. -/
def generateScript (version : String) (infoOnly : Bool) : ScriptM String := do
  let (script, info) ← S.generateFrom attrs S.fusesDb (S.generateFileHeader version ++ "\n") ""
  return if infoOnly then info else script

/-! ## 3. What the result reads of the registers -/

/-- What a call returned or raised, without the state it left. -/
def outcome {α : Type} : EStateM.Result FuseError (Uid → Nat) α → Except FuseError α
  | .ok a _ => .ok a
  | .error e _ => .error e

/-- The entry overwrites its register or raises before touching it: a literal, or a string that
    does not resolve to a falsy attribute value. -/
def overwrites : FuseDbValue → Bool
  | .int _ => true
  | .str s =>
    match getObjectValue s attrs with
    | .ok a => a.truthy
    | .error _ => true
  | _ => false

section Congr

variable {S attrs}

theorem otpLines_congr {vals vals' : Uid → Nat} {y : Uid} (m : Bool)
    (hy : S.fuses.hasGroupRegisters y = false) (h : vals y = vals' y) :
    S.otpLines vals m y = S.otpLines vals' m y := by
  simp only [otpLines, FuseRegisters.getValue, S.fuses.rawValue_of_leaf hy, h]

/-- The block of `x` reads only the registers holding `x`. -/
theorem regBlock_congr {vals vals' : Uid → Nat} {x : Uid} (extra : String)
    (h : ∀ y ∈ S.fuses.leaves x, vals y = vals' y) :
    S.regBlock vals x extra = S.regBlock vals' x extra := by
  have hr := S.fuses.rawValue_congr h
  unfold FuseRegisters.leaves at h
  by_cases hg : S.fuses.hasGroupRegisters x = true
  · rw [if_pos hg] at h
    have hm : (S.fuses.reg x).subRegs.mapM (S.otpLines vals true) =
        (S.fuses.reg x).subRegs.mapM (S.otpLines vals' true) :=
      mapM_congr_mem fun y hy => otpLines_congr true (S.fuses.hasGroupRegisters_of_mem hy) (h y hy)
    simp only [regBlock, FuseRegisters.getValue, hr, hg, hm, if_true]
  · rw [if_neg hg] at h
    have hl := otpLines_congr (S := S) false (by simpa using hg) (h x (List.mem_singleton_self x))
    simp only [regBlock, FuseRegisters.getValue, hr, hg, hl, Bool.false_eq_true, if_false]

/-- An entry that overwrites its register raises without a change, or sets a raw value that
    does not depend on the values before. -/
theorem setReg_of_overwrites {x : Uid} {value : FuseDbValue} (hv : overwrites attrs value = true) :
    (∃ e, ∀ vals, S.setReg attrs x value vals = .error e vals) ∨
      ∃ v, ∀ vals, S.setReg attrs x value vals = .ok "" (S.fuses.setRawValue vals x v) := by
  cases value with
  | int v => exact .inr ⟨v, fun _ => rfl⟩
  | str s =>
    simp only [overwrites] at hv
    cases ho : getObjectValue s attrs with
    | error e =>
      exact .inl ⟨e, fun vals => by
        simp only [setReg, ho, ofExcept]
        exact bind_error (throw_apply e vals)⟩
    | ok a =>
      have ht : a.truthy = true := by simpa [ho] using hv
      exact .inr ⟨S.fuses.toRaw x (S.attrInt a), fun vals => by
        simp only [setReg, ho, ofExcept, FuseRegisters.setValue, pure_bind, if_pos ht]
        rfl⟩
  | bitfields => cases hv
  | other => cases hv

theorem outcome_bind {α β : Type} {x : ScriptM α} {f : α → ScriptM β} {s s' : Uid → Nat}
    (hx : outcome (x s) = outcome (x s')) (hf : ∀ a t t', outcome (f a t) = outcome (f a t')) :
    outcome ((x >>= f) s) = outcome ((x >>= f) s') := by
  cases h : x s <;> cases h' : x s' <;> rw [h, h'] at hx <;> simp only [outcome] at hx <;> cases hx
  · rw [bind_ok h, bind_ok h']
    exact hf _ _ _
  · rw [bind_error h, bind_error h']
    rfl

/-- The loop over the keys returns or raises the same from any register values, when each
    entry it meets overwrites its register. -/
theorem generateFrom_congr : ∀ {entries : List (String × FuseDbValue)},
    (∀ kv ∈ entries, pyStartsWith kv.1 "_" = false → overwrites attrs kv.2 = true) →
    ∀ script info vals vals', outcome (S.generateFrom attrs entries script info vals) =
      outcome (S.generateFrom attrs entries script info vals')
  | [], _, _, _, _, _ => rfl
  | (key, value) :: rest, h, script, info, vals, vals' => by
    have ih := generateFrom_congr fun kv hkv => h kv (List.mem_cons_of_mem _ hkv)
    simp only [generateFrom]
    split
    · exact ih script info vals vals'
    · rename_i hk
      have hv := h (key, value) (List.mem_cons_self _ _) (by simpa using hk)
      cases hx : S.fuses.findReg key with
      | none => simp only [getReg, hx]; rfl
      | some x =>
        simp only [getReg, hx, pure_bind]
        rcases setReg_of_overwrites (S := S) (x := x) hv with ⟨e, he⟩ | ⟨v, hset⟩
        · rw [bind_error (he vals), bind_error (he vals')]
          rfl
        · have hb := regBlock_congr (S := S) "" fun y hy => S.fuses.setRawValue_congr vals vals' x v hy
          rw [bind_ok (hset vals), bind_ok (hset vals'), bind_ok (get_apply _), bind_ok (get_apply _), hb]
          cases S.regBlock (S.fuses.setRawValue vals' x v) x "" with
          | error e => rfl
          | ok p => exact ih _ _ _ _

end Congr

/-- **A script that overwrites every register does not depend on earlier calls.** When each
    entry of the database is a literal, or a string that does not resolve to a falsy attribute
    value, `generate_script` returns or raises the same from any values of the registers, those
    of a new object included. -/
theorem generateScript_congr (version : String) (infoOnly : Bool)
    (h : ∀ kv ∈ S.fusesDb, pyStartsWith kv.1 "_" = false → overwrites attrs kv.2 = true)
    (vals vals' : Uid → Nat) :
    outcome (S.generateScript attrs version infoOnly vals) =
      outcome (S.generateScript attrs version infoOnly vals') :=
  outcome_bind (generateFrom_congr h _ _ vals vals') fun ⟨_, _⟩ _ _ => rfl

end FuseScript

/-- A `FuseScript` whose entry sets `FUSE_A` (OTP index 3, reset value 0) from the attribute
    `key`. -/
def fuseAScript : FuseScript where
  family := ""
  revision := "latest"
  operator := .blhost
  fuses := fuseARegisters .never id id
  fusesDb := [("FUSE_A", .str "__key")]
  noVerify := false
  name := "Fuse Script"
  attrInt := fun
    | .int v => v
    | _ => 0
  getHexValue := fun _ v => pyHex v

/-- An attributes object whose attribute `key` is `v`. -/
def keyAttrs (v : Nat) : String → Option AttrValue :=
  fun n => if n = "key" then some (.int v) else none

theorem fuseAScript_generateScript_congr :
    (∀ kv ∈ fuseAScript.fusesDb, pyStartsWith kv.1 "_" = false →
      FuseScript.overwrites (keyAttrs 0x1234) kv.2 = true) ∧
    FuseScript.outcome (fuseAScript.generateScript (keyAttrs 0x1234) "2.3.0" false (fun _ => 7)) =
      FuseScript.outcome (fuseAScript.generateScript (keyAttrs 0x1234) "2.3.0" false
        fuseAScript.freshValues) :=
  have h : ∀ kv ∈ fuseAScript.fusesDb, pyStartsWith kv.1 "_" = false →
      FuseScript.overwrites (keyAttrs 0x1234) kv.2 = true := by decide
  ⟨h, fuseAScript.generateScript_congr (keyAttrs 0x1234) "2.3.0" false h _ _⟩

/-- A call with `key = 0x1234` renders `FUSE_A` at `0x1234`; a second call on the same object
    with `key = 0`, which is falsy, renders `0x1234` again, where a new object renders the reset
    value `0`. -/
theorem fuseAScript_stale_value :
    (∃ vals vals', fuseAScript.generateScript (keyAttrs 0x1234) "2.3.0" false
        fuseAScript.freshValues = .ok
          ("# blhost Fuse Script fuses programming script\n# Generated by SPSDK 2.3.0\n" ++
            "# Family:  Revision: latest\n\n# Value: 0x1234\n# Description: \n" ++
            "# OTP ID: FUSE_A\n\nefuse-program-once 3 0x1234 --verify\n") vals ∧
      fuseAScript.generateScript (keyAttrs 0) "2.3.0" false vals = .ok
          ("# blhost Fuse Script fuses programming script\n# Generated by SPSDK 2.3.0\n" ++
            "# Family:  Revision: latest\n\n# Value: 0x1234\n# Description: \n" ++
            "# OTP ID: FUSE_A\n\nefuse-program-once 3 0x1234 --verify\n") vals') ∧
    ∃ vals, fuseAScript.generateScript (keyAttrs 0) "2.3.0" false fuseAScript.freshValues = .ok
      ("# blhost Fuse Script fuses programming script\n# Generated by SPSDK 2.3.0\n" ++
        "# Family:  Revision: latest\n\n# Value: 0x0\n# Description: \n" ++
        "# OTP ID: FUSE_A\n\nefuse-program-once 3 0x0 --verify\n") vals :=
  ⟨⟨_, _, rfl, rfl⟩, _, rfl⟩

end Spsdk
