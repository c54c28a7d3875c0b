import SpsdkFuses.FuseScript

/-
  File:      SpsdkFuses/Setup.lean
  Subject:   Choosing the operator: `FuseOperator.get_operator_type` and the setter of
             `Fuses.fuse_operator`.

  `get_operator_type(name)` scans the subclasses of `FuseOperator`, in the order they are
  defined, for the one whose `NAME` is `name`. The setter of `fuse_operator` stores an operator
  only if it is an instance of the class the family database names (`fuse_operator_type`); the
  two operator classes are siblings, so `isinstance` holds exactly for that class.

  * `getOperatorType_eq_ok_iff`, `getOperatorType_of_unknown` -- the scan returns exactly the
    class with that `NAME`, and raises `SPSDKKeyError` naming the tool for any other name;
  * `setFuseOperator_eq_ok_iff`, `setFuseOperator_error` -- the setter stores exactly the
    operators of the family's class, and raises `SPSDKTypeError` naming both classes otherwise.
-/

namespace Spsdk

/-- The exceptions of choosing an operator. -/
inductive SetupError where
  /-- `SPSDKKeyError` -/
  | keyError (description : String)
  /-- `SPSDKTypeError` -/
  | typeError (description : String)
  deriving DecidableEq, Repr

/-- `FuseOperator.__subclasses__()`, in the order the classes are defined. -/
def operatorSubclasses : List FuseOperatorType := [.blhost, .nxpele]

/-- `__name__` of the operator class. -/
def FuseOperatorType.className : FuseOperatorType → String
  | .blhost => "BlhostFuseOperator"
  | .nxpele => "NxpeleFuseOperator"

/-- `FuseOperator.get_operator_type(name)`. -/
def getOperatorType (name : String) : Except SetupError FuseOperatorType :=
  match operatorSubclasses.find? (·.operatorName == name) with
  | some t => .ok t
  | none => .error (.keyError ("No such a fuse operator with name " ++ name))

/-- **The registry resolves a name to the class of that `NAME`**, and to no other. -/
theorem getOperatorType_eq_ok_iff {name : String} {t : FuseOperatorType} :
    getOperatorType name = .ok t ↔ t.operatorName = name := by
  unfold getOperatorType
  constructor
  · intro h
    split at h
    · rename_i t' ht'
      cases h
      simpa using List.find?_some ht'
    · cases h
  · rintro rfl
    cases t <;> rfl

theorem getOperatorType_of_unknown {name : String}
    (h : ∀ t : FuseOperatorType, t.operatorName ≠ name) :
    getOperatorType name = .error (.keyError ("No such a fuse operator with name " ++ name)) := by
  unfold getOperatorType
  rw [List.find?_eq_none.mpr fun t _ => by simpa using h t]

example : getOperatorType "nxpele" = .ok .nxpele := rfl

namespace Fuses

variable (F : Fuses)

/-- The setter of `Fuses.fuse_operator`, given an instance `op` of the operator class `kind`. -/
def setFuseOperator (kind : FuseOperatorType) (op : FuseOperator) : Except SetupError Fuses :=
  if kind = F.fuseOperatorType then .ok { F with operator := some op }
  else .error (.typeError ("Invalid fuse operator type: " ++ kind.className ++ ". expected: " ++
    F.fuseOperatorType.className))

variable {F}

/-- **The setter stores only an operator of the family's class**: the script `create_fuse_script`
    renders and the calls the operator makes then come from the same backend. -/
theorem setFuseOperator_eq_ok_iff {kind : FuseOperatorType} {op : FuseOperator} {F' : Fuses} :
    F.setFuseOperator kind op = .ok F' ↔
      kind = F.fuseOperatorType ∧ F' = { F with operator := some op } := by
  unfold setFuseOperator
  split
  · simp [*, eq_comm]
  · simp [*]

theorem setFuseOperator_error {kind : FuseOperatorType} (op : FuseOperator)
    (h : kind ≠ F.fuseOperatorType) :
    F.setFuseOperator kind op = .error (.typeError ("Invalid fuse operator type: " ++
      kind.className ++ ". expected: " ++ F.fuseOperatorType.className)) :=
  if_neg h

end Fuses

end Spsdk
