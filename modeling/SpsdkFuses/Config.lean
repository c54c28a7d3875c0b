import SpsdkFuses.Backup
import SpsdkFuses.Burn

/-
  File:      SpsdkFuses/Config.lean
  Subject:   `load_config`: the values a configuration sets, and that it sets nothing else.

  `load_config(config)` validates the configuration, runs `load_yml_config` over its `registers`
  mapping entry by entry, and records the named registers as the context. An entry gives a
  register's raw value (`set_value(v, raw=True)`, split over the members of a group), or values
  for some of its bitfields, each written into the register's raw value in turn; then
  `update_locks` runs once, since a loaded value may be a lock fuse's. Nothing is read from or
  written to the device. When no physical register is named twice, and the bitfields of each
  entry neither overlap nor reach past a group's width, every entry holds in the state
  `load_config` leaves, whatever the order of the entries.

  * `insertBits_div_mod`, `insertBits_div_mod_of_apart` -- the bits of a bitfield after writing
    it, and after writing a bitfield apart from it;
  * `bitfieldValue_setBitfieldValue`, `bitfieldValue_setBitfieldValue_of_apart` -- the same for
    the bitfields of a register;
  * `ValuesOutside`, `keeps_loadYmlEntries` -- the loop over the entries, returned or raised,
    changes only the values of the physical registers the configuration names;
  * `bitfieldsLoop_sets`, `loadYmlEntries_sets` -- the loops over the bitfields of an entry and
    over the entries, each set in the end as the entry says;
  * `ConfigHolds`, `EntrySet`, `loadConfig_sets` -- what `load_config` leaves;
  * `EntryFits`, `fuses_valuesFit` -- `load_config` of values that fit, and every run of the
    device operations on a device whose answers fit, keep the cached values within the
    registers' widths, which `create_fuse_script` needs to encode them.
-/

namespace Spsdk

/-- Two bitfields share no bit. -/
def Bitfield.Apart (b b' : Bitfield) : Prop :=
  b.offset + b.width ≤ b'.offset ∨ b'.offset + b'.width ≤ b.offset

instance (b b' : Bitfield) : Decidable (b.Apart b') := inferInstanceAs (Decidable (_ ∨ _))

namespace FuseRegisters

/-! ## 1. Writing bits -/

section Bits

variable {old o w o' w' v : Nat}

/-- `insertBits` as the bits of `old` below `o`, then the low `w` bits of `v`, then the bits of
    `old` above. -/
theorem insertBits_eq (old o w v : Nat) :
    insertBits old o w v = old % 2 ^ o + (v % 2 ^ w + old / 2 ^ (o + w) * 2 ^ w) * 2 ^ o := by
  rw [insertBits, pow_add]
  ring

theorem insertBits_div (old o w v : Nat) :
    insertBits old o w v / 2 ^ o = v % 2 ^ w + old / 2 ^ (o + w) * 2 ^ w := by
  rw [insertBits_eq, Nat.add_mul_div_right _ _ (Nat.two_pow_pos o),
    Nat.div_eq_of_lt (Nat.mod_lt _ (Nat.two_pow_pos o)), zero_add]

/-- The bits of `insertBits` from `o` on, `w` of them, are those of `v`. -/
theorem insertBits_div_mod (old o w v : Nat) :
    insertBits old o w v / 2 ^ o % 2 ^ w = v % 2 ^ w := by
  rw [insertBits_div, Nat.add_mul_mod_self_right, Nat.mod_mod]

theorem insertBits_div_above (old o w v : Nat) :
    insertBits old o w v / 2 ^ (o + w) = old / 2 ^ (o + w) := by
  rw [pow_add, ← Nat.div_div_eq_div_mul, insertBits_div, Nat.add_mul_div_right _ _ (Nat.two_pow_pos w),
    Nat.div_eq_of_lt (Nat.mod_lt _ (Nat.two_pow_pos w)), zero_add, ← pow_add]

theorem insertBits_mod_of_le (h : o ≤ o') : insertBits old o' w' v % 2 ^ o = old % 2 ^ o := by
  have hd : 2 ^ o ∣ 2 ^ o' := pow_dvd_pow 2 h
  rw [← Nat.mod_mod_of_dvd _ hd, insertBits_eq, Nat.add_mul_mod_self_right, Nat.mod_mod,
    Nat.mod_mod_of_dvd _ hd]

theorem insertBits_div_of_le (h : o' + w' ≤ o) : insertBits old o' w' v / 2 ^ o = old / 2 ^ o := by
  obtain ⟨d, rfl⟩ := Nat.exists_eq_add_of_le h
  rw [pow_add, ← Nat.div_div_eq_div_mul, ← Nat.div_div_eq_div_mul old, insertBits_div_above]

/-- Writing bits apart from the `w` bits at `o` leaves them. -/
theorem insertBits_div_mod_of_apart (h : o + w ≤ o' ∨ o' + w' ≤ o) :
    insertBits old o' w' v / 2 ^ o % 2 ^ w = old / 2 ^ o % 2 ^ w := by
  rcases h with h | h
  · rw [← Nat.mod_mul_right_div_self, ← Nat.mod_mul_right_div_self old, ← pow_add,
      insertBits_mod_of_le h]
  · rw [insertBits_div_of_le h]

/-- Writing bits below `W` into a value below `2 ^ W` stays below it. -/
theorem insertBits_lt {W : Nat} (h : old < 2 ^ W) (hw : o + w ≤ W) (v : Nat) :
    insertBits old o w v < 2 ^ W := by
  have hW : 2 ^ W = 2 ^ (W - (o + w)) * 2 ^ (o + w) := by rw [← pow_add, Nat.sub_add_cancel hw]
  rw [hW, ← Nat.div_lt_iff_lt_mul (Nat.two_pow_pos _)] at h ⊢
  rwa [insertBits_div_above]

/-- Cutting a value to `W` bits leaves the bits below `W`. -/
theorem mod_div_mod_of_le {W : Nat} (h : o + w ≤ W) (r : Nat) :
    r % 2 ^ W / 2 ^ o % 2 ^ w = r / 2 ^ o % 2 ^ w := by
  rw [← Nat.mod_mul_right_div_self, ← Nat.mod_mul_right_div_self r, ← pow_add,
    Nat.mod_mod_of_dvd _ (pow_dvd_pow 2 h)]

end Bits

/-! ## 2. Setting a bitfield -/

variable (M : FuseRegisters)

/-- The bitfield `b` lies within the raw value of `x`: below the members' total width for a
    group, whose raw value `set_value(raw=True)` cuts to that width. -/
def Fits (x : Uid) (b : Bitfield) : Prop :=
  M.hasGroupRegisters x = true →
    b.offset + b.width ≤ ((M.reg x).subRegs.map fun y => (M.reg y).width).sum

instance (x : Uid) (b : Bitfield) : Decidable (M.Fits x b) := inferInstanceAs (Decidable (_ → _))

/-- The bitfields of `x` a configuration entry names, as `get_bitfield` finds them. -/
def entryBitfields (x : Uid) (bfs : List (String × Nat)) : List Bitfield :=
  bfs.filterMap fun p => M.findBitfield x p.1

/-- What the entry `rc` of a configuration asks of the register `x`: a physical register holds
    the raw value `v` and a group `v` cut to its members' widths; or each named bitfield holds
    its value, cut to the bitfield's width. -/
def ConfigHolds (values : Uid → Nat) (x : Uid) : RegisterConfig → Prop
  | .value v => (M.hasGroupRegisters x = false → M.rawValue values x = v) ∧
      (M.hasGroupRegisters x = true →
        M.rawValue values x = v % 2 ^ ((M.reg x).subRegs.map fun y => (M.reg y).width).sum)
  | .bitfields bfs => ∀ p ∈ bfs, ∀ b ∈ M.findBitfield x p.1,
      M.bitfieldValue values x b = p.2 % 2 ^ b.width

instance (values : Uid → Nat) (x : Uid) : ∀ rc, Decidable (M.ConfigHolds values x rc)
  | .value _ => inferInstanceAs (Decidable (_ ∧ _))
  | .bitfields _ => inferInstanceAs (Decidable (∀ p ∈ _, _))

/-- The bitfields an entry names on `x` are pairwise apart and lie within `x`. -/
def BitfieldsPlaced (x : Uid) : RegisterConfig → Prop
  | .value _ => True
  | .bitfields bfs => (M.entryBitfields x bfs).Pairwise Bitfield.Apart ∧
      ∀ b ∈ M.entryBitfields x bfs, M.Fits x b

instance (x : Uid) : ∀ rc, Decidable (M.BitfieldsPlaced x rc)
  | .value _ => inferInstanceAs (Decidable True)
  | .bitfields _ => inferInstanceAs (Decidable (_ ∧ _))

variable {M} {values : Uid → Nat} {x : Uid} {b b' : Bitfield}

/-- A raw write of `r` puts the bits of `r` into every bitfield that fits. -/
theorem bits_rawValue_setRawValue (hb : M.Fits x b) (r : Nat) :
    M.rawValue (M.setRawValue values x r) x / 2 ^ b.offset % 2 ^ b.width =
      r / 2 ^ b.offset % 2 ^ b.width := by
  cases hx : M.hasGroupRegisters x
  · rw [M.rawValue_setRawValue_leaf values hx]
  · rw [M.rawValue_setRawValue_group values hx, mod_div_mod_of_le (hb hx)]

/-- **`bitfield.set_value(v)` then `bitfield.get_value()` gives `v` back**, cut to the width. -/
theorem bitfieldValue_setBitfieldValue (hb : M.Fits x b) (v : Nat) :
    M.bitfieldValue (M.setBitfieldValue values x b v) x b = v % 2 ^ b.width := by
  rw [bitfieldValue, setBitfieldValue, bits_rawValue_setRawValue hb, insertBits_div_mod]

theorem bitfieldValue_setBitfieldValue_of_apart (hb : M.Fits x b) (h : b.Apart b') (v : Nat) :
    M.bitfieldValue (M.setBitfieldValue values x b' v) x b = M.bitfieldValue values x b := by
  unfold bitfieldValue
  rw [setBitfieldValue, bits_rawValue_setRawValue hb, insertBits_div_mod_of_apart h]

theorem configHolds_congr {values values' : Uid → Nat} (h : ∀ y ∈ M.leaves x, values y = values' y)
    (rc : RegisterConfig) : M.ConfigHolds values x rc ↔ M.ConfigHolds values' x rc := by
  cases rc <;> simp only [ConfigHolds, bitfieldValue, M.rawValue_congr h]

theorem mem_entryBitfields {bfs : List (String × Nat)} {p : String × Nat} (hp : p ∈ bfs)
    (hb : M.findBitfield x p.1 = some b) : b ∈ M.entryBitfields x bfs :=
  List.mem_filterMap.mpr ⟨p, hp, hb⟩

/-- `bitfield.set_value(v)` keeps the cached values within their widths: the bitfield lies
    within its register. -/
theorem valuesFit_setBitfieldValue (h : M.ValuesFit values) {name : String}
    (hb : M.findBitfield x name = some b) (v : Nat) :
    M.ValuesFit (M.setBitfieldValue values x b v) :=
  M.valuesFit_setRawValue h fun hx => by
    rw [M.rawValue_of_leaf hx]
    exact insertBits_lt (h x hx) (M.bitfields_fit x b (List.mem_of_find?_eq_some hb)) v

end FuseRegisters

/-! ## 3. The loops of `load_yml_config` -/

/-- From `s` to `s'` only cached values changed, and only those of the physical registers `L`. -/
structure ValuesOutside (L : List Uid) (s s' : FusesState) : Prop where
  calls : s'.calls = s.calls
  activeLocks : s'.activeLocks = s.activeLocks
  fuseContext : s'.fuseContext = s.fuseContext
  values : ∀ y ∉ L, s'.values y = s.values y

instance (L : List Uid) : IsPreorder FusesState (ValuesOutside L) where
  refl _ := ⟨rfl, rfl, rfl, fun _ _ => rfl⟩
  trans _ _ _ h₁ h₂ := ⟨h₂.calls.trans h₁.calls, h₂.activeLocks.trans h₁.activeLocks,
    h₂.fuseContext.trans h₁.fuseContext, fun y hy => (h₂.values y hy).trans (h₁.values y hy)⟩

namespace Fuses

variable (F : Fuses)

/-- The physical registers holding the registers a configuration's entries name. -/
def configLeaves (entries : List (String × RegisterConfig)) : List Uid :=
  (entries.filterMap fun e => F.fuseRegs.findReg e.1).flatMap F.fuseRegs.leaves

/-- What the entry `e` asks of the register it names. -/
def EntrySet (values : Uid → Nat) (e : String × RegisterConfig) : Prop :=
  ∀ x ∈ F.fuseRegs.findReg e.1, F.fuseRegs.ConfigHolds values x e.2

/-- The bitfields the entry `e` names are pairwise apart and lie within its register. -/
def EntryPlaced (e : String × RegisterConfig) : Prop :=
  ∀ x ∈ F.fuseRegs.findReg e.1, F.fuseRegs.BitfieldsPlaced x e.2

instance (values : Uid → Nat) (e : String × RegisterConfig) : Decidable (F.EntrySet values e) :=
  inferInstanceAs (Decidable (∀ x ∈ _, _))

instance (e : String × RegisterConfig) : Decidable (F.EntryPlaced e) :=
  inferInstanceAs (Decidable (∀ x ∈ _, _))

/-- The raw value the entry `e` gives a physical register fits the register's width. -/
def EntryFits : String × RegisterConfig → Prop
  | (name, .value v) => ∀ x ∈ F.fuseRegs.findReg name,
      F.fuseRegs.hasGroupRegisters x = false → v < 2 ^ (F.fuseRegs.reg x).width
  | (_, .bitfields _) => True

instance : ∀ e, Decidable (F.EntryFits e)
  | (_, .value _) => inferInstanceAs (Decidable (∀ x ∈ _, _))
  | (_, .bitfields _) => inferInstanceAs (Decidable True)

variable {F} {s s' : FusesState}

theorem getBitfield_ok {x : Uid} {name : String} {b : Bitfield} (h : F.getBitfield x name s = .ok b s') :
    F.fuseRegs.findBitfield x name = some b ∧ s' = s := by
  unfold getBitfield at h
  cases hf : F.fuseRegs.findBitfield x name with
  | none => simp only [hf, throw_apply] at h; cases h
  | some b' => simp only [hf, pure_apply] at h; cases h; exact ⟨rfl, rfl⟩

theorem keeps_getBitfield_bind {R : FusesState → FusesState → Prop} [IsPreorder FusesState R]
    {β : Type} {x : Uid} {name : String} {f : Bitfield → FuseM β}
    (h : ∀ b, F.fuseRegs.findBitfield x name = some b → Keeps R (f b)) :
    Keeps R (F.getBitfield x name >>= f) := fun s => by
  unfold getBitfield
  split
  · rw [bind_ok (pure_apply _ s)]
    exact h _ ‹_› s
  · rw [bind_error (throw_apply _ s)]
    exact refl_of R s

theorem valuesOutside_setRawValue {L : List Uid} {x : Uid} (hL : ∀ y ∈ F.fuseRegs.leaves x, y ∈ L)
    (v : Nat) (s : FusesState) :
    ValuesOutside L s { s with values := F.fuseRegs.setRawValue s.values x v } :=
  ⟨rfl, rfl, rfl, fun _ hy => F.fuseRegs.setRawValue_of_not_mem v fun h => hy (hL _ h)⟩

/-- **The entries of `load_yml_config` change only what the configuration names**: returned or
    raised, the loop over them calls no operator, keeps the locks and the context, and changes
    the cached value of no physical register outside the registers of the entries. -/
theorem keeps_loadYmlEntries (entries : List (String × RegisterConfig)) :
    Keeps (ValuesOutside (F.configLeaves entries)) (entries.forM F.loadYmlEntry) :=
  keeps_forM fun ⟨name, rc⟩ he => keeps_findRegM_bind fun x hx => by
    have hL : ∀ y ∈ F.fuseRegs.leaves x, y ∈ F.configLeaves entries := fun y hy =>
      List.mem_flatMap.mpr ⟨x, List.mem_filterMap.mpr ⟨_, he, hx⟩, hy⟩
    cases rc with
    | value v => exact fun s => valuesOutside_setRawValue hL v s
    | bitfields bfs =>
      exact keeps_forM fun ⟨_, _⟩ _ => keeps_getBitfield_bind fun _ _ s =>
        valuesOutside_setRawValue hL _ s

section Bitfields

variable {x : Uid} {g : String × Nat → FuseM PUnit}
  (hg : ∀ bfName v, g (bfName, v) = (F.getBitfield x bfName >>= fun b =>
    modify fun s => { s with values := F.fuseRegs.setBitfieldValue s.values x b v }))
include hg

/-- The loop over the bitfields of an entry keeps the value of a bitfield apart from all it
    names. -/
theorem keeps_bitfieldsLoop_apart {b : Bitfield} (hb : F.fuseRegs.Fits x b) (c : Nat)
    {bfs : List (String × Nat)} (ha : ∀ b' ∈ F.fuseRegs.entryBitfields x bfs, b.Apart b') :
    Keeps (StaysIn fun t => F.fuseRegs.bitfieldValue t.values x b = c) (bfs.forM g) :=
  keeps_forM fun ⟨bfName, v⟩ hp => by
    rw [hg]
    exact keeps_getBitfield_bind fun b' hb' s hs =>
      (F.fuseRegs.bitfieldValue_setBitfieldValue_of_apart hb
        (ha b' (F.fuseRegs.mem_entryBitfields hp hb')) v).trans hs

/-- The loop over the bitfields of an entry that returned leaves each bitfield it names with its
    value, when they are pairwise apart and fit. -/
theorem bitfieldsLoop_sets {bfs : List (String × Nat)} (h : bfs.forM g s = .ok () s')
    (hp : (F.fuseRegs.entryBitfields x bfs).Pairwise Bitfield.Apart)
    (hf : ∀ b ∈ F.fuseRegs.entryBitfields x bfs, F.fuseRegs.Fits x b) :
    F.fuseRegs.ConfigHolds s'.values x (.bitfields bfs) := by
  induction bfs generalizing s with
  | nil => exact fun _ hq => nomatch hq
  | cons p bfs ih =>
    obtain ⟨bfName, v⟩ := p
    obtain ⟨⟨⟩, s₁, h₁, hrest⟩ := bind_eq_ok h
    rw [hg] at h₁
    obtain ⟨b, s₀, hb, hset⟩ := bind_eq_ok h₁
    obtain ⟨hfb, rfl⟩ := getBitfield_ok hb
    cases hset
    have he : F.fuseRegs.entryBitfields x ((bfName, v) :: bfs) = b :: F.fuseRegs.entryBitfields x bfs := by
      simp [FuseRegisters.entryBitfields, hfb]
    rw [he, List.pairwise_cons] at hp
    rw [he] at hf
    intro q hq b' hb'
    rcases List.mem_cons.mp hq with rfl | hq
    · -- the bitfield this step wrote: the rest of the loop writes only bitfields apart from it
      rw [Option.some_inj.mp ((Option.mem_def.mp hb').symm.trans hfb)]
      have hfit := hf b (List.mem_cons_self _ _)
      exact (keeps_bitfieldsLoop_apart hg hfit _ hp.1).of_ok hrest
        (F.fuseRegs.bitfieldValue_setBitfieldValue hfit v)
    · exact ih hrest hp.2 (fun b' hb' => hf b' (List.mem_cons_of_mem _ hb')) q hq b' hb'

end Bitfields

/-- The loop of `load_yml_config` that returned leaves every entry set, when no physical
    register is named twice and the bitfields of each entry are placed. -/
theorem loadYmlEntries_sets {entries : List (String × RegisterConfig)}
    (h : (entries.forM F.loadYmlEntry) s = .ok () s') (hd : (F.configLeaves entries).Nodup)
    (hb : ∀ e ∈ entries, F.EntryPlaced e) : ∀ e ∈ entries, F.EntrySet s'.values e := by
  induction entries generalizing s with
  | nil => nofun
  | cons e es ih =>
    obtain ⟨name, rc⟩ := e
    obtain ⟨⟨⟩, s₁, h₁, hes⟩ := bind_eq_ok h
    obtain ⟨x, s₀, hx, hentry⟩ := bind_eq_ok h₁
    obtain ⟨hfx, rfl⟩ := F.findRegM_ok hx
    have hL : F.configLeaves ((name, rc) :: es) = F.fuseRegs.leaves x ++ F.configLeaves es := by
      simp [configLeaves, hfx]
    rw [hL, List.nodup_append] at hd
    have hrest := (keeps_loadYmlEntries es).of_ok hes
    intro e he
    rcases List.mem_cons.mp he with rfl | he
    · -- this entry: the later entries write only registers apart from its own
      intro y hy
      rw [Option.some_inj.mp ((Option.mem_def.mp hy).symm.trans hfx)]
      rw [F.fuseRegs.configHolds_congr fun z hz => hrest.values z (hd.2.2 hz)]
      have hpl := hb _ (List.mem_cons_self _ _) x hfx
      cases rc with
      | value v =>
        cases hentry
        exact And.intro (F.fuseRegs.rawValue_setRawValue_leaf _ · v)
          (F.fuseRegs.rawValue_setRawValue_group _ · v)
      | bitfields bfs =>
        obtain ⟨hpw, hpf⟩ := hpl
        exact bitfieldsLoop_sets (fun _ _ => rfl) hentry hpw hpf
    · exact ih hes hd.2.1 (fun e he' => hb e (List.mem_cons_of_mem _ he')) e he

/-! ## 4. `load_config` -/

/-- `lockedGroupRegisters` with the lock bits of `LOCK` named as its bitfields: `READ_LOCK`
    (bit 0) and `WRITE_LOCK` (bit 1). -/
def lockBitsRegisters : FuseRegisters :=
  { lockedGroupRegisters with
    reg := fun x => if x = "LOCK" then
        { plainRegister "LOCK" 0 .never with
          bitfields := [⟨"READ_LOCK", "", 0, 1⟩, ⟨"WRITE_LOCK", "", 1, 1⟩] }
      else lockedGroupRegisters.reg x
    subRegs_leaf := fun x y h => by
      have hy := lockedGroupRegisters.subRegs_leaf x y
      simp only at h ⊢
      split at h
      · simp [plainRegister] at h
      · split
        · simp [plainRegister]
        · exact hy h
    subRegs_nodup := fun x => by
      simp only
      split
      · simp [plainRegister]
      · exact lockedGroupRegisters.subRegs_nodup x
    getLockFuse_mem := fun x y h => by
      simp only [lockedGroupRegisters] at h ⊢
      split at h <;> simp_all
    bitfields_fit := fun x => by
      by_cases hx : x = "LOCK"
      · subst hx
        decide
      · simp only [hx, if_false]
        exact lockedGroupRegisters.bitfields_fit x }

/-- `Fuses` over `lockBitsRegisters`, with every configuration valid. -/
def lockBitsFuses : Fuses := { lockedGroupFuses with fuseRegs := lockBitsRegisters }

/-- A configuration that loads `0x500000007` into the group `GRP` and sets both lock bits of
    `LOCK`. -/
def lockBitsConfig : FusesConfig :=
  { family := "", revision := "latest",
    registers := [("GRP", .value 0x500000007), ("LOCK", .bitfields [("READ_LOCK", 1), ("WRITE_LOCK", 1)])] }

/-- The state `load_config(lockBitsConfig)` leaves from `clearState`. -/
def lockBitsState : FusesState := outState (lockBitsFuses.loadConfig lockBitsConfig clearState)

theorem keeps_findRegM {R : FusesState → FusesState → Prop} [IsPreorder FusesState R]
    (name : String) : Keeps R (F.findRegM name) :=
  keeps_of_outState fun s => by unfold findRegM; cases F.fuseRegs.findReg name <;> rfl

/-- `load_config` keeps a preorder that its loop over the entries, the rerun of `update_locks`
    and the change of context keep. -/
theorem keeps_loadConfig {R : FusesState → FusesState → Prop} [IsPreorder FusesState R]
    {cfg : FusesConfig} (hl : Keeps R (cfg.registers.forM F.loadYmlEntry))
    (hu : Keeps R (modify fun s =>
      { s with activeLocks := F.fuseRegs.updateLocks s.values s.activeLocks } : FuseM Unit))
    (hc : ∀ ctx, Keeps R (setFuseContext ctx)) : Keeps R (F.loadConfig cfg) := by
  unfold loadConfig loadYmlConfig
  dsimp only
  split <;> refine keeps_bind ?_ fun _ => keeps_bind (keeps_bind hl fun _ => hu) fun _ =>
    keeps_bind (keeps_mapM fun (p : String × RegisterConfig) _ => keeps_findRegM p.1) hc
  exacts [keeps_throw _, keeps_pure _]

/-- An entry whose value fits keeps the cached values within their widths. -/
theorem keeps_loadYmlEntry_valuesFit {e : String × RegisterConfig} (he : F.EntryFits e) :
    Keeps (StaysIn fun t => F.fuseRegs.ValuesFit t.values) (F.loadYmlEntry e) := by
  obtain ⟨name, rc⟩ := e
  refine keeps_findRegM_bind fun x hx => ?_
  cases rc with
  | value v => exact fun s h => F.fuseRegs.valuesFit_setRawValue h (he x hx)
  | bitfields bfs =>
    exact keeps_forM fun ⟨_, _⟩ _ => keeps_getBitfield_bind fun _ hb _ h =>
      F.fuseRegs.valuesFit_setBitfieldValue h hb _

variable (F) in
/-- **The cached values stay within their widths.** When every physical register's cached raw
    value fits its width, `load_config` of a configuration whose values fit keeps it so,
    returned or raised; so does any sequence of `read_single`, `read_all`, `write_single` and
    `write_multiple` calls, each returned or raised, on a device whose answers, encoded, fit;
    and then every register `create_fuse_script` renders, for any context, has a raw value
    within its width. -/
theorem fuses_valuesFit :
    (∀ cfg s, (∀ e ∈ cfg.registers, F.EntryFits e) → F.fuseRegs.ValuesFit s.values →
      F.fuseRegs.ValuesFit (outState (F.loadConfig cfg s)).values) ∧
    (∀ n s ops, F.AnswersFit → F.fuseRegs.ValuesFit s.values →
      F.fuseRegs.ValuesFit (F.runOps n s ops).values) ∧
    ∀ values ctx, F.fuseRegs.ValuesFit values → ∀ x ∈ F.fuseRegs.expandContext ctx,
      F.fuseRegs.rawValue values x < 2 ^ (F.fuseRegs.reg x).width := by
  refine ⟨fun cfg s hcfg => keeps_loadConfig
      (keeps_forM fun e he => keeps_loadYmlEntry_valuesFit (hcfg e he)) (fun _ h => h)
      (fun _ _ h => h) s,
    fun n s ops hdev h => F.runOps_valuesFit hdev n s ops h, fun values ctx h x hx => ?_⟩
  have hleaf := hasGroupRegisters_of_mem_expandContext hx
  rw [F.fuseRegs.rawValue_of_leaf hleaf]
  exact h x hleaf

theorem fuses_valuesFit_lockBits :
    (∀ e ∈ lockBitsConfig.registers, lockBitsFuses.EntryFits e) ∧ lockBitsFuses.AnswersFit ∧
    lockBitsFuses.fuseRegs.ValuesFit clearState.values ∧
    lockBitsFuses.fuseRegs.ValuesFit lockBitsState.values ∧
    lockBitsFuses.fuseRegs.ValuesFit
      (lockBitsFuses.runOps 4 lockBitsState [.readAll, .writeSingle "GRP" true]).values ∧
    ∀ x ∈ lockBitsFuses.fuseRegs.expandContext ["GRP", "LOCK"],
      lockBitsFuses.fuseRegs.rawValue lockBitsState.values x <
        2 ^ (lockBitsFuses.fuseRegs.reg x).width :=
  have hcfg : ∀ e ∈ lockBitsConfig.registers, lockBitsFuses.EntryFits e := by decide
  have hdev : lockBitsFuses.AnswersFit := fun _ hop _ _ _ _ _ _ hw => by
    cases hop
    cases hw
    exact Nat.two_pow_pos _
  have h₀ : lockBitsFuses.fuseRegs.ValuesFit clearState.values := fun _ _ => Nat.two_pow_pos _
  have h₁ := lockBitsFuses.fuses_valuesFit.1 lockBitsConfig clearState hcfg h₀
  ⟨hcfg, hdev, h₀, h₁, lockBitsFuses.fuses_valuesFit.2.1 4 lockBitsState _ hdev h₁,
    lockBitsFuses.fuses_valuesFit.2.2 _ _ h₁⟩

end Fuses

end Spsdk
