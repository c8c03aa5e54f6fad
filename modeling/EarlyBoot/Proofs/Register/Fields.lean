import EarlyBoot.Register.Processor
import EarlyBoot.Register.Rflags
import Mathlib.Algebra.Group.Nat.Defs

/-!
# `EarlyBoot.Proofs.Register.Fields`: writes keep to their fields

A register is declared by its members, one behind the other from bit 0 on: fields, and bits
that belong to no field. Nothing else says where a field is, so that a member more or less would
move all that come after it. `fieldAt?` finds the field of a bit by going along the members,
`start` and `size` find the bits of a field.

Two registers are written field by field. What each of them owes is said once for a single write
(`Lawful`): a value that the field has no room for is refused, any other one is put into the bits
of the field, and no other bit is touched. Runs follow from that for both (`KeepsToFields`). The
invariant is `getLsbD_writeAll`: each bit is that of the last value that was accepted for its
field, or the old one if there is no such value or no such field.

Main statements:

* `fieldAt?_eq_some` : the bits of a field, found from either side;
* `Lawful.getLsbD_write`, `Lawful.getLsbD_writeAll` : the bits after one write, and after many;
* `Lawful.keepsToFields` : what follows for reads, for writes to two fields, and for other bits;
* `Rflags.lawful`, `ProcessorFlags.lawful` : what the two registers owe;
* `registers_keep_to_fields` : both of them keep to their fields, and which bits have none.
-/

set_option autoImplicit false

namespace EarlyBoot.Register

/-! ### Registers as they are declared -/

/-- A member of a register. -/
inductive Member (Field : Type) where
  /-- The bits of a field. -/
  | field (field : Field) (width : Nat)
  /-- Bits without a field, and what a fresh register has there. -/
  | fixed (width : Nat) (bits : Nat)

section Members

variable {Field : Type} [DecidableEq Field]

/-- The field that a bit belongs to, and the place of the bit in it. -/
def fieldAt? : List (Member Field) → Nat → Option (Field × Nat)
  | [],                             _ => none
  | .field field width :: members, i =>
      if i < width then some (field, i) else fieldAt? members (i - width)
  | .fixed width _ :: members,     i =>
      if i < width then none else fieldAt? members (i - width)

/-- The first bit of a field. -/
def start : List (Member Field) → Field → Nat
  | [],                            _     => 0
  | .field other width :: members, field =>
      if other = field then 0 else width + start members field
  | .fixed width _ :: members,     field => width + start members field

/-- How many bits a field has. -/
def size : List (Member Field) → Field → Nat
  | [],                            _     => 0
  | .field other width :: members, field => if other = field then width else size members field
  | .fixed _ _ :: members,         field => size members field

/-- The bits of a fresh register whose fields are all zero. -/
def freshBit : List (Member Field) → Nat → Bool
  | [],                          _ => false
  | .field _ width :: members,   i => if i < width then false else freshBit members (i - width)
  | .fixed width bits :: members, i =>
      if i < width then bits.testBit i else freshBit members (i - width)

/-- The fields of a register, in order. -/
def fields : List (Member Field) → List Field
  | []                         => []
  | .field field _ :: members => field :: fields members
  | .fixed _ _ :: members     => fields members

/-- A field that is not among the members of a register has no bits. -/
theorem size_of_not_mem {members : List (Member Field)} {field : Field}
    (h : field ∉ fields members) : size members field = 0 := by
  induction members with
  | nil => rfl
  | cons member members ih =>
      cases member with
      | field other width =>
          rw [fields, List.mem_cons, not_or] at h
          rw [size, if_neg (Ne.symm h.1)]
          exact ih h.2
      | fixed width bits => exact ih h

/-- A bit belongs to a field exactly if it is one of the `size` bits from the `start` of the field
on. So the fields of a register are apart, as long as none is declared twice. -/
theorem fieldAt?_eq_some {members : List (Member Field)} (hnodup : (fields members).Nodup)
    {i : Nat} {field : Field} {j : Nat} :
    fieldAt? members i = some (field, j) ↔
      i = start members field + j ∧ j < size members field := by
  induction members generalizing i with
  | nil => simp [fieldAt?, size]
  | cons member members ih =>
      cases member with
      | field other width =>
          rw [fields] at hnodup
          obtain ⟨hfirst, hrest⟩ := List.nodup_cons.mp hnodup
          rw [fieldAt?, start, size]
          by_cases hother : other = field
          · subst hother
            -- The field is not declared again, so that no later bit is one of its bits.
            have hlater : ¬ fieldAt? members (i - width) = some (other, j) := by
              rw [ih hrest, size_of_not_mem hfirst]
              omega
            rw [if_pos rfl, if_pos rfl]
            split <;> simp [hlater] <;> omega
          · rw [if_neg hother, if_neg hother]
            split
            · simp [hother]
              omega
            · rw [ih hrest]
              omega
      | fixed width bits =>
          rw [fieldAt?, start, size]
          split
          · simp
            omega
          · rw [ih hnodup]
            omega

/-! ### What is written -/

/-- The last value for a field that the field has room for. -/
def lastValue? (members : List (Member Field)) (field : Field) (asked : List (Field × Nat)) :
    Option Nat :=
  (asked.filterMap fun ask =>
    if ask.1 = field ∧ ask.2 < 2 ^ size members field then some ask.2 else none).getLast?

/-- What is written to a bit, if anything is. -/
def writtenBit? (members : List (Member Field)) (asked : List (Field × Nat)) (i : Nat) :
    Option Bool :=
  (fieldAt? members i).bind fun place =>
    (lastValue? members place.1 asked).map (·.testBit place.2)

variable {members : List (Member Field)}

/-- One request sets its own field, if the field has room for the value, and no other. -/
theorem lastValue?_singleton (field : Field) (ask : Field × Nat) :
    lastValue? members field [ask] =
      if ask.1 = field ∧ ask.2 < 2 ^ size members field then some ask.2 else none := by
  unfold lastValue?
  split <;> simp_all

/-- What is asked for first gives way to what is accepted later. -/
theorem lastValue?_cons (field : Field) (ask : Field × Nat) (asked : List (Field × Nat)) :
    lastValue? members field (ask :: asked) =
      (lastValue? members field asked).or (lastValue? members field [ask]) := by
  rw [lastValue?_singleton]
  unfold lastValue?
  split
  · rename_i h
    rw [List.filterMap_cons_some (by rw [if_pos h]), List.getLast?_cons]
    cases (asked.filterMap _).getLast? <;> rfl
  · rename_i h
    rw [List.filterMap_cons_none (by rw [if_neg h]), Option.or_none]

/-- A bit that is written first gives way to what is written to it later. -/
theorem writtenBit?_cons (ask : Field × Nat) (asked : List (Field × Nat)) (i : Nat) :
    writtenBit? members (ask :: asked) i =
      (writtenBit? members asked i).or (writtenBit? members [ask] i) := by
  unfold writtenBit?
  cases fieldAt? members i with
  | none => rfl
  | some place =>
      rw [Option.bind_some, Option.bind_some, Option.bind_some, lastValue?_cons]
      cases lastValue? members place.1 asked <;> rfl

/-- A value that a field holds is one that it has room for; anything greater was refused. -/
theorem lt_of_lastValue? {field : Field} {asked : List (Field × Nat)} {value : Nat}
    (h : lastValue? members field asked = some value) : value < 2 ^ size members field := by
  obtain ⟨ask, -, hask⟩ := List.mem_filterMap.mp (List.mem_of_getLast? h)
  split at hask
  · rename_i hroom
    cases hask
    exact hroom.2
  · cases hask

/-- What is asked of two different fields may be asked in either order. -/
theorem lastValue?_swap {first second : Field × Nat} (h : first.1 ≠ second.1) (field : Field) :
    lastValue? members field [first, second] = lastValue? members field [second, first] := by
  rw [lastValue?_cons field first [second], lastValue?_cons field second [first],
    lastValue?_singleton, lastValue?_singleton]
  by_cases hfirst : first.1 = field
  · have hsecond : second.1 ≠ field := fun hfield => h (hfirst.trans hfield.symm)
    simp [hsecond]
  · simp [hfirst]

end Members

/-! ### Fields of one bit -/

section Flags

variable {width : Nat} (image : BitVec width) {bit i j : Nat}

/-- A flag that is written with `withBit` has the bit of the number that is written. -/
theorem getLsbD_withBit_inside (on : Bool) (hbit : bit < width) (hj : j < 1) :
    (withBit image bit on).getLsbD (bit + j) = on.toNat.testBit j := by
  obtain rfl : j = 0 := by omega
  rw [Nat.add_zero, getLsbD_withBit image bit on bit hbit, if_pos rfl]
  cases on <;> rfl

/-- A bit that is not the flag keeps its value through `withBit`. -/
theorem getLsbD_withBit_outside (on : Bool) (hi : i < width) (hout : ¬ (bit ≤ i ∧ i < bit + 1)) :
    (withBit image bit on).getLsbD i = image.getLsbD i := by
  have hne : i ≠ bit := by omega
  rw [getLsbD_withBit image bit on i hi, if_neg hne]

/-- A flag that is read as a number has the bit that stands in the image. -/
theorem testBit_toNat_getLsbD (hj : j < 1) :
    (image.getLsbD bit).toNat.testBit j = image.getLsbD (bit + j) := by
  obtain rfl : j = 0 := by omega
  rw [Nat.add_zero]
  cases image.getLsbD bit <;> rfl

end Flags

/-! ### Writes to a register -/

section Writes

variable {Register Write Field : Type} {width : Nat} [DecidableEq Field]

/-- What one write to a register owes. A write asks for a value in a field. -/
structure Lawful (members : List (Member Field)) (image : Register → BitVec width)
    (write : Register → Write → Register) (asks : Write → Field × Nat)
    (read : Register → Field → Nat) : Prop where
  /-- No field is declared twice. -/
  nodup : (fields members).Nodup
  fits : ∀ field, start members field + size members field ≤ width
  /-- There is nothing in a register but its bits. -/
  eq_of_image : ∀ register other, image register = image other → register = other
  /-- A value without room is refused. -/
  refused : ∀ register w, ¬ (asks w).2 < 2 ^ size members (asks w).1 → write register w = register
  /-- Any other value is put into the bits of the field. -/
  inside : ∀ register w j, (asks w).2 < 2 ^ size members (asks w).1 →
    j < size members (asks w).1 →
    (image (write register w)).getLsbD (start members (asks w).1 + j) = (asks w).2.testBit j
  outside : ∀ register w i, i < width →
    ¬ (start members (asks w).1 ≤ i ∧ i < start members (asks w).1 + size members (asks w).1) →
    (image (write register w)).getLsbD i = (image register).getLsbD i
  read_lt : ∀ register field, read register field < 2 ^ size members field
  testBit_read : ∀ register field j, j < size members field →
    (read register field).testBit j = (image register).getLsbD (start members field + j)

/-- What writes to a register leave of it, however many there are. -/
structure KeepsToFields (members : List (Member Field)) (image : Register → BitVec width)
    (writeAll : Register → List Write → Register) (asks : Write → Field × Nat)
    (read : Register → Field → Nat) : Prop where
  /-- Each bit is that of the last accepted value of its field, or else as it was. -/
  bits : ∀ register writes i, i < width →
    (image (writeAll register writes)).getLsbD i =
      (writtenBit? members (writes.map asks) i).getD ((image register).getLsbD i)
  /-- A bit without a field is as it was. -/
  others : ∀ register writes i, i < width → fieldAt? members i = none →
    (image (writeAll register writes)).getLsbD i = (image register).getLsbD i
  /-- A field reads as the last value that it had room for, or else as before. -/
  reads : ∀ register writes field, read (writeAll register writes) field =
    (lastValue? members field (writes.map asks)).getD (read register field)
  /-- A value without room is refused. -/
  refused : ∀ register w, 2 ^ size members (asks w).1 ≤ (asks w).2 →
    writeAll register [w] = register
  /-- Writes to two fields may change places. -/
  swap : ∀ register v w, (asks v).1 ≠ (asks w).1 →
    writeAll register [v, w] = writeAll register [w, v]

namespace Lawful

variable {members : List (Member Field)} {image : Register → BitVec width}
  {write : Register → Write → Register} {asks : Write → Field × Nat}
  {read : Register → Field → Nat}

/-- The bits of a lawful register after one write: those that `writtenBit?` has for it, and the old
bits everywhere else. -/
theorem getLsbD_write (h : Lawful members image write asks read) (register : Register)
    (w : Write) {i : Nat} (hi : i < width) :
    (image (write register w)).getLsbD i =
      (writtenBit? members [asks w] i).getD ((image register).getLsbD i) := by
  by_cases hroom : (asks w).2 < 2 ^ size members (asks w).1
  · -- A bit is one of the written field exactly if the members place it there.
    have hplaced (j : Nat) : fieldAt? members i = some ((asks w).1, j) ↔
        i = start members (asks w).1 + j ∧ j < size members (asks w).1 :=
      fieldAt?_eq_some h.nodup
    by_cases hin : start members (asks w).1 ≤ i ∧
        i < start members (asks w).1 + size members (asks w).1
    · -- A bit of the written field has the bit of the value; any other bit is not written to.
      obtain ⟨j, rfl⟩ := Nat.exists_eq_add_of_le hin.1
      have hj : j < size members (asks w).1 := by omega
      have hplace := (hplaced j).mpr ⟨rfl, hj⟩
      rw [h.inside register w j hroom hj, writtenBit?, hplace, Option.bind_some,
        lastValue?_singleton, if_pos ⟨rfl, hroom⟩]
      rfl
    · -- Without room for the value nothing is written at all.
      have hnone : writtenBit? members [asks w] i = none := by
        unfold writtenBit?
        cases hplace : fieldAt? members i with
        | none => rfl
        | some place =>
            have hother : ¬ ((asks w).1 = place.1 ∧ (asks w).2 < 2 ^ size members place.1) := by
              rintro ⟨hfield, -⟩
              have hbits := (hplaced place.2).mp (by rw [hplace, hfield])
              omega
            rw [Option.bind_some, lastValue?_singleton, if_neg hother]
            rfl
      rw [h.outside register w i hi hin, hnone]
      rfl
  · have hnone : writtenBit? members [asks w] i = none := by
      unfold writtenBit?
      cases fieldAt? members i with
      | none => rfl
      | some place =>
          have hrefused : ¬ ((asks w).1 = place.1 ∧ (asks w).2 < 2 ^ size members place.1) := by
            rintro ⟨hfield, hlt⟩
            exact hroom (hfield ▸ hlt)
          rw [Option.bind_some, lastValue?_singleton, if_neg hrefused]
          rfl
    rw [h.refused register w hroom, hnone]
    rfl

/-- The bits of a lawful register after a run of writes: the last that was written to each of them,
and the old bit where nothing was. The induction is on the writes, with `getLsbD_write` for each. -/
theorem getLsbD_writeAll (h : Lawful members image write asks read) (register : Register)
    (writes : List Write) {i : Nat} (hi : i < width) :
    (image (writes.foldl write register)).getLsbD i =
      (writtenBit? members (writes.map asks) i).getD ((image register).getLsbD i) := by
  -- What the first write leaves is what the others start with.
  induction writes generalizing register with
  | nil =>
      unfold writtenBit?
      cases fieldAt? members i <;> rfl
  | cons w writes ih =>
      rw [List.foldl_cons, ih, h.getLsbD_write register w hi, List.map_cons,
        writtenBit?_cons (asks w) (writes.map asks)]
      cases writtenBit? members (writes.map asks) i <;> rfl

/-- The number in a field after a run of writes is the last value that was accepted for it, or the
old number if there is none. -/
theorem read_writeAll (h : Lawful members image write asks read) (register : Register)
    (writes : List Write) (field : Field) :
    read (writes.foldl write register) field =
      (lastValue? members field (writes.map asks)).getD (read register field) := by
  refine Nat.eq_of_testBit_eq fun j => ?_
  by_cases hj : j < size members field
  · have hwidth : start members field + j < width := by
      have := h.fits field
      omega
    have hplace : fieldAt? members (start members field + j) = some (field, j) :=
      (fieldAt?_eq_some h.nodup).mpr ⟨rfl, hj⟩
    rw [h.testBit_read _ field j hj, h.getLsbD_writeAll register writes hwidth, writtenBit?,
      hplace, Option.bind_some, ← h.testBit_read register field j hj]
    cases lastValue? members field (writes.map asks) <;> rfl
  · -- No number that is read has a bit above those of the field.
    have hhigh {value : Nat} (hvalue : value < 2 ^ size members field) :
        value.testBit j = false :=
      Nat.testBit_lt_two_pow
        (Nat.lt_of_lt_of_le hvalue (Nat.pow_le_pow_right (by decide) (Nat.le_of_not_lt hj)))
    rw [hhigh (h.read_lt _ field)]
    cases hlast : lastValue? members field (writes.map asks) with
    | none => exact (hhigh (h.read_lt register field)).symm
    | some value => exact (hhigh (lt_of_lastValue? hlast)).symm

/-- A register that is `Lawful` for one write `KeepsToFields` through any run of them. -/
theorem keepsToFields (h : Lawful members image write asks read) :
    KeepsToFields members image (fun register writes => writes.foldl write register) asks
      read where
  bits register writes i hi := h.getLsbD_writeAll register writes hi
  others := by
    intro register writes i hi hplace
    rw [h.getLsbD_writeAll register writes hi, writtenBit?, hplace]
    rfl
  reads register writes field := h.read_writeAll register writes field
  refused register w hroom := h.refused register w (Nat.not_lt.mpr hroom)
  swap := by
    intro register v w hne
    -- Two registers are the same when their bits are, and every bit shows the last value that was
    -- accepted for its field.
    refine h.eq_of_image _ _ (BitVec.eq_of_getLsbD_eq fun i hi => ?_)
    have hsame :
        writtenBit? members [asks v, asks w] i = writtenBit? members [asks w, asks v] i := by
      unfold writtenBit?
      cases fieldAt? members i with
      | none => rfl
      | some place => rw [Option.bind_some, Option.bind_some, lastValue?_swap hne]
    have hvw := h.getLsbD_writeAll register [v, w] hi
    have hwv := h.getLsbD_writeAll register [w, v] hi
    rw [hvw, hwv]
    exact congrArg (Option.getD · _) hsame

end Lawful

end Writes

/-! ### The flags register -/

namespace Rflags

/-- What is written and read by name. -/
inductive Field where
  | flag (flag : Flag)
  | privilege
  deriving DecidableEq, Repr

/-- The flags register as it is declared. -/
def members : List (Member Field) := [
  .field (.flag .carry) 1,
  .fixed 1 1,
  .field (.flag .parity) 1,
  .fixed 1 0,
  .field (.flag .adjust) 1,
  .fixed 1 0,
  .field (.flag .zero) 1,
  .field (.flag .sign) 1,
  .field (.flag .trap) 1,
  .field (.flag .interruptEnable) 1,
  .field (.flag .direction) 1,
  .field (.flag .overflow) 1,
  .field .privilege 2,
  .field (.flag .nestedTask) 1,
  .fixed 1 0,
  .field (.flag .resume) 1,
  .fixed 1 0,
  .field (.flag .alignmentCheck) 1,
  .field (.flag .virtualInterrupt) 1,
  .field (.flag .virtualInterruptPending) 1,
  .field (.flag .identification) 1,
  .fixed 42 0]

/-- The field that a write is for, and the value that it asks for. -/
def Write.asks : Write → Field × Nat
  | .flag f on       => (.flag f, on.toNat)
  | .privilege level => (.privilege, level)

/-- The number in a field. -/
def read (flags : Rflags) : Field → Nat
  | .flag flag  => (flags.get flag).toNat
  | .privilege  => flags.privilege

/-- The members in front of a flag take as many bits as the number of the flag says. -/
theorem start_flag (flag : Flag) : start members (.flag flag) = flag.bit := by
  cases flag <;> rfl

/-- A flag of the flags register has one bit. -/
theorem size_flag (flag : Flag) : size members (.flag flag) = 1 := by
  cases flag <;> rfl

/-- The privilege level starts at bit 12, behind the members in front of it. -/
theorem start_privilege : start members .privilege = privilegeBit := rfl

/-- The privilege level has two bits. -/
theorem size_privilege : size members .privilege = 2 := rfl

/-- Every flag is a bit of the 64-bit register. -/
theorem bit_lt (flag : Flag) : flag.bit < 64 := by
  cases flag <;> decide

/-- Take a level below four. Then `setPrivilege?` accepts it, and writes its two bits. -/
theorem setPrivilege?_of_lt (flags : Rflags) {level : Nat} (h : level < 4) :
    flags.setPrivilege? level =
      some ⟨withBit (withBit flags.image privilegeBit (level.testBit 0)) (privilegeBit + 1)
        (level.testBit 1)⟩ :=
  if_pos h

/-- A level is refused exactly from four on. -/
theorem setPrivilege?_eq_none (flags : Rflags) (level : Nat) :
    flags.setPrivilege? level = none ↔ 4 ≤ level := by
  unfold setPrivilege?
  split
  · simp
    omega
  · simp
    omega

/-- The bits after a level was written: its own two, and the old ones everywhere else. -/
theorem getLsbD_write_privilege (flags : Rflags) {level : Nat} (h : level < 4) {i : Nat}
    (hi : i < 64) :
    (flags.write (.privilege level)).image.getLsbD i =
      if i = privilegeBit + 1 then level.testBit 1
      else if i = privilegeBit then level.testBit 0 else flags.image.getLsbD i := by
  rw [write, setPrivilege?_of_lt flags h, Option.getD_some, getLsbD_withBit _ _ _ i hi,
    getLsbD_withBit _ _ _ i hi]

/-- The level that is read is below four. -/
theorem privilege_lt (flags : Rflags) : flags.privilege < 4 := by
  have hlow := Bool.toNat_lt (flags.image.getLsbD privilegeBit)
  have hhigh := Bool.toNat_lt (flags.image.getLsbD (privilegeBit + 1))
  rw [privilege]
  omega

/-- The level that is read has the two bits that stand in the image. -/
theorem testBit_privilege (flags : Rflags) {j : Nat} (hj : j < 2) :
    flags.privilege.testBit j = flags.image.getLsbD (privilegeBit + j) := by
  rw [privilege]
  obtain rfl | rfl : j = 0 ∨ j = 1 := by omega
  · cases flags.image.getLsbD privilegeBit <;>
      cases flags.image.getLsbD (privilegeBit + 1) <;> rfl
  · cases flags.image.getLsbD privilegeBit <;>
      cases flags.image.getLsbD (privilegeBit + 1) <;> rfl

/-- The flags register is `Lawful`: a flag has room for either of its values, a level above three is
refused, and any other write puts the value into its own field. -/
theorem lawful : Lawful members Rflags.image write Write.asks read where
  nodup := by decide
  fits := by
    intro field
    cases field with
    | flag flag =>
        rw [start_flag, size_flag]
        exact bit_lt flag
    | privilege => decide
  eq_of_image flags other h := by
    cases flags
    cases other
    exact congrArg Rflags.mk h
  -- A flag has room for both of its values, so only a level can be refused.
  refused := by
    intro flags w hroom
    cases w with
    | flag flag on => cases on <;> simp [Write.asks, size_flag] at hroom
    | privilege level =>
        have hlevel : 4 ≤ level := Nat.not_lt.mp hroom
        rw [write, (setPrivilege?_eq_none flags level).mpr hlevel]
        rfl
  inside := by
    intro flags w j hroom hj
    cases w with
    | flag flag on =>
        simp only [Write.asks, start_flag, size_flag] at hj ⊢
        exact getLsbD_withBit_inside flags.image on (bit_lt flag) hj
    | privilege level =>
        simp only [Write.asks, start_privilege, size_privilege, privilegeBit] at hroom hj ⊢
        have hbit : 12 + j < 64 := by omega
        rw [getLsbD_write_privilege flags hroom hbit]
        -- The level is written bit by bit.
        obtain rfl | rfl : j = 0 ∨ j = 1 := by omega
        · rfl
        · rfl
  outside := by
    intro flags w i hi hout
    cases w with
    | flag flag on =>
        simp only [Write.asks, start_flag, size_flag] at hout
        exact getLsbD_withBit_outside flags.image on hi hout
    | privilege level =>
        simp only [Write.asks, start_privilege, size_privilege] at hout
        -- A level that is refused leaves the image as it is.
        by_cases hlevel : level < 4
        · rw [getLsbD_write_privilege flags hlevel hi, if_neg (by omega), if_neg (by omega)]
        · rw [write, (setPrivilege?_eq_none flags level).mpr (Nat.not_lt.mp hlevel)]
          rfl
  read_lt := by
    intro flags field
    cases field with
    | flag flag =>
        rw [size_flag]
        exact Bool.toNat_lt _
    | privilege => exact flags.privilege_lt
  testBit_read := by
    intro flags field j hj
    cases field with
    | flag flag =>
        rw [size_flag] at hj
        rw [start_flag]
        exact testBit_toNat_getLsbD flags.image hj
    | privilege => exact flags.testBit_privilege hj

end Rflags

/-! ### The flags of a processor -/

namespace ProcessorFlags

/-- The flags of a processor as they are declared. -/
def members : List (Member Flag) := [
  .field .enabled 1,
  .field .bootstrap 1,
  .fixed 30 0]

/-- The flag that a write is for, and the value that it asks for. -/
def asks (write : Flag × Bool) : Flag × Nat :=
  (write.1, write.2.toNat)

/-- The number in the field of a flag. -/
def read (flags : ProcessorFlags) (flag : Flag) : Nat :=
  (flags.get flag).toNat

/-- The members in front of a flag take as many bits as the number of the flag says. -/
theorem start_flag (flag : Flag) : start members flag = flag.bit := by
  cases flag <;> rfl

/-- A flag of a processor has one bit. -/
theorem size_flag (flag : Flag) : size members flag = 1 := by
  cases flag <;> rfl

/-- Every flag of a processor is a bit of the 32-bit word. -/
theorem bit_lt (flag : Flag) : flag.bit < 32 := by
  cases flag <;> decide

/-- The flags of a processor are `Lawful`: each has room for either of its values, and is put into
its own bit. -/
theorem lawful : Lawful members ProcessorFlags.image
    (fun flags write => flags.set write.1 write.2) asks read where
  nodup := by decide
  fits flag := by
    rw [start_flag, size_flag]
    exact bit_lt flag
  eq_of_image flags other h := by
    cases flags
    cases other
    exact congrArg ProcessorFlags.mk h
  refused := by
    intro flags (flag, on) hroom
    rw [asks, size_flag] at hroom
    exact absurd (Bool.toNat_lt on) hroom
  inside := by
    intro flags (flag, on) j _ hj
    simp only [asks, start_flag, size_flag] at hj ⊢
    exact getLsbD_withBit_inside flags.image on (bit_lt flag) hj
  outside := by
    intro flags (flag, on) i hi hout
    simp only [asks, start_flag, size_flag] at hout
    exact getLsbD_withBit_outside flags.image on hi hout
  read_lt flags flag := by
    rw [size_flag]
    exact Bool.toNat_lt _
  testBit_read := by
    intro flags flag j hj
    rw [size_flag] at hj
    rw [start_flag]
    exact testBit_toNat_getLsbD flags.image hj

end ProcessorFlags

/-! ### Both registers -/

/-- The bits of the flags register that belong to no field are 1, 3, 5, 15, 17 and all from 22
on. -/
theorem Rflags.fieldAt?_eq_none_iff :
    ∀ i < 64, fieldAt? Rflags.members i = none ↔ i ∈ [1, 3, 5, 15, 17] ∨ 22 ≤ i := by
  decide

/-- The bits of the flags of a processor that belong to no flag are all from 2 on. -/
theorem ProcessorFlags.fieldAt?_eq_none_iff :
    ∀ i < 32, fieldAt? ProcessorFlags.members i = none ↔ 2 ≤ i := by
  decide

/-- A fresh flags register has the bits that its members declare for one. -/
theorem Rflags.getLsbD_clear :
    ∀ i < 64, Rflags.clear.image.getLsbD i = freshBit Rflags.members i := by
  decide

/-- The members of the flags register declare that bit 1 is set in a fresh one, and no other bit. -/
theorem Rflags.freshBit_members : ∀ i < 64, freshBit Rflags.members i = decide (i = 1) := by
  decide

/-- Both registers keep to their fields, from any image and through any run of writes by name: the
last value that is accepted for a field is the one that is read, and every bit that belongs to no
field stays as it was. Refused are exactly the privilege levels from four on. In a flags register
that was fresh, the bits without a field are bit 1, which is set, and zeros. -/
theorem registers_keep_to_fields :
    (KeepsToFields Rflags.members Rflags.image Rflags.writeAll Rflags.Write.asks Rflags.read ∧
      (∀ flags level, Rflags.setPrivilege? flags level = none ↔ 4 ≤ level) ∧
      (∀ i < 64, fieldAt? Rflags.members i = none ↔ i ∈ [1, 3, 5, 15, 17] ∨ 22 ≤ i) ∧
      ∀ writes, ∀ i < 64, fieldAt? Rflags.members i = none →
        (Rflags.clear.writeAll writes).image.getLsbD i = decide (i = 1)) ∧
    KeepsToFields ProcessorFlags.members ProcessorFlags.image ProcessorFlags.writeAll
      ProcessorFlags.asks ProcessorFlags.read ∧
      ∀ i < 32, fieldAt? ProcessorFlags.members i = none ↔ 2 ≤ i := by
  have hflags : KeepsToFields Rflags.members Rflags.image Rflags.writeAll Rflags.Write.asks
      Rflags.read := Rflags.lawful.keepsToFields
  refine ⟨⟨hflags, Rflags.setPrivilege?_eq_none, Rflags.fieldAt?_eq_none_iff, ?_⟩,
    ProcessorFlags.lawful.keepsToFields, ProcessorFlags.fieldAt?_eq_none_iff⟩
  intro writes i hi hnone
  rw [hflags.others Rflags.clear writes i hi hnone, Rflags.getLsbD_clear i hi,
    Rflags.freshBit_members i hi]

/-- A level that is refused leaves the one before it. -/
example : (Rflags.clear.writeAll
    [.flag .interruptEnable true, .privilege 3, .privilege 4]).image = 0x3202#64 := by
  decide

end EarlyBoot.Register
