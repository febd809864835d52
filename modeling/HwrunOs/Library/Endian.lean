import Mathlib.Data.List.Basic
import Mathlib.Algebra.Order.Ring.Nat

/-!
# Numbers in bytes

A number of a fixed width is written with its least or its most significant byte first. Reading it
in the order it was written in gives it back; reading it in the other order does so exactly when its
bytes are the same backwards.
-/

namespace HwrunOs.Endian

/-- The number of bytes whose first one is the least significant. -/
def leValue : List UInt8 → Nat
  | [] => 0
  | byte :: rest => byte.toNat + 256 * leValue rest

/-- The bytes of a number, the least significant one first. -/
def leBytes : Nat → Nat → List UInt8
  | 0, _ => []
  | width + 1, number => UInt8.ofNat number :: leBytes width (number / 256)

/-- The number of bytes in a byte order: `be` for the most significant byte first. -/
def valueOf (be : Bool) (bytes : List UInt8) : Nat := leValue (if be then bytes.reverse else bytes)

/-- The bytes of a number in a byte order. -/
def bytesOf (be : Bool) (width number : Nat) : List UInt8 :=
  if be then (leBytes width number).reverse else leBytes width number

@[simp] theorem leBytes_length (width number : Nat) : (leBytes width number).length = width := by
  induction width generalizing number with
  | zero => rfl
  | succ width ih => rw [leBytes, List.length_cons, ih]

@[simp] theorem bytesOf_length (be : Bool) (width number : Nat) :
    (bytesOf be width number).length = width := by
  cases be <;> simp [bytesOf]

/-- The bytes of a number denote the number. -/
theorem leValue_leBytes {width number : Nat} (bound : number < 256 ^ width) :
    leValue (leBytes width number) = number := by
  induction width generalizing number with
  | zero =>
    rw [Nat.pow_zero] at bound
    show 0 = number
    omega
  | succ width ih =>
    have fewer : number / 256 < 256 ^ width := by
      rw [Nat.div_lt_iff_lt_mul (by decide)]
      rwa [Nat.pow_succ] at bound
    have low : (UInt8.ofNat number).toNat = number % 256 := UInt8.toNat_ofNat'
    rw [leBytes, leValue, ih fewer, low]
    omega

/-- Bytes are those of the number they denote. -/
theorem leBytes_leValue (bytes : List UInt8) : leBytes bytes.length (leValue bytes) = bytes := by
  induction bytes with
  | nil => rfl
  | cons byte rest ih =>
    have small : byte.toNat < 256 := byte.toNat_lt
    have first : UInt8.ofNat (byte.toNat + 256 * leValue rest) = byte := by
      apply UInt8.toNat_inj.mp
      rw [UInt8.toNat_ofNat']
      omega
    have rest_ : (byte.toNat + 256 * leValue rest) / 256 = leValue rest := by omega
    rw [List.length_cons, leValue, leBytes, first, rest_, ih]

/-- The number of some bytes is one of their width. -/
theorem leValue_lt (bytes : List UInt8) : leValue bytes < 256 ^ bytes.length := by
  induction bytes with
  | nil => exact Nat.one_pos
  | cons byte rest ih =>
    have small : byte.toNat < 256 := byte.toNat_lt
    rw [leValue, List.length_cons, Nat.pow_succ]
    omega

/-- A number is read in the order it was written in. -/
theorem valueOf_bytesOf (be : Bool) {width number : Nat} (bound : number < 256 ^ width) :
    valueOf be (bytesOf be width number) = number := by
  cases be with
  | false => exact leValue_leBytes bound
  | true =>
    show leValue (leBytes width number).reverse.reverse = number
    rw [List.reverse_reverse, leValue_leBytes bound]

/-- Different bytes of one width denote different numbers. -/
theorem valueOf_injective {be : Bool} {first second : List UInt8}
    (lengths : first.length = second.length) (same : valueOf be first = valueOf be second) :
    first = second := by
  cases be with
  | false =>
    rw [← leBytes_leValue first, ← leBytes_leValue second, lengths]
    exact congrArg (leBytes second.length) same
  | true =>
    have back : first.reverse = second.reverse := by
      rw [← leBytes_leValue first.reverse, ← leBytes_leValue second.reverse, List.length_reverse,
        List.length_reverse, lengths]
      exact congrArg (leBytes second.length) same
    exact List.reverse_injective back

/-- The bytes of a number are the same backwards. -/
def Palindrome (width number : Nat) : Prop :=
  (leBytes width number).reverse = leBytes width number

instance (width number : Nat) : Decidable (Palindrome width number) :=
  inferInstanceAs (Decidable (_ = _))

/-- A number is read in an order exactly when it was written in it, or is the same backwards. -/
theorem valueOf_bytesOf_iff {read written : Bool} {width number : Nat}
    (bound : number < 256 ^ width) :
    valueOf read (bytesOf written width number) = number ↔
      read = written ∨ Palindrome width number := by
  by_cases same : read = written
  · subst same
    exact ⟨fun _ => .inl rfl, fun _ => valueOf_bytesOf read bound⟩
  · have whole := valueOf_bytesOf read bound
    have other : bytesOf written width number = bytesOf read width number ↔
        Palindrome width number := by
      cases read <;> cases written
      · exact absurd rfl same
      · rfl
      · exact eq_comm
      · exact absurd rfl same
    constructor
    · intro equal
      refine .inr (other.mp ?_)
      exact valueOf_injective (by simp) (equal.trans whole.symm)
    · rintro (again | palindrome)
      · exact absurd again same
      · rw [other.mpr palindrome, whole]

/-- Bytes one behind the other. -/
theorem leValue_append (front back : List UInt8) :
    leValue (front ++ back) = leValue front + 256 ^ front.length * leValue back := by
  induction front with
  | nil => simp [leValue]
  | cons byte rest ih =>
    rw [List.cons_append, leValue, leValue, ih, List.length_cons, Nat.pow_succ, Nat.mul_add,
      Nat.add_assoc, Nat.mul_comm (256 ^ rest.length) 256, Nat.mul_assoc]

/-! ## Layouts -/

/-- Numbers with their widths, one after the other. -/
def layout (be : Bool) : List (Nat × Nat) → List UInt8
  | [] => []
  | (width, number) :: rest => bytesOf be width number ++ layout be rest

/-- The widths together. -/
def extent : List (Nat × Nat) → Nat
  | [] => 0
  | (width, _) :: rest => width + extent rest

@[simp] theorem layout_length (be : Bool) (numbers : List (Nat × Nat)) :
    (layout be numbers).length = extent numbers := by
  induction numbers with
  | nil => rfl
  | cons item rest ih => rw [layout, extent, List.length_append, bytesOf_length, ih]

/-- A number stands behind the numbers before it. -/
theorem layout_number (be : Bool) (before : List (Nat × Nat)) (width number : Nat)
    (after : List (Nat × Nat)) :
    ((layout be (before ++ (width, number) :: after)).drop (extent before)).take width =
      bytesOf be width number := by
  induction before with
  | nil =>
    show (bytesOf be width number ++ layout be after).take width = _
    rw [List.take_left' (bytesOf_length be width number)]
  | cons item rest ih =>
    show ((bytesOf be item.1 item.2 ++ layout be (rest ++ (width, number) :: after)).drop
      (item.1 + extent rest)).take width = _
    rw [← List.drop_drop, List.drop_left' (bytesOf_length be item.1 item.2), ih]

/-- Bytes hold a layout at an offset. -/
def Holds (bytes : List UInt8) (be : Bool) (offset : Nat) (numbers : List (Nat × Nat)) : Prop :=
  (bytes.drop offset).take (extent numbers) = layout be numbers

instance (bytes : List UInt8) (be : Bool) (offset : Nat) (numbers : List (Nat × Nat)) :
    Decidable (Holds bytes be offset numbers) := inferInstanceAs (Decidable (_ = _))

/-- Bytes that hold a layout reach to its end. -/
theorem Holds.length {bytes : List UInt8} {be : Bool} {offset : Nat} {numbers : List (Nat × Nat)}
    (holds : Holds bytes be offset numbers) (filled : extent numbers ≠ 0) :
    offset + extent numbers ≤ bytes.length := by
  have lengths := congrArg List.length holds
  rw [List.length_take, List.length_drop, layout_length] at lengths
  omega

/-- A number of the layout. -/
theorem Holds.number {bytes : List UInt8} {be : Bool} {offset : Nat}
    {before after : List (Nat × Nat)} {width number : Nat}
    (holds : Holds bytes be offset (before ++ (width, number) :: after)) :
    (bytes.drop (offset + extent before)).take width = bytesOf be width number := by
  have reach : extent before + width ≤ extent (before ++ (width, number) :: after) := by
    clear holds
    induction before with
    | nil =>
      show 0 + width ≤ width + extent after
      omega
    | cons item rest ih =>
      show item.1 + extent rest + width ≤ item.1 + extent (rest ++ (width, number) :: after)
      omega
  have part := layout_number be before width number after
  rw [← holds, List.drop_take, List.drop_drop, List.take_take] at part
  rwa [Nat.min_eq_left (by omega)] at part

end HwrunOs.Endian
