/-
  The C types and library calls the server is written in.

  An `int` is an integer; `wrap32` reduces it where a client can make it
  overflow.  A string is the list of its bytes.  Undefined behaviour is a
  `Fault`: the code can index a table, a buffer or an allocation out of its
  bounds, and nothing is known of the state after that.
-/
import Mathlib.Data.Int.ModEq
import Mathlib.Logic.Function.Basic

namespace CpcLink

abbrev BYTE := UInt8

/-- An `int` or `long` of 32 bits, as a sum that overflows leaves it. -/
def wrap32 (x : ℤ) : ℤ := Int.bmod x (2 ^ 32)

/-- The low byte of an `int`, as a cast to `BYTE` takes it. -/
def byte (x : ℤ) : BYTE := UInt8.ofNat (x % 256).toNat

/-- The bytes of a string literal. -/
def bytes (s : String) : List BYTE := s.toList.map fun c => UInt8.ofNat c.toNat

/-- A literal is `String.ofList` of its characters, so this counts them without
    decoding the string. -/
theorem length_bytes (l : List Char) : (bytes (String.ofList l)).length = l.length := by
  simp [bytes]

/-- The bytes of a buffer up to its first NUL, as `strlen`, `strcmp` and `%s` see it. -/
def cString (buffer : List BYTE) : List BYTE := buffer.takeWhile (· ≠ 0)

/-- The ways the server runs into undefined behaviour. -/
inductive Fault where
  /-- an index into `command_defs` that is not below `MaxCommands` -/
  | commandTable
  /-- a write past the end of a local buffer, or a read of one with no NUL in it -/
  | buffer
  /-- an access outside the data of an allocation -/
  | allocation
  deriving DecidableEq, Repr

/-- `%0wd` of a number. -/
def padded (w n : ℕ) : List BYTE :=
  let digits := (Nat.toDigits 10 n).map fun c => UInt8.ofNat c.toNat
  List.replicate (w - digits.length) 48 ++ digits

theorem bind_eq_ok {α β : Type} {x : Except Fault α} {f : α → Except Fault β} {b : β} :
    (x >>= f) = .ok b ↔ ∃ a, x = .ok a ∧ f a = .ok b := by
  cases x with
  | error e => simp [bind, Except.bind]
  | ok a => simp [bind, Except.bind]

/-! ## Integers of 32 bits -/

theorem wrap32_range (x : ℤ) : -2 ^ 31 ≤ wrap32 x ∧ wrap32 x < 2 ^ 31 := by
  have h1 := Int.le_bmod (x := x) (m := 2 ^ 32) (by decide)
  have h2 := Int.bmod_lt (x := x) (m := 2 ^ 32) (by decide)
  unfold wrap32; omega

theorem wrap32_id {x : ℤ} (h1 : -2 ^ 31 ≤ x) (h2 : x < 2 ^ 31) : wrap32 x = x := by
  unfold wrap32 Int.bmod
  dsimp only
  split <;> omega

theorem wrap32_add {x : ℤ} (h1 : -2 ^ 32 - 2 ^ 31 ≤ x) (h2 : x < -2 ^ 31) :
    wrap32 x = x + 2 ^ 32 := by
  unfold wrap32 Int.bmod
  dsimp only
  split <;> omega

theorem wrap32_sub {x : ℤ} (h1 : 2 ^ 31 ≤ x) (h2 : x < 2 ^ 32 + 2 ^ 31) :
    wrap32 x = x - 2 ^ 32 := by
  unfold wrap32 Int.bmod
  dsimp only
  split <;> omega

theorem wrap32_nonneg {d : ℤ} (h1 : -2 ^ 32 ≤ d) (h2 : d < 2 ^ 32) :
    0 ≤ wrap32 d ↔ (0 ≤ d ∧ d < 2 ^ 31) ∨ d < -2 ^ 31 := by
  unfold wrap32 Int.bmod
  dsimp only
  split <;> omega

theorem wrap32_sub_left (x n : ℤ) : wrap32 (wrap32 x - n) = wrap32 (x - n) := by
  unfold wrap32; exact Int.bmod_sub_bmod

/-! ## Memory of an allocation -/

/-- `n` bytes of an allocation from index `off` on; a NULL pointer has none. -/
def memRead (data : Option (List BYTE)) (off n : ℤ) : Except Fault (List BYTE) :=
  match data with
  | some d =>
    if 0 ≤ off ∧ 0 ≤ n ∧ off + n ≤ d.length then .ok ((d.drop off.toNat).take n.toNat)
    else .error .allocation
  | none => .error .allocation

/-- Write `src` into an allocation from index `off` on. -/
def memWrite (data : Option (List BYTE)) (off : ℤ) (src : List BYTE) :
    Except Fault (Option (List BYTE)) :=
  match data with
  | some d =>
    if 0 ≤ off ∧ off + src.length ≤ d.length then
      .ok (some (d.take off.toNat ++ src ++ d.drop (off.toNat + src.length)))
    else .error .allocation
  | none => .error .allocation

end CpcLink
