import Mathlib.Data.Nat.Notation
import Mathlib.Algebra.GroupWithZero.Nat

/-!
# Numbers in texts

`Number(text)` for a text of decimal digits, and `String(number)` for what it reads: the double
nearest to an integer.

* `nearest` — the double that `Number` reads;
* `shortest`, `toText` — the text that `String` writes;
* `nearest_of_lt`, `toText_of_lt` — integers below 2^53 are read and written as they are.
-/

namespace Numbers

/-- A double that `Number` reads from a text of digits. -/
inductive Double where
  | finite (n : ℕ)
  | infinity
deriving DecidableEq

/-- The double nearest to an integer, the even one of two. -/
def nearest (n : ℕ) : Double :=
  if n < 2 ^ 53 then .finite n
  else
    let unit := 2 ^ (Nat.log2 n - 52)
    let below := n / unit
    let rounded :=
      if unit < 2 * (n % unit) ∨ (unit = 2 * (n % unit) ∧ below % 2 = 1) then (below + 1) * unit
      else below * unit
    if rounded < 2 ^ 1024 then .finite rounded else .infinity

/-- The integer with the fewest significant digits of those to which a double is the nearest, and of
several ones the closest. -/
def shortest (n : ℕ) : ℕ :=
  -- Up to here, every integer is a double of its own.
  if n < 2 ^ 53 then n else
  let digits := (Nat.toDigits 10 n).length
  ((List.range digits).findSome? fun k =>
    let unit := 10 ^ (digits - 1 - k)
    let low := n / unit * unit
    let high := low + unit
    if nearest low = .finite n then
      if nearest high = .finite n ∧
          (unit < 2 * (n - low) ∨ (unit = 2 * (n - low) ∧ n / unit % 2 = 1)) then some high
      else some low
    else if nearest high = .finite n then some high
    else none).getD n

/-- `String(number)`. -/
def toText : Double → List Char
  | .infinity => ['I', 'n', 'f', 'i', 'n', 'i', 't', 'y']
  | .finite n =>
    let digits := Nat.toDigits 10 (shortest n)
    if digits.length ≤ 21 then digits
    else
      match (digits.reverse.dropWhile (· == '0')).reverse with
      | [] => digits
      | [d] => d :: 'e' :: '+' :: Nat.toDigits 10 (digits.length - 1)
      | d :: d' :: more =>
        d :: '.' :: d' :: more ++ 'e' :: '+' :: Nat.toDigits 10 (digits.length - 1)

example : toText (nearest 9007199254740993) = "9007199254740992".toList := by decide +kernel

example : toText (nearest (10 ^ 21)) = "1e+21".toList := by decide +kernel

example : toText (nearest 123456789012345678901) = "123456789012345680000".toList := by
  decide +kernel

theorem nearest_of_lt {n : ℕ} (h : n < 2 ^ 53) : nearest n = .finite n := if_pos h

theorem toText_of_lt {n : ℕ} (h : n < 2 ^ 53) : toText (.finite n) = Nat.toDigits 10 n := by
  have hlength : (Nat.toDigits 10 n).length ≤ 21 :=
    (Nat.length_toDigits_le_iff (by decide) (by decide)).mpr (by omega)
  rw [toText, shortest, if_pos h, if_pos hlength]

def IsNumberCharacter (c : Char) : Prop := c.isAlphanum = true ∨ c = '.' ∨ c = '+'

theorem isNumberCharacter_of_mem_toDigits {c : Char} {n : ℕ} (h : c ∈ Nat.toDigits 10 n) :
    IsNumberCharacter c := by
  have hdigit : c.isDigit = true := Nat.isDigit_of_mem_toDigits (by decide) (by decide) h
  exact .inl (by simp [Char.isAlphanum, hdigit])

theorem isNumberCharacter_of_mem {c : Char} {x : Double} (h : c ∈ toText x) :
    IsNumberCharacter c := by
  cases x with
  | infinity =>
    have hletters : ['I', 'n', 'f', 'i', 'n', 'i', 't', 'y'].all Char.isAlphanum = true := by
      decide
    exact .inl (List.all_eq_true.mp hletters c h)
  | finite n =>
    have hpower : ∀ {m : ℕ}, c ∈ 'e' :: '+' :: Nat.toDigits 10 m → IsNumberCharacter c := by
      rintro m h
      rcases List.mem_cons.mp h with rfl | h
      · exact .inl rfl
      · rcases List.mem_cons.mp h with rfl | h
        · exact .inr (.inr rfl)
        · exact isNumberCharacter_of_mem_toDigits h
    have hdigits : c ∈ ((Nat.toDigits 10 (shortest n)).reverse.dropWhile (· == '0')).reverse →
        IsNumberCharacter c := fun h =>
      isNumberCharacter_of_mem_toDigits
        (List.mem_reverse.mp ((List.dropWhile_sublist _).subset (List.mem_reverse.mp h)))
    unfold toText at h
    dsimp only at h
    split at h
    · exact isNumberCharacter_of_mem_toDigits h
    · split at h
      next => exact isNumberCharacter_of_mem_toDigits h
      next d hd =>
        rw [hd] at hdigits
        rcases List.mem_cons.mp h with rfl | h
        · exact hdigits List.mem_cons_self
        · exact hpower h
      next d d' more hd =>
        rw [hd] at hdigits
        rcases List.mem_append.mp h with h | h
        · rcases List.mem_cons.mp h with rfl | h
          · exact hdigits List.mem_cons_self
          · rcases List.mem_cons.mp h with rfl | h
            · exact .inr (.inl rfl)
            · exact hdigits (List.mem_cons_of_mem _ h)
        · exact hpower h

end Numbers
