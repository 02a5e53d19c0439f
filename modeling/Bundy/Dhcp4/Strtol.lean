import Mathlib.Data.Nat.Digits
import Mathlib.Tactic.IntervalCases

namespace Bundy.Dhcp4

def isspace (c : Char) : Bool :=
  c == ' ' || c == '\t' || c == '\n' || c == '\x0b' || c == '\x0c' || c == '\r'

def digitStep (acc : Nat) (c : Char) : Nat := acc * 10 + (c.toNat - '0'.toNat)

def digitsValue (cs : List Char) : Nat := (cs.takeWhile Char.isDigit).foldl digitStep 0

def longMin : Int := -2 ^ 63

def longMax : Int := 2 ^ 63 - 1

/-- `strtol(s, NULL, 10)` as the C standard defines it, with a 64-bit `long`: white space at the
front is skipped, a sign is taken, then the decimal digits that follow; with no digit the value
is 0, and a value out of the range of `long` gives `LONG_MIN` or `LONG_MAX`. -/
def strtol (s : String) : Int :=
  match s.toList.dropWhile isspace with
  | '-' :: digits => max longMin (-(digitsValue digits : Int))
  | '+' :: digits => min longMax (digitsValue digits)
  | digits => min longMax (digitsValue digits)

/-- A `long` stored in an `int`, which keeps it modulo 2^32 as GCC converts. -/
def toInt (v : Int) : Int := v.bmod (2 ^ 32)

theorem digitChar_isDigit (d : Nat) (h : d < 10) :
    (Nat.digitChar d).isDigit = true ∧ (Nat.digitChar d).toNat - '0'.toNat = d := by
  interval_cases d <;> exact ⟨rfl, rfl⟩

theorem isspace_of_isDigit {c : Char} (h : c.isDigit = true) : isspace c = false := by
  simp only [Char.isDigit, Bool.and_eq_true, decide_eq_true_eq] at h
  simp only [isspace, Bool.or_eq_false_iff, beq_eq_false_iff_ne]
  refine ⟨⟨⟨⟨⟨?_, ?_⟩, ?_⟩, ?_⟩, ?_⟩, ?_⟩ <;> rintro rfl <;> simp at h

theorem toDigitsCore_digits (f n : Nat) (ds : List Char) (h : n < f) :
    ∃ X, Nat.toDigitsCore 10 f n ds = X ++ ds ∧ (∀ c ∈ X, c.isDigit = true) ∧
      X.foldl digitStep 0 = n := by
  induction f generalizing n ds with
  | zero => omega
  | succ f ih =>
    obtain ⟨hd, hv⟩ := digitChar_isDigit (n % 10) (Nat.mod_lt _ (by decide))
    simp only [Nat.toDigitsCore]
    split
    · next h0 =>
      refine ⟨[Nat.digitChar (n % 10)], rfl, by simpa using hd, ?_⟩
      simp only [List.foldl, digitStep, hv]
      omega
    · next h0 =>
      obtain ⟨X, hX, hdig, hval⟩ := ih (n / 10) (Nat.digitChar (n % 10) :: ds) (by omega)
      refine ⟨X ++ [Nat.digitChar (n % 10)], by simp [hX], ?_, ?_⟩
      · simpa [or_imp, forall_and] using ⟨hdig, hd⟩
      · rw [List.foldl_append, hval]
        simp only [List.foldl, digitStep, hv]
        omega

theorem toDigits_digits (n : Nat) :
    (∀ c ∈ Nat.toDigits 10 n, c.isDigit = true) ∧ digitsValue (Nat.toDigits 10 n) = n := by
  obtain ⟨X, hX, hdig, hval⟩ := toDigitsCore_digits (n + 1) n [] (by omega)
  rw [Nat.toDigits, hX, List.append_nil]
  refine ⟨hdig, ?_⟩
  rw [digitsValue, List.takeWhile_eq_self_iff.mpr hdig, hval]

theorem dropWhile_isspace_of_isDigit {cs : List Char} (h : ∀ c ∈ cs, c.isDigit = true) :
    cs.dropWhile isspace = cs := by
  cases cs with
  | nil => rfl
  | cons c cs => simp [List.dropWhile_cons, isspace_of_isDigit (h c (List.mem_cons_self _ _))]

theorem strtol_toString (n : Int) (hlo : longMin ≤ n) (hhi : n ≤ longMax) :
    strtol (toString n) = n := by
  cases n with
  | ofNat m =>
    obtain ⟨hdig, hval⟩ := toDigits_digits m
    have hs : (toString (Int.ofNat m)).toList = Nat.toDigits 10 m := rfl
    unfold strtol
    rw [hs, dropWhile_isspace_of_isDigit hdig]
    split
    · next digits h => simpa using hdig '-' (h ▸ List.mem_cons_self _ _)
    · next digits h => simpa using hdig '+' (h ▸ List.mem_cons_self _ _)
    · rw [hval]
      simp only [Int.ofNat_eq_coe, longMax] at hhi ⊢
      omega
  | negSucc m =>
    have hs : (toString (Int.negSucc m)).toList = '-' :: Nat.toDigits 10 (m + 1) := rfl
    unfold strtol
    rw [hs, List.dropWhile_cons_of_neg (by decide)]
    split
    · next digits h =>
      rw [← (List.cons.inj h).2, (toDigits_digits (m + 1)).2]
      simp only [Int.negSucc_eq, longMin] at hlo ⊢
      omega
    · next digits h => exact absurd (List.cons.inj h).1 (by decide)
    · next digits h _ => exact absurd rfl (h _)

theorem toInt_of_range {v : Int} (hlo : -2 ^ 31 ≤ v) (hhi : v < 2 ^ 31) : toInt v = v := by
  rw [toInt, Int.bmod_def]
  split <;> omega

end Bundy.Dhcp4
