import Mathlib.Algebra.Group.Int.Defs
import Mathlib.Algebra.Group.Nat.Defs
import Mathlib.Data.List.Basic
import Mathlib.Data.List.TakeWhile
import Mathlib.Tactic.Common

/-! Formatted input and output: words read from a stream up to white space, integers, and binary32 numbers in
decimal. -/
namespace OrazioLogger.TextScan

/-! Words. -/

/- The blank, and the five control characters from `\t` to `\r`. -/
def isspace (c : Char) : Bool := c.toNat = 32 || (9 ≤ c.toNat && c.toNat ≤ 13)

/- `eof` is set by a read that finds no further character. -/
structure Stream where
  rest : List Char
  eof : Bool
  deriving DecidableEq, Repr

def Stream.past (s : Stream) (rest : List Char) : Stream := ⟨rest, s.eof || rest.isEmpty⟩

def skipSpace (s : Stream) : Stream := s.past (s.rest.dropWhile isspace)

/- A `%s`. -/
def word (s : Stream) : Option (List Char) × Stream :=
  if (skipSpace s).rest = [] then (none, skipSpace s)
  else (some ((skipSpace s).rest.takeWhile (!isspace ·)), (skipSpace s).past ((skipSpace s).rest.dropWhile (!isspace ·)))

/- `"%s %s\n"`: what is stored in the two buffers, and where the stream is left. -/
def scanPair (s : Stream) : Option (List Char) × Option (List Char) × Stream :=
  match word s with
  | (none, s) => (none, none, s)
  | (some first, s) =>
    match word (skipSpace s) with
    | (none, s) => (some first, none, s)
    | (some second, s) => (some first, some second, skipSpace s)

/- What a `%s` reads whole. -/
structure Word where
  text : List Char
  inhabited : text ≠ []
  solid : ∀ c ∈ text, isspace c = false

theorem Word.first (w : Word) : ∃ c rest, w.text = c :: rest ∧ isspace c = false := by
  cases shape : w.text with
  | nil => exact absurd shape w.inhabited
  | cons c rest => exact ⟨c, rest, rfl, w.solid c (shape ▸ List.mem_cons_self)⟩

/- Nothing is skipped at the end, and nothing before a word. -/
theorem skipNothing {rest : List Char} (solid : ∀ c ∈ rest.head?, isspace c = false) (eof : Bool) :
    skipSpace ⟨rest, eof⟩ = ⟨rest, eof || rest.isEmpty⟩ := by
  cases rest with
  | nil => rfl
  | cons c rest => simp [skipSpace, Stream.past, solid c rfl]

theorem skipOne {c : Char} {rest : List Char} (space : isspace c = true) (eof : Bool) :
    skipSpace ⟨c :: rest, eof⟩ = skipSpace ⟨rest, eof⟩ := by
  simp [skipSpace, Stream.past, space]

theorem Word.head (w : Word) (rest : List Char) : ∀ c ∈ (w.text ++ rest).head?, isspace c = false := by
  obtain ⟨c, others, shape, solid⟩ := w.first
  intro d first
  rw [shape, List.cons_append, List.head?_cons, Option.mem_some_iff] at first
  exact first ▸ solid

theorem wordRead (w : Word) {c : Char} (space : isspace c = true) (rest : List Char) (eof : Bool) :
    word ⟨w.text ++ c :: rest, eof⟩ = (some w.text, ⟨c :: rest, eof⟩) := by
  have whole : ∀ d ∈ w.text, (!isspace d) = true := fun d inside => by rw [w.solid d inside, Bool.not_false]
  have stays : skipSpace ⟨w.text ++ c :: rest, eof⟩ = ⟨w.text ++ c :: rest, eof⟩ := by
    rw [skipNothing (w.head _)]
    simp
  have taken : (w.text ++ c :: rest).takeWhile (!isspace ·) = w.text := by
    rw [List.takeWhile_append_of_pos whole, List.takeWhile_cons, space]
    exact List.append_nil w.text
  have left : (w.text ++ c :: rest).dropWhile (!isspace ·) = c :: rest := by
    rw [List.dropWhile_append_of_pos whole, List.dropWhile_cons, space]
    rfl
  have some_ : w.text ++ c :: rest ≠ [] := fun empty => by simp at empty
  rw [word, stays, if_neg some_, taken, left]
  simp [Stream.past]

def pairLine (first second : Word) : List Char := first.text ++ ' ' :: (second.text ++ ['\n'])

/- A line of two words is read whole, with the line end; the last such read finds the end of the stream. -/
theorem scanPairLine (first second : Word) {rest : List Char} (solid : ∀ c ∈ rest.head?, isspace c = false) :
    scanPair ⟨pairLine first second ++ rest, false⟩ = (some first.text, some second.text, ⟨rest, rest.isEmpty⟩) := by
  have shape : pairLine first second ++ rest = first.text ++ ' ' :: (second.text ++ '\n' :: rest) := by
    simp [pairLine]
  have between : skipSpace ⟨' ' :: (second.text ++ '\n' :: rest), false⟩ = ⟨second.text ++ '\n' :: rest, false⟩ := by
    rw [skipOne (by decide), skipNothing (second.head _)]
    simp
  have after : skipSpace ⟨'\n' :: rest, false⟩ = ⟨rest, rest.isEmpty⟩ := by
    rw [skipOne (by decide), skipNothing solid, Bool.false_or]
  rw [shape, scanPair, wordRead first (by decide)]
  dsimp only
  rw [between, wordRead second (by decide)]
  dsimp only
  rw [after]

/-! Integers. -/

/- `%d`, and `%u` of what is not negative. -/
def decimal (n : Int) : List Char := (if n < 0 then ['-'] else []) ++ Nat.toDigits 10 n.natAbs

def scanNat (t : List Char) : Option Nat :=
  if t.takeWhile Char.isDigit = [] then none else some (Nat.ofDigitChars 10 (t.takeWhile Char.isDigit) 0)

def signed (scan : List Char → Option Nat) (t : List Char) : Option Int :=
  match t.dropWhile isspace with
  | '-' :: rest => (scan rest).map fun n : Nat => -Int.ofNat n
  | '+' :: rest => (scan rest).map Int.ofNat
  | rest => (scan rest).map Int.ofNat

/- `%d` and `%u`, before the number is limited and narrowed. -/
def scanInt (t : List Char) : Option Int := signed scanNat t

/- The limits of a long of 64 bits; an unsigned one wraps what is negative, but has one limit for both signs. -/
def strtol (n : Int) : Int := max (-2 ^ 63) (min n (2 ^ 63 - 1))

def strtoul (n : Int) : Int := if n.natAbs < 2 ^ 64 then n else 2 ^ 64 - 1

def hexDigit (c : Char) : Option Nat :=
  if c.isDigit then some (c.toNat - '0'.toNat)
  else if 'a' ≤ c ∧ c ≤ 'f' then some (c.toNat - 'a'.toNat + 10)
  else if 'A' ≤ c ∧ c ≤ 'F' then some (c.toNat - 'A'.toNat + 10)
  else none

def scanHexDigits (t : List Char) : Option Nat :=
  let digits := (t.map hexDigit).takeWhile Option.isSome
  if digits = [] then none else some (digits.foldl (fun n d => 16 * n + d.getD 0) 0)

/- `%x`. -/
def scanHex (t : List Char) : Option Int :=
  signed (fun t =>
    match t with
    | '0' :: 'x' :: rest => scanHexDigits rest
    | '0' :: 'X' :: rest => scanHexDigits rest
    | rest => scanHexDigits rest) t

theorem digitCharSolid (n : Nat) : isspace n.digitChar = false := by
  have digits : ∀ k < 16, isspace (Nat.digitChar k) = false := by decide
  rcases Nat.lt_or_ge n 16 with below | above
  · exact digits n below
  · rw [Nat.digitChar_eq_star.mpr above]
    rfl

theorem toDigitsSolid {b n : Nat} (base : 1 < b) {c : Char} (inside : c ∈ Nat.toDigits b n) : isspace c = false := by
  induction n using Nat.strong_induction_on with
  | _ n ih =>
    rw [Nat.toDigits_eq_if base] at inside
    split_ifs at inside with last
    · rw [List.mem_singleton.mp inside]
      exact digitCharSolid n
    · rcases List.mem_append.mp inside with before | here
      · exact ih (n / b) (Nat.div_lt_self (by omega) base) before
      · rw [List.mem_singleton.mp here]
        exact digitCharSolid (n % b)

theorem leftpadSolid {text : List Char} (solid : ∀ c ∈ text, isspace c = false) (n : Nat) {c : Char}
    (inside : c ∈ text.leftpad n '0') : isspace c = false := by
  rcases List.mem_append.mp inside with zero | own
  · rw [(List.mem_replicate.mp zero).2]
    rfl
  · exact solid c own

theorem toDigitsDigit {n : Nat} {c : Char} (inside : c ∈ Nat.toDigits 10 n) : c.isDigit = true :=
  Nat.isDigit_of_mem_toDigits (by decide) (by decide) inside

theorem scanDigits (n : Nat) : scanNat (Nat.toDigits 10 n) = some n := by
  have whole : (Nat.toDigits 10 n).takeWhile Char.isDigit = Nat.toDigits 10 n :=
    List.takeWhile_eq_self_iff.mpr fun c inside => toDigitsDigit inside
  rw [scanNat, whole, if_neg Nat.toDigits_ne_nil, Nat.ofDigitChars_ten_toDigits]

theorem scanDecimal (n : Int) : scanInt (decimal n) = some n := by
  rw [scanInt, signed, decimal]
  split_ifs with negative
  · have sign : (['-'] ++ Nat.toDigits 10 n.natAbs).dropWhile isspace = '-' :: Nat.toDigits 10 n.natAbs := rfl
    have scanned : (scanNat (Nat.toDigits 10 n.natAbs)).map (fun n : Nat => -Int.ofNat n) = some n := by
      rw [scanDigits, Option.map_some, Option.some.injEq, Int.ofNat_eq_natCast]
      omega
    rw [sign]
    exact scanned
  · obtain ⟨c, rest, shape⟩ := List.exists_cons_of_ne_nil Nat.toDigits_ne_nil
    have inside : c ∈ Nat.toDigits 10 n.natAbs := shape ▸ List.mem_cons_self
    have digit : c.isDigit = true := toDigitsDigit inside
    have first : isspace c = false := toDigitsSolid (by decide) inside
    have stays : ([] ++ Nat.toDigits 10 n.natAbs).dropWhile isspace = Nat.toDigits 10 n.natAbs := by
      rw [List.nil_append, shape, List.dropWhile_cons, first]
      rfl
    have scanned : (scanNat (Nat.toDigits 10 n.natAbs)).map Int.ofNat = some n := by
      rw [scanDigits, Option.map_some, Option.some.injEq, Int.ofNat_eq_natCast]
      omega
    rw [stays]
    split
    · next shape' =>
      rw [shape'] at shape
      obtain rfl := (List.cons.inj shape).1
      exact absurd digit (by decide)
    · next shape' =>
      rw [shape'] at shape
      obtain rfl := (List.cons.inj shape).1
      exact absurd digit (by decide)
    · exact scanned

theorem decimalSolid {n : Int} {c : Char} (inside : c ∈ decimal n) : isspace c = false := by
  rcases List.mem_append.mp inside with sign | digit
  · split_ifs at sign
    · rw [List.mem_singleton.mp sign]
      rfl
    · exact absurd sign List.not_mem_nil
  · exact toDigitsSolid (by decide) digit

theorem strtolFits {n : Int} (low : -2 ^ 63 ≤ n) (high : n < 2 ^ 63) : strtol n = n := by
  unfold strtol
  omega

theorem strtoulFits {n : Int} (low : -2 ^ 64 < n) (high : n < 2 ^ 64) : strtoul n = n := if_pos (by omega)

def decimalWord (n : Int) : Word where
  text := decimal n
  inhabited := fun empty => Nat.toDigits_ne_nil (List.append_eq_nil_iff.mp empty).2
  solid := fun _ => decimalSolid

theorem toDigitsLength {n k : Nat} (below : n < 10 ^ (k + 1)) : (Nat.toDigits 10 n).length ≤ k + 1 :=
  (Nat.length_toDigits_le_iff (by decide) (Nat.succ_pos k)).mpr below

theorem decimalLength {n : Int} (below : n.natAbs < 10 ^ 10) : (decimal n).length ≤ 11 := by
  have digits := toDigitsLength (n := n.natAbs) (k := 9) below
  rw [decimal, List.length_append]
  split_ifs
  · exact Nat.add_le_add (Nat.le_refl 1) digits
  · exact Nat.le_trans (Nat.add_le_add (Nat.zero_le 1) digits) (by decide)

/-! Binary32 numbers, by their bits. -/

/- `n / d` rounded to the nearest, ties to the even one. -/
def roundEven (n d : Nat) : Nat :=
  if 2 * (n % d) < d ∨ 2 * (n % d) = d ∧ n / d % 2 = 0 then n / d else n / d + 1

def biasedExponent (b : UInt32) : Nat := b.toNat / 2 ^ 23 % 256

def mantissa (b : UInt32) : Nat := b.toNat % 2 ^ 23

/- The magnitude is that of a multiple of `2 ^ -149`. -/
def magnitude (b : UInt32) : Nat :=
  (mantissa b + if biasedExponent b = 0 then 0 else 2 ^ 23) * 2 ^ (biasedExponent b - 1)

def fixedDigits (n : Nat) : List Char :=
  Nat.toDigits 10 (n / 10 ^ 5) ++ '.' :: (Nat.toDigits 10 (n % 10 ^ 5)).leftpad 5 '0'

/- `%.5f`. -/
def fixed (b : UInt32) : List Char :=
  (if 2 ^ 31 ≤ b.toNat then ['-'] else []) ++
    if biasedExponent b = 255 then if mantissa b = 0 then ['i', 'n', 'f'] else ['n', 'a', 'n']
    else fixedDigits (roundEven (magnitude b * 10 ^ 5) (2 ^ 149))

theorem fixedDigitsSolid {n : Nat} {c : Char} (inside : c ∈ fixedDigits n) : isspace c = false := by
  rcases List.mem_append.mp inside with whole | inside
  · exact toDigitsSolid (by decide) whole
  rcases List.mem_cons.mp inside with point | inside
  · rw [point]
    rfl
  exact leftpadSolid (fun _ => toDigitsSolid (by decide)) 5 inside

theorem solidAll {text : List Char} (all : (text.all fun d => !isspace d) = true) {c : Char} (inside : c ∈ text) :
    isspace c = false := by
  simpa using List.all_eq_true.mp all c inside

theorem fixedSolid {b : UInt32} {c : Char} (inside : c ∈ fixed b) : isspace c = false := by
  rcases List.mem_append.mp inside with sign | inside
  · split_ifs at sign
    · exact solidAll (by decide) sign
    · exact absurd sign List.not_mem_nil
  split_ifs at inside
  · exact solidAll (by decide) inside
  · exact solidAll (by decide) inside
  · exact fixedDigitsSolid inside

theorem fixedSome (b : UInt32) : fixed b ≠ [] := fun empty => by
  have none_ := (List.append_eq_nil_iff.mp empty).2
  split_ifs at none_
  exact Nat.toDigits_ne_nil (List.append_eq_nil_iff.mp none_).1

def fixedWord (b : UInt32) : Word where
  text := fixed b
  inhabited := fixedSome b
  solid := fun _ => fixedSolid

theorem roundEvenLe {n d bound : Nat} (pos : 0 < d) (below : n < bound * d) : roundEven n d ≤ bound := by
  have floor : n / d < bound := (Nat.div_lt_iff_lt_mul pos).mpr below
  rw [roundEven]
  split_ifs <;> omega

/- No finite number reaches `2 ^ 128`. -/
theorem magnitudeLt {b : UInt32} (finite : biasedExponent b ≠ 255) : magnitude b < 2 ^ 128 * 2 ^ 149 := by
  have exponent : biasedExponent b - 1 ≤ 253 := by
    have := Nat.mod_lt (b.toNat / 2 ^ 23) (by decide : 256 > 0)
    rw [biasedExponent] at finite ⊢
    omega
  have significand : (mantissa b + if biasedExponent b = 0 then 0 else 2 ^ 23) < 2 ^ 24 := by
    have := Nat.mod_lt b.toNat (by decide : 2 ^ 23 > 0)
    rw [mantissa]
    split_ifs <;> omega
  calc magnitude b < 2 ^ 24 * 2 ^ (biasedExponent b - 1) :=
        (Nat.mul_lt_mul_right (Nat.two_pow_pos _)).mpr significand
    _ ≤ 2 ^ 24 * 2 ^ 253 := Nat.mul_le_mul_left _ (Nat.pow_le_pow_right (by decide) exponent)
    _ = 2 ^ 24 * (2 ^ 104 * 2 ^ 149) := congrArg (2 ^ 24 * ·) (Nat.pow_add 2 104 149)
    _ = 2 ^ 128 * 2 ^ 149 := (Nat.mul_assoc (2 ^ 24) (2 ^ 104) (2 ^ 149)).symm

theorem fixedDigitsLength {n : Nat} (below : n ≤ 2 ^ 128 * 10 ^ 5) : (fixedDigits n).length ≤ 45 := by
  have whole : (Nat.toDigits 10 (n / 10 ^ 5)).length ≤ 39 := toDigitsLength (by omega)
  have part : (Nat.toDigits 10 (n % 10 ^ 5)).length ≤ 5 := toDigitsLength (Nat.mod_lt _ (by decide))
  rw [fixedDigits, List.length_append, List.length_cons, List.length_leftpad, Nat.max_eq_left part]
  omega

theorem fixedLength (b : UInt32) : (fixed b).length ≤ 46 := by
  have sign : (if 2 ^ 31 ≤ b.toNat then ['-'] else []).length ≤ 1 := by split_ifs <;> decide
  rw [fixed, List.length_append]
  refine Nat.add_le_add sign ?_ |>.trans (by decide : 1 + 45 ≤ 46)
  split_ifs with special
  · decide
  · decide
  · refine fixedDigitsLength (roundEvenLe (Nat.two_pow_pos 149) ?_)
    calc magnitude b * 10 ^ 5 < 2 ^ 128 * 2 ^ 149 * 10 ^ 5 :=
          (Nat.mul_lt_mul_right (by decide)).mpr (magnitudeLt special)
      _ = 2 ^ 128 * 10 ^ 5 * 2 ^ 149 := Nat.mul_right_comm _ _ _

end OrazioLogger.TextScan
