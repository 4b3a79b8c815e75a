import OrazioLogger.VariableEntries
import Mathlib.Algebra.Group.Int.Defs
import Mathlib.Logic.Function.Basic

/-! What the variables of the shell point at, and the formats in which ventry.c writes and reads it. -/
namespace OrazioLogger.OrazioShell
open Logger (Text)
open TextScan

/- What an entry's pointer points at: a float by its bits, and of a packet the members no other entry points at. -/
def VariableType.Value : VariableType → Type
  | .packet => Text
  | .uint8 => UInt8
  | .int8 => Int8
  | .uint16 => UInt16
  | .int16 => Int16
  | .uint32 => UInt32
  | .int32 => Int32
  | .int32Hex => UInt32
  | .float => UInt32
  | .string => Text

def Store : Type := (i : Fin numVariables) → (entry i).type.Value

/- An entry of a packet points at the members other entries point at, too: those its name begins. -/
def reach (i : Fin numVariables) : List (Fin numVariables) :=
  if (entry i).type = .packet then (List.finRange numVariables).filter fun j => (entry i).name.isPrefixOf (entry j).name
  else [i]

def pointed (s : Store) (i : Fin numVariables) : List (Σ j, (entry j).type.Value) := (reach i).map fun j => ⟨j, s j⟩

/- `%f` of `sscanf`, Orazio_printPacket, and the type in the header of a packet. -/
structure Outside where
  scanFloat : Text → Option UInt32
  printPacket : Store → Fin numVariables → Text
  packetType : Store → Fin numVariables → UInt8

def format : (t : VariableType) → t.Value → Text
  | .packet, _ => []
  | .uint8, v => decimal (UInt8.toNat v)
  | .int8, v => decimal (Int8.toInt v)
  | .uint16, v => decimal (UInt16.toNat v)
  | .int16, v => decimal (Int16.toInt v)
  | .uint32, v => decimal (UInt32.toNat v)
  | .int32, v => decimal (Int32.toInt v)
  | .int32Hex, v => (Nat.toDigits 16 (UInt32.toNat v)).leftpad 8 '0'
  | .float, v => fixed v
  | .string, v => v

/- A number that does not fit a long is limited to it, and what does not fit the variable is narrowed. -/
def scan (scanFloat : Text → Option UInt32) : (t : VariableType) → Text → Option t.Value
  | .packet, _ => none
  | .uint8, s => (scanInt s).map fun n => UInt8.ofInt (strtoul n)
  | .int8, s => (scanInt s).map fun n => Int8.ofInt (strtol n)
  | .uint16, s => (scanInt s).map fun n => UInt16.ofInt (strtoul n)
  | .int16, s => (scanInt s).map fun n => Int16.ofInt (strtol n)
  | .uint32, s => (scanInt s).map fun n => UInt32.ofInt (strtoul n)
  | .int32, s => (scanInt s).map fun n => Int32.ofInt (strtol n)
  | .int32Hex, s => (scanHex s).map fun n => UInt32.ofInt (strtoul n)
  | .float, s => scanFloat s
  | .string, s => (word ⟨s, false⟩).1

/- What `sscanf` returns when it stores nothing. -/
def unscanned (t : VariableType) (s : Text) : Int := if t ≠ .packet ∧ s.all isspace = true then -1 else 0

def VEntryRead (o : Outside) (vars : Store) (i : Fin numVariables) (s : Text) : Int × Store :=
  match (entry i).access with
  | .read => (0, vars)
  | .readWrite =>
    match scan o.scanFloat (entry i).type s with
    | some v => (1, Function.update vars i v)
    | none => (unscanned (entry i).type s, vars)

/- Every entry may be read. -/
def VEntryWrite (o : Outside) (vars : Store) (i : Fin numVariables) : Text :=
  if (entry i).type = .packet then o.printPacket vars i else format (entry i).type (vars i)

/- What the two print themselves. -/
def VEntryReadPrinted (i : Fin numVariables) : Text :=
  match (entry i).access with
  | .read => "access error Owned: 1 Required: 1\n".toList
  | .readWrite => []

def VEntryWritePrinted (o : Outside) (vars : Store) (i : Fin numVariables) : Text :=
  if (entry i).type = .packet then "printing packet ".toList ++ decimal (o.packetType vars i).toNat ++ ['\n'] else []

/-! What is written is one word. -/

def hexWord (n : Nat) : Word where
  text := (Nat.toDigits 16 n).leftpad 8 '0'
  inhabited := fun empty => Nat.toDigits_ne_nil (List.append_eq_nil_iff.mp empty).2
  solid := fun _ => leftpadSolid (fun _ => toDigitsSolid (by decide)) 8

theorem hexLength (n : UInt32) : (hexWord n.toNat).text.length ≤ 46 := by
  have digits : (Nat.toDigits 16 n.toNat).length ≤ 8 :=
    (Nat.length_toDigits_le_iff (by decide) (by decide)).mpr n.toNat_lt
  change ((Nat.toDigits 16 n.toNat).leftpad 8 '0').length ≤ 46
  rw [List.length_leftpad, Nat.max_eq_left digits]
  decide

theorem signedFits {n : Int} (low : -2 ^ 31 ≤ n) (high : n < 2 ^ 31) : (decimalWord n).text.length ≤ 46 :=
  Nat.le_trans (decimalLength (by omega)) (by decide)

theorem unsignedFits {n : Nat} (high : n < 2 ^ 32) : (decimalWord n).text.length ≤ 46 :=
  Nat.le_trans (decimalLength (by omega)) (by decide)

theorem formatWord {t : VariableType} (scalar : t ≠ .packet ∧ t ≠ .string) (v : t.Value) :
    ∃ w : Word, w.text = format t v ∧ w.text.length ≤ 46 := by
  cases t with
  | packet => exact absurd rfl scalar.1
  | string => exact absurd rfl scalar.2
  | uint8 => exact ⟨decimalWord _, rfl, unsignedFits (Nat.lt_trans (UInt8.toNat_lt v) (by decide))⟩
  | uint16 => exact ⟨decimalWord _, rfl, unsignedFits (Nat.lt_trans (UInt16.toNat_lt v) (by decide))⟩
  | uint32 => exact ⟨decimalWord _, rfl, unsignedFits (UInt32.toNat_lt v)⟩
  | int8 =>
    have low := Int8.le_toInt v
    have high := Int8.toInt_lt v
    exact ⟨decimalWord _, rfl, signedFits (by omega) (by omega)⟩
  | int16 =>
    have low := Int16.le_toInt v
    have high := Int16.toInt_lt v
    exact ⟨decimalWord _, rfl, signedFits (by omega) (by omega)⟩
  | int32 => exact ⟨decimalWord _, rfl, signedFits (Int32.le_toInt v) (Int32.toInt_lt v)⟩
  | int32Hex => exact ⟨hexWord _, rfl, hexLength v⟩
  | float => exact ⟨fixedWord v, rfl, fixedLength v⟩

theorem scannedAs {α : Type} {ofInt limit : Int → α} {n : Int} {v : α} (fits : limit n = ofInt n) (back : ofInt n = v) :
    (scanInt (decimal n)).map limit = some v := by
  rw [scanDecimal, Option.map_some, fits, back]

theorem uint8Back (v : UInt8) : UInt8.ofInt v.toNat = v := by
  have below := v.toNat_lt
  rw [UInt8.ofInt, Int.emod_eq_of_lt (by omega) (by omega), Int.toNat_natCast, UInt8.ofNat_toNat]

theorem uint16Back (v : UInt16) : UInt16.ofInt v.toNat = v := by
  have below := v.toNat_lt
  rw [UInt16.ofInt, Int.emod_eq_of_lt (by omega) (by omega), Int.toNat_natCast, UInt16.ofNat_toNat]

/- What is read of an integer's text is the integer. -/
theorem scanFormat (scanFloat : Text → Option UInt32) {t : VariableType} (narrow : t ∈ [.int8, .uint8, .int16, .uint16])
    (v : t.Value) : scan scanFloat t (format t v) = some v := by
  simp only [List.mem_cons, List.not_mem_nil, or_false] at narrow
  rcases narrow with rfl | rfl | rfl | rfl
  · have low := Int8.le_toInt v
    have high := Int8.toInt_lt v
    exact scannedAs (congrArg Int8.ofInt (strtolFits (by omega) (by omega))) (Int8.ofInt_toInt v)
  · have high := UInt8.toNat_lt v
    exact scannedAs (congrArg UInt8.ofInt (strtoulFits (by omega) (by omega))) (uint8Back v)
  · have low := Int16.le_toInt v
    have high := Int16.toInt_lt v
    exact scannedAs (congrArg Int16.ofInt (strtolFits (by omega) (by omega))) (Int16.ofInt_toInt v)
  · have high := UInt16.toNat_lt v
    exact scannedAs (congrArg UInt16.ofInt (strtoulFits (by omega) (by omega))) (uint16Back v)

end OrazioLogger.OrazioShell
