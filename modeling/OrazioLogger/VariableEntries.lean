import OrazioLogger.Logger
import OrazioLogger.Support.TextScan
import Mathlib.Algebra.GroupWithZero.Nat
import Mathlib.Data.List.Nodup
import Mathlib.Data.List.FinRange

/-! The variables of the shell: the table of orazio_shell_globals.c. -/
namespace OrazioLogger.OrazioShell
open Logger (Text)
open TextScan

inductive VariableType where
  | packet | uint8 | int8 | uint16 | int16 | uint32 | int32 | int32Hex | float | string
  deriving DecidableEq, Repr

/- `VarRead` and `VarRead|VarWrite`. -/
inductive Access where
  | read | readWrite
  deriving DecidableEq, Repr

structure VEntry where
  name : Text
  type : VariableType
  access : Access
  deriving DecidableEq, Repr

def rv (name : String) (type : VariableType) (access : Access) : VEntry := ⟨name.toList, type, access⟩

/- A field of the `idx`-th packet of an array. -/
def rvAt (array : String) (idx : Char) (field : String) (type : VariableType) (access : Access) : VEntry :=
  ⟨array.toList ++ ['[', idx, ']'] ++ field.toList, type, access⟩

def jointVars (idx : Char) : List VEntry :=
  [rvAt "joint_params" idx "" .packet .read,
    rvAt "joint_params" idx ".header.header.seq" .uint16 .read,
    rvAt "joint_params" idx ".param.kp" .int16 .readWrite,
    rvAt "joint_params" idx ".param.ki" .int16 .readWrite,
    rvAt "joint_params" idx ".param.kd" .int16 .readWrite,
    rvAt "joint_params" idx ".param.max_i" .int16 .readWrite,
    rvAt "joint_params" idx ".param.max_pwm" .int16 .readWrite,
    rvAt "joint_params" idx ".param.min_pwm" .int16 .readWrite,
    rvAt "joint_params" idx ".param.max_speed" .int16 .readWrite,
    rvAt "joint_params" idx ".param.slope" .int16 .readWrite,
    rvAt "joint_params" idx ".param.h_bridge_type" .uint8 .readWrite,
    rvAt "joint_params" idx ".param.h_bridge_pins[0]" .int8 .readWrite,
    rvAt "joint_params" idx ".param.h_bridge_pins[1]" .int8 .readWrite,
    rvAt "joint_params" idx ".param.h_bridge_pins[2]" .int8 .readWrite,
    rvAt "joint_control" idx "" .packet .read,
    rvAt "joint_control" idx ".header.header.seq" .int16 .read,
    rvAt "joint_control" idx ".control.mode" .uint8 .readWrite,
    rvAt "joint_control" idx ".control.speed" .int16 .readWrite,
    rvAt "joint_status" idx "" .packet .read,
    rvAt "joint_status" idx ".header.header.seq" .uint16 .read,
    rvAt "joint_status" idx ".info.mode" .int8 .read,
    rvAt "joint_status" idx ".info.encoder_position" .uint16 .read,
    rvAt "joint_status" idx ".info.encoder_speed" .int16 .read,
    rvAt "joint_status" idx ".info.desired_speed" .int16 .read,
    rvAt "joint_status" idx ".info.pwm" .int16 .read,
    rvAt "joint_status" idx ".info.sensed_current" .int16 .read]

def systemVars : List VEntry :=
  [rv "system_status" .packet .read,
    rv "system_status.header.seq" .uint16 .read,
    rv "system_status.rx_buffer_size" .uint16 .read,
    rv "system_status.rx_packets" .uint16 .read,
    rv "system_status.rx_packet_errors" .uint16 .read,
    rv "system_status.tx_buffer_size" .uint16 .read,
    rv "system_status.tx_packets" .uint16 .read,
    rv "system_status.tx_packet_errors" .uint16 .read,
    rv "system_status.battery_level" .uint16 .read,
    rv "system_status.watchdog_count" .uint16 .read,
    rv "system_status.idle_cycles" .uint32 .read,
    rv "system_status.rx_seq" .uint16 .read,
    rv "system_params" .packet .read,
    rv "system_params.header.seq" .uint16 .read,
    rv "system_params.protocol_version" .int32Hex .read,
    rv "system_params.firmware_version" .int32Hex .read,
    rv "system_params.timer_period_ms" .uint16 .read,
    rv "system_params.comm_speed" .int32 .read,
    rv "system_params.comm_cycles" .uint16 .readWrite,
    rv "system_params.periodic_packet_mask" .uint8 .readWrite,
    rv "system_params.watchdog_cycles" .uint16 .readWrite,
    rv "system_params.num_joints" .uint8 .read]

def driveVars : List VEntry :=
  [rv "drive_status" .packet .read,
    rv "drive_status.header.seq" .uint16 .read,
    rv "drive_status.enabled" .uint8 .read,
    rv "drive_status.odom_x" .float .read,
    rv "drive_status.odom_y" .float .read,
    rv "drive_status.odom_theta" .float .read,
    rv "drive_status.translational_velocity_measured" .float .read,
    rv "drive_status.translational_velocity_desired" .float .read,
    rv "drive_status.translational_velocity_adjusted" .float .read,
    rv "drive_status.rotational_velocity_measured" .float .read,
    rv "drive_status.rotational_velocity_desired" .float .read,
    rv "drive_status.rotational_velocity_adjusted" .float .read,
    rv "drive_params" .packet .read,
    rv "drive_params.header.seq" .uint16 .read,
    rv "drive_params.ikr" .float .readWrite,
    rv "drive_params.ikl" .float .readWrite,
    rv "drive_params.baseline" .float .readWrite,
    rv "drive_params.right_joint_index" .uint8 .readWrite,
    rv "drive_params.left_joint_index" .uint8 .readWrite,
    rv "drive_params.max_translational_velocity" .float .readWrite,
    rv "drive_params.max_translational_acceleration" .float .readWrite,
    rv "drive_params.max_translational_brake" .float .readWrite,
    rv "drive_params.max_rotational_velocity" .float .readWrite,
    rv "drive_params.max_rotational_acceleration" .float .readWrite,
    rv "param_control" .packet .read,
    rv "param_control.header.seq" .int16 .read,
    rv "param_control.action" .uint8 .readWrite,
    rv "param_control.param_type" .uint8 .readWrite,
    rv "drive_control" .packet .read,
    rv "drive_control.header.seq" .int16 .read,
    rv "drive_control.translational_velocity" .float .readWrite,
    rv "drive_control.rotational_velocity" .float .readWrite]

def sonarVars : List VEntry :=
  [rv "sonar_params" .packet .read,
    rvAt "sonar_params.pattern" '0' "" .uint8 .readWrite,
    rvAt "sonar_params.pattern" '1' "" .uint8 .readWrite,
    rvAt "sonar_params.pattern" '2' "" .uint8 .readWrite,
    rvAt "sonar_params.pattern" '3' "" .uint8 .readWrite,
    rvAt "sonar_params.pattern" '4' "" .uint8 .readWrite,
    rvAt "sonar_params.pattern" '5' "" .uint8 .readWrite,
    rvAt "sonar_params.pattern" '6' "" .uint8 .readWrite,
    rvAt "sonar_params.pattern" '7' "" .uint8 .readWrite,
    rv "sonar_status" .packet .read,
    rvAt "sonar_status.ranges" '0' "" .uint16 .read,
    rvAt "sonar_status.ranges" '1' "" .uint16 .read,
    rvAt "sonar_status.ranges" '2' "" .uint16 .read,
    rvAt "sonar_status.ranges" '3' "" .uint16 .read,
    rvAt "sonar_status.ranges" '4' "" .uint16 .read,
    rvAt "sonar_status.ranges" '5' "" .uint16 .read,
    rvAt "sonar_status.ranges" '6' "" .uint16 .read,
    rvAt "sonar_status.ranges" '7' "" .uint16 .read]

@[irreducible] def variableEntries : List VEntry :=
  systemVars ++ jointVars '0' ++ jointVars '1' ++ driveVars ++ sonarVars ++
    [rv "message" .packet .read, rv "message.message" .string .read]

def numVariables : Nat := variableEntries.length

def entry (i : Fin numVariables) : VEntry := variableEntries.get i

def findVar (name : Text) : Option (Fin numVariables) := (List.finRange numVariables).find? fun i => (entry i).name = name

/- The types VEntry_read scans as integers. -/
def VariableType.integer : VariableType → Bool
  | .uint8 | .int8 | .uint16 | .int16 | .uint32 | .int32 | .int32Hex => true
  | .packet | .float | .string => false

def strstr (text needle : Text) : Bool := text.tails.any needle.isPrefixOf

def VEntry.namesParams (e : VEntry) : Bool := strstr e.name ['p', 'a', 'r', 'a', 'm', 's']

/- The entries saveConfigFn writes. -/
def VEntry.inConfig (e : VEntry) : Bool := decide (e.type ≠ .packet) && e.namesParams

/-! What the table's rows have in common, checked on the characters of the names. -/

/- A name as one number. -/
def code (name : Text) : Nat := name.foldl (fun n c => 256 * n + c.toNat) 0

structure Tabled (entries : List VEntry) : Prop where
  apart : (entries.map fun e => code e.name).Nodup
  words : ∀ e ∈ entries, e.name ≠ [] ∧ (e.name.all fun c => !isspace c) = true ∧ e.name.length < 1024
  scalars : ∀ e ∈ entries, e.inConfig = true → e.type ≠ .string
  narrow : ∀ e ∈ entries, e.inConfig = true → e.access = .readWrite → e.type.integer = true →
    e.type ∈ [.int8, .uint8, .int16, .uint16]
  fits : ((entries.filter VEntry.inConfig).map fun e => e.name.length + 48).sum < 10240

instance (entries : List VEntry) : Decidable (Tabled entries) :=
  decidable_of_iff
    ((entries.map fun e => code e.name).Nodup ∧
      (∀ e ∈ entries, e.name ≠ [] ∧ (e.name.all fun c => !isspace c) = true ∧ e.name.length < 1024) ∧
      (∀ e ∈ entries, e.inConfig = true → e.type ≠ .string) ∧
      (∀ e ∈ entries, e.inConfig = true → e.access = .readWrite → e.type.integer = true →
        e.type ∈ [.int8, .uint8, .int16, .uint16]) ∧
      ((entries.filter VEntry.inConfig).map fun e => e.name.length + 48).sum < 10240)
    ⟨fun ⟨a, b, c, d, e⟩ => ⟨a, b, c, d, e⟩, fun ⟨a, b, c, d, e⟩ => ⟨a, b, c, d, e⟩⟩

theorem rvSpelled {rest spelled : List VEntry} (name : Text) (type : VariableType) (access : Access)
    (others : rest = spelled) : rv (String.ofList name) type access :: rest = ⟨name, type, access⟩ :: spelled := by
  rw [others, rv, String.toList_ofList]

theorem rvAtSpelled {rest spelled : List VEntry} (array field : Text) (idx : Char) (type : VariableType) (access : Access)
    (others : rest = spelled) : rvAt (String.ofList array) idx (String.ofList field) type access :: rest =
      ⟨array ++ ['[', idx, ']'] ++ field, type, access⟩ :: spelled := by
  rw [others, rvAt, String.toList_ofList, String.toList_ofList]

theorem tabledOf {entries spelled : List VEntry} (same : entries = spelled) (spells : Tabled spelled) : Tabled entries :=
  same ▸ spells

/- The names are spelled out first: it is on lists of characters that the table is decided. -/
theorem variableEntriesTabled : Tabled variableEntries := by
  apply tabledOf
  · delta variableEntries
    simp only [systemVars, jointVars, driveVars, sonarVars, List.cons_append, List.nil_append]
    repeat first | apply rvSpelled | apply rvAtSpelled
    rfl
  · decide +kernel

theorem entryIn (i : Fin numVariables) : entry i ∈ variableEntries := List.get_mem _ _

theorem nameOnce {i j : Fin numVariables} (same : (entry i).name = (entry j).name) : i = j := by
  have apart := variableEntriesTabled.apart
  have entries := List.inj_on_of_nodup_map apart (entryIn i) (entryIn j) (congrArg code same)
  exact (List.Nodup.get_inj_iff apart.of_map).mp entries

theorem findVarOwn (i : Fin numVariables) : findVar (entry i).name = some i := by
  cases found : findVar (entry i).name with
  | none =>
    have nowhere := List.find?_eq_none.mp found i (List.mem_finRange i)
    rw [decide_eq_true_eq] at nowhere
    exact absurd (Eq.refl (entry i).name) nowhere
  | some j =>
    have here := List.find?_some found
    rw [decide_eq_true_eq] at here
    exact congrArg some (nameOnce here)

end OrazioLogger.OrazioShell
