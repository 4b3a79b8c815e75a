import OrazioLogger.FrameRoundTrip
import OrazioLogger.ReceiverSoundness
import OrazioLogger.DeferredPacketHandler
import OrazioLogger.DeferredQueue
import OrazioLogger.DeferredRuns
import OrazioLogger.RefusedFrames
import OrazioLogger.LoggedContent
import OrazioLogger.WriterHang
import OrazioLogger.LostRecords
import OrazioLogger.ClientLocks
import OrazioLogger.LoggerSteps
import OrazioLogger.Uart
import OrazioLogger.DroppedPackets
import OrazioLogger.ClientReceiver
import OrazioLogger.ClientCalls
import OrazioLogger.AwaitedAnswer
import OrazioLogger.EpochSnapshot
import OrazioLogger.DriveCommand
import OrazioLogger.Firmware
import OrazioLogger.Joints
import OrazioLogger.Drive
import OrazioLogger.Param
import OrazioLogger.FirmwareComm
import OrazioLogger.Commands
import OrazioLogger.MainLoop
import OrazioLogger.Batch
import OrazioLogger.Watchdog
import OrazioLogger.ControlPackets
import OrazioLogger.Support.Countdown
import OrazioLogger.WatchdogRuns
import OrazioLogger.EpochCapacity
import OrazioLogger.CorruptedFrames
import OrazioLogger.ParamStore
import OrazioLogger.PrefixedFrames
import OrazioLogger.TransmitRuns
import OrazioLogger.IndexedPackets
import OrazioLogger.JointTables
import OrazioLogger.ClientSerial
import OrazioLogger.InstallArguments
import OrazioLogger.BatchAnswers
import OrazioLogger.ReportedOutcome
import OrazioLogger.HBridges
import OrazioLogger.JointControl
import OrazioLogger.JointIndices
import OrazioLogger.ParameterRequests
import OrazioLogger.DriveJoints
import OrazioLogger.ClientSteps
import OrazioLogger.BaseVelocity
import OrazioLogger.Encoder
import OrazioLogger.Odometry
import OrazioLogger.Kinematics
import OrazioLogger.MainSteps
import OrazioLogger.CommEvents
import OrazioLogger.LiveLink
import OrazioLogger.BootOrder
import OrazioLogger.BridgeOutcome
import OrazioLogger.BridgeOwnership
import OrazioLogger.ParamStartUp
import OrazioLogger.Queue
import OrazioLogger.SonarDriver
import OrazioLogger.SonarSchedule
import OrazioLogger.FrameRecords
import OrazioLogger.VelocityProfile
import OrazioLogger.Support.TextRecords
import OrazioLogger.Webcam
import OrazioLogger.Visualizer
import OrazioLogger.VariableEntries
import OrazioLogger.ConfigFile
import OrazioLogger.ParamCommands
import OrazioLogger.ParamTurns
import OrazioLogger.ParamAnswers
import OrazioLogger.DataEEParams
import OrazioLogger.Mirror
import OrazioLogger.MotorPins
import OrazioLogger.UartRuns
import OrazioLogger.ShellConfig
import OrazioLogger.Completion
