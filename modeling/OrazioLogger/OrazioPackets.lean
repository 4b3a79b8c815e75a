import OrazioLogger.PacketHeader

/-! orazio_packets.h: packet types and the sizes of their structs. The structs
are packed; a `PacketIndexed` is a header and an index byte. -/
namespace OrazioLogger.OrazioPackets

def responsePacketId : PacketType := 0
def paramControlPacketId : PacketType := 1
def systemStatusPacketId : PacketType := 2
def systemParamPacketId : PacketType := 3
def jointStatusPacketId : PacketType := 4
def jointControlPacketId : PacketType := 5
def jointParamPacketId : PacketType := 6
def differentialDriveStatusPacketId : PacketType := 7
def differentialDriveControlPacketId : PacketType := 8
def differentialDriveParamPacketId : PacketType := 9
def endEpochPacketId : PacketType := 10
def messagePacketId : PacketType := 11
def sonarStatusPacketId : PacketType := 12
def sonarParamPacketId : PacketType := 13

def orazioProtocolVersion : UInt32 := 0x20180915

def sizeofPacketIndexed : PacketSize := sizeofPacketHeader + 1
def sizeofResponsePacket : PacketSize := sizeofPacketHeader + 1 + 2 + 1
def sizeofParamControlPacket : PacketSize := sizeofPacketHeader + 1 + 1 + 1
def sizeofSystemStatusPacket : PacketSize := sizeofPacketHeader + 9 * 2 + 1 + 4
def sizeofSystemParamPacket : PacketSize := sizeofPacketHeader + 4 + 4 + 2 + 4 + 2 + 1 + 2 + 1
def sizeofJointStatusPacket : PacketSize := sizeofPacketIndexed + (5 * 2 + 1)
def sizeofJointControlPacket : PacketSize := sizeofPacketIndexed + (2 + 1)
def sizeofJointParamPacket : PacketSize := sizeofPacketIndexed + (8 * 2 + 1 + 3)
def sizeofDifferentialDriveStatusPacket : PacketSize := sizeofPacketHeader + 9 * 4 + 1
def sizeofDifferentialDriveControlPacket : PacketSize := sizeofPacketHeader + 4 + 4
def sizeofDifferentialDriveParamPacket : PacketSize := sizeofPacketHeader + 8 * 4 + 1 + 1
def sizeofEndEpochPacket : PacketSize := sizeofPacketHeader
def sizeofStringMessagePacket : PacketSize := sizeofPacketHeader + 80
def sizeofSonarStatusPacket : PacketSize := sizeofPacketHeader + 8 * 2
def sizeofSonarParamPacket : PacketSize := sizeofPacketHeader + 8

/- ParamType and ParamAction, as their bytes. -/
def paramSystem : UInt8 := 0
def paramJointsSingle : UInt8 := 1
def paramDrive : UInt8 := 2
def paramSonar : UInt8 := 3
def paramRequest : UInt8 := 0

end OrazioLogger.OrazioPackets
