import WebRtc.DcSctp.SackTruthfulness
import WebRtc.DcSctp.Stranding
import WebRtc.DcSctp.FlowControl
import WebRtc.DcSctp.Reliability
import WebRtc.DcSctp.Lifecycle
import WebRtc.DcSctp.MessageBlocks
import WebRtc.Rtp.H264Packetizer
import WebRtc.EventLog.DeltaEncoding
import WebRtc.CongestionControl.TransportFeedbackAdapter
import WebRtc.Rtp.RtpPacketRuns
import WebRtc.Video.FrameBufferRuns
import WebRtc.Video.PacketBufferRuns
import WebRtc.Stun.Coverage
import WebRtc.Video.SeqNumOnlyRefOrder
import WebRtc.Audio.NetEqPacketBuffer
import WebRtc.Audio.Red
import WebRtc.Rtp.Nack
import WebRtc.Rtp.SequenceNumberMap
import WebRtc.Call.BitrateAllocator
import WebRtc.DcSctp.Packet.Spans
import WebRtc.DcSctp.Timer
import WebRtc.Rtp.PacketHistory
import WebRtc.Video.ActiveDecodeTargets
import WebRtc.Video.FrameDependencies
import WebRtc.DcSctp.SackCleaning
import WebRtc.DcSctp.StreamResetHandler
import WebRtc.Rtp.H265Frames
import WebRtc.CongestionControl.PacketArrivalLookup
import WebRtc.Pacing.PacketExpiry
