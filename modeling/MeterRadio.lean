import MeterRadio.Main
import MeterRadio.Bits.Flip
import MeterRadio.Bits.InPlace
import MeterRadio.Config.Document
import MeterRadio.Frame.Operation
import MeterRadio.Frame.Queue
import MeterRadio.Frame.Verdict
import MeterRadio.Line.History
import MeterRadio.Line.LeadIn
import MeterRadio.Message.Layout
import MeterRadio.Message.OnAir
import MeterRadio.Receiver.Gating
import MeterRadio.Receiver.Run
import MeterRadio.Receiver.Journal
import MeterRadio.Receiver.Timing
import MeterRadio.Proofs.Bits
import MeterRadio.Proofs.Packed
import MeterRadio.Proofs.Slice
import MeterRadio.Proofs.Number
import MeterRadio.Proofs.Field
import MeterRadio.Proofs.InPlace
import MeterRadio.Proofs.Code
import MeterRadio.Proofs.Checksum.Register
import MeterRadio.Proofs.Checksum.Residual
import MeterRadio.Proofs.Checksum.Distance
import MeterRadio.Proofs.Checksum.Burst
import MeterRadio.Proofs.Line.Preamble
import MeterRadio.Proofs.Line.Window
import MeterRadio.Proofs.Line.History
import MeterRadio.Proofs.Line.Detector
import MeterRadio.Proofs.Line.LeadIn
import MeterRadio.Proofs.Line.Silence
import MeterRadio.Proofs.Line.Spacing
import MeterRadio.Proofs.Message.Decode
import MeterRadio.Proofs.Message.Encode
import MeterRadio.Proofs.Message.RoundTrip
import MeterRadio.Proofs.Message.Canonical
import MeterRadio.Proofs.Message.Layout
import MeterRadio.Proofs.Message.Damage
import MeterRadio.Proofs.Frame
import MeterRadio.Proofs.Ring.Storage
import MeterRadio.Proofs.Ring.Layout
import MeterRadio.Proofs.Ring.Queue
import MeterRadio.Proofs.Ring.Safety
import MeterRadio.Proofs.Ring.Reader
import MeterRadio.Proofs.Ring.Room
import MeterRadio.Proofs.Ring.Shape
import MeterRadio.Proofs.Ring.Filling
import MeterRadio.Proofs.Receiver.Polling
import MeterRadio.Proofs.Receiver.Sampler
import MeterRadio.Proofs.Receiver.Run
import MeterRadio.Proofs.Receiver.Reception
import MeterRadio.Proofs.Receiver.Journal
import MeterRadio.Proofs.Receiver.Captures
import MeterRadio.Proofs.Receiver.Filling
import MeterRadio.Proofs.Receiver.Accounting
import MeterRadio.Proofs.Receiver.Schedule
import MeterRadio.Proofs.Receiver.Authenticity
import MeterRadio.Proofs.Receiver.Location
import MeterRadio.Proofs.Receiver.Transmission
import MeterRadio.Proofs.Receiver.Timing
import MeterRadio.Proofs.Replay.Batch
import MeterRadio.Proofs.Replay.Session
import MeterRadio.Proofs.Report.Json
import MeterRadio.Proofs.Report.Line
import MeterRadio.Proofs.Config
import MeterRadio.Proofs.Program
