import WordMachine.Action
import WordMachine.Capability
import WordMachine.Command.Arguments
import WordMachine.Command.Directory
import WordMachine.Command.Report
import WordMachine.Command.Sample
import WordMachine.Config
import WordMachine.Console.Basic
import WordMachine.Console.Sink
import WordMachine.Console.Source
import WordMachine.Fault
import WordMachine.Frame.Phase
import WordMachine.Frame.Protocol
import WordMachine.Frame.Record
import WordMachine.Image.Decode
import WordMachine.Image.Encode
import WordMachine.Instruction.Basic
import WordMachine.Instruction.Listing
import WordMachine.Instruction.Opcode
import WordMachine.Intrinsic.Basic
import WordMachine.Intrinsic.Body
import WordMachine.Intrinsic.Input
import WordMachine.Journal
import WordMachine.Machine.Basic
import WordMachine.Machine.Run
import WordMachine.Machine.Step
import WordMachine.Main
import WordMachine.Memory
import WordMachine.Numeral
import WordMachine.Program
import WordMachine.Proofs.Atomicity
import WordMachine.Proofs.Bounds
import WordMachine.Proofs.CallReturn
import WordMachine.Proofs.Confinement
import WordMachine.Proofs.Control
import WordMachine.Proofs.Course
import WordMachine.Proofs.Direct
import WordMachine.Proofs.Dispatch
import WordMachine.Proofs.Effects
import WordMachine.Proofs.Endings
import WordMachine.Proofs.Exactness
import WordMachine.Proofs.Failures
import WordMachine.Proofs.FloatRoundTrip
import WordMachine.Proofs.FloatText
import WordMachine.Proofs.FlushFailure
import WordMachine.Proofs.FramelessReturn
import WordMachine.Proofs.Grammar
import WordMachine.Proofs.GrowthBlind
import WordMachine.Proofs.History
import WordMachine.Proofs.ImageFormat
import WordMachine.Proofs.IntrinsicEffect
import WordMachine.Proofs.Labels
import WordMachine.Proofs.Layout
import WordMachine.Proofs.Level
import WordMachine.Proofs.Mirror
import WordMachine.Proofs.Moment
import WordMachine.Proofs.NearestSingle
import WordMachine.Proofs.Numerals
import WordMachine.Proofs.RecordLife
import WordMachine.Proofs.Renewal
import WordMachine.Proofs.Requirement
import WordMachine.Proofs.Rounding
import WordMachine.Proofs.Script
import WordMachine.Proofs.Seeding
import WordMachine.Proofs.Service
import WordMachine.Proofs.Setting
import WordMachine.Proofs.StackList
import WordMachine.Proofs.StackPointer
import WordMachine.Proofs.StepLimit
import WordMachine.Proofs.StringCells
import WordMachine.Proofs.Strings
import WordMachine.Proofs.Tokens
import WordMachine.Proofs.Truncation
import WordMachine.Proofs.Variation
import WordMachine.Registers
import WordMachine.Session.Bench
import WordMachine.Session.Host
import WordMachine.Session.Request
import WordMachine.Single.Basic
import WordMachine.Single.Reader
import WordMachine.Single.Rounding
import WordMachine.Single.Text
import WordMachine.Stack
import WordMachine.Store
import WordMachine.Text.Hex
import WordMachine.Text.Quoted
import WordMachine.Text.Utf8
import WordMachine.Word
import WordMachine.World
