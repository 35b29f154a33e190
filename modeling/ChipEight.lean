import ChipEight.CommandLine
import ChipEight.Config.Document
import ChipEight.Ensemble
import ChipEight.Instruction.Nibble
import ChipEight.Main
import ChipEight.Proofs.Bounds
import ChipEight.Proofs.Calls
import ChipEight.Proofs.Checked
import ChipEight.Proofs.Diagnosis
import ChipEight.Proofs.Effects
import ChipEight.Proofs.Encoding
import ChipEight.Proofs.Faults
import ChipEight.Proofs.FrameTable
import ChipEight.Proofs.Frames
import ChipEight.Proofs.Halting
import ChipEight.Proofs.MemoryRange
import ChipEight.Proofs.OpcodeTable
import ChipEight.Proofs.RandomStream
import ChipEight.Proofs.Reachable
import ChipEight.Proofs.Runs
import ChipEight.Proofs.Sprites
import ChipEight.Proofs.Step
import ChipEight.Session.History
import ChipEight.Snapshot.Document
import ChipEight.Proofs.Lockstep
import ChipEight.Proofs.KeyHistory
import ChipEight.Proofs.Numerals
import ChipEight.Proofs.JsonStrings
import ChipEight.Proofs.Attempts
import ChipEight.Proofs.Counts
import ChipEight.Proofs.Documents
import ChipEight.Proofs.Endings
import ChipEight.Proofs.LastWriter
import ChipEight.Proofs.Timers
import ChipEight.Proofs.Records
import ChipEight.Proofs.RegisterDump
import ChipEight.Proofs.Drawing
import ChipEight.Proofs.Leftovers
import ChipEight.Proofs.Glyphs
import ChipEight.Proofs.FaultRecords
import ChipEight.Proofs.Polling
import ChipEight.Proofs.Arithmetic
import ChipEight.Proofs.DrawSequences
import ChipEight.Proofs.Transfers
import ChipEight.Proofs.Parity
import ChipEight.Proofs.Successors
import ChipEight.Proofs.Waiting
import ChipEight.Proofs.Commuting
import ChipEight.Proofs.Sharing
import ChipEight.Proofs.FaultTexts
import ChipEight.Proofs.JsonSources
import ChipEight.Proofs.ArrayDocuments
import ChipEight.Proofs.ObjectDocuments
