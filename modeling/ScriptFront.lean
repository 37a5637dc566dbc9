import ScriptFront.Buffer.Text
import ScriptFront.CodeBlock.Listing
import ScriptFront.Json.Reader
import ScriptFront.Main
import ScriptFront.Proofs.CheckResult
import ScriptFront.Proofs.Lines
import ScriptFront.Proofs.Tiling
import ScriptFront.Text.Utf8
import ScriptFront.Proofs.OneReading
import ScriptFront.Proofs.Resumption
import ScriptFront.Proofs.Relayout
import ScriptFront.Proofs.Decimal
import ScriptFront.Proofs.TextDump
import ScriptFront.Proofs.JsonGrammar
import ScriptFront.Proofs.JsonDump
import ScriptFront.Proofs.Interleaving
import ScriptFront.Proofs.BufferRuns
import ScriptFront.Proofs.CapacityLadder
import ScriptFront.Proofs.BlockRuns
import ScriptFront.Proofs.ListingRows
import ScriptFront.Proofs.ListingText
import ScriptFront.Proofs.AppendOutcomes
import ScriptFront.Proofs.BlockContents
import ScriptFront.Proofs.Spots
import ScriptFront.Proofs.Drafts
import ScriptFront.Proofs.Replacement
import ScriptFront.Proofs.CommandRuns
import ScriptFront.Proofs.DumpToFile
import ScriptFront.Proofs.Verbosity
import ScriptFront.Proofs.Interruptions
import ScriptFront.Proofs.RunLength
import ScriptFront.Proofs.WordTable
import ScriptFront.Proofs.TwoDialects
import ScriptFront.Proofs.SixDigits
import ScriptFront.Proofs.PointNotation
import ScriptFront.Proofs.NumberText
import ScriptFront.Proofs.ByteWalk
import ScriptFront.Proofs.CharBoundaries
import ScriptFront.Proofs.Progress
import ScriptFront.Proofs.RefusedAppends
import ScriptFront.Proofs.DecimalReading
import ScriptFront.Proofs.ShownOrder
import ScriptFront.Proofs.Memoryless
import ScriptFront.Proofs.FreshDrafts
import ScriptFront.Proofs.ReservedSlots
import ScriptFront.Proofs.JsonForms
