import AddonBuilder.Application.BuildInfo
import AddonBuilder.Application.Standalone
import AddonBuilder.Linker.Report
import AddonBuilder.Measure.Script
import AddonBuilder.Proofs.Application.Blame
import AddonBuilder.Proofs.Application.Cleaning
import AddonBuilder.Proofs.Application.Following
import AddonBuilder.Proofs.Application.Leftovers
import AddonBuilder.Proofs.Application.Lookup
import AddonBuilder.Proofs.Application.Removal
import AddonBuilder.Proofs.Application.Upload
import AddonBuilder.Proofs.Archive.Layout
import AddonBuilder.Proofs.Install.ReadBack
import AddonBuilder.Proofs.Json.AsciiString
import AddonBuilder.Proofs.Json.Canonical
import AddonBuilder.Proofs.Json.Cycles
import AddonBuilder.Proofs.Json.Decoder
import AddonBuilder.Proofs.Json.Hook
import AddonBuilder.Proofs.Json.Level
import AddonBuilder.Proofs.Json.Streaming
import AddonBuilder.Proofs.Linker.Comments
import AddonBuilder.Proofs.Linker.Ending
import AddonBuilder.Proofs.Linker.EntryPoint
import AddonBuilder.Proofs.Linker.Failures
import AddonBuilder.Proofs.Linker.Relative
import AddonBuilder.Proofs.Locale.LineNumbers
import AddonBuilder.Proofs.Locale.Plurals
import AddonBuilder.Proofs.Locale.RuleCode
import AddonBuilder.Proofs.Package.Closure
import AddonBuilder.Proofs.Package.Needed
import AddonBuilder.Proofs.Package.Started
import AddonBuilder.Proofs.Version.Preorder
import AddonBuilder.Tool.Command
import AddonBuilder.Tool.Welcome
