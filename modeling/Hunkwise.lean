import Hunkwise.Attachment.Config
import Hunkwise.Attachment.Registry
import Hunkwise.Buffer.Basic
import Hunkwise.Buffer.Range
import Hunkwise.Buffer.Store
import Hunkwise.Converge
import Hunkwise.Decimal.Double
import Hunkwise.Decimal.Notation
import Hunkwise.Decimal.Shortest
import Hunkwise.Diff.Alignment
import Hunkwise.Diff.Hunk
import Hunkwise.Diff.Longest
import Hunkwise.Diff.Options
import Hunkwise.Diff.Patience
import Hunkwise.Diff.Slide
import Hunkwise.Diff.Unified
import Hunkwise.Formatter.Basic
import Hunkwise.Formatter.Run
import Hunkwise.Json.Basic
import Hunkwise.Json.Reader
import Hunkwise.Json.Shown
import Hunkwise.Json.Writer
import Hunkwise.LogLevel
import Hunkwise.Notice
import Hunkwise.Outcome
import Hunkwise.Path
import Hunkwise.Process.Basic
import Hunkwise.Process.LineRule
import Hunkwise.Process.Script
import Hunkwise.Proofs.Alignment
import Hunkwise.Request
import Hunkwise.Schema.Checked
import Hunkwise.Schema.Problem
import Hunkwise.Schema.Scalar
import Hunkwise.Service.Basic
import Hunkwise.Service.Configuration
import Hunkwise.Service.Editing
import Hunkwise.Service.Formatting
import Hunkwise.Service.Message
import Hunkwise.Service.Route
import Hunkwise.Settings.Basic
import Hunkwise.Settings.Disk
import Hunkwise.Table
import Hunkwise.Template.Basic
import Hunkwise.Template.Kind
import Hunkwise.Template.Spec
import Hunkwise.Template.Value
import Hunkwise.Text.Basic
import Hunkwise.Text.Blank
import Hunkwise.Text.Digit
import Hunkwise.Text.Encoding
import Hunkwise.Text.Find
import Hunkwise.Text.Letter
import Hunkwise.Text.Lines
import Hunkwise.Text.Printable
import Hunkwise.Text.Quoted
import Hunkwise.Text.Slice
import Hunkwise.Text.Utf8
import Hunkwise.Vcs.Basic
import Hunkwise.Vcs.Git
import Hunkwise.Vcs.Mercurial
import Hunkwise.Vcs.Query
import Hunkwise.Work
import Hunkwise.Proofs.LongestRun
import Hunkwise.Proofs.PatienceChain
import Hunkwise.Proofs.Sliding
import Hunkwise.Proofs.HunkCover
import Hunkwise.Proofs.Calls
import Hunkwise.Proofs.Settling
import Hunkwise.Proofs.BaselineLines
import Hunkwise.Proofs.Effects
import Hunkwise.Proofs.FormatterRun
import Hunkwise.Proofs.Utf8Text
import Hunkwise.Proofs.BufferLines
import Hunkwise.Proofs.FormatterChain
import Hunkwise.Proofs.FormatHandler
import Hunkwise.Proofs.AttachmentChecks
import Hunkwise.Proofs.FormattingAgain
import Hunkwise.Proofs.PassLimit
import Hunkwise.Proofs.RequestCourse
import Hunkwise.Proofs.ReportedText
import Hunkwise.Proofs.SameLines
import Hunkwise.Proofs.ChangeReport
import Hunkwise.Proofs.NearestDouble
import Hunkwise.Proofs.DoubleBits
import Hunkwise.Proofs.ShortestDecimal
import Hunkwise.Proofs.NumberText
import Hunkwise.Proofs.WrittenText
import Hunkwise.Proofs.DocumentParts
import Hunkwise.Proofs.DocumentText
import Hunkwise.Proofs.DocumentReading
import Hunkwise.Proofs.SettingsFile
import Hunkwise.Proofs.SettingsHistory
import Hunkwise.Proofs.SettingsRoundTrip
import Hunkwise.Proofs.AttachmentLayers
import Hunkwise.Proofs.FormatterDefinitions
import Hunkwise.Proofs.UsableSettings
import Hunkwise.Proofs.ChangeRequests
import Hunkwise.Proofs.RequestedSettings
import Hunkwise.Proofs.HunkGroups
import Hunkwise.Proofs.SlidePlaces
import Hunkwise.Proofs.SameKeys
import Hunkwise.Proofs.PushedText
import Hunkwise.Proofs.PatchReading
import Hunkwise.Proofs.SettingsFallback
import Hunkwise.Proofs.SettingsEdits
import Hunkwise.Proofs.SettingsUpdates
import Hunkwise.Proofs.AttachmentHistory
import Hunkwise.Proofs.RangeOffsets
import Hunkwise.Proofs.ColumnText
import Hunkwise.Proofs.PrintedAnswers
import Hunkwise.Proofs.IndexListing
import Hunkwise.Proofs.ChangeListing
import Hunkwise.Proofs.RelativePaths
import Hunkwise.Proofs.MeasuredRuns
import Hunkwise.Proofs.LayerGrouping
