import NextBuild.BranchSpec
import NextBuild.Calendar
import NextBuild.CommandLine.Grammar
import NextBuild.CommandLine.Invocation
import NextBuild.CommandLine.Machine
import NextBuild.CommandLine.Outcome
import NextBuild.CommandLine.Setting
import NextBuild.CommandLine.Usage
import NextBuild.CommitId
import NextBuild.Config
import NextBuild.Failure
import NextBuild.Graph.Inquiry
import NextBuild.Graph.LogOrder
import NextBuild.Graph.Meeting
import NextBuild.Graph.Memory
import NextBuild.Graph.Remote
import NextBuild.Graph.Walk
import NextBuild.Heap
import NextBuild.Json.Ledger
import NextBuild.Json.Printer
import NextBuild.Json.Reader
import NextBuild.Main
import NextBuild.Regex.Meaning
import NextBuild.Regex.Reader
import NextBuild.Report
import NextBuild.Repository.Basic
import NextBuild.Repository.Checkout
import NextBuild.Repository.Library
import NextBuild.Repository.Snapshot
import NextBuild.Revision
import NextBuild.Revision.Gathering
import NextBuild.Store
import NextBuild.Strategy.Basic
import NextBuild.Strategy.Comparator
import NextBuild.Strategy.Kind
import NextBuild.Table
import NextBuild.Text.Blank
import NextBuild.Text.Glob
import NextBuild.Text.Lines
import NextBuild.Text.Search
import NextBuild.Text.Slices
import NextBuild.Text.Variables
import NextBuild.Toml.Reader
import NextBuild.Proofs.BranchOrder
import NextBuild.Proofs.BranchSpec.Acceptance
import NextBuild.Proofs.BranchSpec.Glob
import NextBuild.Proofs.BranchSpec.Translation
import NextBuild.Proofs.BranchSpec.Wildcard
import NextBuild.Proofs.CommandLine.RebuildFlag
import NextBuild.Proofs.CommandLine.RecordThenPoll
import NextBuild.Proofs.CommandLine.Recording
import NextBuild.Proofs.Files
import NextBuild.Proofs.Files.Footprints
import NextBuild.Proofs.Files.Paths
import NextBuild.Proofs.Graph.Ancestry
import NextBuild.Proofs.Graph.Content
import NextBuild.Proofs.Graph.Growth
import NextBuild.Proofs.Graph.Insertions
import NextBuild.Proofs.Graph.Log
import NextBuild.Proofs.Graph.Loopback
import NextBuild.Proofs.Graph.MergeBase
import NextBuild.Proofs.Graph.NewestBase
import NextBuild.Proofs.Graph.Replacement
import NextBuild.Proofs.Graph.Results
import NextBuild.Proofs.Graph.Serving
import NextBuild.Proofs.Json.Layout
import NextBuild.Proofs.Json.Messages
import NextBuild.Proofs.Json.Reading
import NextBuild.Proofs.Json.RoundTrip
import NextBuild.Proofs.Json.Scalars
import NextBuild.Proofs.Ledger
import NextBuild.Proofs.Regex.Reading
import NextBuild.Proofs.Regex.Spelling
import NextBuild.Proofs.Repository.Mirrors
import NextBuild.Proofs.Repository.Selections
import NextBuild.Proofs.Repository.Walks
import NextBuild.Proofs.Selection.AllPairs
import NextBuild.Proofs.Selection.BlankTargets
import NextBuild.Proofs.Selection.Coverage
import NextBuild.Proofs.Selection.Draining
import NextBuild.Proofs.Selection.Eligibility
import NextBuild.Proofs.Selection.Faults
import NextBuild.Proofs.Selection.FreshPolls
import NextBuild.Proofs.Selection.Grouping
import NextBuild.Proofs.Selection.HeadPointers
import NextBuild.Proofs.Selection.InsertionOrder
import NextBuild.Proofs.Selection.Leads
import NextBuild.Proofs.Selection.Listing
import NextBuild.Proofs.Selection.Offers
import NextBuild.Proofs.Selection.PollAgreement
import NextBuild.Proofs.Selection.Presentation
import NextBuild.Proofs.Selection.Queue
import NextBuild.Proofs.Selection.QueueLine
import NextBuild.Proofs.Selection.QueueProgress
import NextBuild.Proofs.Selection.Rebuilds
import NextBuild.Proofs.Selection.RemoteTargets
import NextBuild.Proofs.Selection.TimeOrder
import NextBuild.Proofs.Selection.Tips
import NextBuild.Proofs.Selection.UnbuiltTips
import NextBuild.Proofs.Store
import NextBuild.Proofs.Store.Places
import NextBuild.Proofs.Store.Separation
import NextBuild.Proofs.Store.Transactions
import NextBuild.Proofs.BranchSpec.Deferral
import NextBuild.Proofs.Ledger.Builds
import NextBuild.Proofs.Selection.Leftovers
import NextBuild.Proofs.BranchSpec.WholeNames
import NextBuild.Proofs.Calendar
import NextBuild.Proofs.StableSort
import NextBuild.Proofs.Selection.Cutoffs
import NextBuild.Proofs.Selection.DistinctCommits
import NextBuild.Proofs.Selection.LastBuild
import NextBuild.Proofs.Selection.Priorities
import NextBuild.Proofs.Selection.WithinBounds
import NextBuild.Proofs.Graph.Reachability
import NextBuild.Proofs.Selection.ComparatorAnswers
import NextBuild.Proofs.Selection.InPlaceSort
import NextBuild.Proofs.CommitId
import NextBuild.Proofs.Config
import NextBuild.Proofs.Files.Names
import NextBuild.Proofs.Revision
import NextBuild.Proofs.Ledger.Decoded
import NextBuild.Proofs.Selection.FullIds
import NextBuild.Proofs.Store.Jobs
import NextBuild.Proofs.Graph.ListedNames
import NextBuild.Proofs.Revision.Partition
import NextBuild.Proofs.Text.Expansion
