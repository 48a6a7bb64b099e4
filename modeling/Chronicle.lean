import Chronicle.Main
import Chronicle.SortedMap.Lemmas
import Chronicle.Proofs.Snapshot
import Chronicle.Proofs.Settling
import Chronicle.Proofs.Grammar.Removal
import Chronicle.Proofs.Grammar.Refusals
import Chronicle.Proofs.Grammar.Finalizing
import Chronicle.Proofs.Grammar.FreshNames
import Chronicle.Proofs.Grammar.Removals
import Chronicle.Proofs.Structure.Lifetimes
import Chronicle.Proofs.Timeline.Growth
import Chronicle.Proofs.Run.Execution
import Chronicle.Proofs.Run.Moments
import Chronicle.Proofs.Run.Records
import Chronicle.Proofs.Run.History
import Chronicle.Proofs.Run.Batches
import Chronicle.Proofs.Run.Emphasis
import Chronicle.Proofs.Run.Reopening
import Chronicle.Proofs.Reduction.Recorded
import Chronicle.Proofs.Reduction.Verdict
import Chronicle.Proofs.Archive.RoundTrip
import Chronicle.Proofs.Archive.Loading
import Chronicle.Proofs.LoopRemoval.Outcome
import Chronicle.Proofs.Archive.Processing
import Chronicle.Proofs.Run.Phases
import Chronicle.Proofs.Run.Aborted
import Chronicle.Proofs.CommandLine.Session
import Chronicle.Proofs.Run.Repeats
import Chronicle.Proofs.Explorer.GrammarLines
import Chronicle.Proofs.Explorer.Keys
import Chronicle.Proofs.Explorer.Scrolling
