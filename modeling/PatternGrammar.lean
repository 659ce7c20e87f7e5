import PatternGrammar.Main
import PatternGrammar.Pattern.Transform
import PatternGrammar.Proofs.ExcludedWords
import PatternGrammar.Proofs.Faithfulness
import PatternGrammar.Proofs.CaptureCount
import PatternGrammar.Proofs.ReferredGroups
import PatternGrammar.Proofs.Replacement
import PatternGrammar.Proofs.OuterGroup
import PatternGrammar.Proofs.RuleContents
import PatternGrammar.Proofs.Appending
import PatternGrammar.Proofs.Groupless
import PatternGrammar.Proofs.SplicedRuns
import PatternGrammar.Proofs.Places
import PatternGrammar.Proofs.Sequence
import PatternGrammar.Proofs.Assembled
import PatternGrammar.Proofs.Possessing
import PatternGrammar.Proofs.InStep
import PatternGrammar.Proofs.ReadAlike
import PatternGrammar.Proofs.Unwrapping
import PatternGrammar.Proofs.Concatenation
import PatternGrammar.Proofs.Retagging
import PatternGrammar.Proofs.Description
import PatternGrammar.Proofs.Loading
import PatternGrammar.Proofs.Repetition
import PatternGrammar.Proofs.ExampleTests
import PatternGrammar.Proofs.Repository
import PatternGrammar.Proofs.Invocation
import PatternGrammar.Proofs.Literals
import PatternGrammar.Proofs.Binding
import PatternGrammar.Proofs.Counts
import PatternGrammar.Proofs.Renaming
import PatternGrammar.Proofs.EveryTag
import PatternGrammar.Proofs.ExampleReferences
import PatternGrammar.Proofs.EmptyMembers
import PatternGrammar.Proofs.TagNumbers
import PatternGrammar.Proofs.OnePass
import PatternGrammar.Proofs.ExampleWrapping
import PatternGrammar.Proofs.EntityScans
import PatternGrammar.Proofs.LoadedReferences
import PatternGrammar.Proofs.LoadedIncludes
import PatternGrammar.Proofs.Ends
import PatternGrammar.Proofs.Outcomes
