import StatementQuery.Term.Generalize
import StatementQuery.Compile.Decode
import StatementQuery.Wikidata.Mapping
import StatementQuery.Settings.Json
import StatementQuery.Proofs.Binding
import StatementQuery.Proofs.BlindEmissions
import StatementQuery.Proofs.BranchAlignment
import StatementQuery.Proofs.CalendarInstants
import StatementQuery.Proofs.CivilCalendar
import StatementQuery.Proofs.CompileFailures
import StatementQuery.Proofs.CompileRuns
import StatementQuery.Proofs.ConstructedTerms
import StatementQuery.Proofs.Construction
import StatementQuery.Proofs.CutTexts
import StatementQuery.Proofs.DecimalLiterals
import StatementQuery.Proofs.DecimalNumber
import StatementQuery.Proofs.DecodedStatements
import StatementQuery.Proofs.Emissions
import StatementQuery.Proofs.EntryMetadata
import StatementQuery.Proofs.EntrySelection
import StatementQuery.Proofs.Equality
import StatementQuery.Proofs.ExpressionReadings
import StatementQuery.Proofs.FaithfulTerms
import StatementQuery.Proofs.FilterTargets
import StatementQuery.Proofs.FingerprintNormalForms
import StatementQuery.Proofs.Generalization
import StatementQuery.Proofs.IndependentAlternatives
import StatementQuery.Proofs.KindOrder
import StatementQuery.Proofs.LeastKinds
import StatementQuery.Proofs.LinearMatching
import StatementQuery.Proofs.Literals
import StatementQuery.Proofs.MatchArguments
import StatementQuery.Proofs.MirroredRuns
import StatementQuery.Proofs.NameIntroductions
import StatementQuery.Proofs.NestedCalls
import StatementQuery.Proofs.NestedConstraints
import StatementQuery.Proofs.Numerals
import StatementQuery.Proofs.PatternMatching
import StatementQuery.Proofs.QueryOutlines
import StatementQuery.Proofs.QuotedLiterals
import StatementQuery.Proofs.RefusedTimes
import StatementQuery.Proofs.RenamedMatches
import StatementQuery.Proofs.RenamedRuns
import StatementQuery.Proofs.RenamedVariants
import StatementQuery.Proofs.Renaming
import StatementQuery.Proofs.Reorderings
import StatementQuery.Proofs.RowDecoding
import StatementQuery.Proofs.SolvedForms
import StatementQuery.Proofs.SolverEvaluation
import StatementQuery.Proofs.SolverSteps
import StatementQuery.Proofs.SolverTermination
import StatementQuery.Proofs.StatementPatterns
import StatementQuery.Proofs.Substitution
import StatementQuery.Proofs.TemplateInstances
import StatementQuery.Proofs.Templates
import StatementQuery.Proofs.TermPreservation
import StatementQuery.Proofs.UnifierCompleteness
import StatementQuery.Proofs.UnifierSoundness
import StatementQuery.Proofs.ValueMasks
import StatementQuery.Proofs.VariableCapture
import StatementQuery.Proofs.WellFormed
import StatementQuery.Proofs.WikidataColumns
import StatementQuery.Proofs.WikidataEntries
import StatementQuery.Proofs.WikidataFailures
import StatementQuery.Proofs.WikidataMasks
import StatementQuery.Proofs.WikidataPlans
import StatementQuery.Proofs.WikidataPredicates
import StatementQuery.Proofs.WikidataRoundTrip
import StatementQuery.Proofs.WikidataValues
import StatementQuery.Proofs.WrittenPatterns
import StatementQuery.Proofs.WrittenInstants
import StatementQuery.Proofs.ColumnValues
import StatementQuery.Proofs.UniversalTime
