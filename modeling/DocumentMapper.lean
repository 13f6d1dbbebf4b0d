import DocumentMapper.Document.Basic
import DocumentMapper.Document.Changes
import DocumentMapper.Document.Defaults
import DocumentMapper.Document.DirtyPaths
import DocumentMapper.Document.Validation
import DocumentMapper.Document.View
import DocumentMapper.Entries
import DocumentMapper.Error
import DocumentMapper.Filter.Conditions
import DocumentMapper.Filter.Expression
import DocumentMapper.Filter.Geometry
import DocumentMapper.Filter.Matching
import DocumentMapper.Filter.Operand
import DocumentMapper.Filter.TextOperator
import DocumentMapper.Json.Basic
import DocumentMapper.Json.Path
import DocumentMapper.Json.Printer
import DocumentMapper.Json.Reader
import DocumentMapper.Mapper.References
import DocumentMapper.Mapper.Save
import DocumentMapper.Mapper.Selection
import DocumentMapper.Mapper.Session
import DocumentMapper.Number.Binary64
import DocumentMapper.Number.Double
import DocumentMapper.Number.Layout
import DocumentMapper.Number.Rounding
import DocumentMapper.Number.Shortest
import DocumentMapper.Number.Whole
import DocumentMapper.Pattern.CharSet
import DocumentMapper.Pattern.Reader
import DocumentMapper.Pattern.Search
import DocumentMapper.Proofs.AlteredValues
import DocumentMapper.Proofs.AnsweredFilters
import DocumentMapper.Proofs.ArrayUpdates
import DocumentMapper.Proofs.AskedOnce
import DocumentMapper.Proofs.BatchedReferences
import DocumentMapper.Proofs.BuiltTypes
import DocumentMapper.Proofs.CalendarDays
import DocumentMapper.Proofs.CalendarOrder
import DocumentMapper.Proofs.ChangeTracking
import DocumentMapper.Proofs.ChangedPlaces
import DocumentMapper.Proofs.CleanSaves
import DocumentMapper.Proofs.CollectedMarks
import DocumentMapper.Proofs.CollectionUpdates
import DocumentMapper.Proofs.ComparedValues
import DocumentMapper.Proofs.Completion
import DocumentMapper.Proofs.ConditionLists
import DocumentMapper.Proofs.ConnectionStrings
import DocumentMapper.Proofs.ContainerParts
import DocumentMapper.Proofs.ContainerRules
import DocumentMapper.Proofs.Content
import DocumentMapper.Proofs.ContentEdit
import DocumentMapper.Proofs.Counters
import DocumentMapper.Proofs.DeclaredTypes
import DocumentMapper.Proofs.DeltaAgreement
import DocumentMapper.Proofs.DottedPaths
import DocumentMapper.Proofs.Drafts
import DocumentMapper.Proofs.EditClosure
import DocumentMapper.Proofs.EditsByPart
import DocumentMapper.Proofs.ElementMatches
import DocumentMapper.Proofs.EmbeddedPaths
import DocumentMapper.Proofs.EntriesLaws
import DocumentMapper.Proofs.EntryEffects
import DocumentMapper.Proofs.EntryOrder
import DocumentMapper.Proofs.EqualityOperands
import DocumentMapper.Proofs.EscapedNames
import DocumentMapper.Proofs.ExpressionTrees
import DocumentMapper.Proofs.FailedEntries
import DocumentMapper.Proofs.Faithfulness
import DocumentMapper.Proofs.FetchRounds
import DocumentMapper.Proofs.FilterPaths
import DocumentMapper.Proofs.FilterVerdicts
import DocumentMapper.Proofs.FirstRecord
import DocumentMapper.Proofs.FirstSave
import DocumentMapper.Proofs.FollowedEdits
import DocumentMapper.Proofs.GroupedValues
import DocumentMapper.Proofs.InstantOrder
import DocumentMapper.Proofs.InstantTexts
import DocumentMapper.Proofs.KeptByUpdates
import DocumentMapper.Proofs.KeywordConditions
import DocumentMapper.Proofs.LinkedDocuments
import DocumentMapper.Proofs.LinkedForms
import DocumentMapper.Proofs.ListUpdates
import DocumentMapper.Proofs.ListedValues
import DocumentMapper.Proofs.LiteralPatterns
import DocumentMapper.Proofs.LivePaths
import DocumentMapper.Proofs.Loading
import DocumentMapper.Proofs.Marks
import DocumentMapper.Proofs.MergedConditions
import DocumentMapper.Proofs.MergedUpdates
import DocumentMapper.Proofs.MissingParts
import DocumentMapper.Proofs.NamedPaths
import DocumentMapper.Proofs.NearestDoubles
import DocumentMapper.Proofs.NestingLimit
import DocumentMapper.Proofs.ObjectPaths
import DocumentMapper.Proofs.OneRound
import DocumentMapper.Proofs.OwnRecord
import DocumentMapper.Proofs.PatchEdits
import DocumentMapper.Proofs.PathLaws
import DocumentMapper.Proofs.PatternSearch
import DocumentMapper.Proofs.PolymorphicSets
import DocumentMapper.Proofs.PositionalSearch
import DocumentMapper.Proofs.Pruning
import DocumentMapper.Proofs.PulledItems
import DocumentMapper.Proofs.RecordKeys
import DocumentMapper.Proofs.ReferenceConditions
import DocumentMapper.Proofs.ReferencePositions
import DocumentMapper.Proofs.RenderedEntries
import DocumentMapper.Proofs.RepeatedEntries
import DocumentMapper.Proofs.ResolvedDocuments
import DocumentMapper.Proofs.ResolvedPaths
import DocumentMapper.Proofs.ResolvedReferences
import DocumentMapper.Proofs.Rewriting
import DocumentMapper.Proofs.RoundTrip
import DocumentMapper.Proofs.Runs
import DocumentMapper.Proofs.SameKeys
import DocumentMapper.Proofs.SameValues
import DocumentMapper.Proofs.SaveAtomicity
import DocumentMapper.Proofs.SaveStages
import DocumentMapper.Proofs.SavedTwice
import DocumentMapper.Proofs.ScalarComparisons
import DocumentMapper.Proofs.SeededRecords
import DocumentMapper.Proofs.Segments
import DocumentMapper.Proofs.SelectedPaths
import DocumentMapper.Proofs.SelfConsistentPatches
import DocumentMapper.Proofs.SeparateStorage
import DocumentMapper.Proofs.SettledForms
import DocumentMapper.Proofs.ShortestDigits
import DocumentMapper.Proofs.SingleUpdate
import DocumentMapper.Proofs.SortOrder
import DocumentMapper.Proofs.SortedEntries
import DocumentMapper.Proofs.SteadyDefaults
import DocumentMapper.Proofs.StoredDocuments
import DocumentMapper.Proofs.StoredEdit
import DocumentMapper.Proofs.StoredForms
import DocumentMapper.Proofs.StoredNumbers
import DocumentMapper.Proofs.StoredTrees
import DocumentMapper.Proofs.TextConditions
import DocumentMapper.Proofs.TopmostMarks
import DocumentMapper.Proofs.TracedDocuments
import DocumentMapper.Proofs.TrackedEdits
import DocumentMapper.Proofs.Tracking
import DocumentMapper.Proofs.TwoWriters
import DocumentMapper.Proofs.TypeHierarchy
import DocumentMapper.Proofs.UnmarkedForms
import DocumentMapper.Proofs.UnseenRules
import DocumentMapper.Proofs.UntypedValues
import DocumentMapper.Proofs.WrittenNumbers
import DocumentMapper.Proofs.WrittenPaths
import DocumentMapper.Proofs.WrittenValues
import DocumentMapper.Schema.Catalog
import DocumentMapper.Schema.Declaration
import DocumentMapper.Schema.FieldPath
import DocumentMapper.Settings
import DocumentMapper.Sorting
import DocumentMapper.Storage.Decoding
import DocumentMapper.Storage.Encoding
import DocumentMapper.Storage.Supply
import DocumentMapper.Store.Basic
import DocumentMapper.Store.Find
import DocumentMapper.Store.Update
import DocumentMapper.Text.Blank
import DocumentMapper.Text.Numeral
import DocumentMapper.Text.Quoted
import DocumentMapper.Text.Split
import DocumentMapper.Time.Calendar
import DocumentMapper.Time.Instant
import DocumentMapper.Unicode.Case
import DocumentMapper.Unicode.Category
import DocumentMapper.Unicode.Property
import DocumentMapper.Unicode.Ranges
import DocumentMapper.Unicode.Script
import DocumentMapper.Update.Application
import DocumentMapper.Update.Operations
import DocumentMapper.Value.Basic
import DocumentMapper.Value.Display
import DocumentMapper.Value.Equality
