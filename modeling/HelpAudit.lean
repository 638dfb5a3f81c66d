import HelpAudit.Duration
import HelpAudit.Main
import HelpAudit.Proofs.NodeOrder
import HelpAudit.Proofs.ParameterFindings
import HelpAudit.Proofs.ByteOffsets
import HelpAudit.Proofs.TokenSpans
import HelpAudit.Proofs.Derivation
import HelpAudit.Proofs.SourceRanges
import HelpAudit.Proofs.ReadNodes
import HelpAudit.Proofs.TokenOwners
import HelpAudit.Proofs.LexChunks
import HelpAudit.Proofs.ParameterHelp
import HelpAudit.Proofs.DocumentedFunction
import HelpAudit.Proofs.JsonText
import HelpAudit.Proofs.AlignedTokens
import HelpAudit.Proofs.CommentTrivia
import HelpAudit.Proofs.TreeJson
import HelpAudit.Proofs.TreeText
import HelpAudit.Proofs.LexLocality
import HelpAudit.Proofs.QuotedText
import HelpAudit.Proofs.EvaluatedScripts
import HelpAudit.Proofs.SessionAccounts
import HelpAudit.Proofs.LexEnds
import HelpAudit.Proofs.LosslessTokens
import HelpAudit.Proofs.DerivedRuns
import HelpAudit.Proofs.MovedTokens
import HelpAudit.Proofs.MovedStatements
import HelpAudit.Proofs.TwinReadings
import HelpAudit.Proofs.StatementExcerpts
import HelpAudit.Proofs.DynamicFragment
import HelpAudit.Proofs.RuleNames
import HelpAudit.Proofs.EncodedText
import HelpAudit.Proofs.ScriptEncodings
import HelpAudit.Proofs.ReportAgreement
import HelpAudit.Proofs.CompleteLines
import HelpAudit.Proofs.DeclaredPatterns
import HelpAudit.Proofs.MaximalMunch
import HelpAudit.Proofs.RestyledRecords
import HelpAudit.Proofs.TreePresentation
import HelpAudit.Proofs.StatementBounds
import HelpAudit.Proofs.ParameterPieces
import HelpAudit.Proofs.HelpPlacement
import HelpAudit.Proofs.HelpSections
import HelpAudit.Proofs.ParameterComments
import HelpAudit.Proofs.LineLookup
import HelpAudit.Proofs.LinesAndColumns
import HelpAudit.Proofs.NodeSearch
import HelpAudit.Proofs.NodeEdges
import HelpAudit.Proofs.ListedParameters
import HelpAudit.Proofs.EncodedCommands
import HelpAudit.Proofs.ReportReadBack
import HelpAudit.Proofs.CorrectionRanges
import HelpAudit.Proofs.TomlStrings
import HelpAudit.Proofs.ConfigTrees
import HelpAudit.Proofs.TomlLines
import HelpAudit.Proofs.TomlTables
import HelpAudit.Proofs.YamlScalars
import HelpAudit.Proofs.YamlBlocks
import HelpAudit.Proofs.YamlStyles
import HelpAudit.Proofs.YamlValues
import HelpAudit.Proofs.YamlDocuments
import HelpAudit.Proofs.WrittenFiles
import HelpAudit.Proofs.SavedConfigs
import HelpAudit.Proofs.ColoredReports
import HelpAudit.Proofs.PathOrder
import HelpAudit.Proofs.SectionText
import HelpAudit.Proofs.TreeNumbers
import HelpAudit.Proofs.CollectedScripts
