import DynamicSql.Decimal.Binary
import DynamicSql.Decimal.Literal
import DynamicSql.Decimal.Shortest
import DynamicSql.Expression.Basic
import DynamicSql.Expression.Evaluation
import DynamicSql.Expression.Parser
import DynamicSql.Expression.Token
import DynamicSql.Mapper.Discovery
import DynamicSql.Mapper.FileTree
import DynamicSql.Mapper.Registry
import DynamicSql.Markup.Element
import DynamicSql.Markup.Name
import DynamicSql.Markup.Text
import DynamicSql.Markup.Token
import DynamicSql.Parameter.Context
import DynamicSql.Parameter.Conversion
import DynamicSql.Parameter.Entries
import DynamicSql.Parameter.Json
import DynamicSql.Parameter.Number
import DynamicSql.Parameter.Path
import DynamicSql.Parameter.Value
import DynamicSql.Proofs.Effects
import DynamicSql.Proofs.Mapper.Catalog
import DynamicSql.Proofs.Mapper.RegistryRun
import DynamicSql.Proofs.Parameter.NumberText
import DynamicSql.Proofs.Sql.LexicalMode
import DynamicSql.Proofs.Sql.LiteralForm
import DynamicSql.Proofs.Sql.QuotedString
import DynamicSql.Proofs.Template.ClauseTrim
import DynamicSql.Proofs.Template.Execution
import DynamicSql.Proofs.Template.FragmentTree
import DynamicSql.Proofs.Template.Layout
import DynamicSql.Proofs.Template.ParallelTexts
import DynamicSql.Sql.Flavor
import DynamicSql.Sql.Literal
import DynamicSql.Template.Body
import DynamicSql.Template.Error
import DynamicSql.Template.Fragment
import DynamicSql.Template.Marker
import DynamicSql.Template.Rendering
import DynamicSql.Template.Statement
import DynamicSql.Template.Trim
import DynamicSql.Text.Alphanumeric
import DynamicSql.Text.Blank
import DynamicSql.Proofs.Mapper.Batch
import DynamicSql.Proofs.Expression.Grammar
import DynamicSql.Proofs.Expression.Reading
import DynamicSql.Proofs.Expression.Acceptance
import DynamicSql.Proofs.Template.BodyFragments
import DynamicSql.Proofs.Template.WellFormed
import DynamicSql.Proofs.Mapper.Elements
import DynamicSql.Proofs.Mapper.Acceptance
import DynamicSql.Proofs.Mapper.Splicing
import DynamicSql.Proofs.Expression.HeadNames
import DynamicSql.Proofs.Template.TwoRuns
import DynamicSql.Proofs.Template.Noninterference
import DynamicSql.Proofs.Template.OptionIndependence
import DynamicSql.Proofs.Template.Scopes
import DynamicSql.Proofs.Markup.Lexing
import DynamicSql.Proofs.Markup.Content
import DynamicSql.Proofs.Markup.Document
import DynamicSql.Proofs.Markup.TextTail
import DynamicSql.Proofs.Template.SameContent
import DynamicSql.Proofs.Mapper.StoredSource
import DynamicSql.Proofs.Expression.TokenEnd
import DynamicSql.Proofs.Sql.BackslashString
import DynamicSql.Proofs.Expression.Composition
import DynamicSql.Proofs.Parameter.Shape
import DynamicSql.Proofs.Template.TrimPlaces
import DynamicSql.Proofs.Template.PreparedText
import DynamicSql.Proofs.Template.QuotedRuns
import DynamicSql.Proofs.Template.PlainText
import DynamicSql.Proofs.Mapper.AdHocTemplate
import DynamicSql.Proofs.Parameter.PathGrammar
import DynamicSql.Proofs.Template.IncludeStack
import DynamicSql.Proofs.Template.CircularInclude
import DynamicSql.Proofs.Mapper.IncludeCircles
import DynamicSql.Proofs.Template.MarkerSplit
import DynamicSql.Proofs.Template.MarkerPath
import DynamicSql.Proofs.Expression.QuotedKey
import DynamicSql.Proofs.Template.LoopRun
import DynamicSql.Proofs.Template.ContextRun
import DynamicSql.Proofs.Expression.Meanings
import DynamicSql.Proofs.Expression.NullSafety
import DynamicSql.Proofs.Parameter.IntegerCasts
import DynamicSql.Proofs.Parameter.IntegerText
import DynamicSql.Proofs.Expression.IntegerComparison
import DynamicSql.Proofs.Sql.EscapeTable
import DynamicSql.Proofs.Parameter.NumericText
import DynamicSql.Proofs.Expression.PathEnd
import DynamicSql.Proofs.Expression.Spelling
import DynamicSql.Proofs.Parameter.IntegerKinds
import DynamicSql.Proofs.Expression.PairedContexts
import DynamicSql.Proofs.Template.PairedRuns
import DynamicSql.Proofs.Template.IntegerKinds
import DynamicSql.Proofs.Markup.JoinedTexts
import DynamicSql.Proofs.Mapper.NormalForm
import DynamicSql.Proofs.Mapper.SnippetOrder
import DynamicSql.Proofs.Template.TrimRemains
import DynamicSql.Proofs.Template.Pruning
import DynamicSql.Proofs.Mapper.UnknownTags
import DynamicSql.Proofs.Mapper.NamePattern
import DynamicSql.Proofs.Mapper.PathComponents
import DynamicSql.Proofs.Mapper.FileSearch
import DynamicSql.Proofs.Parameter.ScopeStack
import DynamicSql.Proofs.Template.ScopeEvents
import DynamicSql.Proofs.Text.ByteOffset
import DynamicSql.Proofs.Template.TrimBytes
