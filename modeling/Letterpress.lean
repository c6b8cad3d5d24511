import Letterpress.Build.Arguments
import Letterpress.Build.Glob
import Letterpress.Build.Manifest
import Letterpress.Build.Run
import Letterpress.Compile.Document
import Letterpress.Compile.Fault
import Letterpress.Compile.Input
import Letterpress.Compile.Reference
import Letterpress.Compile.Template
import Letterpress.Compile.Tracked
import Letterpress.Compile.Workbench
import Letterpress.Css.Quoted
import Letterpress.Css.SelectorText
import Letterpress.Css.Sheet
import Letterpress.Css.Span
import Letterpress.Css.Token
import Letterpress.Css.Value
import Letterpress.Data.Assign
import Letterpress.Data.Json
import Letterpress.Data.Value
import Letterpress.Decimal.Binary64
import Letterpress.Fault.Kind
import Letterpress.Files.FilePath
import Letterpress.Files.Store
import Letterpress.Include.Conditional
import Letterpress.Include.InTurn
import Letterpress.Include.Parameter
import Letterpress.Log.Configuration
import Letterpress.Log.Entry
import Letterpress.Log.Message
import Letterpress.Log.Record
import Letterpress.Main
import Letterpress.Markup.Address
import Letterpress.Markup.Assembly
import Letterpress.Markup.Entity
import Letterpress.Markup.Event
import Letterpress.Markup.Lexeme
import Letterpress.Markup.LinkClosing
import Letterpress.Markup.Minified
import Letterpress.Markup.Namespace
import Letterpress.Markup.Node
import Letterpress.Markup.Parse
import Letterpress.Markup.Prefixes
import Letterpress.Markup.Printed
import Letterpress.Markup.Reference
import Letterpress.Markup.StartTag
import Letterpress.Markup.Vocabulary
import Letterpress.Markup.WrittenName
import Letterpress.Page.Arguments
import Letterpress.Page.Check
import Letterpress.Page.Datum
import Letterpress.Page.Evaluate
import Letterpress.Page.Fault
import Letterpress.Page.Fill
import Letterpress.Page.Grammar
import Letterpress.Page.ItemFilter
import Letterpress.Page.Method
import Letterpress.Page.Misuse
import Letterpress.Page.Operator
import Letterpress.Page.Render
import Letterpress.Page.Syntax
import Letterpress.Page.TextFilter
import Letterpress.Page.Token
import Letterpress.Proofs.Build.Canonical
import Letterpress.Proofs.Build.Current
import Letterpress.Proofs.Build.FirstBuild
import Letterpress.Proofs.Build.Found
import Letterpress.Proofs.Build.History
import Letterpress.Proofs.Build.Isolation
import Letterpress.Proofs.Build.ManifestText
import Letterpress.Proofs.Build.Progress
import Letterpress.Proofs.Build.Project
import Letterpress.Proofs.Build.Results
import Letterpress.Proofs.Build.Runs
import Letterpress.Proofs.Build.SavedManifest
import Letterpress.Proofs.Build.Search
import Letterpress.Proofs.Build.Turns
import Letterpress.Proofs.Build.UpToDate
import Letterpress.Proofs.Compile.Alike
import Letterpress.Proofs.Compile.Composition
import Letterpress.Proofs.Compile.Dependencies
import Letterpress.Proofs.Compile.Doctypes
import Letterpress.Proofs.Compile.EntryPoints
import Letterpress.Proofs.Compile.Expressions
import Letterpress.Proofs.Compile.Finishing
import Letterpress.Proofs.Compile.Markers
import Letterpress.Proofs.Compile.MetaData
import Letterpress.Proofs.Compile.Moved
import Letterpress.Proofs.Compile.Quiet
import Letterpress.Proofs.Compile.Recompile
import Letterpress.Proofs.Compile.Relocation
import Letterpress.Proofs.Compile.Reported
import Letterpress.Proofs.Compile.Seams
import Letterpress.Proofs.Compile.Sections
import Letterpress.Proofs.Compile.SelfContained
import Letterpress.Proofs.Compile.Stages
import Letterpress.Proofs.Compile.Tiers
import Letterpress.Proofs.Css.BlankSheet
import Letterpress.Proofs.Css.Readers
import Letterpress.Proofs.Css.Seam
import Letterpress.Proofs.Css.WholeRules
import Letterpress.Proofs.Data.Assign
import Letterpress.Proofs.Data.JsonGrammar
import Letterpress.Proofs.Data.JsonText
import Letterpress.Proofs.Files.Below
import Letterpress.Proofs.Files.Change
import Letterpress.Proofs.Files.Difference
import Letterpress.Proofs.Files.Readable
import Letterpress.Proofs.Files.Spelled
import Letterpress.Proofs.Files.Tree
import Letterpress.Proofs.Files.Writable
import Letterpress.Proofs.Include.AttributeValues
import Letterpress.Proofs.Include.CommentEnd
import Letterpress.Proofs.Include.CommentTags
import Letterpress.Proofs.Include.Contributed
import Letterpress.Proofs.Include.InTurn
import Letterpress.Proofs.Include.Inserted
import Letterpress.Proofs.Include.Revised
import Letterpress.Proofs.Include.Substituted
import Letterpress.Proofs.Log.Lines
import Letterpress.Proofs.Markup.Assembled
import Letterpress.Proofs.Markup.Attributes
import Letterpress.Proofs.Markup.ClosedLinks
import Letterpress.Proofs.Markup.Declared
import Letterpress.Proofs.Markup.Displayed
import Letterpress.Proofs.Markup.Doctypes
import Letterpress.Proofs.Markup.Edited
import Letterpress.Proofs.Markup.Forest
import Letterpress.Proofs.Markup.Held
import Letterpress.Proofs.Markup.Identifiers
import Letterpress.Proofs.Markup.LinkGrammar
import Letterpress.Proofs.Markup.Meaning
import Letterpress.Proofs.Markup.Name
import Letterpress.Proofs.Markup.Normalized
import Letterpress.Proofs.Markup.Numbers
import Letterpress.Proofs.Markup.Outline
import Letterpress.Proofs.Markup.PairedLinks
import Letterpress.Proofs.Markup.PlainTree
import Letterpress.Proofs.Markup.PrefixSearch
import Letterpress.Proofs.Markup.RawText
import Letterpress.Proofs.Markup.ReadDoctype
import Letterpress.Proofs.Markup.ReadDocument
import Letterpress.Proofs.Markup.ReadTag
import Letterpress.Proofs.Markup.ReadText
import Letterpress.Proofs.Markup.ReadTree
import Letterpress.Proofs.Markup.Reprinted
import Letterpress.Proofs.Markup.Site
import Letterpress.Proofs.Markup.Stable
import Letterpress.Proofs.Markup.TakenText
import Letterpress.Proofs.Markup.UsedPrefixes
import Letterpress.Proofs.References.Alike
import Letterpress.Proofs.References.Asked
import Letterpress.Proofs.References.Doctypes
import Letterpress.Proofs.References.Expansion
import Letterpress.Proofs.References.Nested
import Letterpress.Proofs.References.Pass
import Letterpress.Proofs.References.Passed
import Letterpress.Proofs.References.Termination
import Letterpress.Proofs.References.Walk
import Letterpress.Proofs.Source.Construct
import Letterpress.Proofs.Source.Doctype
import Letterpress.Proofs.Source.Documents
import Letterpress.Proofs.Source.Lexemes
import Letterpress.Proofs.Source.LineEnds
import Letterpress.Proofs.Source.Links
import Letterpress.Proofs.Source.Outline
import Letterpress.Proofs.Source.Reading
import Letterpress.Proofs.Source.References
import Letterpress.Proofs.Source.Tags
import Letterpress.Proofs.Style.Merged
import Letterpress.Proofs.Style.Precedence
import Letterpress.Proofs.Style.Sheets
import Letterpress.Proofs.Style.Tables
import Letterpress.Proofs.Text.Scan
import Letterpress.Proofs.Xml.BareLinks
import Letterpress.Proofs.Xml.Glyph
import Letterpress.Proofs.Xml.Namespaces
import Letterpress.Proofs.Xml.Prefixes
import Letterpress.Proofs.Xml.Reading
import Letterpress.Proofs.Xml.RootTag
import Letterpress.Proofs.Xml.Tree
import Letterpress.Selector.Match
import Letterpress.Selector.Parse
import Letterpress.Selector.Piece
import Letterpress.Selector.Place
import Letterpress.Selector.Scan
import Letterpress.Selector.Syntax
import Letterpress.Settings.Basic
import Letterpress.Settings.VariableFile
import Letterpress.Style.Inline
import Letterpress.Style.Table
import Letterpress.Text.Blank
import Letterpress.Text.Case
import Letterpress.Text.Piece
import Letterpress.Text.Printable
import Letterpress.Text.Search
import Letterpress.Text.WordChar
