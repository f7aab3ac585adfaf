import CodeAtlas.Text.Blank
import CodeAtlas.Text.Bytes
import CodeAtlas.Text.Word
import CodeAtlas.Syntax.Parser
import CodeAtlas.Syntax.Python
import CodeAtlas.Pattern.Search
import CodeAtlas.Pattern.Reader
import CodeAtlas.Language
import CodeAtlas.Catalogue
import CodeAtlas.Capture
import CodeAtlas.Entity.Kind
import CodeAtlas.Table
import CodeAtlas.Entity
import CodeAtlas.Forest
import CodeAtlas.Record
import CodeAtlas.Record.Reader
import CodeAtlas.Names
import CodeAtlas.Import.Resolver
import CodeAtlas.Import.Draft
import CodeAtlas.Uses
import CodeAtlas.Extraction
import CodeAtlas.Index
import CodeAtlas.Command
import CodeAtlas.Main
import CodeAtlas.Proofs.Forest.Edges
import CodeAtlas.Proofs.Forest.Relate
import CodeAtlas.Proofs.Extraction.Placement
import CodeAtlas.Proofs.Forest.UniqueIds
import CodeAtlas.Proofs.FileTree
import CodeAtlas.Proofs.Forest.Finish
import CodeAtlas.Proofs.Extraction.Entities
import CodeAtlas.Proofs.Extraction.Tree
import CodeAtlas.Proofs.FilePaths
import CodeAtlas.Proofs.Index.Store
import CodeAtlas.Proofs.Index.Listing
import CodeAtlas.Proofs.Index.Counting
import CodeAtlas.Proofs.Index.Run
import CodeAtlas.Proofs.Index.Graph
import CodeAtlas.Proofs.Names
import CodeAtlas.Proofs.Names.Longest
import CodeAtlas.Proofs.Text.Renaming
import CodeAtlas.Proofs.Index.Scope
import CodeAtlas.Proofs.Index.Uncounted
import CodeAtlas.Proofs.Pattern
import CodeAtlas.Proofs.Import.Wildcards
import CodeAtlas.Proofs.Index.Imports
import CodeAtlas.Proofs.Index.Aliases
import CodeAtlas.Proofs.Text.Bytes
import CodeAtlas.Proofs.Text.Rows
import CodeAtlas.Proofs.Entity.Location
import CodeAtlas.Proofs.Entity.Redaction
import CodeAtlas.Proofs.Entity.CutBodies
import CodeAtlas.Proofs.Extraction.Rows
import CodeAtlas.Proofs.Uses
import CodeAtlas.Proofs.Import.Sorted
import CodeAtlas.Proofs.Index.Sight
import CodeAtlas.Proofs.Index.Recording
import CodeAtlas.Proofs.Index.Stages
import CodeAtlas.Proofs.Index.Reach
import CodeAtlas.Proofs.Index.Agreement
import CodeAtlas.Proofs.Index.Order
import CodeAtlas.Proofs.Index.Batch
import CodeAtlas.Proofs.Extraction.Exports
import CodeAtlas.Proofs.Syntax.Words
import CodeAtlas.Proofs.Syntax.C
import CodeAtlas.Proofs.Pattern.Spots
import CodeAtlas.Proofs.Survey.C
import CodeAtlas.Proofs.Extraction.Linkage
import CodeAtlas.Proofs.Index.Isolation
import CodeAtlas.Proofs.Index.Linkage
import CodeAtlas.Proofs.Import.Stems
import CodeAtlas.Proofs.Import.Blind
import CodeAtlas.Proofs.Import.Repetition
import CodeAtlas.Proofs.NormalPaths
import CodeAtlas.Proofs.Import.Relative
import CodeAtlas.Proofs.Import.Soundness
import CodeAtlas.Proofs.Index.Summary
import CodeAtlas.Proofs.Index.Fixpoint
import CodeAtlas.Proofs.Index.Languages
import CodeAtlas.Proofs.Text.Runs
import CodeAtlas.Proofs.Text.Members
import CodeAtlas.Proofs.Uses.Windows
import CodeAtlas.Proofs.Uses.Copies
import CodeAtlas.Proofs.Uses.Rows
import CodeAtlas.Proofs.Uses.RightSides
import CodeAtlas.Proofs.Uses.Callees
import CodeAtlas.Proofs.Forest.Edits
import CodeAtlas.Proofs.Forest.Degrees
import CodeAtlas.Proofs.Forest.Acyclic
import CodeAtlas.Proofs.Forest.FinalIds
import CodeAtlas.Proofs.Extraction.Visibility
import CodeAtlas.Proofs.Json
import CodeAtlas.Proofs.Record
import CodeAtlas.Proofs.Settings
import CodeAtlas.Proofs.Extraction.Offers
import CodeAtlas.Proofs.Extraction.Nesting
import CodeAtlas.Proofs.Sorting
import CodeAtlas.Proofs.Uses.Owners
import CodeAtlas.Proofs.Extraction.Outcomes
import CodeAtlas.Proofs.Extraction.Methods
import CodeAtlas.Proofs.Extraction.Headers
import CodeAtlas.Proofs.Survey.Order
import CodeAtlas.Proofs.Extraction.Docstrings
import CodeAtlas.Proofs.Import.Grouping
import CodeAtlas.Proofs.Import.Growth
import CodeAtlas.Proofs.Index.OwnNames
import CodeAtlas.Proofs.Relocation.Paths
import CodeAtlas.Proofs.PathAlgebra
import CodeAtlas.Proofs.Relocation.Extraction
import CodeAtlas.Proofs.Relocation.Scope
import CodeAtlas.Proofs.Relocation.Index
import CodeAtlas.Proofs.Relocation.Resolving
import CodeAtlas.Proofs.Walk.Roots
import CodeAtlas.Proofs.Walk.Files
import CodeAtlas.Proofs.Walk.Spelling
import CodeAtlas.Proofs.Glob
import CodeAtlas.Proofs.Exclusion
