import Jet3.Row.PageRefinement
import Jet3.Format.Text
import Jet3.Index.Key.TextWeights
import Jet3.Index.Key.LocaleTextWeights
import Jet3.Index.Key.Scalar
import Jet3.Index.Entry
import Jet3.Library.Search
import Jet3.Relationship.Key
import Jet3.Library.Worklist
import Jet3.Relationship.Cascade
import Jet3.Relationship.CascadeValidation
import Jet3.Relationship.CascadeDelete
import Jet3.Relationship.MutationCheck
import Jet3.Relationship.CascadeRequest
import Jet3.Relationship.CascadeLoad
import Jet3.Relationship.RestrictAgreement
import Jet3.Relationship.CascadeUpdate
import Jet3.Relationship.CascadeTermination
import Jet3.Relationship.Database
import Jet3.Relationship.CascadeParents
import Jet3.Library.PrefixCode
import Jet3.Index.Key.GeneralWeights
import Jet3.Index.Key.PrefixFree
import Jet3.Index.Key.Shape
import Jet3.Index.Key.TextShape
import Jet3.Index.Key.Accepted
import Jet3.Index.EntryShape
import Jet3.Index.KeyOrder
import Jet3.Index.Mutation
import Jet3.Index.MutationImage
import Jet3.Library.Lookup
import Jet3.Index.Key.Order
import Jet3.Index.EntryOrder
import Jet3.Library.Effect
import Jet3.Write.Atomic
import Jet3.Write.AtomicPublication
import Jet3.Library.Bitmap
import Jet3.Format.PageKind
import Jet3.Format.PageFile
import Jet3.Alloc.MapBits
import Jet3.Write.PageEdits
import Jet3.Alloc.MutationMap
import Jet3.Alloc.MutationMapGuard
import Jet3.Write.PageEditsSequence
import Jet3.Write.Overlay
import Jet3.Write.SequentialPublication
import Jet3.Library.Reader
import Jet3.Definition.Table
import Jet3.Definition.TablePages
import Jet3.Definition.Chain
import Jet3.Definition.Pieces
import Jet3.Definition.Sections
import Jet3.Schema.Definition
import Jet3.Schema.DefinitionStaging
import Jet3.Create.DefinitionPages
import Jet3.Schema.DefinitionRoundTrip
import Jet3.Create.Columns
import Jet3.Row.Layout
import Jet3.Definition.ColumnWriter
import Jet3.Definition.TableWriter
import Jet3.Definition.ColumnRoundTrip
import Jet3.Definition.IndexRoundTrip
import Jet3.Definition.RoundTrip
import Jet3.Library.Patch
import Jet3.Write.PageEditsMerge
import Jet3.Row.ReaderLayout
import Jet3.Row.Trailer
import Jet3.Row.LayoutBounds
import Jet3.Row.Writer
import Jet3.Row.Canonical
import Jet3.Format.DataPageBuilder
import Jet3.Row.Capacity
import Jet3.Library.Range
import Jet3.Properties.Blob
import Jet3.Properties.BlobRoundTrip
import Jet3.Library.Cursor
import Jet3.Alloc.MapPages
import Jet3.Alloc.Traverse
import Jet3.Alloc.UsageMapWriter
import Jet3.Alloc.MapRoundTrip
import Jet3.Schema.Map
import Jet3.Create.AllocationMaps
import Jet3.Alloc.MapAgreement
import Jet3.Validate.Storage
import Jet3.Validate.AllocationRoles
import Jet3.Validate.DisjointRoles
import Jet3.Index.TupleKey
import Jet3.Create.InitialIndex
import Jet3.Relationship.KeyValues
import Jet3.Library.Reach
import Jet3.Catalog.Record
import Jet3.Relationship.Groups
import Jet3.Relationship.Resolve
import Jet3.Relationship.Component
import Jet3.Relationship.ConnectedComponent
import Jet3.Catalog.NameComparison
import Jet3.Relationship.GroupNames
import Jet3.Relationship.Inventory
import Jet3.Relationship.ComponentOrder
import Jet3.Catalog.NameKey
import Jet3.Catalog.NameOrder
import Jet3.Library.Chunks
import Jet3.Format.DecodedText
import Jet3.LongValue.Writer
import Jet3.LongValue.Reader
import Jet3.Format.BuiltPage
import Jet3.LongValue.Stream
import Jet3.LongValue.RoundTrip
import Jet3.Properties.ValuePolicy
import Jet3.Create.InitialLongValues
import Jet3.Create.PayloadAgreement
import Jet3.Write.AutoNumber
import Jet3.Create.CreatedRows
import Jet3.Row.Shape
import Jet3.Library.Fields
import Jet3.Row.Written
import Jet3.Row.RoundTrip
import Jet3.Row.DecodedValue
import Jet3.Row.DecodedRow
import Jet3.Create.DecodedRows
import Jet3.Index.Tree.Builder
import Jet3.Index.Tree.Page
import Jet3.Index.Tree.Rows
import Jet3.Index.Tree.Reader
import Jet3.Index.Tree.Traversal
import Jet3.Index.Tree.NodeImage
import Jet3.Library.Tiling
import Jet3.Index.Tree.ReadImage
import Jet3.Index.Tree.Plan
import Jet3.Index.Tree.PlannedImage
import Jet3.Index.Tree.RoundTrip
import Jet3.Index.Tree.Stage
import Jet3.Index.Tree.StagedRun
