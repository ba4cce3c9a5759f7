import Raster.Image.Equality
import Raster.Expr.Text
import Raster.Json.Codec
import Raster.Statistics
import Raster.Storage.Lemmas
import Raster.Workspace
import Raster.Proofs.Success
import Raster.Proofs.Storage.Shape
import Raster.Proofs.Storage.Loop
import Raster.Proofs.Image.WellFormed
import Raster.Proofs.Image.Change
import Raster.Proofs.Workspace.Run
import Raster.Proofs.Workspace.Reachable
import Raster.Proofs.Image.Contents
import Raster.Proofs.View.Reading
import Raster.Proofs.View.Window
import Raster.Proofs.View.Chain
import Raster.Proofs.Expr.Leaves
import Raster.Proofs.Expr.Fusion
import Raster.Proofs.Expr.InPlace
import Raster.Proofs.Storage.Refinement
import Raster.Proofs.Agreement
import Raster.Proofs.View.Compact
import Raster.Proofs.Expr.Sources
import Raster.Proofs.Image.Visible
import Raster.Proofs.Workspace.Visible
import Raster.Proofs.Expr.Crop
import Raster.Proofs.Expr.Context
import Raster.Proofs.Image.Refusal
import Raster.Proofs.Expr.Totality
import Raster.Proofs.Workspace.Failure
import Raster.Proofs.Image.Conversion
import Raster.Proofs.Grid.Layout
import Raster.Proofs.Binary.Value
import Raster.Proofs.Grid.Requirements
import Raster.Proofs.Grid.Lattice
import Raster.Proofs.Geometry.Pixels
import Raster.Proofs.Grid.Coverage
import Raster.Proofs.Binary.Rounding
import Raster.Proofs.Expr.Size
import Raster.Proofs.View.Nesting
import Raster.Proofs.Storage.Exposure
import Raster.Proofs.Pixel.Words
import Raster.Proofs.Expr.Polynomial
import Raster.Proofs.Image.Access
import Raster.Proofs.Image.Equality
import Raster.Proofs.Pixel.Order
import Raster.Proofs.Statistics.Range
import Raster.Proofs.Statistics.Stretch
import Raster.Proofs.Channels.Planes
import Raster.Proofs.Channels.Grayscale
import Raster.Proofs.Geometry.Containment
import Raster.Proofs.Geometry.Corners
import Raster.Proofs.Image.Records
import Raster.Proofs.Text.Lines
import Raster.Proofs.Image.Preview
import Raster.Proofs.Json.Grammar
import Raster.Proofs.Json.Fields
import Raster.Proofs.Json.Written
import Raster.Proofs.Binary.Integer
import Raster.Proofs.Json.Geometry
import Raster.Proofs.Pixel.Chains
import Raster.Proofs.Binary.Distance
import Raster.Proofs.Decimal.Interval
import Raster.Proofs.Decimal.Shortest
import Raster.Proofs.Binary.Error
import Raster.Proofs.Json.Number
import Raster.Proofs.Json.Reading
import Raster.Proofs.Json.GridOptions
