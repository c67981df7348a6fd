import Photoplot.Main
import Photoplot.Proofs.Overlay.Cut
import Photoplot.Proofs.Geometry.Extent
import Photoplot.Proofs.Plot.Operation
import Photoplot.Proofs.Plot.Region
import Photoplot.Proofs.Number.Decimal
import Photoplot.Proofs.Path.Reading
import Photoplot.Proofs.Path.Grammar
import Photoplot.Proofs.Plot.Subpaths
import Photoplot.Proofs.Layer.Grammar
import Photoplot.Proofs.Geometry.Sector
import Photoplot.Proofs.Plot.Round
import Photoplot.Proofs.Plot.Bounds
import Photoplot.Proofs.Scalar.Rounding
import Photoplot.Proofs.Layer.Bounds
import Photoplot.Proofs.Clearance.Thinning
import Photoplot.Proofs.Clearance.Kernel
import Photoplot.Proofs.Path.Involution
import Photoplot.Proofs.Binary64.Rounding
import Photoplot.Proofs.Binary64.Packing
import Photoplot.Proofs.Binary64.Sum
import Photoplot.Proofs.Plot.Objects
import Photoplot.Proofs.Layer.Inversion
import Photoplot.Proofs.Binary64.Quotient
import Photoplot.Proofs.Number.Shortest
import Photoplot.Proofs.Binary64.Scientific
import Photoplot.Proofs.Binary64.RoundTrip
import Photoplot.Proofs.Path.Steps
import Photoplot.Proofs.Path.Drawing
import Photoplot.Proofs.Scalar.Finite
import Photoplot.Proofs.Source.Coordinate
import Photoplot.Proofs.Template.Grammar
import Photoplot.Proofs.Template.Reading
import Photoplot.Proofs.Layer.Succession
import Photoplot.Proofs.Geometry.Translation
import Photoplot.Proofs.Plot.Translation
import Photoplot.Proofs.Plot.Shift
import Photoplot.Proofs.Plot.Chain
import Photoplot.Proofs.Plot.Agreement
import Photoplot.Proofs.Scalar.Length
import Photoplot.Proofs.Layer.Outline
import Photoplot.Proofs.Plot.Shorthand
import Photoplot.Proofs.Plot.Notation
import Photoplot.Proofs.Plot.Increments
import Photoplot.Proofs.Plot.Inches
import Photoplot.Proofs.Plot.Figures
import Photoplot.Proofs.Template.Variables
import Photoplot.Proofs.Clearance.Margin
import Photoplot.Proofs.Source.Field
import Photoplot.Proofs.Source.Word
import Photoplot.Proofs.Scalar.Counting
import Photoplot.Proofs.Source.Aperture
import Photoplot.Proofs.Source.WellFormed
import Photoplot.Proofs.Path.Spelling
import Photoplot.Proofs.Plot.Centerline
import Photoplot.Proofs.Plot.Width
import Photoplot.Proofs.Scalar.Scaling
import Photoplot.Proofs.Binary64.Range
import Photoplot.Proofs.Source.Range
import Photoplot.Proofs.Path.Words
import Photoplot.Proofs.Plot.Position
import Photoplot.Proofs.Plot.Frame
import Photoplot.Proofs.Plot.Resolve
import Photoplot.Proofs.Clearance.Simplified
import Photoplot.Proofs.Binary64.Interval
import Photoplot.Proofs.Binary64.Length
import Photoplot.Proofs.Geometry.Area
import Photoplot.Proofs.Geometry.Similarity
import Photoplot.Proofs.Template.Independence
import Photoplot.Proofs.Template.Placement
import Photoplot.Proofs.Binary64.Whole
import Photoplot.Proofs.Template.Outline
import Photoplot.Proofs.Source.Canonical
import Photoplot.Proofs.Geometry.BandArea
import Photoplot.Proofs.Plot.Extremes
import Photoplot.Proofs.Plot.Flash
import Photoplot.Proofs.Geometry.Sweep
import Photoplot.Proofs.Template.Evaluation
