import StridedArray.Arithmetic
import StridedArray.Binary64
import StridedArray.Buffer.Table
import StridedArray.Bytes
import StridedArray.Convolution.Loose
import StridedArray.Convolution.Params
import StridedArray.Convolution.Request
import StridedArray.Convolution.Window
import StridedArray.Counting
import StridedArray.Datum
import StridedArray.Datum.Operators
import StridedArray.Datum.Reading
import StridedArray.Decimal
import StridedArray.Device
import StridedArray.Element
import StridedArray.Element.Form
import StridedArray.Element.Held
import StridedArray.Element.Moment
import StridedArray.Element.Request
import StridedArray.Element.Source
import StridedArray.Element.SourceName
import StridedArray.Element.TimeUnit
import StridedArray.Executor
import StridedArray.Executor.Deferred
import StridedArray.Executor.Host
import StridedArray.Executor.Pool
import StridedArray.Expr
import StridedArray.Expr.Bounds
import StridedArray.Expr.Build
import StridedArray.Expr.Equality
import StridedArray.Expr.Evaluate
import StridedArray.Expr.Loose
import StridedArray.Expr.Lower
import StridedArray.Expr.Request
import StridedArray.Expr.Sharing
import StridedArray.Expr.Traverse
import StridedArray.Failure
import StridedArray.FloatFormat
import StridedArray.Kernel
import StridedArray.Lanes
import StridedArray.Lanes.Sharing
import StridedArray.Layout
import StridedArray.Layout.Address
import StridedArray.Layout.Move
import StridedArray.Layout.Request
import StridedArray.Layout.Select
import StridedArray.Layout.Stretch
import StridedArray.Readback
import StridedArray.Scalar
import StridedArray.Shape
import StridedArray.Shape.Loose
import StridedArray.Tensor.Contents
import StridedArray.Tensor.Convolution
import StridedArray.Tensor.Elementwise
import StridedArray.Tensor.Movement
import StridedArray.Tensor.Readback
import StridedArray.Tensor.Reduction
import StridedArray.Tensor.Session
import StridedArray.Tensor.Source
import StridedArray.Tensor.Upload
import StridedArray.Text
import StridedArray.Text.Digit
import StridedArray.Text.Grid
import StridedArray.Text.Numeral
import StridedArray.Text.Visible
import StridedArray.View
import StridedArray.View.Loose
import StridedArray.Proofs.Box
import StridedArray.Proofs.Convolution.Adjoint
import StridedArray.Proofs.Convolution.Axes
import StridedArray.Proofs.Convolution.Invalid
import StridedArray.Proofs.Convolution.Operands
import StridedArray.Proofs.Convolution.SamePadding
import StridedArray.Proofs.Convolution.Settled
import StridedArray.Proofs.Convolution.Shapes
import StridedArray.Proofs.Convolution.Taps
import StridedArray.Proofs.Convolution.Transposed
import StridedArray.Proofs.Convolution.Windows
import StridedArray.Proofs.Datum
import StridedArray.Proofs.Element.Numbers
import StridedArray.Proofs.Executor.Accounts
import StridedArray.Proofs.Executor.Agreement
import StridedArray.Proofs.Executor.Atomicity
import StridedArray.Proofs.Executor.Branches
import StridedArray.Proofs.Executor.Commands
import StridedArray.Proofs.Executor.EmptyViews
import StridedArray.Proofs.Executor.Independence
import StridedArray.Proofs.Executor.Limits
import StridedArray.Proofs.Executor.Offsets
import StridedArray.Proofs.Executor.Outputs
import StridedArray.Proofs.Executor.Progress
import StridedArray.Proofs.Executor.Rejections
import StridedArray.Proofs.Executor.Schedules
import StridedArray.Proofs.Executor.SlotBindings
import StridedArray.Proofs.Executor.Synchronization
import StridedArray.Proofs.Executor.Worker
import StridedArray.Proofs.Expr.Arithmetic
import StridedArray.Proofs.Expr.Bindings
import StridedArray.Proofs.Expr.Computed
import StridedArray.Proofs.Expr.ConstantFolding
import StridedArray.Proofs.Expr.Intervals
import StridedArray.Proofs.Expr.Lowering
import StridedArray.Proofs.Expr.Nodes
import StridedArray.Proofs.Expr.Points
import StridedArray.Proofs.Expr.Ranges
import StridedArray.Proofs.Expr.Scopes
import StridedArray.Proofs.Expr.Simplification
import StridedArray.Proofs.Expr.Substitution
import StridedArray.Proofs.Expr.Threading
import StridedArray.Proofs.Expr.TypeSoundness
import StridedArray.Proofs.Expr.Values
import StridedArray.Proofs.Kernel.Accepted
import StridedArray.Proofs.Kernel.Elements
import StridedArray.Proofs.Kernel.Host
import StridedArray.Proofs.Kernel.Inputs
import StridedArray.Proofs.Kernel.Plan
import StridedArray.Proofs.Kernel.Products
import StridedArray.Proofs.Kernel.Rows
import StridedArray.Proofs.Kernel.Validation
import StridedArray.Proofs.Lanes.Bindings
import StridedArray.Proofs.Lanes.EmptyViews
import StridedArray.Proofs.Lanes.Failures
import StridedArray.Proofs.Lanes.Grids
import StridedArray.Proofs.Lanes.Operations
import StridedArray.Proofs.Lanes.Reads
import StridedArray.Proofs.Lanes.Simulation
import StridedArray.Proofs.Layout.Anchored
import StridedArray.Proofs.Layout.Broadcast
import StridedArray.Proofs.Layout.Built
import StridedArray.Proofs.Layout.CommonShapes
import StridedArray.Proofs.Layout.Folding
import StridedArray.Proofs.Layout.Guard
import StridedArray.Proofs.Layout.Landing
import StridedArray.Proofs.Layout.Moves
import StridedArray.Proofs.Layout.OffsetRange
import StridedArray.Proofs.Layout.Orders
import StridedArray.Proofs.Layout.Pooling
import StridedArray.Proofs.Layout.Reach
import StridedArray.Proofs.Layout.Rearrangements
import StridedArray.Proofs.Layout.Reshape
import StridedArray.Proofs.Layout.RowMajor
import StridedArray.Proofs.Layout.Selections
import StridedArray.Proofs.Layout.Shapes
import StridedArray.Proofs.Layout.Shows
import StridedArray.Proofs.Layout.Symbolic
import StridedArray.Proofs.Layout.Tiling
import StridedArray.Proofs.Layout.WellFormed
import StridedArray.Proofs.Layout.ZeroExtents
import StridedArray.Proofs.Outcome
import StridedArray.Proofs.Readback
import StridedArray.Proofs.Session.Arrays
import StridedArray.Proofs.Session.Balance
import StridedArray.Proofs.Session.Convolution
import StridedArray.Proofs.Session.Elements
import StridedArray.Proofs.Session.Elementwise
import StridedArray.Proofs.Session.Gradients
import StridedArray.Proofs.Session.Indexing
import StridedArray.Proofs.Session.InvalidRequests
import StridedArray.Proofs.Session.Operands
import StridedArray.Proofs.Session.Operations
import StridedArray.Proofs.Session.Programs
import StridedArray.Proofs.Session.Readback
import StridedArray.Proofs.Session.Reductions
import StridedArray.Proofs.Session.Runs
import StridedArray.Proofs.Session.Steps
import StridedArray.Proofs.Session.Transposable
import StridedArray.Proofs.View.Moves
import StridedArray.Proofs.View.Order
import StridedArray.Proofs.View.Reshape
import StridedArray.Proofs.View.Sound
import StridedArray.Proofs.Words
