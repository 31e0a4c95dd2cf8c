import RasterScript.Bounds
import RasterScript.CommandLine
import RasterScript.Container
import RasterScript.Engine
import RasterScript.Error
import RasterScript.FileStore
import RasterScript.Filter.Apply
import RasterScript.Filter.Blur
import RasterScript.Filter.Color
import RasterScript.Filter.Convolve
import RasterScript.Filter.Neighbourhood
import RasterScript.Filter.Region
import RasterScript.Filter.Scale
import RasterScript.Filter.Turn
import RasterScript.Image
import RasterScript.Json.Reader
import RasterScript.Json.Value
import RasterScript.Main
import RasterScript.Number.Binary
import RasterScript.Number.Decimal
import RasterScript.Number.Machine
import RasterScript.Number.Scaled
import RasterScript.Number.Shortest
import RasterScript.Operation.Basic
import RasterScript.Operation.Dump
import RasterScript.Pipeline
import RasterScript.Png.Basic
import RasterScript.Png.Checksum
import RasterScript.Png.Inflate
import RasterScript.Proofs.Batch
import RasterScript.Proofs.CommandTable
import RasterScript.Proofs.Diagnostics
import RasterScript.Proofs.Dump
import RasterScript.Proofs.Ending
import RasterScript.Proofs.Failure
import RasterScript.Proofs.FileStore
import RasterScript.Proofs.History
import RasterScript.Proofs.JsonText
import RasterScript.Proofs.LineText
import RasterScript.Proofs.Modes
import RasterScript.Proofs.NumberText
import RasterScript.Proofs.Rendering
import RasterScript.Proofs.Replay
import RasterScript.Proofs.Rounding
import RasterScript.Proofs.Sizes
import RasterScript.Proofs.Symmetry
import RasterScript.Proofs.Terminated
import RasterScript.Proofs.Verdict
import RasterScript.Proofs.WatchFile
import RasterScript.Render
import RasterScript.Script.Arguments
import RasterScript.Script.Command
import RasterScript.Script.Line
import RasterScript.Script.Rejection
import RasterScript.Script.Standard
import RasterScript.Session
import RasterScript.Text.Blank
import RasterScript.Text.Split
import RasterScript.Text.Utf8
import RasterScript.Proofs.Ranges
import RasterScript.Proofs.Fields
import RasterScript.Proofs.LineEnds
import RasterScript.Proofs.Spelling
import RasterScript.Proofs.Transcript
import RasterScript.Proofs.NameOrder
import RasterScript.Proofs.TableHistory
import RasterScript.Proofs.Stages
import RasterScript.Proofs.Delivery
import RasterScript.Proofs.ExitStage
import RasterScript.Proofs.Composition
import RasterScript.Proofs.Filters
import RasterScript.Proofs.Samples
import RasterScript.Proofs.Equivariance
import RasterScript.Proofs.Locality
import RasterScript.Proofs.Runs
import RasterScript.Proofs.Refusals
import RasterScript.Proofs.Emptiness
import RasterScript.Proofs.Cropping
import RasterScript.Proofs.Centring
import RasterScript.Proofs.Pixels
import RasterScript.Proofs.Disks
import RasterScript.Proofs.Morphology
import RasterScript.Proofs.Means
import RasterScript.Proofs.Blocks
import RasterScript.Proofs.Monotone
import RasterScript.Proofs.Weights
import RasterScript.Proofs.Averages
import RasterScript.Proofs.Mirroring
import RasterScript.Proofs.Recolouring
import RasterScript.Proofs.Resampling
