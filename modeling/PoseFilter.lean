import PoseFilter.Scalar
import PoseFilter.Scalar.Floating
import PoseFilter.Vec3
import PoseFilter.Quaternion
import PoseFilter.Rotation
import PoseFilter.Mat.Basic
import PoseFilter.Mat.Cholesky
import PoseFilter.Mat.Definite
import PoseFilter.Mat.Jacobi
import PoseFilter.Decimal.Shortest
import PoseFilter.Decimal.Layout
import PoseFilter.Decimal.Read
import PoseFilter.FilterError
import PoseFilter.State
import PoseFilter.PoseState
import PoseFilter.Motion
import PoseFilter.Measurement
import PoseFilter.Unscented.Weights
import PoseFilter.Unscented.SigmaPoints
import PoseFilter.Unscented.Correction
import PoseFilter.Prediction
import PoseFilter.Tracker.Config
import PoseFilter.Tracker.Basic
import PoseFilter.Random.Layers
import PoseFilter.Random.Stream
import PoseFilter.Random.Source
import PoseFilter.Document.Value
import PoseFilter.Document.Moment
import PoseFilter.Document.Lexer
import PoseFilter.Document.Parse
import PoseFilter.Document.Print
import PoseFilter.Scenario.Basic
import PoseFilter.Scenario.Tree
import PoseFilter.Scenario.Text
import PoseFilter.Simulation.Schedule
import PoseFilter.Simulation.Truth
import PoseFilter.Simulation.Sensor
import PoseFilter.Simulation.ErrorStats
import PoseFilter.Simulation.Run
import PoseFilter.Journal
import PoseFilter.CommandLine
import PoseFilter.Main
import PoseFilter.Proofs.Results
import PoseFilter.Proofs.Exact
import PoseFilter.Proofs.Factor
import PoseFilter.Proofs.Semidefinite
import PoseFilter.Proofs.SigmaPoints
import PoseFilter.Proofs.Innovation
import PoseFilter.Proofs.Correction
import PoseFilter.Proofs.RotationMaps
import PoseFilter.Proofs.Transitions
import PoseFilter.Proofs.Readings
import PoseFilter.Proofs.KalmanForm
import PoseFilter.Proofs.Prediction
import PoseFilter.Proofs.Soundness
import PoseFilter.Proofs.Doubles
import PoseFilter.Proofs.Sequencing
import PoseFilter.Proofs.Phases
import PoseFilter.Proofs.Criterion
import PoseFilter.Proofs.Asymmetry
import PoseFilter.Proofs.History
import PoseFilter.Proofs.Blame
import PoseFilter.Proofs.Nearest
import PoseFilter.Proofs.Rounding
import PoseFilter.Proofs.Overflow
import PoseFilter.Proofs.Gate
import PoseFilter.Proofs.Retraction
import PoseFilter.Proofs.Recovery
import PoseFilter.Proofs.NoiseOrder
import PoseFilter.Proofs.Symmetry
import PoseFilter.Proofs.Frames
import PoseFilter.Proofs.DoubleCover
import PoseFilter.Proofs.RoundTrip
import PoseFilter.Proofs.Antipode
import PoseFilter.Proofs.SineQuotients
import PoseFilter.Proofs.Angle
import PoseFilter.Proofs.Diffusion
import PoseFilter.Proofs.Coasting
import PoseFilter.Proofs.Idle
import PoseFilter.Proofs.TrueMotion
import PoseFilter.Proofs.Simultaneous
import PoseFilter.Proofs.Schedules
import PoseFilter.Proofs.Draining
import PoseFilter.Proofs.Firings
import PoseFilter.Proofs.Runs
import PoseFilter.Proofs.Setup
import PoseFilter.Proofs.Progress
import PoseFilter.Proofs.StepTimes
import PoseFilter.Proofs.Validation
import PoseFilter.Proofs.Statistics
import PoseFilter.Proofs.CommonNumbers
import PoseFilter.Proofs.Euler
import PoseFilter.Proofs.Layering
import PoseFilter.Proofs.Reloading
