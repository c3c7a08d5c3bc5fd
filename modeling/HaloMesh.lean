import HaloMesh.Command.Directory
import HaloMesh.Command.Line
import HaloMesh.Difference.Matrix
import HaloMesh.Difference.Spectral
import HaloMesh.Field.Store
import HaloMesh.Field.Vector
import HaloMesh.Index.Partition
import HaloMesh.Index.Segments
import HaloMesh.Main
import HaloMesh.Mesh.Derivative
import HaloMesh.Mesh.Exchange
import HaloMesh.Mesh.Load
import HaloMesh.Metric.Geometry
import HaloMesh.Operator.Calculus
import HaloMesh.Parameters.Reader
import HaloMesh.Session
import HaloMesh.Topology
import HaloMesh.Transform
import HaloMesh.Transport.MailCall
import HaloMesh.Transport.World
import HaloMesh.Proofs.MailHistory
import HaloMesh.Proofs.BalancedPieces
import HaloMesh.Proofs.Interleaving
import HaloMesh.Proofs.RowConnections
import HaloMesh.Proofs.Arrivals
import HaloMesh.Proofs.BlockLinks
import HaloMesh.Proofs.CallPairing
import HaloMesh.Proofs.StagedValues
import HaloMesh.Proofs.FailedExchange
import HaloMesh.Proofs.FieldPoints
import HaloMesh.Proofs.LineDerivatives
import HaloMesh.Proofs.OffAxisDerivative
import HaloMesh.Proofs.SplitIndependence
import HaloMesh.Proofs.GuardAgreement
import HaloMesh.Proofs.RequestPairing
import HaloMesh.Proofs.FluxConservation
import HaloMesh.Proofs.FieldLineMeans
import HaloMesh.Proofs.RowOrbits
import HaloMesh.Proofs.GridVariables
import HaloMesh.Proofs.RepeatedSums
import HaloMesh.Proofs.VectorIdentities
import HaloMesh.Proofs.StencilMatrix
import HaloMesh.Proofs.PointwiseDerivatives
import HaloMesh.Proofs.SmoothnessWeights
import HaloMesh.Proofs.InterpolationOrder
import HaloMesh.Proofs.MixedFrames
import HaloMesh.Proofs.MetricCompatibility
import HaloMesh.Proofs.LinearOperators
import HaloMesh.Proofs.MethodSettings
import HaloMesh.Proofs.SplitChoice
import HaloMesh.Proofs.ShiftedLines
import HaloMesh.Proofs.SeamCheck
import HaloMesh.Proofs.BuiltMetric
import HaloMesh.Proofs.JointCoordinates
import HaloMesh.Proofs.WalkHistory
import HaloMesh.Proofs.OwnerSearch
import HaloMesh.Proofs.MailLog
import HaloMesh.Proofs.VectorForms
import HaloMesh.Proofs.ParametersFile
