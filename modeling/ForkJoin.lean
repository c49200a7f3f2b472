import ForkJoin.Config.Document
import ForkJoin.Partition.Address
import ForkJoin.Proofs.Addressing
import ForkJoin.Proofs.Bailouts
import ForkJoin.Proofs.Build
import ForkJoin.Proofs.CallCounts
import ForkJoin.Proofs.Consultations
import ForkJoin.Proofs.Coverage
import ForkJoin.Proofs.Filter
import ForkJoin.Proofs.Layouts
import ForkJoin.Proofs.Map
import ForkJoin.Proofs.Paths
import ForkJoin.Proofs.Placements
import ForkJoin.Proofs.Progress
import ForkJoin.Proofs.Reading
import ForkJoin.Proofs.Reduce
import ForkJoin.Proofs.Regrouping
import ForkJoin.Proofs.Rejections
import ForkJoin.Proofs.Reports
import ForkJoin.Proofs.Scan
import ForkJoin.Proofs.Scatter
import ForkJoin.Proofs.Schedules
import ForkJoin.Proofs.Separation
import ForkJoin.Proofs.Sessions
import ForkJoin.Proofs.Stages
import ForkJoin.Proofs.Subviews
import ForkJoin.Proofs.Survivors
import ForkJoin.Proofs.Texts
import ForkJoin.Proofs.Validation
import ForkJoin.Proofs.Withholding
import ForkJoin.Proofs.Workloads
import ForkJoin.Proofs.Wrapping
