import Iamf.Demuxer
import Iamf.Muxer
import Iamf.Obu.Probe
import Iamf.Proofs.Checked.Demuxer
import Iamf.Proofs.Checked.Items
import Iamf.Proofs.Checked.Writing
import Iamf.Proofs.Codec.Patched
import Iamf.Proofs.Codec.Reencoded
import Iamf.Proofs.Element.Reencoded
import Iamf.Proofs.Mix.Annotated
import Iamf.Proofs.Mix.Reencoded
import Iamf.Proofs.Obu.Fronts
import Iamf.Proofs.Parameter.Durations
import Iamf.Proofs.Ratio.Nearest
import Iamf.Proofs.Registry.ByHand
import Iamf.Proofs.Registry.Coherent
import Iamf.Proofs.Registry.Extended
import Iamf.Proofs.Registry.Failing
import Iamf.Proofs.Registry.Layered
import Iamf.Proofs.Stream.Accepted
import Iamf.Proofs.Stream.Blamed
import Iamf.Proofs.Stream.Framed
import Iamf.Proofs.Stream.Isolated
import Iamf.Proofs.Stream.Lookahead
import Iamf.Proofs.Stream.Openable
import Iamf.Proofs.Stream.Phases
import Iamf.Proofs.Stream.Progress
import Iamf.Proofs.Stream.Reencoded
import Iamf.Proofs.Stream.Resolved
import Iamf.Proofs.Stream.Schedules
import Iamf.Proofs.Stream.Snapshots
import Iamf.Proofs.Stream.Tightened
import Iamf.Proofs.Stream.Truncated
import Iamf.Proofs.Wire.Counts
