import Veejay.EditList.RoundTrip
import Veejay.EditList.AsciiRoom
import Veejay.Vevo.Backings
import Veejay.Vevo.Index
import Veejay.Vevo.Pool
import Veejay.Vevo.RecursiveFree
import Veejay.Net.Confined
import Veejay.Net.Segments
import Veejay.Net.Progress
import Veejay.Net.Newest
import Veejay.Sample.Crop
import Veejay.Play.Duplication
import Veejay.Play.SamplingFlags
import Veejay.Play.ImagePart
import Veejay.Net.MessagePool
import Veejay.Keyframes.Names
import Veejay.Keyframes.SetKfs
import Veejay.Keyframes.Xml
import Veejay.Sample.Ownership
import Veejay.Sample.Copies
import Veejay.Sample.Successor
import Veejay.Sample.SequenceBank
import Veejay.Sample.ChainAccess
import Veejay.Stream.Registry
import Veejay.EditList.CacheAccounting
import Veejay.Vims.BundleRun
import Veejay.Vims.ActionFile
import Veejay.Vims.Listings
import Veejay.Vims.Macro
import Veejay.Effects.Snapshot
import Veejay.Effects.LookupRuns
import Veejay.Sample.MixSources
import Veejay.Net.FrameRequests
import Veejay.Client.Requests
import Veejay.Client.EditListReply
import Veejay.Client.SrtList
import Veejay.Task.Slices
import Veejay.Task.Queue
import Veejay.Record.Complete
import Veejay.Sample.Addressing
import Veejay.Subsample.Chroma
import Veejay.Sample.Selection
import Veejay.Stream.Calibration
import Veejay.Vims.StringArguments
import Veejay.Subsample.Copying
import Veejay.Play.Fade
import Veejay.Play.Randomizer
import Veejay.Font.RenderIndex
import Veejay.Record.Stop
import Veejay.MiniLzo.Lossless
