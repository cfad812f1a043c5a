import Obi.Proofs.BhpackStream
import Obi.Proofs.Classification
import Obi.Proofs.ConnInfo
import Obi.Proofs.DynamicAppIPs
import Obi.Proofs.DynamicMatcher
import Obi.Proofs.ForkedChildren
import Obi.Proofs.FrameScan
import Obi.Proofs.FrameSniff
import Obi.Proofs.HpackTraceparent
import Obi.Proofs.Http1Inject
import Obi.Proofs.Http1Scan
import Obi.Proofs.Http2Prefilter
import Obi.Proofs.KafkaConsumerGroups
import Obi.Proofs.KafkaRoundTrip
import Obi.Proofs.KubeEnricher
import Obi.Proofs.KubeIndex
import Obi.Proofs.LargeBufCapture
import Obi.Proofs.Matcher
import Obi.Proofs.Memcached
import Obi.Proofs.MongoExchange
import Obi.Proofs.Mqtt
import Obi.Proofs.Nats
import Obi.Proofs.NoSecondTp
import Obi.Proofs.PeerExchange
import Obi.Proofs.PidBitmap
import Obi.Proofs.PidGenerations
import Obi.Proofs.Postgres
import Obi.Proofs.ProcessWatcher
import Obi.Proofs.Queue
import Obi.Proofs.Redis
import Obi.Proofs.ServerTraceIndex
import Obi.Proofs.MetricSeries
import Obi.Proofs.SunRpc
import Obi.Proofs.TraceUtil
import Obi.Proofs.PostgresOptions
import Obi.Proofs.MssqlText
import Obi.Proofs.ProcStat
import Obi.Proofs.InterfaceManager
