import EventMetrics.Main
import EventMetrics.Proofs.Alert.Identity
import EventMetrics.Proofs.Alert.Release
import EventMetrics.Proofs.Condition.Kleene
import EventMetrics.Proofs.Condition.Room
import EventMetrics.Proofs.Counters.Watching
import EventMetrics.Proofs.Delivery
import EventMetrics.Proofs.Engine.Alone
import EventMetrics.Proofs.Engine.Books
import EventMetrics.Proofs.Engine.Deadline
import EventMetrics.Proofs.Engine.Drops
import EventMetrics.Proofs.Engine.Indices
import EventMetrics.Proofs.Engine.Limits
import EventMetrics.Proofs.Engine.Links
import EventMetrics.Proofs.Engine.Reasons
import EventMetrics.Proofs.Engine.Shifting
import EventMetrics.Proofs.Engine.Uptime
import EventMetrics.Proofs.Engine.Windows
import EventMetrics.Proofs.Engine.Words
import EventMetrics.Proofs.Event
import EventMetrics.Proofs.Graph.Search
import EventMetrics.Proofs.Matcher
import EventMetrics.Proofs.Metric.Aggregates
import EventMetrics.Proofs.Service.Schedule
