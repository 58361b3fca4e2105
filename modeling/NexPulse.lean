import NexPulse.RateLimit.Sequential
import NexPulse.RateLimit.Serializable
import NexPulse.Query.HubDelivery
import NexPulse.Ingest.Gateway
import NexPulse.Ingest.Delivery
import NexPulse.EndToEnd.Conservation
import NexPulse.Aggregate.Restart
import NexPulse.Aggregate.Failure
import NexPulse.RateLimit.Exact
import NexPulse.Ingest.Outcomes
import NexPulse.Anomaly.Spikes
import NexPulse.Anomaly.Recording
import NexPulse.Query.HubProgress
import NexPulse.EndToEnd.Ranking
import NexPulse.EndToEnd.Isolation
import NexPulse.Query.Leaderboard
import NexPulse.Simulator.Load
import NexPulse.RateLimit.Rounding
import NexPulse.RateLimit.Expiry
import NexPulse.Dashboard.Restructure
import NexPulse.Ingest.Passage
import NexPulse.EndToEnd.Deployment
import NexPulse.RateLimit.Steady
import NexPulse.Anomaly.Response
import NexPulse.EndToEnd.Alerting
import NexPulse.EndToEnd.Reads
import NexPulse.Simulator.Payload
import NexPulse.EndToEnd.Admission
import NexPulse.Query.LeaderboardBody
import NexPulse.Ingest.Progress
import NexPulse.Aggregate.Counters
import NexPulse.Dashboard.PopulateMap
