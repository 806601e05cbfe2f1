import PollServer.Read.Survival
import PollServer.Read.Bounds
import PollServer.Read.Isolation
import PollServer.Read.Agreement
import PollServer.Read.Whole
import PollServer.Read.Retry
import PollServer.Read.Reports
import PollServer.Read.Attempts
import PollServer.Read.Accounting
import PollServer.Write.Sending
import PollServer.Write.Attempts
import PollServer.Write.Responses
import PollServer.Write.Hosts
import PollServer.Write.Codec
import PollServer.Limit.Sliding
import PollServer.Limit.Timestamps
import PollServer.Serve.Interleaving
import PollServer.Serve.Idle
import PollServer.Serve.Strikes
import PollServer.Serve.Delivery
import PollServer.Serve.Placement
import PollServer.Serve.Balancer
import PollServer.Serve.Rate
import PollServer.Serve.Pipeline
import PollServer.Serve.Allowance
import PollServer.Serve.Heartbeats
import PollServer.Serve.Handshake
import PollServer.Serve.Dialogue
import PollServer.Serve.Locking
import PollServer.Serve.Silence
import PollServer.Serve.Watching
import PollServer.Model.Program
import PollServer.Serve.Grace
