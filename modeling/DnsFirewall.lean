import DnsFirewall.Cache.Reclaim
import DnsFirewall.Cache.Uniqueness
import DnsFirewall.Clients.Counts
import DnsFirewall.Clients.Isolation
import DnsFirewall.Dnssec.Canonical
import DnsFirewall.Policy.Calibration
import DnsFirewall.Policy.Verdicts
import DnsFirewall.Processor.BanRuns
import DnsFirewall.Processor.DohClient
import DnsFirewall.Processor.DohQuery
import DnsFirewall.Processor.Interleaving
import DnsFirewall.Processor.LetterCase
import DnsFirewall.Processor.OneWorker
import DnsFirewall.Processor.Ownership
import DnsFirewall.Processor.Referrals
import DnsFirewall.Processor.Replay
import DnsFirewall.Processor.RpzService
import DnsFirewall.Processor.Tunnel
import DnsFirewall.Processor.WorkerPool
import DnsFirewall.Resolver.AnswerInHand
import DnsFirewall.Resolver.Delegation
import DnsFirewall.Resolver.PoolRuns
import DnsFirewall.Resolver.RdataNames
import DnsFirewall.Resolver.Repetition
import DnsFirewall.Resolver.Termination
import DnsFirewall.Wire.BuilderSafety
import DnsFirewall.Wire.FailedBuilds
