import FastDns.Lib.Outcome
import FastDns.Lib.Walk
import FastDns.Lib.Bytes
import FastDns.Lib.Lru
import FastDns.Lib.Run
import FastDns.Dns.Types
import FastDns.Dns.Names
import FastDns.Dns.Decode
import FastDns.Dns.Rdata
import FastDns.Lib.BitRange
import FastDns.Dns.Message
import FastDns.Dns.Header
import FastDns.Dns.Layout
import FastDns.Dnssec.Validate
import FastDns.Resolver.Cache
import FastDns.Resolver.Freshness
import FastDns.Resolver.History
import FastDns.Resolver.Positive
import FastDns.Resolver.CachedKeys
import FastDns.Resolver.State
import FastDns.Resolver.Chain
import FastDns.Resolver.Recursive
import FastDns.Resolver.Steps
import FastDns.Resolver.Bailiwick
import FastDns.Resolver.Authenticated
import FastDns.Resolver.Shape
import FastDns.Resolver.Downgrade
import FastDns.Resolver.Rounds
import FastDns.Resolver.Minimisation
import FastDns.Resolver.Termination
import FastDns.Resolver.ServeStale
import FastDns.Resolver.ChainWalk
import FastDns.Dnssec.ChainOfTrust
import FastDns.Dns.RdataLayout
import FastDns.Dns.RoundTrip
import FastDns.Dns.Expansion
import FastDns.Dnssec.Denial
import FastDns.Dnssec.Response
import FastDns.Dns.Confined
import FastDns.Dnssec.Negative
import FastDns.Lib.Window
import FastDns.Resolver.Integrity
import FastDns.Resolver.NameCase
import FastDns.Resolver.Reserialise
import FastDns.Server.Udp
import FastDns.Server.Tcp
import FastDns.Server.Agreement
import FastDns.Server.Answered
import FastDns.Filter.Blocklist
import FastDns.Filter.Refresh
import FastDns.Resolver.Exchange
import FastDns.Dnssec.Nxdomain
import FastDns.Lib.Text
import FastDns.Lib.Words
import FastDns.Dns.TextForm
import FastDns.Dnssec.CanonicalName
import FastDns.Dnssec.CanonicalRdata
import FastDns.Dnssec.DelegationSigner
import FastDns.Dnssec.SignedData
import FastDns.Dnssec.SignedRdata
import FastDns.Dnssec.Wildcard
import FastDns.Dnssec.Ring
import FastDns.Dnssec.SignatureTime
import FastDns.Dnssec.TypeBitmap
import FastDns.Resolver.LongestMatch
import FastDns.Resolver.StaleStore
import FastDns.Resolver.AliasTarget
import FastDns.Resolver.ZoneServers
import FastDns.Server.ClientOptions
import FastDns.Resolver.RttCache
import FastDns.Filter.Precedence
import FastDns.Lib.IdlePool
import FastDns.Resolver.TcpPool
import FastDns.Filter.CustomEntry
import FastDns.Filter.Effective
import FastDns.Filter.LocalNames
import FastDns.Dns.NameEquality
import FastDns.Dnssec.Base32hex
import FastDns.Dnssec.KeyTag
import FastDns.Dnssec.Parents
import FastDns.Lib.Alike
import FastDns.Resolver.Provenance
import FastDns.Resolver.Isolation
import FastDns.Resolver.Influence
import FastDns.Resolver.Bounds
import FastDns.Server.EndToEnd
import FastDns.Lib.Admission
import FastDns.Server.Admission
import FastDns.Server.Listeners
import FastDns.Lib.Framing
import FastDns.Resolver.TcpReuse
import FastDns.Lib.Der
import FastDns.Dnssec.RsaKey
import FastDns.Lib.Trace
import FastDns.Filter.Lifetime
import FastDns.Resolver.Completion
import FastDns.Server.Prefetch
import FastDns.Dns.MixedCase
import FastDns.Resolver.HealthChecks
import FastDns.Resolver.Doh
import FastDns.Lib.NameTree
import FastDns.Dnssec.Nsec3
