import TestLinux.Library.Runs
import TestLinux.Library.Threads
import TestLinux.Library.Wire
import TestLinux.Library.Streams
import TestLinux.Library.LinkedList
import TestLinux.Library.CString
import TestLinux.Library.ReadyQueue
import TestLinux.Library.Holdings
import TestLinux.Library.Chains
import TestLinux.Library.Segments
import TestLinux.Library.TextInput
import TestLinux.Library.Ranges
import TestLinux.Library.Serial
import TestLinux.ThreadPool.Model
import TestLinux.ThreadPool.Conservation
import TestLinux.ThreadPool.Shutdown
import TestLinux.ConnectionPool.Model
import TestLinux.ConnectionPool.Ownership
import TestLinux.ConnectionPool.Target
import TestLinux.ConnectionPool.Waiters
import TestLinux.ConnectionPool.Init
import TestLinux.SqlTest.Blob
import TestLinux.Dns.Request
import TestLinux.Dns.Commit
import TestLinux.Dns.Hostname
import TestLinux.Dns.Message
import TestLinux.Dns.Response
import TestLinux.AsyncDns.Question
import TestLinux.AsyncDns.Response
import TestLinux.AsyncDns.Pointers
import TestLinux.AsyncDns.Names
import TestLinux.AsyncDns.NameAccesses
import TestLinux.AsyncDns.Accesses
import TestLinux.Reactor.Model
import TestLinux.Reactor.Stream
import TestLinux.Reactor.Isolation
import TestLinux.Reactor.Slots
import TestLinux.Reactor.Bounds
import TestLinux.Reactor.Files
import TestLinux.Reactor.OpenFailure
import TestLinux.ContactBook.Model
import TestLinux.ContactBook.Refinement
import TestLinux.ContactBook.Files
import TestLinux.ContactBook.Strings
import TestLinux.ContactBook.Duplicates
import TestLinux.ContactBook.Menu
import TestLinux.TcpServer.Sockets
import TestLinux.TcpServer.Pollio
import TestLinux.TcpServer.Registry
import TestLinux.TcpServer.Readiness
import TestLinux.TcpServer.Selectio
import TestLinux.TcpServer.Printing
import TestLinux.EpollServer.Model
import TestLinux.EpollServer.Delivery
import TestLinux.EpollServer.Progress
import TestLinux.Kcp.Session
import TestLinux.Kcp.Endpoint
import TestLinux.Kcp.Server
import TestLinux.Kcp.Client
import TestLinux.Kcp.Membership
import TestLinux.Kcp.Rejection
import TestLinux.Kcp.Limits
import TestLinux.Kcp.Timeline
import TestLinux.Kcp.Stamps
import TestLinux.Kcp.Timeouts
import TestLinux.Kcp.Queues
import TestLinux.Kcp.Handover
import TestLinux.Kcp.Classification
import TestLinux.Kcp.Echo
import TestLinux.UdpRtt.Model
import TestLinux.UdpRtt.Pairing
import TestLinux.WorkQueue.Model
import TestLinux.WorkQueue.Conservation
import TestLinux.WorkQueue.Shutdown
import TestLinux.MulportServer.Model
import TestLinux.MulportServer.Accounting
import TestLinux.MulportServer.Backlogs
import TestLinux.MulportServer.Readiness
import TestLinux.MulportServer.Receive
import TestLinux.MulportServer.Echo
import TestLinux.CountWord.Model
import TestLinux.Ikcp.Segment
import TestLinux.Ikcp.Model
import TestLinux.Ikcp.Steps
import TestLinux.Ikcp.Node
import TestLinux.Ikcp.Receive
import TestLinux.Ikcp.Transmit
import TestLinux.Ikcp.Datagrams
import TestLinux.Ikcp.Fragments
import TestLinux.Ikcp.Delivery
import TestLinux.Ikcp.Network
import TestLinux.Ikcp.Messages
import TestLinux.Ikcp.Streaming
import TestLinux.Ikcp.Exchange
import TestLinux.Ikcp.Windows
import TestLinux.Ikcp.Refinement
import TestLinux.Ikcp.Progress
import TestLinux.Ikcp.Schedule
import TestLinux.Ikcp.Simulation
